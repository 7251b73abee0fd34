import HyperTransfer.Disk.Sight
import HyperTransfer.Server.Isolation
import HyperTransfer.Session.Sight

/-! What a connection gets to know of the server.

It is less than what its events come with. The numbers of its objects tell them from others and
nothing else; of the file system it learns what it asks; of the files, what is at its paths and
under its descriptors (`ConnectionEvent.narrow`). A connection does the same with that alone
(`connection_narrow`), so two runs that agree on it look the same from the connection
(`server_seen_same`). -/
namespace HyperTransfer
open CString Dispatch

/-! ### A client under another number -/

/-- The same client, as another object. -/
def Client.numbered (n : Nat) (c : Client) : Client := {c with address := n}

section
variable {cfg : Config} {c : Client} {n : Nat}

theorem clearDatafd_numbered (c : Client) : (c.numbered n).clearDatafd = c.clearDatafd.numbered n := by
  obtain ⟨t, address, writeQ, writePending, listenFd, acceptPending, dataFd, fileBuffer⟩ := c
  cases listenFd <;> cases dataFd <;> rfl

theorem getFreePort_numbered (ports : List (Option (Fd × Int))) (c : Client) :
    (c.numbered n).getFreePort cfg ports = ((c.getFreePort cfg ports).1, (c.getFreePort cfg ports).2.numbered n) := by
  induction ports generalizing c with
  | nil => rfl
  | cons p rest ih =>
    cases p with
    | none => rfl
    | some p =>
      obtain ⟨fd, port⟩ := p
      unfold Client.getFreePort
      dsimp only
      split
      · exact ih {c with listenFd := some fd}
      · rfl

theorem onNotify_numbered (k : EventNotify) (ports : List (Option (Fd × Int))) :
    (c.numbered n).onNotify cfg ports k = ((c.onNotify cfg ports k).1.numbered n, (c.onNotify cfg ports k).2) := by
  unfold Client.onNotify
  cases k.action with
  | pasv =>
    dsimp only
    rw [getFreePort_numbered]
    rcases c.getFreePort cfg ports with ⟨_ | port, d⟩ <;> rfl
  | transOk => exact congrArg (·, []) (clearDatafd_numbered (c.queueReply k))
  | _ => rfl

theorem onWrite_numbered (r : WriteResult) :
    (c.numbered n).onWrite r = ((c.onWrite r).1.map (Client.numbered n), (c.onWrite r).2) := by
  have hqueue : (c.numbered n).writeQ = c.writeQ := rfl
  unfold Client.onWrite
  dsimp only
  rw [hqueue]
  cases c.writeQ with
  | nil => rfl
  | cons q rest =>
    cases r with
    | wrote count =>
      dsimp only
      split <;> rfl
    | _ => rfl

theorem dataRead_numbered (r : DataReadResult) :
    Mirrors (fun _ => True) (fun p : Client × List NetEffect => (p.1.numbered n, p.2)) (c.dataRead r)
      ((c.numbered n).dataRead r) := by
  cases r with
  | eof again =>
    refine .ite (fun _ => .ok fun _ => rfl) fun _ => .bind fun t => .ok fun _ => ?_
    exact congrArg (·, [NetEffect.data (.postToDisk t)]) (clearDatafd_numbered c.clearData)
  | failed again =>
    refine .ite (fun _ => .ok fun _ => rfl) fun _ => .ok fun _ => ?_
    exact congrArg (·, []) (clearDatafd_numbered c)
  | read bytes pos le =>
    refine .ite (fun _ => .error _ _) fun _ => .ite (fun _ => .ok fun _ => rfl) fun _ => .bind fun t => .ok fun _ => rfl

/-- The same happens to a client under another number. -/
theorem handle_numbered (i : ClientEvent) :
    Mirrors (fun _ => True) (fun p : Option Client × List NetEffect => (p.1.map (Client.numbered n), p.2))
      (c.handle cfg i) ((c.numbered n).handle cfg i) := by
  cases i with
  | notify k ports =>
    rw [handle_notify, handle_notify, onNotify_numbered]
    exact .ok fun _ => rfl
  | callback k =>
    refine .ite (fun _ => .ok fun _ => rfl) fun _ => ?_
    cases k with
    | write r =>
      dsimp only
      rw [onWrite_numbered]
      exact .ok fun _ => rfl
    | dataAccept r => cases r <;> exact .ok fun _ => rfl
    | dataRead r => exact .bind_up (dataRead_numbered r) fun _ => .ok fun _ => rfl
    | dataWrite r => exact .ok fun _ => rfl

end

/-! ### What a connection learns -/

namespace Connection

/-- Without the numbers of the objects. -/
def unnumbered (c : Connection) : Connection :=
  {c with
    client := c.client.map (Client.numbered 0)
    session := c.session.map (Session.numbered 0)
    transfer := c.transfer.map (DiskInfo.numbered 0)}

/-- The paths its next disk task can be about. -/
def paths (c : Connection) : List (List Char) :=
  c.transfer.toList.map DiskInfo.curPath ++ c.diskQueue.head?.toList.map fun t => strncpy pathSize t.curPath

/-- The descriptors its next disk task can be about. -/
def descriptors (c : Connection) (calls : DiskCalls) : List Nat :=
  (c.transfer.bind DiskInfo.fileHandle).toList ++ calls.opens.toList

/-- The names of the directory entries its transfer has yet to list. -/
def names (c : Connection) : List (List Char) := c.transfer.toList.flatMap DiskInfo.curDir

/-- Its tasks are its own. -/
structure Filed (fd : Fd) (c : Connection) : Prop where
  sessions : ∀ t ∈ c.sessionQueue, t.fd = fd
  disks : ∀ t ∈ c.diskQueue, t.ctrlFd = fd

end Connection

/-- What a step of the session manager asks the file system. -/
def asked : Except Halt (Connection × List ThreadsEffect) → List Effect
  | .ok (_, es) => es.filterMap ThreadsEffect.ofSession?
  | .error _ => []

/-- As much of an event as its connection gets to know. -/
def ConnectionEvent.narrow (env : Env) (fd : Fd) (c : Connection) : ConnectionEvent → ConnectionEvent
  | .accept _ ip => .accept 0 ip
  | .session number fs garbage => .session 0 (fs.shown (asked (c.sessionThread env fd number fs garbage))) garbage
  | .disk _ files calls =>
    .disk 0 (files.around c.paths (c.descriptors calls)) {calls with dirs := calls.dirs.shown c.paths c.names}
  | i => i

section
variable {env : Env} {fd : Fd} {c d : Connection} {es : List ThreadsEffect}

/-- A callback of the client. -/
theorem net_narrow {run run' : Client → Except Halt (Option Client × List NetEffect)}
    (hrun : ∀ x, Mirrors (fun _ => True) (fun p : Option Client × List NetEffect => (p.1.map (Client.numbered 0), p.2))
      (run x) (run' (x.numbered 0))) (h : c.net fd run = .ok (d, es)) :
    c.unnumbered.net fd run' = .ok (d.unnumbered, es) := by
  unfold Connection.net at h ⊢
  rw [show c.unnumbered.client = c.client.map (Client.numbered 0) from rfl]
  cases hc : c.client with
  | none =>
    rw [hc] at h
    cases h
    rfl
  | some x =>
    rw [hc] at h
    obtain ⟨p, hp, h⟩ := bind_eq_ok.mp h
    cases h
    exact bind_eq_ok.mpr ⟨_, hrun x p hp trivial, rfl⟩

theorem onNotify_narrow {ports : List (Option (Fd × Int))} (h : c.onNotify env.config fd ports = .ok (d, es)) :
    c.unnumbered.onNotify env.config fd ports = .ok (d.unnumbered, es) := by
  unfold Connection.onNotify at h ⊢
  rw [show c.unnumbered.pipe = c.pipe from rfl, show c.unnumbered.client = c.client.map (Client.numbered 0) from rfl]
  cases hpipe : c.pipe with
  | nil =>
    rw [hpipe] at h
    cases h
    rfl
  | cons n rest =>
    rw [hpipe] at h
    cases hc : c.client with
    | none =>
      rw [hc] at h
      exact nomatch h
    | some x =>
      rw [hc] at h
      exact net_narrow (fun y => handle_numbered _) h

/-- A task of the session, with the answers to what it asks. -/
theorem sessionThread_narrow {number : Nat} {fs : FileSystem} {garbage : List Char} (hc : c.Filed fd)
    (h : c.sessionThread env fd number fs garbage = .ok (d, es)) :
    c.unnumbered.sessionThread env fd 0 (fs.shown (es.filterMap ThreadsEffect.ofSession?)) garbage =
      .ok (d.unnumbered, es) := by
  unfold Connection.sessionThread at h ⊢
  rw [show c.unnumbered.sessionQueue = c.sessionQueue from rfl]
  cases hqueue : c.sessionQueue with
  | nil =>
    rw [hqueue] at h
    cases h
    rfl
  | cons t rest =>
    rw [hqueue] at h
    obtain ⟨⟨m, asks⟩, hroll, h⟩ := bind_eq_ok.mp h
    cases h
    have hfd : t.fd = fd := hc.sessions t (hqueue ▸ List.mem_cons_self)
    have hasks : (asks.map ThreadsEffect.session).filterMap ThreadsEffect.ofSession? = asks := by
      rw [List.filterMap_map]
      exact List.filterMap_some
    have hfound (o : Option Session) : Registry.single fd o t.fd = o := by rw [hfd, Registry.single_same]
    have hsession : ({sessions := Registry.single fd c.unnumbered.session, allocated := 0} : Manager).sessions t.fd =
        (Registry.single fd c.session t.fd).map (Session.numbered 0) := by rw [hfound]; exact hfound _
    obtain ⟨m', hroll', hm'⟩ := roll_same (halting_eq_ok hroll) (shown_alike asks fs) hsession rfl
    rw [hfd] at hm'
    rw [hasks]
    refine bind_eq_ok.mpr ⟨(m', asks), ?_, ?_⟩
    · show halting (rollStateMachine _ _ _) = _
      rw [hroll']
      rfl
    · show Except.ok (({c.unnumbered with session := m'.sessions fd, sessionQueue := rest} : Connection).post fd _) = _
      rw [hm']
      rfl

/-- What the transfer's next task sees of the disk. -/
theorem unnumbered_alike {number : Nat} {files : Files (List Char) Char} {calls : DiskCalls} {t : DiskTask}
    {rest : List DiskTask} (hfd : t.ctrlFd = fd) (hqueue : c.diskQueue = t :: rest) :
    DiskManager.Alike 0 c.paths (c.descriptors calls) t
      {infos := Registry.single fd c.transfer, allocated := number, files := files}
      {infos := Registry.single fd c.unnumbered.transfer, allocated := 0
       files := files.around c.paths (c.descriptors calls)} := by
  have hfound (o : Option DiskInfo) : Registry.single fd o t.ctrlFd = o := by rw [hfd, Registry.single_same]
  refine ⟨?_, rfl, Files.around_alike _ _ _, ?_, fun d hd => ?_, fun d hd k hk => ?_⟩
  · exact (hfound _).trans (congrArg (Option.map (DiskInfo.numbered 0)) (hfound _).symm)
  · unfold Connection.paths
    rw [hqueue]
    exact List.mem_append_right _ (List.mem_singleton_self _)
  · have hd : c.transfer = some d := (hfound _).symm.trans hd
    unfold Connection.paths
    rw [hd]
    exact List.mem_append_left _ (List.mem_singleton_self _)
  · have hd : c.transfer = some d := (hfound _).symm.trans hd
    unfold Connection.descriptors
    rw [hd, Option.bind_some, hk]
    exact List.mem_append_left _ (List.mem_singleton_self _)

/-- A task of the transfer, with what is at its paths and under its descriptors. -/
theorem diskThread_narrow {number : Nat} {files : Files (List Char) Char} {calls : DiskCalls} (hc : c.Filed fd)
    (h : c.diskThread fd number files calls = .ok (d, es)) :
    c.unnumbered.diskThread fd 0 (files.around c.paths (c.descriptors calls))
      {calls with dirs := calls.dirs.shown c.paths c.names} = .ok (d.unnumbered, es) := by
  unfold Connection.diskThread at h ⊢
  rw [show c.unnumbered.diskQueue = c.diskQueue from rfl]
  cases hqueue : c.diskQueue with
  | nil =>
    rw [hqueue] at h
    cases h
    rfl
  | cons t rest =>
    rw [hqueue] at h
    obtain ⟨g, hroll, h⟩ := bind_eq_ok.mp h
    cases h
    have hfd : t.ctrlFd = fd := hc.disks t (hqueue ▸ List.mem_cons_self)
    have hnames (o : DiskInfo) (ho : Registry.single fd c.transfer t.ctrlFd = some o) :
        ∀ name ∈ o.curDir, name ∈ c.names ++ c.paths.flatMap calls.dirs.getDirDetail := by
      rw [hfd, Registry.single_same] at ho
      intro name hname
      exact List.mem_append_left _ (List.mem_flatMap.mpr ⟨o, Option.mem_toList.mpr ho, hname⟩)
    obtain ⟨g', hroll', hg'⟩ := DiskFsm.roll_alike (unnumbered_alike hfd hqueue)
      (fun k hk => List.mem_append_right _ (Option.mem_toList.mpr hk)) (shown_dirs_alike c.paths c.names calls.dirs)
      hnames g (halting_eq_ok hroll)
    have hinfos := hg'.infos
    rw [hfd] at hinfos
    refine bind_eq_ok.mpr ⟨g', ?_, ?_⟩
    · show halting (DiskFsm.rollStateMachine _ _ _) = _
      rw [hroll']
      rfl
    · rw [hinfos, hg'.effects]
      rfl

/-- A connection does the same with as much of an event as it gets to know. -/
theorem connection_narrow (e : Edge ConnectionEvent Connection ThreadsEffect) (he : (connectionOn env fd).Takes e)
    (hc : e.before.Filed fd) :
    (connectionOn env fd).Takes ⟨e.before.unnumbered, e.input.narrow env fd e.before, e.after.unnumbered, e.effects⟩ := by
  obtain ⟨c, i, d, es⟩ := e
  have h : (connectionOn env fd).step i c = .ok (d, es) := he
  show (connectionOn env fd).step (i.narrow env fd c) c.unnumbered = .ok (d.unnumbered, es)
  cases i with
  | accept number ip =>
    cases h
    cases hclient : c.client <;> simp [connectionOn, ConnectionEvent.narrow, Connection.unnumbered, hclient] <;> rfl
  | read r => exact net_narrow (fun x => by cases r <;> exact .ok fun _ => rfl) h
  | callback k => exact net_narrow (fun _ => handle_numbered _) h
  | timeout => exact net_narrow (fun _ => .ok fun _ => rfl) h
  | notify ports => exact onNotify_narrow h
  | session number fs garbage =>
    have hsession : c.sessionThread env fd number fs garbage = .ok (d, es) := h
    show c.unnumbered.sessionThread env fd 0 (fs.shown (asked (c.sessionThread env fd number fs garbage))) garbage = _
    rw [hsession]
    exact sessionThread_narrow hc hsession
  | disk number files calls => exact diskThread_narrow hc h

/-- The server as a connection gets to know it. -/
def sightOf (env : Env) (nums : ThreadNums) (fd : Fd) :
    View ServerEvent Server ServerEffect ConnectionEvent Connection ThreadsEffect :=
  (viewOf nums fd).narrow Connection.unnumbered fun c i => i.narrow env fd c

theorem sightOf_shows (env : Env) (nums : ThreadNums) (fd : Fd) :
    (sightOf env nums fd).Shows (server env nums) (connectionOn env fd) fun s => s.Routed nums := by
  refine View.narrow_shows (Q := Connection.Filed fd) (viewOf_shows env nums fd)
    (fun s _ => ⟨fun t ht => ?_, fun t ht => ?_⟩) connection_narrow
  · exact of_decide_eq_true (List.mem_filter.mp ht).2
  · exact of_decide_eq_true (List.mem_filter.mp ht).2

/-- **Neither the other connections nor the threads are seen**: two runs, of servers with whatever numbers of
threads and whatever other files, in which the same comes to a descriptor look the same from it, step for step.
The same comes to it when the clients and the operating system do the same towards it; how many objects the
server has made before is none of it. -/
theorem server_seen_same (env : Env) (nums nums' : ThreadNums) (files files' : Files (List Char) Char)
    (inputs inputs' : List ServerEvent) (fd : Fd)
    (hsame : (sightOf env nums fd).inputs ((server env nums).trace (.start nums files) inputs) =
      (sightOf env nums' fd).inputs ((server env nums').trace (.start nums' files') inputs')) :
    (sightOf env nums fd).seen ((server env nums).trace (.start nums files) inputs) =
        (sightOf env nums' fd).seen ((server env nums').trace (.start nums' files') inputs') ∧
      (((server env nums).final (.start nums files) inputs).ofFd nums fd).unnumbered =
        (((server env nums').final (.start nums' files') inputs').ofFd nums' fd).unnumbered :=
  View.seen_same (sightOf_shows env nums fd) (sightOf_shows env nums' fd) (start_routed nums files)
    (start_routed nums' files') rfl hsame

/-- Two clients are greeted, and the first asks for the system. -/
def twoClients : List ServerEvent :=
  [.accept 7 "10.0.0.2".toList, .accept 8 "10.0.0.3".toList, .session 1 (.constant none) [],
    .session 0 (.constant none) [], .read 7 (.text "SYST\r\n".toList), .notify [], .session 1 (.constant none) [],
    .callback 7 (.write (.wrote 100)), .notify [], .callback 8 (.write (.wrote 100))]

/-- One client is greeted. -/
def oneClient : List ServerEvent :=
  [.accept 8 "10.0.0.3".toList, .session 0 (.constant none) [], .notify [], .callback 8 (.write (.wrote 100))]

/-- The second of two clients sees what an only client sees, under other numbers: it is greeted. -/
theorem two_seen_as_one :
    (sightOf .shipped twoThreads 8).seen ((server .shipped twoThreads).trace (.start twoThreads .empty) twoClients) =
        (sightOf .shipped oneThread 8).seen ((server .shipped oneThread).trace (.start oneThread .empty) oneClient) ∧
      ThreadsEffect.net (.wroteCtrl "220 Hyper Transfer is ready.\r\n".toList) ∈
        ((sightOf .shipped twoThreads 8).seen
          ((server .shipped twoThreads).trace (.start twoThreads .empty) twoClients)).flatMap Edge.effects := by
  have hsame := (server_seen_same .shipped twoThreads oneThread .empty .empty twoClients oneClient 8 rfl).1
  refine ⟨hsame, ?_⟩
  rw [hsame]
  decide

end

end HyperTransfer
