import HyperTransfer.Server.Connection
import HyperTransfer.Server.Overtaking
import HyperTransfer.Session.Access

/-! Whom the threads post for.

A callback of a client, a task of a session and a task of a transfer post for the descriptor of
the client, of the session and of the task, and for no other: what is handed on names the
connection it came from (`handle_names`, `rollSession_names`, `DiskFsm.roll_names`). The
objects keep their descriptors. -/
namespace HyperTransfer
open CString

/-- What is handed on names the connection. -/
structure ThreadsEffect.Names (fd : Fd) (x : ThreadsEffect) : Prop where
  session : ∀ t ∈ x.session?, t.fd = fd
  disk : ∀ t ∈ x.disk?, t.ctrlFd = fd
  notify : ∀ n ∈ x.notify? fd, n.fd = fd

/-! ### The event loop -/

section
variable {cfg : Config} {c : Client} {fd : Fd}

/-- What a callback leaves is of the connection, and so is what it hands on. -/
structure Client.Names (fd : Fd) (r : Option Client × List NetEffect) : Prop where
  left : ∀ d ∈ r.1, d.ctrlSocket = fd
  effects : ∀ x ∈ r.2, (ThreadsEffect.net x).Names fd

theorem names_task {t : SessionTask} (h : t.fd = fd) : (ThreadsEffect.net (.postToSession t)).Names fd := by
  refine ⟨fun u hu => ?_, fun _ h => ?_, fun _ h => ?_⟩
  · cases hu
    exact h
  · cases h
  · cases h

theorem names_diskTask {t : DiskTask} (h : t.ctrlFd = fd) : (ThreadsEffect.net (.data (.postToDisk t))).Names fd := by
  refine ⟨fun _ h => ?_, fun u hu => ?_, fun _ h => ?_⟩
  · cases h
  · cases hu
    exact h
  · cases h

/-- Bytes that go out are nobody's task. -/
theorem names_wroteCtrl (bytes : List Char) : (ThreadsEffect.net (.wroteCtrl bytes)).Names fd := by
  refine ⟨fun _ h => ?_, fun _ h => ?_, fun _ h => ?_⟩ <;> cases h

theorem names_wrote (bytes : List Char) : (ThreadsEffect.net (.data (.wrote bytes))).Names fd := by
  refine ⟨fun _ h => ?_, fun _ h => ?_, fun _ h => ?_⟩ <;> cases h

theorem names_left {d : Client} {es : List NetEffect} (hd : d.ctrlSocket = fd)
    (hes : ∀ x ∈ es, (ThreadsEffect.net x).Names fd) : Client.Names fd (some d, es) := ⟨holds_left hd, hes⟩

theorem names_gone {es : List NetEffect} (hes : ∀ x ∈ es, (ThreadsEffect.net x).Names fd) :
    Client.Names fd (none, es) := ⟨holds_gone _, hes⟩

theorem names_nothing {d : Client} (hd : d.ctrlSocket = fd) : Client.Names fd (some d, []) :=
  names_left hd (List.forall_mem_nil _)

theorem clearDatafd_ctrlSocket (c : Client) : c.clearDatafd.ctrlSocket = c.ctrlSocket := by
  obtain ⟨_, _, h⟩ := clearDatafd_eq c
  rw [h]

theorem onNotify_names (hc : c.ctrlSocket = fd) {n : EventNotify} (hn : n.fd = fd) (ports : List (Option (Fd × Int))) :
    Client.Names fd (some (c.onNotify cfg ports n).1, (c.onNotify cfg ports n).2) := by
  have h := onNotify_cases cfg ports n c
  revert h
  generalize c.onNotify cfg ports n = r
  intro h
  cases h with
  | reply _ => exact names_nothing hc
  | port _ fd' accept es hes =>
    refine names_left hc fun x hx => ?_
    obtain ⟨port, rfl⟩ := hes x hx
    exact names_task hn
  | transOk _ => exact names_nothing ((clearDatafd_ctrlSocket _).trans hc)
  | data _ => exact names_nothing hc
  | unknown _ _ => exact names_nothing hc

theorem dataRead_names (hc : c.ctrlSocket = fd) {r : DataReadResult} {p : Client × List NetEffect}
    (h : c.dataRead r = .ok p) : Client.Names fd (some p.1, p.2) := by
  cases dataRead_cases h with
  | again _ _ => exact names_nothing hc
  | ended =>
    exact names_left ((clearDatafd_ctrlSocket _).trans hc) (List.forall_mem_singleton.mpr (names_diskTask hc))
  | failed => exact names_nothing ((clearDatafd_ctrlSocket _).trans hc)
  | kept _ _ _ _ => exact names_nothing hc
  | full _ _ _ _ => exact names_left hc (List.forall_mem_singleton.mpr (names_diskTask hc))

theorem onWrite_names (hc : c.ctrlSocket = fd) (r : WriteResult) : Client.Names fd (c.onWrite r) := by
  unfold Client.onWrite
  dsimp only
  split
  · exact names_nothing hc
  · split
    · split
      · exact names_left hc (List.forall_mem_singleton.mpr (names_wroteCtrl _))
      · exact names_left hc (List.forall_mem_singleton.mpr (names_wroteCtrl _))
    · exact names_gone (List.forall_mem_singleton.mpr (names_task hc))

theorem dataWrite_names (hc : c.ctrlSocket = fd) (r : WriteResult) :
    Client.Names fd (some (c.dataWrite r).1, (c.dataWrite r).2) := by
  unfold Client.dataWrite TcpClient.dataWrite
  dsimp only
  split
  · exact names_nothing hc
  · split
    · exact names_nothing hc
    · exact names_nothing hc
    · split
      · exact names_left hc (List.forall_mem_singleton.mpr (names_wrote _))
      · refine names_left hc fun x hx => ?_
        simp only [List.map_cons, List.map_nil, List.mem_cons, List.not_mem_nil, or_false] at hx
        rcases hx with rfl | rfl
        · exact names_wrote _
        · exact names_diskTask hc

theorem onRead_names (hc : c.ctrlSocket = fd) (r : CtrlReadResult) : Client.Names fd (c.onRead r) := by
  cases r with
  | text bytes => exact names_left hc (List.forall_mem_singleton.mpr (names_task hc))
  | closed => exact names_gone (List.forall_mem_singleton.mpr (names_task hc))
  | failed => exact names_gone (List.forall_mem_singleton.mpr (names_task hc))

theorem onTimeout_names (hc : c.ctrlSocket = fd) : Client.Names fd c.onTimeout :=
  names_gone (List.forall_mem_singleton.mpr (names_task hc))

theorem callback_names (hc : c.ctrlSocket = fd) {k : Callback} {r : Option Client × List NetEffect}
    (h : c.handle cfg (.callback k) = .ok r) : Client.Names fd r := by
  cases hfires : k.fires c with
  | false =>
    rw [handle_idle hfires] at h
    cases h
    exact names_nothing hc
  | true =>
    cases k with
    | write w =>
      rw [handle_write hfires] at h
      cases h
      exact onWrite_names hc w
    | dataAccept o =>
      rw [handle_dataAccept hfires] at h
      cases h
      cases o with
      | none => exact names_nothing hc
      | some fd' => exact names_left hc (List.forall_mem_singleton.mpr (names_task hc))
    | dataRead d =>
      rw [handle_dataRead hfires] at h
      obtain ⟨p, hp, h⟩ := bind_eq_ok.mp h
      cases h
      exact dataRead_names hc hp
    | dataWrite w =>
      rw [handle_dataWrite hfires] at h
      cases h
      exact dataWrite_names hc w

end

/-! ### The session threads -/

section
variable {env : Env} {fs : FileSystem} {t : SessionTask} {s : Session} {h : Handled}

/-- The transfer a data connection starts is the session's own. -/
theorem accepted_names (hrolls : s.Rolls env fs t h) (ht : t.action = .dataAccept) {d : DiskTask}
    (hd : .postToDisk d ∈ h.effects) : d.ctrlFd = s.fd := by
  cases hrolls with
  | listLoad ht hs text path =>
    simp only [Session.post, List.mem_cons, reduceCtorEq, List.not_mem_nil, Effect.postToDisk.injEq, false_or, or_false] at hd
    rw [hd]
    rfl
  | storLoad ht hs hname =>
    simp only [List.mem_cons, List.not_mem_nil, Effect.postToDisk.injEq, or_false] at hd
    rw [hd]
    rfl
  | retrLoad ht hs hname text =>
    simp only [Session.post, List.mem_cons, reduceCtorEq, List.not_mem_nil, Effect.postToDisk.injEq, false_or, or_false] at hd
    rw [hd]
    rfl
  | idle hread hs ret => cases hd
  | unheard hr => rw [hr] at ht; cases ht
  | heard hr => rw [hr] at ht; cases ht
  | announced hr => rw [hr] at ht; cases ht
  | busy hr => rw [hr] at ht; cases ht
  | storStart hr => rw [hr] at ht; cases ht
  | transOk hr => rw [hr] at ht; cases ht

/-- A session posts disk tasks for its own descriptor. -/
theorem rollSession_names (hroll : rollSession env fs t s = .ok h) :
    ∀ x ∈ h.effects, (ThreadsEffect.session x).Names s.fd := by
  intro x hx
  refine ⟨fun _ h => ?_, fun d hd => ?_, fun n hn => ?_⟩
  · cases h
  · have hedge : (session env).Takes ⟨s, ⟨fs, t⟩, h.session, h.effects⟩ := bind_eq_ok.mpr ⟨h, hroll, rfl⟩
    have hposts : Effect.postToDisk d ∈ h.effects := by
      cases x with
      | postToDisk t => cases hd; exact hx
      | _ => cases hd
    have haction := ((takes_moves hedge).2 d hposts).1
    exact accepted_names (rollSession_comes env fs t s h hroll) haction hposts
  · cases x with
    | post buf len => cases hn; rfl
    | postTransferOk buf len => cases hn; rfl
    | pasvPost => cases hn; rfl
    | _ => cases hn

theorem names_post (buf : List Char) (len : Nat) (fd : Fd) : (ThreadsEffect.session (.post buf len)).Names fd := by
  refine ⟨fun _ h => ?_, fun _ h => ?_, fun n hn => ?_⟩
  · cases h
  · cases h
  · cases hn
    rfl

/-- A session that is made greets, and posts nothing else. -/
theorem accept_greets {cfg : Config} {address : Nat} {garbage : List Char} {h : Handled}
    (hr : acceptSession cfg address garbage t = .ok h) : ∃ buf len, h.effects = [.post buf len] := by
  obtain ⟨new, _, hr⟩ := bind_eq_ok.mp hr
  obtain ⟨greeted, hgreeted, hr⟩ := bind_eq_ok.mp hr
  obtain ⟨located, _, hgreeted⟩ := bind_eq_ok.mp hgreeted
  cases hgreeted
  cases hr
  exact ⟨_, _, rfl⟩

/-- The session manager posts for the descriptor of its task, and files sessions under their own. -/
theorem roll_names {i : ManagerInput} {m m' : Manager} {es : List Effect}
    (hm : ∀ s, m.sessions i.task.fd = some s → s.fd = i.task.fd) (h : rollStateMachine env i m = .ok (m', es)) :
    (∀ s, m'.sessions i.task.fd = some s → s.fd = i.task.fd) ∧
      ∀ x ∈ es, (ThreadsEffect.session x).Names i.task.fd := by
  unfold rollStateMachine at h
  split at h
  · obtain ⟨r, hr, he⟩ := bind_eq_ok.mp h
    cases he
    have hfd : r.session.fd = i.task.fd := congrArg Prod.snd (acceptSession_writes _ _ _ _ r hr).1
    refine ⟨fun s hs => ?_, ?_⟩
    · rcases Registry.insert_cases hs with hs | ⟨_, rfl⟩
      · exact hm s hs
      · exact hfd
    · obtain ⟨buf, len, heffects⟩ := accept_greets hr
      rw [heffects]
      exact List.forall_mem_singleton.mpr (names_post _ _ _)
  · split at h
    · rename_i s hs
      obtain ⟨r, hr, he⟩ := bind_eq_ok.mp h
      cases he
      have hfd : s.fd = i.task.fd := hm s hs
      refine ⟨fun s' hs' => ?_, hfd ▸ rollSession_names hr⟩
      rw [← Option.some.inj ((Registry.modify_same m.sessions i.task.fd r.session).symm.trans hs')]
      exact (rollSession_fd hr).trans hfd
    · cases h
      exact ⟨hm, List.forall_mem_nil _⟩

end

/-! ### The disk threads -/

section
variable {c : DiskCalls} {t : DiskTask} {m : DiskManager} {d : DiskInfo} {fd : Fd} {w v : DiskWork}

/-- A transfer of the connection, and what it has handed on so far. -/
structure DiskWork.Names (fd : Fd) (w : DiskWork) : Prop where
  info : w.info.fd = fd
  effects : ∀ x ∈ w.effects, (ThreadsEffect.disk x).Names fd

/-- An effect on the files alone. -/
def DiskEffect.posts : DiskEffect → Bool
  | .dataPost _ _ _ => true
  | .postToSession _ => true
  | _ => false

theorem names_unposted {x : DiskEffect} (h : x.posts = false) : (ThreadsEffect.disk x).Names fd := by
  cases x with
  | dataPost _ _ _ => cases h
  | postToSession _ => cases h
  | _ => refine ⟨fun _ h => ?_, fun _ h => ?_, fun _ h => ?_⟩ <;> cases h

theorem names_posted {u : SessionTask} (h : u.fd = fd) : (ThreadsEffect.disk (.postToSession u)).Names fd := by
  refine ⟨fun _ hu => ?_, fun _ h => ?_, fun _ h => ?_⟩
  · cases hu
    exact h
  · cases h
  · cases h

theorem names_dataPost (buf : List Char) (len : Int) : (ThreadsEffect.disk (.dataPost fd buf len)).Names fd := by
  refine ⟨fun _ h => ?_, fun _ h => ?_, fun n hn => ?_⟩
  · cases h
  · cases h
  · cases hn
    rfl

namespace DiskWork

/-- Work that posts nothing. -/
theorem Names.more (h : w.Names fd) (hinfo : v.info.fd = w.info.fd) {new : List DiskEffect}
    (heffects : v.effects = w.effects ++ new) (hnew : ∀ x ∈ new, (ThreadsEffect.disk x).Names fd) : v.Names fd := by
  refine ⟨hinfo.trans h.info, fun x hx => ?_⟩
  rw [heffects] at hx
  exact (List.mem_append.mp hx).elim (h.effects x) (hnew x)

theorem Names.silent (h : w.Names fd) (hinfo : v.info.fd = w.info.fd) (heffects : v.effects = w.effects) : v.Names fd :=
  ⟨hinfo.trans h.info, heffects ▸ h.effects⟩

theorem openPath_names (h : w.Names fd) (create : Bool) : (w.openPath c create).Names fd :=
  h.more rfl rfl (List.forall_mem_singleton.mpr (names_unposted rfl))

theorem seekFileHandle_names (h : w.Names fd) : (w.seekFileHandle c).Names fd := by
  unfold seekFileHandle
  split
  · exact h
  · exact h.silent rfl rfl

theorem readFromDisk_names (h : w.Names fd) : (w.readFromDisk c).2.Names fd := by
  unfold readFromDisk
  split
  · exact h.silent rfl rfl
  · split
    · exact h.silent rfl rfl
    · exact h.more rfl rfl (List.forall_mem_singleton.mpr (names_unposted rfl))

theorem writeToDisk_names (h : w.Names fd) : (w.writeToDisk c t).2.Names fd := by
  unfold writeToDisk
  split
  · exact h
  · dsimp only
    split
    · exact h.silent rfl rfl
    · exact h.more rfl rfl (List.forall_mem_singleton.mpr (names_unposted rfl))

theorem closeFileHandle_names (h : w.Names fd) : w.closeFileHandle.Names fd := by
  unfold closeFileHandle
  split
  · exact h
  · exact h.more rfl rfl (List.forall_mem_singleton.mpr (names_unposted rfl))

theorem setDataAction_names (h : w.Names fd) (a : DiskAction) : (w.setDataAction a).Names fd := h.silent rfl rfl

theorem listFrom_names (h : w.Names fd) (entries : List (List Char)) :
    Returns (w.listFrom c entries) fun r => r.2.Names fd :=
  .bind_any fun _ => .ok (h.more rfl rfl (List.forall_mem_singleton.mpr (names_unposted rfl)))

theorem dataPost_names (h : w.Names fd) (buf : List Char) (len : Int) :
    Returns (w.dataPost buf len) fun v => v.Names fd := by
  unfold dataPost
  split
  · exact .error _
  · refine .ok (h.more rfl rfl (List.forall_mem_singleton.mpr ?_))
    rw [h.info]
    exact names_dataPost _ _

end DiskWork

/-- What a handled task hands on names the connection. -/
def DiskHandled.Names (fd : Fd) (h : DiskHandled) : Prop := ∀ x ∈ h.effects, (ThreadsEffect.disk x).Names fd

namespace DiskFsm

theorem delete_names {h : DiskHandled} (hh : h.Names fd) : (h.thenDelete fd).Names fd := by
  intro x hx
  rcases List.mem_append.mp hx with hx | hx
  · exact hh x hx
  · rcases delDisk_posts h.manager fd with hnone | ⟨n, hclosed⟩
    · rw [hnone] at hx
      cases hx
    · rw [hclosed, List.mem_singleton] at hx
      rw [hx]
      exact names_unposted rfl

theorem finish_names {h : DiskHandled} (hh : h.Names fd) : (h.finish fd).Names fd := by
  apply delete_names
  intro x hx
  rcases List.mem_append.mp hx with hx | hx
  · exact hh x hx
  · rw [List.mem_singleton.mp hx]
    exact names_posted rfl

theorem runRetrLoading_names (h : w.Names fd) : (runRetrLoading c w).2.Names fd := by
  have hread : (w.readFromDisk c).2.Names fd := DiskWork.readFromDisk_names h
  unfold runRetrLoading
  dsimp only
  split
  · exact hread
  · exact DiskWork.closeFileHandle_names hread

theorem runStorStart_names (h : w.Names fd) : (runStorStart c w).2.Names fd := by
  unfold runStorStart
  split
  · exact DiskWork.openPath_names h true
  · exact (DiskWork.seekFileHandle_names (DiskWork.openPath_names h false)).silent rfl rfl

theorem runIndexStart_names (h : w.Names fd) : Returns (runIndexStart c w) fun r => r.2.Names fd :=
  .bind (DiskWork.listFrom_names (w := w.clearListInfo) (h.silent rfl rfl) _) fun _ hr => .ok hr

theorem runIndexLoading_names (h : w.Names fd) : Returns (runIndexLoading c w) fun r => r.2.Names fd :=
  .bind (DiskWork.listFrom_names (w := w.clearListInfo) (h.silent rfl rfl) _) fun _ hr => .ok hr

theorem storing_work (hd : d.fd = t.ctrlFd) :
    (({info := d, files := m.files : DiskWork}.setDataAction .storing).writeToDisk c t).2.Names t.ctrlFd :=
  DiskWork.writeToDisk_names (DiskWork.setDataAction_names ⟨hd, List.forall_mem_nil _⟩ .storing)

theorem writeDone_names (hd : d.fd = t.ctrlFd) : Returns (writeDone c t m d) fun h => h.Names t.ctrlFd := by
  have hfound : DiskWork.Names t.ctrlFd {info := d, files := m.files} := ⟨hd, List.forall_mem_nil _⟩
  have hnothing : DiskHandled.Names t.ctrlFd {manager := m} := List.forall_mem_nil _
  unfold writeDone
  split
  · refine .bind (runIndexLoading_names hfound) fun r hr => ?_
    exact .bind (DiskWork.dataPost_names (DiskWork.setDataAction_names hr _) _ _) fun w hw => .ok hw.effects
  · exact .ok (finish_names hnothing)
  · exact .bind (DiskWork.dataPost_names (DiskWork.setDataAction_names (runRetrLoading_names hfound) _) _ _)
      fun w hw => .ok hw.effects
  · exact .ok (finish_names hnothing)
  · exact .ok hnothing

theorem storing_names (hd : d.fd = t.ctrlFd) : (storing c t m d).Names t.ctrlFd := by
  have hw := storing_work (c := c) (m := m) hd
  unfold storing
  dsimp only
  split
  · exact hw.effects
  · split
    · exact hw.effects
    · exact hw.effects

theorem storOk_names (hd : d.fd = t.ctrlFd) : (storOk c t m d).Names t.ctrlFd := by
  have hw := DiskWork.closeFileHandle_names (storing_work (c := c) (m := m) hd)
  unfold storOk
  dsimp only
  split
  · exact hw.effects
  · split
    · exact hw.effects
    · exact finish_names hw.effects

/-- A disk thread posts for the descriptor of its task. -/
theorem roll_names (hm : ∀ d, m.infos t.ctrlFd = some d → d.fd = t.ctrlFd) :
    Returns (rollStateMachine c t m) fun h => h.Names t.ctrlFd := by
  have hnew : DiskWork.Names t.ctrlFd (m.construct t) := ⟨rfl, List.forall_mem_nil _⟩
  have hnothing : DiskHandled.Names t.ctrlFd {manager := m} := List.forall_mem_nil _
  unfold rollStateMachine
  cases ht : t.action with
  | indexStart =>
    refine .bind (runIndexStart_names hnew) fun r hr => ?_
    exact .bind (DiskWork.dataPost_names (DiskWork.setDataAction_names hr _) _ _) fun w hw => .ok hw.effects
  | storStart =>
    dsimp only
    rw [runStorStart_ret, if_pos rfl]
    refine .ok fun x hx => ?_
    rcases List.mem_append.mp hx with hx | hx
    · exact (DiskWork.setDataAction_names (runStorStart_names hnew) .storStart).effects x hx
    · rw [List.mem_singleton.mp hx]
      exact names_posted rfl
  | retrStart =>
    have hloaded : (runRetrStart c (m.construct t)).2.Names t.ctrlFd :=
      runRetrLoading_names (DiskWork.seekFileHandle_names (DiskWork.openPath_names hnew false))
    exact .bind (DiskWork.dataPost_names (DiskWork.setDataAction_names hloaded _) _ _) fun w hw => .ok hw.effects
  | writeDone =>
    dsimp only
    split
    · exact .ok hnothing
    · exact writeDone_names (hm _ ‹_›)
  | storing =>
    dsimp only
    split
    · exact .ok hnothing
    · exact .ok (storing_names (hm _ ‹_›))
  | storOk =>
    dsimp only
    split
    · exact .ok hnothing
    · exact .ok (storOk_names (hm _ ‹_›))
  | dele =>
    dsimp only
    split
    · exact .ok hnothing
    · exact .ok (delete_names hnothing)
  | other code =>
    dsimp only
    split
    · exact .ok hnothing
    · exact .ok hnothing

end DiskFsm

end

end HyperTransfer
