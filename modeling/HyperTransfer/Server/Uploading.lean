import HyperTransfer.Disk.Stored
import HyperTransfer.Server.Threads
import HyperTransfer.Tcp.Batching

/-! An upload, from the start task to the report of its end.

The event loop reads the data connection and hands full buffers to the disk threads, which put
them into the file one behind the other. Three places hold the bytes on their way: the client's
buffer, the queue and the file. No step loses or repeats one: what the file has been given, what
is queued and what is buffered is what was read (`Uploads`), in that order, so when the end is
reported the file holds the upload over what it held before (`upload_exact`). -/
namespace HyperTransfer
open CString

/-- The client, the queue of the disk thread for its connection, and the disk side. -/
structure Uploading where
  client : Option Client
  queue : List DiskTask
  disk : DiskManager

/-- What happens next: something of the client's, the disk thread handles the first task of the
queue, or something else on the disk side changes. -/
inductive UploadingEvent where
  | net (i : ClientEvent)
  | disk (c : DiskCalls)
  | elsewhere (m : DiskManager)

inductive UploadingEffect where
  | read (bytes : List Char)
  | posted (t : SessionTask)
deriving DecidableEq

def DiskEffect.posted? : DiskEffect → Option UploadingEffect
  | .postToSession t => some (.posted t)
  | _ => none

def uploading (cfg : Config) : Machine UploadingEvent Uploading UploadingEffect Halt where
  step i s :=
    match i with
    | .net i => do
      let (c, es) ← (tcpClient cfg).step i s.client
      return ({s with client := c, queue := s.queue ++ es.filterMap NetEffect.disk?},
        [.read (received ⟨s.client, i, c, es⟩)])
    | .disk calls =>
      match s.queue with
      | [] => .ok (s, [])
      | t :: rest => do
        let h ← halting (DiskFsm.rollStateMachine calls t s.disk)
        return ({s with queue := rest, disk := h.manager}, h.effects.filterMap DiskEffect.posted?)
    | .elsewhere m => .ok ({s with disk := m}, [])

abbrev UploadingEdge := Edge UploadingEvent Uploading UploadingEffect

def UploadingEffect.bytes : UploadingEffect → List Char
  | .read bytes => bytes
  | .posted _ => []

/-- The bytes read in the steps so far. -/
def readOf (past : List UploadingEdge) : List Char := (past.flatMap Edge.effects).flatMap UploadingEffect.bytes

/-- How often the end has been reported. -/
def reportsIn (fd : Fd) (past : List UploadingEdge) : Nat :=
  (past.flatMap Edge.effects).count (.posted {fd := fd, action := .transOk})

/-- What may happen to the client in between: nothing ends the upload but the end of the file, and
the control connection stays. -/
def ClientEvent.spares : ClientEvent → Bool
  | .notify n _ => n.action != .transOk && n.action != .dataWrite
  | .callback (.write (.wrote _)) => true
  | .callback (.write _) => false
  | .callback (.dataAccept r) => r.isNone
  | .callback (.dataRead r) => r != .failed false
  | .callback (.dataWrite _) => true

/-- What is asked of the surroundings: the calls on the file succeed and a write takes all it is
given, the connections stay, and what else happens on the disk side leaves the object, its file and
its handle alone. -/
def Spares (fd : Fd) (path : List Char) (s : Uploading) : UploadingEvent → Prop
  | .net i => i.spares = true
  | .disk c => c.seeks = true ∧ ∀ t rest, s.queue = t :: rest →
      (t.action = .storStart → (s.disk.files.openFile path (t.getRestSize = 0) c.opens).1.isSome = true) ∧
        ∃ k, c.writes = some k ∧ t.payload.length ≤ k
  | .elsewhere m => m.infos fd = s.disk.infos fd ∧ m.files.content path = s.disk.files.content path ∧
      ∀ d n, s.disk.infos fd = some d → d.fileHandle = some n → m.files.opened n = s.disk.files.opened n

/-- An upload has been asked for: the start task is in the queue, nothing is left of an earlier
transfer, and the data connection is there, with nothing read from it yet. -/
structure UploadRequested (start : DiskTask) (s : Uploading) (c : Client) : Prop where
  action : start.action = .storStart
  nonneg : 0 ≤ start.restSize
  lt : start.restSize < 2 ^ 31
  free : s.disk.seekDisk start.ctrlFd = none
  queue : s.queue = [start]
  client : s.client = some c
  ctrlSocket : c.ctrlSocket = start.ctrlFd
  connected : c.dataFd.isSome = true
  nothing : c.fileBuffer = []
  download : c.dataWriteQ = []

/-! ### The client -/

/-- The tasks in the queue, while the data connection is there or when its end has been seen. -/
def Chunks (fd : Fd) (tasks : List DiskTask) : Bool → Prop
  | true => ∀ t ∈ tasks, t.action = .storing ∧ t.ctrlFd = fd
  | false => ∃ chunks last, tasks = chunks ++ [last] ∧ (∀ t ∈ chunks, t.action = .storing ∧ t.ctrlFd = fd) ∧
      last.action = .storOk ∧ last.ctrlFd = fd

/-- The client of an upload. -/
structure Client.Fills (fd : Fd) (c : Client) : Prop where
  ctrlSocket : c.ctrlSocket = fd
  download : c.dataWriteQ = []
  fits : c.fileBuffer.length ≤ fileBufWriteSize
  ended : c.dataFd.isSome = false → c.fileBuffer = []

section
variable {cfg : Config} {c : Client} {fd : Fd} {i : ClientEvent}

/-- What an event that spares the upload does: it reads, or hands over a full buffer, or the last one. -/
inductive Client.Feeds (c : Client) (i : ClientEvent) : Client → List NetEffect → Prop where
  | keeps (d : Client) (es : List NetEffect) (hdisk : es.filterMap NetEffect.disk? = []) (hopen : d.dataFd.isSome = c.dataFd.isSome)
      (hbuffer : d.fileBuffer = c.fileBuffer ++ received ⟨some c, i, some d, es⟩) : Feeds c i d es
  | hands (d : Client) (t : DiskTask) (ht : t.action = .storing) (hfd : t.ctrlFd = c.ctrlSocket)
      (hopen : c.dataFd.isSome = true) (hstill : d.dataFd.isSome = true)
      (hbuffer : d.fileBuffer = [])
      (hpayload : t.payload = c.fileBuffer ++ received ⟨some c, i, some d, [.data (.postToDisk t)]⟩) :
      Feeds c i d [.data (.postToDisk t)]
  | ends (d : Client) (t : DiskTask) (ht : t.action = .storOk) (hfd : t.ctrlFd = c.ctrlSocket)
      (hopen : c.dataFd.isSome = true) (hclosed : d.dataFd.isSome = false) (hbuffer : d.fileBuffer = [])
      (hpayload : t.payload = c.fileBuffer ++ received ⟨some c, i, some d, [.data (.postToDisk t)]⟩) :
      Feeds c i d [.data (.postToDisk t)]

/-- A client that is left as far as the upload goes. -/
theorem feeds_same {d : Client} {es : List NetEffect} (hdisk : es.filterMap NetEffect.disk? = [])
    (hopen : d.dataFd.isSome = c.dataFd.isSome) (hbuffer : d.fileBuffer = c.fileBuffer)
    (hnothing : received ⟨some c, i, some d, es⟩ = []) : c.Feeds i d es :=
  .keeps d es hdisk hopen (by rw [hnothing, List.append_nil, hbuffer])

/-- The event is handled, the client stays, and it does one of these. -/
def Fed (cfg : Config) (fd : Fd) (c : Client) (i : ClientEvent) : Prop :=
  ∃ d es, c.handle cfg i = .ok (some d, es) ∧ c.Feeds i d es ∧ d.Fills fd

theorem fed_notify (hc : c.Fills fd) {n : EventNotify} {ports : List (Option (Fd × Int))}
    (hspares : (ClientEvent.notify n ports).spares = true) : Fed cfg fd c (.notify n ports) := by
  obtain ⟨htrans, hdata⟩ : n.action ≠ .transOk ∧ n.action ≠ .dataWrite := by simpa [ClientEvent.spares] using hspares
  have hcases := onNotify_cases cfg ports n c
  refine ⟨_, _, handle_notify n ports, ?_⟩
  generalize c.onNotify cfg ports n = r at hcases ⊢
  have hsilent {es : List NetEffect} (hes : ∀ x ∈ es, ∃ port, x = .postToSession {fd := n.fd, action := .pasv, bufLen := port}) :
      es.filterMap NetEffect.disk? = [] := by
    apply List.filterMap_eq_nil_iff.mpr
    intro x hx
    obtain ⟨port, rfl⟩ := hes x hx
    rfl
  cases hcases with
  | reply _ => exact ⟨feeds_same rfl rfl rfl rfl, hc.ctrlSocket, hc.download, hc.fits, hc.ended⟩
  | port _ _ _ es hes => exact ⟨feeds_same (hsilent hes) rfl rfl rfl, hc.ctrlSocket, hc.download, hc.fits, hc.ended⟩
  | transOk haction => exact absurd haction htrans
  | data haction => exact absurd haction hdata
  | unknown _ _ => exact ⟨feeds_same rfl rfl rfl rfl, hc⟩

theorem fed_dataRead (hc : c.Fills fd) (hopen : c.dataFd.isSome = true) {r : DataReadResult} (hr : r ≠ .failed false) :
    Fed cfg fd c (.callback (.dataRead r)) := by
  obtain ⟨p, hp⟩ := dataRead_returns hc.fits r
  have hhandle : c.handle cfg (.callback (.dataRead r)) = .ok (some p.1, p.2) := by
    rw [handle_dataRead hopen, hp]
    rfl
  have hstays (d : Client) (hd : d.dataFd = c.dataFd) (hsocket : d.ctrlSocket = c.ctrlSocket)
      (hqueue : d.dataWriteQ = c.dataWriteQ) (hfits : d.fileBuffer.length ≤ fileBufWriteSize) : d.Fills fd := by
    refine ⟨hsocket.trans hc.ctrlSocket, hqueue.trans hc.download, hfits, fun hclosed => ?_⟩
    rw [hd, hopen] at hclosed
    cases hclosed
  refine ⟨p.1, p.2, hhandle, ?_⟩
  cases dataRead_cases hp with
  | again _ hagain => exact ⟨feeds_same rfl rfl rfl (by rcases hagain with rfl | rfl <;> rfl), hc⟩
  | ended =>
    obtain ⟨accept, write, hclear⟩ := clearDatafd_eq c.clearData
    rw [hclear]
    refine ⟨.ends _ _ rfl rfl hopen rfl rfl ?_, hc.ctrlSocket, hc.download, Nat.zero_le _, fun _ => rfl⟩
    rw [bufferTask_payload]
    exact (List.append_nil _).symm
  | failed => exact absurd rfl hr
  | kept bytes pos le hfits =>
    refine ⟨.keeps _ _ rfl rfl ?_, hstays _ rfl rfl rfl ?_⟩
    · exact congrArg (c.fileBuffer ++ ·) (if_pos hopen).symm
    · exact (List.length_append).trans_le hfits
  | full bytes pos le hfull =>
    refine ⟨.hands _ _ rfl rfl hopen hopen rfl ?_, hstays _ rfl rfl rfl (Nat.zero_le _)⟩
    rw [bufferTask_payload]
    exact congrArg (c.fileBuffer ++ ·) (if_pos hopen).symm

/-- What spares the upload goes well. -/
theorem fed_of_spares (hc : c.Fills fd) (hspares : i.spares = true) : Fed cfg fd c i := by
  cases i with
  | notify n ports => exact fed_notify hc hspares
  | callback k =>
    cases hfires : k.fires c with
    | false =>
      refine ⟨c, [], handle_idle hfires, feeds_same rfl rfl rfl ?_, hc⟩
      cases k with
      | dataRead r =>
        have hclosed : c.dataFd.isSome = false := hfires
        cases r <;> simp [received, hclosed]
      | _ => rfl
    | true =>
      cases k with
      | write r =>
        cases r with
        | wrote count =>
          have hkept : ∃ d es, c.onWrite (.wrote count) = (some d, es) ∧ es.filterMap NetEffect.disk? = [] ∧
              d.dataFd = c.dataFd ∧ d.fileBuffer = c.fileBuffer ∧ d.ctrlSocket = c.ctrlSocket ∧
                d.dataWriteQ = c.dataWriteQ := by
            unfold Client.onWrite
            dsimp only
            split
            · exact ⟨_, _, rfl, rfl, rfl, rfl, rfl, rfl⟩
            · split
              · exact ⟨_, _, rfl, rfl, rfl, rfl, rfl, rfl⟩
              · exact ⟨_, _, rfl, rfl, rfl, rfl, rfl, rfl⟩
          obtain ⟨d, es, hd, hsilent, hopen, hbuffer, hsocket, hqueue⟩ := hkept
          refine ⟨d, es, (handle_write hfires _).trans (congrArg Except.ok hd),
            feeds_same hsilent (congrArg _ hopen) hbuffer rfl, hsocket.trans hc.ctrlSocket,
            hqueue.trans hc.download, hbuffer ▸ hc.fits, ?_⟩
          rw [hopen, hbuffer]
          exact hc.ended
        | again => cases hspares
        | failed => cases hspares
      | dataAccept r =>
        cases r with
        | none => exact ⟨_, _, handle_dataAccept hfires none, feeds_same rfl rfl rfl rfl, hc⟩
        | some n => cases hspares
      | dataRead r => exact fed_dataRead hc hfires (by simpa [ClientEvent.spares] using hspares)
      | dataWrite r =>
        have hnothing : c.dataWrite r = ({c with dataWritePending := false}, []) := by
          unfold Client.dataWrite TcpClient.dataWrite
          dsimp only
          rw [hc.download]
          rfl
        refine ⟨_, _, handle_dataWrite hfires r, ?_⟩
        rw [hnothing]
        exact ⟨feeds_same rfl rfl rfl rfl, hc.ctrlSocket, hc.download, hc.fits, hc.ended⟩

end
/-! ### The disk side -/

/-- Where the upload of `start` is: what the file has been given, the tasks queued behind that, and how
often the end has been reported. -/
inductive UploadStage (start : DiskTask) (path old : List Char) (s : Uploading) (connected : Bool) :
    List Char → List DiskTask → Nat → Prop where
  | asked (tasks : List DiskTask) (hqueue : s.queue = start :: tasks) (hchunks : Chunks start.ctrlFd tasks connected)
      (hfree : s.disk.infos start.ctrlFd = none) (hfile : (s.disk.files.content path).getD [] = old) :
      UploadStage start path old s connected [] tasks 0
  | storing (put : List Char) (n : Nat) (base : List Char → Option (List Char))
      (hchunks : Chunks start.ctrlFd s.queue connected)
      (hputs : Putting s.disk start.ctrlFd n path start.getRestSize.toNat base old put) :
      UploadStage start path old s connected put s.queue 0
  | finished (put : List Char) (reports : Nat) (hqueue : s.queue = []) (hended : connected = false)
      (hreports : reports ≤ 1) (hfree : reports ≠ 0 → s.disk.infos start.ctrlFd = none)
      (hfile : s.disk.files.content path = some (Files.splice '\x00' old start.getRestSize.toNat put)) :
      UploadStage start path old s connected put [] reports

/-- The upload so far: nothing of what was read is lost, and nothing is there twice. -/
def Uploads (start : DiskTask) (path old : List Char) (past : List UploadingEdge) (s : Uploading) : Prop :=
  ∃ c put tasks, s.client = some c ∧ c.Fills start.ctrlFd ∧
    UploadStage start path old s c.dataFd.isSome put tasks (reportsIn start.ctrlFd past) ∧
    put ++ tasks.flatMap DiskTask.payload ++ c.fileBuffer = readOf past

/-- Which upload it is: the task, its path, and what the file held before. -/
structure Stores (start : DiskTask) (path : List Char) : Prop where
  action : start.action = .storStart
  path : path = strncpy pathSize start.curPath

section
variable {start : DiskTask} {path old put : List Char} {s t : Uploading} {connected : Bool} {tasks : List DiskTask}
  {reports : Nat} {past : List UploadingEdge} {fd : Fd}

theorem chunks_cases {t : DiskTask} {rest : List DiskTask} (h : Chunks fd (t :: rest) connected) :
    (t.action = .storing ∧ t.ctrlFd = fd ∧ Chunks fd rest connected) ∨
      (connected = false ∧ rest = [] ∧ t.action = .storOk ∧ t.ctrlFd = fd) := by
  cases connected with
  | true =>
    obtain ⟨ht, hrest⟩ := List.forall_mem_cons.mp h
    exact Or.inl ⟨ht.1, ht.2, hrest⟩
  | false =>
    obtain ⟨chunks, last, htasks, hchunks, hlast⟩ := h
    cases chunks with
    | nil =>
      cases htasks
      exact Or.inr ⟨rfl, rfl, hlast⟩
    | cons t' chunks =>
      cases htasks
      obtain ⟨ht, hchunks⟩ := List.forall_mem_cons.mp hchunks
      exact Or.inl ⟨ht.1, ht.2, chunks, last, rfl, hchunks, hlast⟩

theorem count_posted (u : SessionTask) (es : List DiskEffect) :
    (es.filterMap DiskEffect.posted?).count (.posted u) = es.count (.postToSession u) := by
  induction es with
  | nil => rfl
  | cons x es ih =>
    cases x with
    | postToSession u' =>
      rw [List.filterMap_cons_some (show DiskEffect.posted? (.postToSession u') = some (.posted u') from rfl),
        List.count_cons, List.count_cons, ih]
      simp
    | _ =>
      rw [List.filterMap_cons_none (by rfl), List.count_cons_of_ne (by simp), ih]

/-- The stage is told by the queue, the object, its file and its handle. -/
theorem UploadStage.same (h : UploadStage start path old s connected put tasks reports) (hqueue : t.queue = s.queue)
    (hinfos : t.disk.infos start.ctrlFd = s.disk.infos start.ctrlFd)
    (hcontent : t.disk.files.content path = s.disk.files.content path)
    (hopened : ∀ d n, s.disk.infos start.ctrlFd = some d → d.fileHandle = some n →
      t.disk.files.opened n = s.disk.files.opened n) : UploadStage start path old t connected put tasks reports := by
  cases h with
  | asked _ hq hchunks hfree hfile =>
    exact .asked tasks (hqueue.trans hq) hchunks (hinfos.trans hfree) (hcontent ▸ hfile)
  | storing _ n base hchunks hputs =>
    obtain ⟨d, hd, hhandle, hputs⟩ := hputs
    rw [← hqueue] at hchunks ⊢
    refine .storing put n t.disk.files.content hchunks ⟨d, hinfos.trans hd, hhandle, ?_, ?_⟩
    · exact (hopened d n hd hhandle).trans hputs.opened
    · have hheld : t.disk.files.content path = some (Files.splice '\x00' old start.getRestSize.toNat put) := by
        rw [hcontent, hputs.content, Function.update_self]
      rw [← hheld, Function.update_eq_self]
  | finished _ _ hq hended hreports hfree hfile =>
    exact .finished put reports (hqueue.trans hq) hended hreports (fun hne => hinfos.trans (hfree hne)) (hcontent.trans hfile)

/-- An upload nothing has come for yet. -/
def Upload.beginning (start : DiskInput) (haction : start.task.action = .storStart) : Upload where
  fd := start.task.ctrlFd
  start := start
  chunks := []
  last := {task := {ctrlFd := start.task.ctrlFd, action := .storOk}}
  start_task := ⟨haction, rfl⟩
  chunk_tasks := List.forall_mem_nil _
  last_task := ⟨rfl, rfl⟩

/-- The start task opens the file and goes to the offset. -/
theorem start_puts (hstores : Stores start path) {m : DiskManager} {calls : DiskCalls} (hseeks : calls.seeks = true)
    (hopens : (m.files.openFile path (start.getRestSize = 0) calls.opens).1.isSome = true)
    (hfree : m.infos start.ctrlFd = none) :
    ∃ h n base, DiskFsm.rollStateMachine calls start m = .ok h ∧
      Putting h.manager start.ctrlFd n path start.getRestSize.toNat base ((m.files.content path).getD []) [] ∧
      h.effects.count (.postToSession {fd := start.ctrlFd, action := .transOk}) = 0 := by
  obtain ⟨haction, rfl⟩ := hstores
  obtain ⟨n, hn⟩ := Option.isSome_iff_exists.mp hopens
  obtain ⟨t, es, d, hstep, hsilent, hd, hhandle, hcontent, hopened⟩ :=
    step_start m (Upload.beginning ⟨start, calls⟩ haction)
  obtain ⟨h, hroll, he⟩ := bind_eq_ok.mp hstep
  cases he
  have hfound : (Upload.beginning ⟨start, calls⟩ haction).opened m = some n := hn
  have hheld : h.manager.files.content (strncpy pathSize start.curPath) =
      some ((m.files.content (strncpy pathSize start.curPath)).getD []) := by
    rw [hcontent, Upload.begun, hfound, if_pos (Option.isSome_some)]
    exact Function.update_self ..
  have hat : h.manager.files.opened n =
      some {path := strncpy pathSize start.curPath, pos := start.getRestSize.toNat} := by
    have hreached : (Upload.beginning ⟨start, calls⟩ haction).reached = start.getRestSize.toNat := if_pos hseeks
    rw [hopened, Upload.openedOn, if_pos hfound, hreached]
    rfl
  have hhandle : d.fileHandle = some n := by
    rw [hhandle, Upload.handle, show m.seekDisk (Upload.beginning ⟨start, calls⟩ haction).fd = none from hfree]
    exact hfound
  exact ⟨h, n, _, hroll, started_puts hd hhandle hat hheld, List.count_eq_zero_of_not_mem hsilent⟩

/-! ### Steps -/

theorem readOf_last (past : List UploadingEdge) (e : UploadingEdge) :
    readOf (past ++ [e]) = readOf past ++ e.effects.flatMap UploadingEffect.bytes := by
  rw [readOf, readOf, List.flatMap_append, List.flatMap_append, List.flatMap_singleton]

theorem reportsIn_last (past : List UploadingEdge) (e : UploadingEdge) :
    reportsIn fd (past ++ [e]) = reportsIn fd past + e.effects.count (.posted {fd := fd, action := .transOk}) := by
  rw [reportsIn, reportsIn, List.flatMap_append, List.count_append, List.flatMap_singleton]

/-- What the disk thread posts is nothing that was read. -/
theorem posted_bytes (es : List DiskEffect) : (es.filterMap DiskEffect.posted?).flatMap UploadingEffect.bytes = [] := by
  apply List.flatMap_eq_nil_iff.mpr
  intro x hx
  obtain ⟨y, _, hy⟩ := List.mem_filterMap.mp hx
  cases y with
  | postToSession u =>
    cases hy
    rfl
  | _ => cases hy

/-- A task handled gives its bytes to the file. -/
theorem stage_disk (hstores : Stores start path) (h : UploadStage start path old s connected put tasks reports)
    {calls : DiskCalls} (hspares : Spares start.ctrlFd path s (.disk calls)) {t : DiskTask} {rest : List DiskTask}
    (hqueue : s.queue = t :: rest) :
    ∃ g put' tasks', DiskFsm.rollStateMachine calls t s.disk = .ok g ∧
      UploadStage start path old {s with queue := rest, disk := g.manager} connected put' tasks'
        (reports + g.effects.count (.postToSession {fd := start.ctrlFd, action := .transOk})) ∧
      put' ++ tasks'.flatMap DiskTask.payload = put ++ tasks.flatMap DiskTask.payload := by
  obtain ⟨hseeks, hcalls⟩ := hspares
  obtain ⟨hopens, k, hk, hfits⟩ := hcalls t rest hqueue
  have htaken : DiskInput.taken ⟨t, calls⟩ = t.payload := by
    show t.payload.take (calls.writes.getD 0) = _
    rw [hk]
    exact List.take_of_length_le hfits
  cases h with
  | asked _ hq hchunks hfree hfile =>
    obtain ⟨rfl, rfl⟩ := List.cons.inj (hqueue.symm.trans hq)
    obtain ⟨g, n, base, hroll, hputs, hcount⟩ := start_puts hstores hseeks (hopens hstores.action) hfree
    rw [hfile] at hputs
    refine ⟨g, [], rest, hroll, ?_, rfl⟩
    rw [hcount]
    exact .storing (s := {s with queue := rest, disk := g.manager}) [] n base hchunks hputs
  | storing _ n base hchunks hputs =>
    rw [hqueue] at hchunks ⊢
    rcases chunks_cases hchunks with ⟨haction, hfd, hrest⟩ | ⟨hended, rfl, haction, hfd⟩
    · obtain ⟨m, es, hstep, hputs, _, hsilent⟩ := storing_puts (i := ⟨t, calls⟩) hputs ⟨haction, hfd⟩
      obtain ⟨g, hroll, he⟩ := bind_eq_ok.mp hstep
      cases he
      rw [htaken] at hputs
      refine ⟨g, put ++ t.payload, rest, hroll, ?_, ?_⟩
      · rw [List.count_eq_zero_of_not_mem (hsilent _)]
        exact .storing (s := {s with queue := rest, disk := g.manager}) _ n base hrest hputs
      · rw [List.flatMap_cons, List.append_assoc]
    · obtain ⟨m, es, hstep, hcount, hcontent, hfree, _⟩ := storOk_puts (i := ⟨t, calls⟩) hputs ⟨haction, hfd⟩
      obtain ⟨g, hroll, he⟩ := bind_eq_ok.mp hstep
      cases he
      rw [htaken] at hcount hcontent hfree
      refine ⟨g, put ++ t.payload, [], hroll, ?_, ?_⟩
      · rw [hcount, Nat.zero_add]
        refine .finished (s := {s with queue := [], disk := g.manager}) _ _ rfl hended (by split <;> decide) (fun hne => ?_) ?_
        · refine (hfree fun hnothing => ?_).1
          rw [if_pos hnothing] at hne
          exact hne rfl
        · show g.manager.files.content path = _
          rw [hcontent, Function.update_self]
      · rw [List.flatMap_singleton, List.flatMap_nil, List.append_nil]
  | finished _ _ hq _ _ _ _ => cases hqueue.symm.trans hq

/-- A task is queued behind those of the upload. -/
theorem stage_hands (h : UploadStage start path old s true put tasks reports) {t : DiskTask}
    (ht : t.ctrlFd = start.ctrlFd) {left : Bool}
    (hleft : (left = true ∧ t.action = .storing) ∨ (left = false ∧ t.action = .storOk)) (c : Option Client) :
    UploadStage start path old {s with client := c, queue := s.queue ++ [t]} left put (tasks ++ [t]) reports := by
  have hgrows {tasks : List DiskTask} (hchunks : Chunks start.ctrlFd tasks true) :
      Chunks start.ctrlFd (tasks ++ [t]) left := by
    rcases hleft with ⟨rfl, haction⟩ | ⟨rfl, haction⟩
    · intro u hu
      rcases List.mem_append.mp hu with hu | hu
      · exact hchunks u hu
      · rw [List.mem_singleton.mp hu]
        exact ⟨haction, ht⟩
    · exact ⟨tasks, t, rfl, hchunks, haction, ht⟩
  cases h with
  | asked _ hq hchunks hfree hfile =>
    exact .asked (s := {s with client := c, queue := s.queue ++ [t]}) _ (by rw [hq]; rfl) (hgrows hchunks) hfree hfile
  | storing _ n base hchunks hputs =>
    exact .storing (s := {s with client := c, queue := s.queue ++ [t]}) put n base (hgrows hchunks) hputs
  | finished _ _ _ hended _ _ _ => cases hended

end

section
variable {cfg : Config} {start : DiskTask} {path old : List Char} {s : Uploading} {past : List UploadingEdge}

/-- Whatever happens next, the upload goes on. -/
theorem uploads_step (hstores : Stores start path) (h : Uploads start path old past s) {i : UploadingEvent}
    (hspares : Spares start.ctrlFd path s i) :
    ∃ t es, (uploading cfg).step i s = .ok (t, es) ∧ Uploads start path old (past ++ [⟨s, i, t, es⟩]) t := by
  obtain ⟨c, put, tasks, hclient, hfills, hstage, hall⟩ := h
  cases i with
  | net i =>
    obtain ⟨d, es, hhandle, hfeeds, hd⟩ := fed_of_spares hfills hspares
    have hstep : (uploading cfg).step (.net i) s = .ok ({s with client := some d, queue := s.queue ++ es.filterMap NetEffect.disk?},
        [.read (received ⟨some c, i, some d, es⟩)]) := by
      refine bind_eq_ok.mpr ⟨(some d, es), ?_, ?_⟩
      · rw [hclient]
        exact hhandle
      · rw [hclient]
        rfl
    refine ⟨_, _, hstep, d, ?_⟩
    rw [reportsIn_last, readOf_last, ← hall]
    have hread : [UploadingEffect.read (received ⟨some c, i, some d, es⟩)].flatMap UploadingEffect.bytes =
        received ⟨some c, i, some d, es⟩ := List.append_nil _
    rw [hread]
    cases hfeeds with
    | keeps _ hsilent hopen hbuffer =>
      refine ⟨put, tasks, rfl, hd, ?_, ?_⟩
      · rw [hopen]
        exact hstage.same (by rw [hsilent]; exact List.append_nil _) rfl rfl fun _ _ _ _ => rfl
      · rw [hbuffer, ← List.append_assoc]
    | hands t haction hfd hopen hstill hbuffer hpayload =>
      rw [hopen] at hstage
      refine ⟨put, tasks ++ [t], rfl, hd, ?_, ?_⟩
      · rw [hstill]
        exact stage_hands hstage (hfd.trans hfills.ctrlSocket) (Or.inl ⟨rfl, haction⟩) _
      · rw [List.flatMap_append, List.flatMap_singleton, hpayload, hbuffer, List.append_nil]
        simp only [List.append_assoc]
    | ends t haction hfd hopen hclosed hbuffer hpayload =>
      rw [hopen] at hstage
      refine ⟨put, tasks ++ [t], rfl, hd, ?_, ?_⟩
      · rw [hclosed]
        exact stage_hands hstage (hfd.trans hfills.ctrlSocket) (Or.inr ⟨rfl, haction⟩) _
      · rw [List.flatMap_append, List.flatMap_singleton, hpayload, hbuffer, List.append_nil]
        simp only [List.append_assoc]
  | disk calls =>
    cases hqueue : s.queue with
    | nil =>
      refine ⟨s, [], by simp only [uploading, hqueue], c, put, tasks, hclient, hfills, ?_, ?_⟩
      · rw [reportsIn_last]
        exact hstage
      · rw [readOf_last, ← hall]
        exact (List.append_nil _).symm
    | cons t rest =>
      obtain ⟨g, put', tasks', hroll, hstage', hsame⟩ := stage_disk hstores hstage hspares hqueue
      have hstep : (uploading cfg).step (.disk calls) s =
          .ok ({s with queue := rest, disk := g.manager}, g.effects.filterMap DiskEffect.posted?) := by
        simp only [uploading, hqueue, hroll]
        rfl
      refine ⟨_, _, hstep, c, put', tasks', hclient, hfills, ?_, ?_⟩
      · rw [reportsIn_last]
        show UploadStage start path old _ _ put' tasks' (_ + (g.effects.filterMap DiskEffect.posted?).count _)
        rw [count_posted]
        exact hstage'
      · rw [readOf_last, hsame, hall]
        show _ = _ ++ (g.effects.filterMap DiskEffect.posted?).flatMap UploadingEffect.bytes
        rw [posted_bytes, List.append_nil]
  | elsewhere m =>
    obtain ⟨hinfos, hcontent, hopened⟩ := hspares
    refine ⟨{s with disk := m}, [], rfl, c, put, tasks, hclient, hfills, ?_, ?_⟩
    · rw [reportsIn_last]
      exact hstage.same rfl hinfos hcontent hopened
    · rw [readOf_last, hall]
      exact (List.append_nil _).symm

theorem uploads_start {c : Client} (hs : UploadRequested start s c)
    (hold : (s.disk.files.content path).getD [] = old) : Uploads start path old [] s := by
  refine ⟨c, [], [], hs.client, ⟨hs.ctrlSocket, hs.download, ?_, fun _ => hs.nothing⟩, ?_, hs.nothing⟩
  · rw [hs.nothing]
    exact Nat.zero_le _
  · rw [hs.connected]
    exact .asked [] hs.queue (List.forall_mem_nil _) hs.free hold

/-- What is in the file: the upload as far as it has been given to it, over what was there before; all of it once
its end has been read and the queue is empty, and when its end is reported. -/
structure StoresExactly (start : DiskTask) (path old : List Char) (past : List UploadingEdge) (s : Uploading) : Prop where
  given : ∃ put left, put ++ left = readOf past ∧
    (s.disk.files.content path).getD [] = Files.splice '\x00' old start.restSize.toNat put ∧
    (s.queue = [] → (∀ c ∈ s.client, c.dataFd = none) → left = [])
  once : reportsIn start.ctrlFd past ≤ 1
  complete : reportsIn start.ctrlFd past ≠ 0 → s.disk.seekDisk start.ctrlFd = none ∧
    s.disk.files.content path = some (Files.splice '\x00' old start.restSize.toNat (readOf past))

theorem stores_of_uploads (hoffset : start.getRestSize = start.restSize) (h : Uploads start path old past s) :
    StoresExactly start path old past s := by
  obtain ⟨c, put, tasks, hclient, hfills, hstage, hall⟩ := h
  have hnothing (hended : c.dataFd.isSome = false) : c.fileBuffer = [] := hfills.ended hended
  rw [List.append_assoc] at hall
  revert hstage
  generalize hreports : reportsIn start.ctrlFd past = reports
  intro hstage
  cases hstage with
  | asked _ hqueue _ _ hfile =>
    refine ⟨⟨[], _, hall, hfile, fun hempty => ?_⟩, hreports ▸ Nat.zero_le _, fun hne => absurd hreports hne⟩
    rw [hqueue] at hempty
    cases hempty
  | storing _ n base hchunks hputs =>
    obtain ⟨d, _, _, hputs⟩ := hputs
    refine ⟨⟨put, _, hall, ?_, fun hempty hclosed => ?_⟩, hreports ▸ Nat.zero_le _, fun hne => absurd hreports hne⟩
    · rw [hputs.content, Function.update_self, hoffset]
      rfl
    · -- the last chunk is in the queue when the end has been read
      rw [hempty, hclosed c hclient] at hchunks
      obtain ⟨_, _, htasks, _⟩ := hchunks
      simp at htasks
  | finished _ _ hqueue hended hone hfree hfile =>
    rw [hnothing hended, List.flatMap_nil, List.append_nil, List.append_nil] at hall
    rw [hoffset, hall] at hfile
    refine ⟨⟨_, [], List.append_nil _, congrArg (Option.getD · []) hfile, fun _ _ => rfl⟩, hreports ▸ hone, fun hne => ?_⟩
    exact ⟨hfree (hreports ▸ hne), hfile⟩

/-- **Uploads are exact.** From the request on every step returns, however the reads, the writes and the rest are
interleaved. The file always holds what it held before with a beginning of what was read put over it from the offset
on, and all of that once the end has been read and the queue is empty; the end is reported once at most, when
everything is in the file and the object is gone. -/
theorem upload_exact (cfg : Config) (start : DiskTask) (s : Uploading) (c : Client) (hs : UploadRequested start s c)
    (events : List UploadingEvent)
    (hspares : ∀ a ∈ (uploading cfg).attempts s events, Spares start.ctrlFd (strncpy pathSize start.curPath) a.1 a.2) :
    ((uploading cfg).trace s events).length = events.length ∧
      ∀ past e rest, (uploading cfg).trace s events = past ++ e :: rest →
        StoresExactly start (strncpy pathSize start.curPath)
          ((s.disk.files.content (strncpy pathSize start.curPath)).getD []) (past ++ [e]) e.after := by
  have hoffset : start.getRestSize = start.restSize := toInt_of_lt hs.nonneg hs.lt
  obtain ⟨hlength, hrun⟩ := Machine.history_returns _ [] (uploads_start hs rfl)
    (fun past s i h hi => uploads_step ⟨hs.action, rfl⟩ h hi) hspares
  exact ⟨hlength, fun past e rest h => stores_of_uploads hoffset (hrun past e rest h)⟩

/-- The client of an upload, with its data connection. -/
def uploadClient : Client := {Client.new 0 7 with dataFd := some 10}

/-- An upload to a new file is asked for. -/
def uploadRequested : Uploading where
  client := some uploadClient
  queue := [.ofPath 7 .storStart "/data/a".toList]
  disk := .idle .empty

theorem xy_read : 0 < "xy".toList.length ∧ "xy".toList.length ≤ dataSize := by decide

theorem z_read : 0 < "z".toList.length ∧ "z".toList.length ≤ dataSize := by decide

/-- The first read overtakes the start, the second comes after it, and then the end. -/
def twoReads : List UploadingEvent :=
  [.net (.callback (.dataRead (.read "xy".toList xy_read.1 xy_read.2))), .disk {opens := some 5, writes := some 0},
    .net (.callback (.dataRead (.failed true))), .net (.callback (.dataRead (.read "z".toList z_read.1 z_read.2))),
    .net (.callback (.dataRead (.eof false))), .disk {writes := some 9}]

theorem uploadRequested_requested : UploadRequested (.ofPath 7 .storStart "/data/a".toList) uploadRequested uploadClient where
  action := rfl
  nonneg := by decide
  lt := by decide
  free := rfl
  queue := rfl
  client := rfl
  ctrlSocket := rfl
  connected := rfl
  nothing := rfl
  download := rfl

theorem twoReads_spares : ∀ a ∈ (uploading Env.shipped.config).attempts uploadRequested twoReads,
    Spares 7 (strncpy pathSize "/data/a".toList) a.1 a.2 := by
  have hdisk {s : Uploading} {c : DiskCalls} {t : DiskTask} {k : Nat} (hqueue : s.queue = [t]) (hseeks : c.seeks = true)
      (hopens : t.action = .storStart →
        (s.disk.files.openFile (strncpy pathSize "/data/a".toList) (t.getRestSize = 0) c.opens).1.isSome = true)
      (hk : c.writes = some k) (hfits : t.payload.length ≤ k) : Spares 7 (strncpy pathSize "/data/a".toList) s (.disk c) := by
    refine ⟨hseeks, fun t' rest ht' => ?_⟩
    rw [hqueue] at ht'
    cases ht'
    exact ⟨hopens, k, hk, hfits⟩
  refine List.forall_mem_cons.mpr ⟨rfl, List.forall_mem_cons.mpr ⟨?_, ?_⟩⟩
  · exact hdisk rfl rfl (fun _ => by decide) rfl (by decide)
  refine List.forall_mem_cons.mpr ⟨rfl, List.forall_mem_cons.mpr ⟨rfl, List.forall_mem_cons.mpr ⟨rfl, ?_⟩⟩⟩
  exact List.forall_mem_singleton.mpr (hdisk rfl rfl (fun h => nomatch h) rfl (by decide))

theorem upload_exact_twoReads :
    ((uploading Env.shipped.config).trace uploadRequested twoReads).length = 6 ∧
      ∀ past e rest, (uploading Env.shipped.config).trace uploadRequested twoReads = past ++ e :: rest →
        StoresExactly (.ofPath 7 .storStart "/data/a".toList) (strncpy pathSize "/data/a".toList) [] (past ++ [e]) e.after :=
  upload_exact Env.shipped.config (.ofPath 7 .storStart "/data/a".toList) uploadRequested uploadClient
    uploadRequested_requested twoReads twoReads_spares

end

end HyperTransfer
