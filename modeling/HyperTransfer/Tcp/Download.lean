import HyperTransfer.Disk.Fsm
import HyperTransfer.Disk.Steps
import HyperTransfer.Lib.Relay
import HyperTransfer.Tcp.Client

/-! A download, from the start task to the report of its end.

The disk side reads a block and posts it through the notify pipe; the event loop queues
it and writes it away as the socket takes it; then a task for the next block goes back to
the disk side. Between the three there is one block at a time, so the transfer is a
`Relay` of the file from the offset on (`stage_step`), and delivers it exactly
(`download_exact`). -/
namespace HyperTransfer
open CString

/-- The disk side, its queue for the connection, the notify pipe, and the client. -/
structure Transfer where
  disk : DiskManager
  queue : List DiskTask
  pipe : List DataNotify
  client : TcpClient

/-- What happens next: the disk thread handles the first task of the queue, the event loop
takes the first notification or finds the data socket writable, or something else on the
disk side changes. -/
inductive TransferEvent where
  | disk (c : DiskCalls)
  | notify
  | writable (r : WriteResult)
  | elsewhere (m : DiskManager)

inductive TransferEffect where
  | wrote (bytes : List Char)
  | posted (t : SessionTask)
deriving DecidableEq

/-- What goes into the notify pipe. -/
def notifications (es : List DiskEffect) : List DataNotify :=
  es.filterMap fun
    | .dataPost fd buf len => some {fd := fd, buf := buf, len := len}
    | _ => none

/-- What goes to the session threads. -/
def posts (es : List DiskEffect) : List TransferEffect :=
  es.filterMap fun
    | .postToSession t => some (.posted t)
    | _ => none

/-- What goes to the disk threads. -/
def TcpEffect.task? : TcpEffect → Option DiskTask
  | .postToDisk t => some t
  | _ => none

/-- What goes to the data socket. -/
def TcpEffect.wrote? : TcpEffect → Option TransferEffect
  | .wrote bytes => some (.wrote bytes)
  | _ => none

def transfer : Machine TransferEvent Transfer TransferEffect Fault where
  step i s :=
    match i with
    | .disk c =>
      match s.queue with
      | [] => .ok (s, [])
      | t :: rest => do
        let h ← DiskFsm.rollStateMachine c t s.disk
        return ({s with disk := h.manager, queue := rest, pipe := s.pipe ++ notifications h.effects},
          posts h.effects)
    | .notify =>
      match s.pipe with
      | [] => .ok (s, [])
      | n :: rest =>
        if n.fd = s.client.ctrlSocket then
          .ok ({s with pipe := rest, client := s.client.onNotifyDataWrite n}, [])
        else .ok ({s with pipe := rest}, [])
    | .writable r =>
      if s.client.dataWritePending then
        let (client, es) := s.client.dataWrite r
        .ok ({s with client := client, queue := s.queue ++ es.filterMap TcpEffect.task?},
          es.filterMap TcpEffect.wrote?)
      else .ok (s, [])
    | .elsewhere m => .ok ({s with disk := m}, [])

/-- The bytes written to the data socket. -/
def TransferEffect.bytes : TransferEffect → List Char
  | .wrote bytes => bytes
  | .posted _ => []

/-- The report that the transfer is over. -/
def TransferEffect.reports (fd : Fd) (x : TransferEffect) : Bool := x = .posted {fd := fd, action := .transOk}

/-! ### The disk side of a block -/

/-- The effects of reading a file: nothing is posted. -/
def Silent (es : List DiskEffect) : Prop := notifications es = [] ∧ posts es = []

/-- The object is ready for the next block: it reads on, with `unread` left of the file,
or the end has been seen. -/
def Loaded (path content : List Char) (files : Files (List Char) Char) (d : DiskInfo) (unread : List Char)
    (last : Bool) : Prop :=
  (last = false ∧ d.dataAction = .retrLoading ∧ ∃ n pos, d.fileHandle = some n ∧
      files.opened n = some {path := path, pos := pos} ∧ content.drop pos = unread) ∨
    (last = true ∧ d.dataAction = .retrFinish)

section
variable {path content : List Char} {w : DiskWork} {c : DiskCalls} {n pos : Nat}

theorem notifications_append (a b : List DiskEffect) : notifications (a ++ b) = notifications a ++ notifications b :=
  List.filterMap_append

theorem posts_append (a b : List DiskEffect) : posts (a ++ b) = posts a ++ posts b := List.filterMap_append

theorem Silent.append {a b : List DiskEffect} (ha : Silent a) (hb : Silent b) : Silent (a ++ b) := by
  constructor
  · rw [notifications_append, ha.1, hb.1, List.nil_append]
  · rw [posts_append, ha.2, hb.2, List.nil_append]

theorem dataPost_whole (w : DiskWork) (buf : List Char) (len : Nat) :
    w.dataPost buf len = .ok {w with effects := w.effects ++ [.dataPost w.info.fd (buf.take len) len]} := by
  rw [DiskWork.dataPost, if_neg (by omega)]
  rfl

/-- A file that can be opened is, and at the offset. -/
theorem openReadonly_at (hcontent : w.files.content w.info.curPath = some content) (hopens : c.opens = some n)
    (hunused : w.files.opened n = none) (hseeks : c.seeks = true) (hoffset : 0 ≤ w.info.restSize)
    (hquiet : Silent w.effects) {v : DiskWork} (hv : (w.openReadonly c).seekFileHandle c = v) :
    v.info = {w.info with fileHandle := some n} ∧ v.files.content = w.files.content ∧
      v.files.opened n = some {path := w.info.curPath, pos := w.info.restSize.toNat} ∧ Silent v.effects := by
  have hopen : w.openReadonly c =
      { info := {w.info with fileHandle := some n}
        files := {w.files with
          opened := Function.update w.files.opened n (some {path := w.info.curPath, pos := 0}) }
        effects := w.effects ++ [.opened w.info.curPath (some n)] } := by
    simp only [DiskWork.openReadonly, DiskWork.openPath, hopens, Files.openFile_existing hcontent hunused]
  rw [← hv, hopen]
  unfold DiskWork.seekFileHandle
  dsimp only
  rw [hseeks, Files.seek_open (Function.update_self ..) hoffset]
  exact ⟨rfl, rfl, Function.update_self .., hquiet.append ⟨rfl, rfl⟩⟩

/-- A read that succeeds brings the next bytes of the file into the buffer. -/
theorem readFromDisk_open (hhandle : w.info.fileHandle = some n)
    (hopen : w.files.opened n = some {path := path, pos := pos}) (hcontent : w.files.content path = some content)
    (hreads : c.reads ≠ none) :
    ∃ got after, w.readFromDisk c = (got.length,
        { info := {w.info with
            fileBuffer := got ++ w.info.fileBuffer.drop got.length
            bufLen := got.length }
          files := {w.files with opened := Function.update w.files.opened n (some {path := path, pos := after})}
          effects := w.effects ++ [.read (w.files.pathOf n) got] }) ∧
      content.drop pos = got ++ content.drop after ∧ (got = [] → content.drop pos = []) := by
  obtain ⟨k, hk⟩ := Option.ne_none_iff_exists'.mp hreads
  obtain ⟨got, after, hread, hblock, hend⟩ :=
    Files.read_open hopen hcontent (show 0 < fileBufSize by decide) k
  refine ⟨got, after, ?_, hblock, hend⟩
  simp only [DiskWork.readFromDisk, hhandle, hk, hread]

/-- A block that could be read is posted, the last one being empty. -/
theorem block_posted (hhandle : w.info.fileHandle = some n)
    (hopen : w.files.opened n = some {path := path, pos := pos}) (hcontent : w.files.content path = some content)
    (hreads : c.reads ≠ none) (hquiet : Silent w.effects) {a : DiskAction} {v : DiskWork}
    (hv : DiskFsm.runRetrLoading c w = (a, v)) :
    ∃ u block rest, (v.setDataAction a).dataPost v.info.fileBuffer v.info.bufLen = .ok u ∧
      content.drop pos = block ++ rest ∧ (block = [] → rest = []) ∧ u.info.fd = w.info.fd ∧
      u.files.content = w.files.content ∧ Loaded path content u.files u.info rest block.isEmpty ∧
      notifications u.effects = [{fd := w.info.fd, buf := block, len := block.length}] ∧ posts u.effects = [] := by
  obtain ⟨got, after, hread, hblock, hend⟩ := readFromDisk_open hhandle hopen hcontent hreads
  rw [DiskFsm.runRetrLoading, hread] at hv
  dsimp only at hv
  have hgot : Silent (w.effects ++ [.read (w.files.pathOf n) got]) := hquiet.append ⟨rfl, rfl⟩
  by_cases hempty : got = []
  · -- nothing is left: the handle is closed, and an empty block says so
    rw [hempty] at hv hgot hblock
    rw [if_neg (by decide)] at hv
    unfold DiskWork.closeFileHandle at hv
    simp only [hhandle, Prod.mk.injEq] at hv
    obtain ⟨rfl, rfl⟩ := hv
    have hclosed := hgot.append (b := [.closed n]) ⟨rfl, rfl⟩
    refine ⟨_, [], [], dataPost_whole _ _ 0, hend hempty, fun _ => rfl, rfl, rfl, Or.inr ⟨rfl, rfl⟩, ?_, ?_⟩
    · rw [notifications_append]
      exact congrArg (· ++ _) hclosed.1
    · rw [posts_append]
      exact congrArg (· ++ _) hclosed.2
  · have hpos : (got.length : Int) > 0 := by
      have := List.length_pos_iff.mpr hempty
      omega
    rw [if_pos hpos] at hv
    simp only [Prod.mk.injEq] at hv
    obtain ⟨rfl, rfl⟩ := hv
    have hbuf : (got ++ w.info.fileBuffer.drop got.length).take got.length = got := List.take_left
    refine ⟨_, got, content.drop after, dataPost_whole _ _ got.length, hblock, fun h => absurd h hempty, rfl, rfl,
      Or.inl ⟨?_, rfl, n, after, hhandle, Function.update_self .., rfl⟩, ?_, ?_⟩
    · exact List.isEmpty_eq_false_iff.mpr hempty
    · rw [notifications_append]
      show notifications (w.effects ++ _) ++
        [{fd := w.info.fd, buf := (got ++ w.info.fileBuffer.drop got.length).take got.length, len := _}] = _
      rw [hgot.1, hbuf, List.nil_append]
    · rw [posts_append]
      exact congrArg (· ++ _) hgot.2

end

/-! ### The stages of a download -/

/-- The disk side knows the download: the object of `fd` is loaded. -/
def Ready (fd : Fd) (path content : List Char) (m : DiskManager) (unread : List Char) (last : Bool) : Prop :=
  ∃ d, m.infos fd = some d ∧ d.fd = fd ∧ Loaded path content m.files d unread last

/-- Where the one block of the download is, and what the relay says of it. -/
inductive Stage (start : DiskTask) (path content : List Char) (s : Transfer) (a : Relay Char) : Prop where
  | asked (hqueue : s.queue = [start]) (hpipe : s.pipe = []) (hq : s.client.dataWriteQ = [])
      (hfree : s.disk.infos start.ctrlFd = none) (hblock : a.block = none) (hlast : a.last = false)
      (hunread : a.unread = content.drop start.getRestSize.toNat) (hreports : a.reports = 0)
  | posted (block : List Char) (hqueue : s.queue = [])
      (hpipe : s.pipe = [{fd := start.ctrlFd, buf := block, len := block.length}])
      (hq : s.client.dataWriteQ = []) (hready : Ready start.ctrlFd path content s.disk a.unread a.last)
      (hblock : a.block = some block) (hreports : a.reports = 0)
  | queued (block : List Char) (offset : Nat) (hqueue : s.queue = []) (hpipe : s.pipe = [])
      (hq : s.client.dataWriteQ = [{buf := block, len := block.length, offset := offset}])
      (hoffset : offset ≤ block.length) (hready : Ready start.ctrlFd path content s.disk a.unread a.last)
      (hblock : a.block = some (block.drop offset)) (hreports : a.reports = 0)
  | written (hqueue : s.queue = [{ctrlFd := start.ctrlFd, action := .writeDone}]) (hpipe : s.pipe = [])
      (hq : s.client.dataWriteQ = []) (hready : Ready start.ctrlFd path content s.disk a.unread a.last)
      (hblock : a.block = none) (hreports : a.reports = 0)
  | reported (hqueue : s.queue = []) (hpipe : s.pipe = []) (hq : s.client.dataWriteQ = [])
      (hfree : s.disk.infos start.ctrlFd = none) (hblock : a.block = none) (hreports : a.reports = 1)

/-- The download relays what is left of the file, which is there. -/
structure Downloads (start : DiskTask) (path content : List Char) (s : Transfer) (a : Relay Char) : Prop where
  stage : Stage start path content s a
  file : s.disk.files.content path = some content
  client : s.client.ctrlSocket = start.ctrlFd

/-- What is asked of the surroundings: system calls on the file succeed, the socket does
not fail, and what else happens on the disk side leaves the object, the file and the
handle it is read through alone. -/
def Fair (fd : Fd) (path : List Char) (s : Transfer) : TransferEvent → Prop
  | .disk c => c.reads ≠ none ∧ c.seeks = true ∧ ∀ t ∈ s.queue, t.action = .retrStart →
      ∃ n, c.opens = some n ∧ s.disk.files.opened n = none
  | .notify => True
  | .writable r => r ≠ .failed
  | .elsewhere m => m.infos fd = s.disk.infos fd ∧ m.files.content path = s.disk.files.content path ∧
      ∀ d n, s.disk.infos fd = some d → d.dataAction = .retrLoading → d.fileHandle = some n →
        m.files.opened n = s.disk.files.opened n

section
variable {start : DiskTask} {path content : List Char} {s : Transfer} {a : Relay Char}

/-- The bytes among the effects of a step, and the reports. -/
def bytesOf (es : List TransferEffect) : List Char := es.flatMap TransferEffect.bytes

def reportsOf (fd : Fd) (es : List TransferEffect) : Nat := es.countP (TransferEffect.reports fd)

/-- A step is one of the relay, on the same bytes and reports. -/
def Relays (start : DiskTask) (path content : List Char) (a : Relay Char) (t : Transfer)
    (es : List TransferEffect) : Prop :=
  ∃ b, Relay.Step a b ∧ Downloads start path content t b ∧ b.delivered = a.delivered ++ bytesOf es ∧
    b.reports = a.reports + reportsOf start.ctrlFd es

/-- The task starts a download of the file at `path` from an offset. -/
structure Asks (start : DiskTask) (path : List Char) : Prop where
  action : start.action = .retrStart
  path : path = strncpy pathSize start.curPath
  offset : 0 ≤ start.getRestSize

/-- Nothing changes. -/
theorem relays_stay (h : Downloads start path content s a) : Relays start path content a s [] :=
  ⟨a, .stay a, h, (List.append_nil _).symm, rfl⟩

theorem step_disk {c : DiskCalls} {t : DiskTask} {rest : List DiskTask} {h : DiskHandled}
    (hqueue : s.queue = t :: rest) (hroll : DiskFsm.rollStateMachine c t s.disk = .ok h) :
    transfer.step (.disk c) s =
      .ok ({s with disk := h.manager, queue := rest, pipe := s.pipe ++ notifications h.effects}, posts h.effects) := by
  simp only [transfer, hqueue, hroll]
  rfl

theorem roll_writeDone {c : DiskCalls} {m : DiskManager} {fd : Fd} {d : DiskInfo} (hd : m.infos fd = some d) :
    DiskFsm.rollStateMachine c {ctrlFd := fd, action := .writeDone} m =
      DiskFsm.writeDone c {ctrlFd := fd, action := .writeDone} m d := by
  unfold DiskFsm.rollStateMachine
  dsimp only
  rw [show m.seekDisk fd = some d from hd]

/-- A block in the notify pipe is what the relay loads next. -/
theorem relays_load {t : Transfer} {block rest : List Char} (hqueue : t.queue = [])
    (hpipe : t.pipe = [{fd := start.ctrlFd, buf := block, len := block.length}]) (hq : t.client.dataWriteQ = [])
    (hready : Ready start.ctrlFd path content t.disk rest block.isEmpty)
    (hfile : t.disk.files.content path = some content) (hclient : t.client.ctrlSocket = start.ctrlFd)
    (hblock : a.block = none) (hlast : a.last = false) (hunread : a.unread = block ++ rest)
    (hend : block = [] → rest = []) (hreports : a.reports = 0) : Relays start path content a t [] := by
  refine ⟨_, .load a block rest hblock hlast hunread hend, ⟨?_, hfile, hclient⟩, (List.append_nil _).symm, rfl⟩
  exact .posted block hqueue hpipe hq hready rfl hreports

/-- The start task opens the file, goes to the offset and posts the first block. -/
theorem relays_start (hask : Asks start path) (h : Downloads start path content s a) {c : DiskCalls}
    (hfair : Fair start.ctrlFd path s (.disk c)) (hqueue : s.queue = [start]) (hpipe : s.pipe = [])
    (hq : s.client.dataWriteQ = []) (hfree : s.disk.infos start.ctrlFd = none) (hblock : a.block = none)
    (hlast : a.last = false) (hunread : a.unread = content.drop start.getRestSize.toNat)
    (hreports : a.reports = 0) :
    ∃ t es, transfer.step (.disk c) s = .ok (t, es) ∧ Relays start path content a t es := by
  obtain ⟨haction, rfl, hoffset⟩ := hask
  obtain ⟨hreads, hseeks, hopens⟩ := hfair
  obtain ⟨n, hn, hunused⟩ := hopens start (hqueue ▸ List.mem_singleton_self start) haction
  obtain ⟨hinfo, hcontents, hopened, hquiet⟩ :=
    openReadonly_at (w := s.disk.construct start) h.file hn hunused hseeks hoffset ⟨rfl, rfl⟩ rfl
  cases hblk : DiskFsm.runRetrStart c (s.disk.construct start) with
  | mk action v =>
    obtain ⟨u, block, rest, hpost, hread, hend, hfd, hfiles, hloaded, hnotify, hquietly⟩ :=
      block_posted (by rw [hinfo]) hopened (by rw [hcontents]; exact h.file) hreads hquiet hblk
    have hfd : u.info.fd = start.ctrlFd := hfd.trans (by rw [hinfo]; rfl)
    have hnotify : notifications u.effects = [{fd := start.ctrlFd, buf := block, len := block.length}] := by
      rw [hnotify, hinfo]
      rfl
    have hroll : DiskFsm.rollStateMachine c start s.disk = .ok (s.disk.started u) := by
      unfold DiskFsm.rollStateMachine
      rw [haction]
      dsimp only
      rw [hblk]
      dsimp only
      rw [hpost]
      rfl
    refine ⟨_, _, step_disk hqueue hroll, ?_⟩
    show Relays start _ content a _ (posts u.effects)
    rw [hquietly]
    refine relays_load rfl ?_ hq ⟨u.info, ?_, hfd, hloaded⟩ ?_ h.client hblock hlast (hunread.trans hread) hend
      hreports
    · show s.pipe ++ notifications u.effects = _
      rw [hpipe, hnotify, List.nil_append]
    · show Registry.insert s.disk.infos u.info.fd u.info start.ctrlFd = some u.info
      rw [hfd, Registry.insert_free hfree]
    · show u.files.content _ = some content
      rw [hfiles, hcontents]
      exact h.file

/-- A finished download is reported, and its object deleted. -/
theorem finish_over {m : DiskManager} {fd : Fd} {d : DiskInfo} (hd : m.infos fd = some d) {r : DiskHandled}
    (hr : DiskHandled.finish fd {manager := m} = r) :
    r.manager.infos fd = none ∧ r.manager.files.content = m.files.content ∧ notifications r.effects = [] ∧
      posts r.effects = [.posted {fd := fd, action := .transOk}] := by
  have hdel : m.delDisk fd =
      ({m with
          infos := Registry.erase m.infos fd
          files := (DiskWork.closeFileHandle {info := d, files := m.files}).files },
        (DiskWork.closeFileHandle {info := d, files := m.files}).effects) := by
    unfold DiskManager.delDisk
    rw [show m.seekDisk fd = some d from hd]
  have hclose : (DiskWork.closeFileHandle {info := d, files := m.files}).files.content = m.files.content ∧
      Silent (DiskWork.closeFileHandle {info := d, files := m.files}).effects := by
    unfold DiskWork.closeFileHandle
    split <;> exact ⟨rfl, rfl, rfl⟩
  rw [← hr, DiskHandled.finish, DiskHandled.thenDelete]
  dsimp only
  rw [hdel]
  refine ⟨Registry.erase_same _ _, hclose.1, ?_, ?_⟩
  · rw [notifications_append, hclose.2.1]
    rfl
  · rw [posts_append, hclose.2.2]
    rfl

section
variable {d : DiskInfo} {c : DiskCalls} (h : Downloads start path content s a)
  (hqueue : s.queue = [{ctrlFd := start.ctrlFd, action := .writeDone}]) (hpipe : s.pipe = [])
  (hq : s.client.dataWriteQ = []) (hd : s.disk.infos start.ctrlFd = some d)
  (hblock : a.block = none) (hreports : a.reports = 0)
include h hqueue hpipe hq hd hblock hreports

/-- A block written away brings the next one. -/
theorem relays_next (hreads : c.reads ≠ none) (hdfd : d.fd = start.ctrlFd) (hlast : a.last = false)
    (haction : d.dataAction = .retrLoading) {n pos : Nat} (hhandle : d.fileHandle = some n)
    (hopen : s.disk.files.opened n = some {path := path, pos := pos}) (hunread : content.drop pos = a.unread) :
    ∃ t es, transfer.step (.disk c) s = .ok (t, es) ∧ Relays start path content a t es := by
  cases hblk : DiskFsm.runRetrLoading c {info := d, files := s.disk.files} with
  | mk action v =>
    obtain ⟨u, block, rest, hpost, hread, hend, hfd, hfiles, hnext, hnotify, hquietly⟩ :=
      block_posted hhandle hopen h.file hreads ⟨rfl, rfl⟩ hblk
    have hfd : u.info.fd = start.ctrlFd := hfd.trans hdfd
    have hnotify : notifications u.effects = [{fd := start.ctrlFd, buf := block, len := block.length}] := by
      rw [hnotify]
      exact congrArg (fun fd => [DataNotify.mk fd block block.length]) hdfd
    have hroll : DiskFsm.rollStateMachine c {ctrlFd := start.ctrlFd, action := .writeDone} s.disk =
        .ok (s.disk.worked start.ctrlFd u) := by
      rw [roll_writeDone hd, DiskFsm.writeDone, haction]
      dsimp only
      rw [hblk]
      dsimp only
      rw [hpost]
      rfl
    refine ⟨_, _, step_disk hqueue hroll, ?_⟩
    show Relays start path content a _ (posts u.effects)
    rw [hquietly]
    refine relays_load rfl ?_ hq ⟨u.info, Registry.modify_same _ _ _, hfd, hnext⟩ ?_ h.client hblock hlast
      (hunread.symm.trans hread) hend hreports
    · show s.pipe ++ notifications u.effects = _
      rw [hpipe, hnotify, List.nil_append]
    · show u.files.content _ = some content
      rw [hfiles]
      exact h.file

/-- The last one brings the report. -/
theorem relays_over (hlast : a.last = true) (haction : d.dataAction = .retrFinish) :
    ∃ t es, transfer.step (.disk c) s = .ok (t, es) ∧ Relays start path content a t es := by
  cases hfin : DiskHandled.finish start.ctrlFd {manager := s.disk} with
  | mk ret manager effects =>
    obtain ⟨hgone, hfiles, hnotify, hposts⟩ := finish_over hd hfin
    have hroll : DiskFsm.rollStateMachine c {ctrlFd := start.ctrlFd, action := .writeDone} s.disk =
        .ok {ret := ret, manager := manager, effects := effects} := by
      rw [roll_writeDone hd, DiskFsm.writeDone, haction]
      dsimp only
      rw [hfin]
    have hone : reportsOf start.ctrlFd (posts effects) = 1 := by
      rw [hposts]
      simp [reportsOf, TransferEffect.reports]
    refine ⟨_, _, step_disk hqueue hroll, _, .report a hblock hlast hreports, ⟨?_, ?_, h.client⟩, ?_, ?_⟩
    · refine .reported rfl ?_ hq hgone hblock rfl
      show s.pipe ++ notifications effects = _
      rw [hpipe, hnotify]
      rfl
    · show manager.files.content _ = some content
      rw [hfiles]
      exact h.file
    · show a.delivered = a.delivered ++ bytesOf (posts effects)
      rw [hposts]
      exact (List.append_nil _).symm
    · show 1 = a.reports + reportsOf start.ctrlFd (posts effects)
      rw [hone, hreports]

end

/-- The stage is told by the queues, the object and the handle it is read through. -/
theorem Stage.same {t : Transfer} (h : Stage start path content s a) (hqueue : t.queue = s.queue)
    (hpipe : t.pipe = s.pipe) (hq : t.client.dataWriteQ = s.client.dataWriteQ)
    (hinfos : t.disk.infos start.ctrlFd = s.disk.infos start.ctrlFd)
    (hopened : ∀ d n, s.disk.infos start.ctrlFd = some d → d.dataAction = .retrLoading → d.fileHandle = some n →
      t.disk.files.opened n = s.disk.files.opened n) : Stage start path content t a := by
  have hready : Ready start.ctrlFd path content s.disk a.unread a.last →
      Ready start.ctrlFd path content t.disk a.unread a.last := by
    intro hready
    obtain ⟨d, hd, hfd, hloaded⟩ := hready
    refine ⟨d, hinfos.trans hd, hfd, ?_⟩
    rcases hloaded with ⟨hlast, haction, n, pos, hhandle, hopen, hunread⟩ | hdone
    · exact Or.inl ⟨hlast, haction, n, pos, hhandle, (hopened d n hd haction hhandle).trans hopen, hunread⟩
    · exact Or.inr hdone
  cases h with
  | asked hqueue' hpipe' hq' hfree hblock hlast hunread hreports =>
    exact .asked (hqueue.trans hqueue') (hpipe.trans hpipe') (hq.trans hq') (hinfos.trans hfree) hblock hlast
      hunread hreports
  | posted block hqueue' hpipe' hq' hr hblock hreports =>
    exact .posted block (hqueue.trans hqueue') (hpipe.trans hpipe') (hq.trans hq') (hready hr) hblock hreports
  | queued block offset hqueue' hpipe' hq' hoffset hr hblock hreports =>
    exact .queued block offset (hqueue.trans hqueue') (hpipe.trans hpipe') (hq.trans hq') hoffset (hready hr)
      hblock hreports
  | written hqueue' hpipe' hq' hr hblock hreports =>
    exact .written (hqueue.trans hqueue') (hpipe.trans hpipe') (hq.trans hq') (hready hr) hblock hreports
  | reported hqueue' hpipe' hq' hfree hblock hreports =>
    exact .reported (hqueue.trans hqueue') (hpipe.trans hpipe') (hq.trans hq') (hinfos.trans hfree) hblock hreports

/-- The disk thread. -/
theorem relays_disk (hask : Asks start path) (h : Downloads start path content s a) {c : DiskCalls}
    (hfair : Fair start.ctrlFd path s (.disk c)) :
    ∃ t es, transfer.step (.disk c) s = .ok (t, es) ∧ Relays start path content a t es := by
  have hidle : s.queue = [] →
      ∃ t es, transfer.step (.disk c) s = .ok (t, es) ∧ Relays start path content a t es := by
    intro hqueue
    exact ⟨s, [], by simp only [transfer, hqueue], relays_stay h⟩
  cases h.stage with
  | asked hqueue hpipe hq hfree hblock hlast hunread hreports =>
    exact relays_start hask h hfair hqueue hpipe hq hfree hblock hlast hunread hreports
  | posted block hqueue => exact hidle hqueue
  | queued block offset hqueue => exact hidle hqueue
  | written hqueue hpipe hq hready hblock hreports =>
    obtain ⟨d, hd, hdfd, hloaded⟩ := hready
    rcases hloaded with ⟨hlast, haction, n, pos, hhandle, hopen, hunread⟩ | ⟨hlast, haction⟩
    · exact relays_next h hqueue hpipe hq hd hblock hreports hfair.1 hdfd hlast haction hhandle hopen hunread
    · exact relays_over h hqueue hpipe hq hd hblock hreports hlast haction
  | reported hqueue => exact hidle hqueue

/-- The event loop takes a notification. -/
theorem relays_notify (h : Downloads start path content s a) :
    ∃ t es, transfer.step .notify s = .ok (t, es) ∧ Relays start path content a t es := by
  have hidle : s.pipe = [] →
      ∃ t es, transfer.step .notify s = .ok (t, es) ∧ Relays start path content a t es := by
    intro hpipe
    exact ⟨s, [], by simp only [transfer, hpipe], relays_stay h⟩
  cases h.stage with
  | asked _ hpipe => exact hidle hpipe
  | posted block hqueue hpipe hq hready hblock hreports =>
    refine ⟨{s with
        pipe := []
        client := s.client.onNotifyDataWrite {fd := start.ctrlFd, buf := block, len := block.length} }, [], ?_, ?_⟩
    · simp [transfer, hpipe, h.client]
    · refine relays_stay ⟨.queued block 0 hqueue rfl ?_ (Nat.zero_le _) hready hblock hreports, h.file, h.client⟩
      show s.client.dataWriteQ ++ _ = _
      rw [hq]
      rfl
  | queued block offset _ hpipe => exact hidle hpipe
  | written _ hpipe => exact hidle hpipe
  | reported _ hpipe => exact hidle hpipe

/-- A write on a queued block takes some of the bytes left, and the block is over when it
takes them all. -/
theorem dataWrite_queued {client : TcpClient} {block : List Char} {offset : Nat}
    (hq : client.dataWriteQ = [{buf := block, len := block.length, offset := offset}])
    (hoffset : offset ≤ block.length) (count : Nat) :
    (∃ len, offset + len < block.length ∧ client.dataWrite (.wrote count) =
        ({client with
            dataWriteQ := [{buf := block, len := block.length, offset := (offset + len : Nat)}]
            dataWritePending := true },
          [.wrote ((block.drop offset).take len)])) ∨
      client.dataWrite (.wrote count) =
        ({client with dataWriteQ := [], dataWritePending := false},
          [.wrote (block.drop offset), .postToDisk {ctrlFd := client.ctrlSocket, action := .writeDone}]) := by
  have hleft : ((block.length : Int) - (offset : Int)).toNat = block.length - offset := by omega
  unfold TcpClient.dataWrite
  dsimp only
  rw [hq]
  dsimp only
  rw [hleft, Int.toNat_natCast]
  by_cases hmore : offset + min count (block.length - offset) < block.length
  · rw [if_pos (by omega)]
    exact Or.inl ⟨_, hmore, rfl⟩
  · have hall : (block.drop offset).take (min count (block.length - offset)) = block.drop offset := by
      apply List.take_of_length_le
      rw [List.length_drop]
      omega
    rw [if_neg (by omega), hall]
    exact Or.inr rfl

theorem step_writable {r : WriteResult} (hpending : s.client.dataWritePending = true) {client : TcpClient}
    {es : List TcpEffect} (hwrite : s.client.dataWrite r = (client, es)) :
    transfer.step (.writable r) s =
      .ok ({s with client := client, queue := s.queue ++ es.filterMap TcpEffect.task?},
        es.filterMap TcpEffect.wrote?) := by
  simp only [transfer, hpending, if_true, hwrite]

/-- The data socket is writable. -/
theorem relays_writable (h : Downloads start path content s a) {r : WriteResult}
    (hfair : Fair start.ctrlFd path s (.writable r)) :
    ∃ t es, transfer.step (.writable r) s = .ok (t, es) ∧ Relays start path content a t es := by
  cases hpending : s.client.dataWritePending with
  | false => exact ⟨s, [], by simp [transfer, hpending], relays_stay h⟩
  | true =>
    have hidle : s.client.dataWriteQ = [] →
        ∃ t es, transfer.step (.writable r) s = .ok (t, es) ∧ Relays start path content a t es := by
      intro hq
      refine ⟨{s with client := {s.client with dataWritePending := false}, queue := s.queue ++ []}, [], ?_, ?_⟩
      · simp [transfer, hpending, TcpClient.dataWrite, hq]
      · refine relays_stay ⟨?_, h.file, h.client⟩
        exact h.stage.same (List.append_nil _) rfl rfl rfl fun _ _ _ _ _ => rfl
    cases h.stage with
    | asked _ _ hq => exact hidle hq
    | posted block _ _ hq => exact hidle hq
    | queued block offset hqueue hpipe hq hoffset hready hblock hreports =>
      cases r with
      | failed => exact absurd rfl hfair
      | again =>
        refine ⟨{s with client := {s.client with dataWritePending := true}, queue := s.queue ++ []}, [], ?_, ?_⟩
        · simp [transfer, hpending, TcpClient.dataWrite, hq]
        · refine relays_stay ⟨?_, h.file, h.client⟩
          exact h.stage.same (List.append_nil _) rfl rfl rfl fun _ _ _ _ _ => rfl
      | wrote count =>
        rcases dataWrite_queued hq hoffset count with ⟨len, hmore, hwrite⟩ | hwrite
        · refine ⟨_, _, step_writable hpending hwrite, _, .write a _ len hblock,
            ⟨?_, h.file, h.client⟩, ?_, rfl⟩
          · refine .queued block (offset + len) ?_ hpipe rfl (Nat.le_of_lt hmore) hready ?_ hreports
            · rw [hqueue]
              rfl
            · rw [List.drop_drop]
          · exact congrArg (a.delivered ++ ·) (List.append_nil _).symm
        · refine ⟨_, _, step_writable hpending hwrite, _, .finish a _ hblock,
            ⟨?_, h.file, h.client⟩, ?_, rfl⟩
          · refine .written ?_ hpipe rfl hready rfl hreports
            rw [hqueue, h.client]
            rfl
          · exact congrArg (a.delivered ++ ·) (List.append_nil _).symm
    | written _ _ hq => exact hidle hq
    | reported _ _ hq => exact hidle hq

/-- Whatever happens next, the download goes on relaying. -/
theorem relays_step (hask : Asks start path) (h : Downloads start path content s a) {i : TransferEvent}
    (hfair : Fair start.ctrlFd path s i) :
    ∃ t es, transfer.step i s = .ok (t, es) ∧ Relays start path content a t es := by
  cases i with
  | disk c => exact relays_disk hask h hfair
  | notify => exact relays_notify h
  | writable r => exact relays_writable h hfair
  | elsewhere m =>
    obtain ⟨hinfos, hfile, hopened⟩ := hfair
    have hstage : Stage start path content {s with disk := m} a := h.stage.same rfl rfl rfl hinfos hopened
    exact ⟨{s with disk := m}, [], rfl, relays_stay ⟨hstage, hfile.trans h.file, h.client⟩⟩

end

/-! ### Runs -/

abbrev TransferEdge := Edge TransferEvent Transfer TransferEffect

/-- The effects of the steps taken. -/
def effectsOf (past : List TransferEdge) : List TransferEffect := past.flatMap Edge.effects

/-- A download has been asked for: the start task is in the queue, the file is there, and
nothing is left of an earlier transfer. -/
structure Requested (start : DiskTask) (content : List Char) (s : Transfer) : Prop where
  action : start.action = .retrStart
  nonneg : 0 ≤ start.restSize
  lt : start.restSize < 2 ^ 31
  file : s.disk.files.content (strncpy pathSize start.curPath) = some content
  free : s.disk.seekDisk start.ctrlFd = none
  queue : s.queue = [start]
  pipe : s.pipe = []
  client : s.client.ctrlSocket = start.ctrlFd
  dataWriteQ : s.client.dataWriteQ = []

/-- What has been sent of the source, what is queued, and what has been reported. -/
structure DeliversExactly (fd : Fd) (source : List Char) (past : List TransferEdge) (s : Transfer) : Prop where
  sent : bytesOf (effectsOf past) <+: source
  queued : s.client.dataWriteQ.length ≤ 1
  once : reportsOf fd (effectsOf past) ≤ 1
  complete : reportsOf fd (effectsOf past) ≠ 0 →
    bytesOf (effectsOf past) = source ∧ s.disk.seekDisk fd = none

/-- The steps so far are those of a relay of the source. -/
def Follows (start : DiskTask) (path content source : List Char) (past : List TransferEdge) (s : Transfer) :
    Prop :=
  ∃ a : Relay Char, a.Exact source ∧ Downloads start path content s a ∧
    a.delivered = bytesOf (effectsOf past) ∧ a.reports = reportsOf start.ctrlFd (effectsOf past)

section
variable {start : DiskTask} {path content source : List Char} {past : List TransferEdge} {s : Transfer}

theorem follows_step (hask : Asks start path) (h : Follows start path content source past s) {i : TransferEvent}
    (hfair : Fair start.ctrlFd path s i) :
    ∃ t es, transfer.step i s = .ok (t, es) ∧ Follows start path content source (past ++ [⟨s, i, t, es⟩]) t := by
  obtain ⟨a, hexact, hdownloads, hdelivered, hreports⟩ := h
  obtain ⟨t, es, hi, b, hstep, hb, hbytes, hcount⟩ := relays_step hask hdownloads hfair
  refine ⟨t, es, hi, b, Relay.exact_step hstep hexact, hb, ?_, ?_⟩
  · rw [hbytes, hdelivered, effectsOf, effectsOf, bytesOf, bytesOf, bytesOf, List.flatMap_append, List.flatMap_append]
    simp
  · rw [hcount, hreports, effectsOf, effectsOf, reportsOf, reportsOf, reportsOf, List.flatMap_append,
      List.countP_append]
    simp

theorem delivers_of_follows (h : Follows start path content source past s) :
    DeliversExactly start.ctrlFd source past s := by
  obtain ⟨a, hexact, hdownloads, hdelivered, hreports⟩ := h
  refine ⟨hdelivered ▸ hexact.delivered_front, ?_, hreports ▸ hexact.once, fun hne => ?_⟩
  · cases hdownloads.stage with
    | asked _ _ hq => rw [hq]; exact Nat.zero_le 1
    | posted _ _ _ hq => rw [hq]; exact Nat.zero_le 1
    | queued _ _ _ _ hq => rw [hq]; exact Nat.le_refl 1
    | written _ _ hq => rw [hq]; exact Nat.zero_le 1
    | reported _ _ hq => rw [hq]; exact Nat.zero_le 1
  · -- the end is reported in the last stage alone
    have ha : a.reports ≠ 0 := hreports ▸ hne
    refine ⟨hdelivered ▸ hexact.complete ha, ?_⟩
    cases hdownloads.stage with
    | asked _ _ _ _ _ _ _ hzero => exact absurd hzero ha
    | posted _ _ _ _ _ _ hzero => exact absurd hzero ha
    | queued _ _ _ _ _ _ _ _ hzero => exact absurd hzero ha
    | written _ _ _ _ _ hzero => exact absurd hzero ha
    | reported _ _ _ hfree => exact hfree

end

/-- **Downloads are exact.** From the request on every step returns, whatever the reads and
writes move. The bytes written are always the beginning of the file from the offset on,
one buffer at most is queued, and the end is reported once at most, when everything has
been written and the object is gone. -/
theorem download_exact (start : DiskTask) (content : List Char) (s : Transfer) (hs : Requested start content s)
    (events : List TransferEvent)
    (hfair : ∀ a ∈ transfer.attempts s events, Fair start.ctrlFd (strncpy pathSize start.curPath) a.1 a.2) :
    (transfer.trace s events).length = events.length ∧
      ∀ past e rest, transfer.trace s events = past ++ e :: rest →
        DeliversExactly start.ctrlFd (content.drop start.restSize.toNat) (past ++ [e]) e.after := by
  have hoffset : start.getRestSize = start.restSize := toInt_of_lt hs.nonneg hs.lt
  have hask : Asks start (strncpy pathSize start.curPath) :=
    ⟨hs.action, rfl, by rw [hoffset]; exact hs.nonneg⟩
  have hfirst : Follows start (strncpy pathSize start.curPath) content (content.drop start.restSize.toNat) [] s := by
    refine ⟨.start _, Relay.exact_start _, ⟨?_, hs.file, hs.client⟩, rfl, rfl⟩
    exact .asked hs.queue hs.pipe hs.dataWriteQ hs.free rfl rfl (by rw [hoffset]; rfl) rfl
  obtain ⟨hlength, hrun⟩ := Machine.history_returns _ [] hfirst
    (fun past s i h hf => follows_step hask h hf) hfair
  exact ⟨hlength, fun past e rest h => delivers_of_follows (hrun past e rest h)⟩

/-- Two bytes of a file, from its second on, are asked for. -/
def requested : Transfer where
  disk := .idle {content := fun p => if p = "/data/a".toList then some ['x', 'y', 'z'] else none, opened := fun _ => none}
  queue := [.ofPath 7 .retrStart "/data/a".toList 1]
  pipe := []
  client := {ctrlSocket := 7, dataWriteQ := [], dataWritePending := false}

/-- The block goes out in two writes, with an interruption in between; then the empty one. -/
def twoWrites : List TransferEvent :=
  [.disk {opens := some 5, reads := some 9}, .notify, .writable (.wrote 1), .writable .again, .writable (.wrote 1),
    .disk {reads := some 9}, .notify, .writable (.wrote 0), .disk {reads := some 9}]

theorem download_exact_twoWrites :
    (transfer.trace requested twoWrites).length = 9 ∧
      ∀ past e rest, transfer.trace requested twoWrites = past ++ e :: rest →
        DeliversExactly 7 ['y', 'z'] (past ++ [e]) e.after := by
  refine download_exact (.ofPath 7 .retrStart "/data/a".toList 1) ['x', 'y', 'z'] requested
    ⟨rfl, by decide, by decide, by decide, rfl, rfl, rfl, rfl, rfl⟩ twoWrites ?_
  refine List.forall_mem_cons.mpr ⟨⟨by decide, rfl, fun _ _ _ => ⟨5, rfl, rfl⟩⟩, ?_⟩
  refine List.forall_mem_cons.mpr ⟨trivial, List.forall_mem_cons.mpr ⟨nofun, List.forall_mem_cons.mpr ⟨nofun,
    List.forall_mem_cons.mpr ⟨nofun, ?_⟩⟩⟩⟩
  refine List.forall_mem_cons.mpr ⟨⟨by decide, rfl, List.forall_mem_singleton.mpr nofun⟩, ?_⟩
  refine List.forall_mem_cons.mpr ⟨trivial, List.forall_mem_cons.mpr ⟨nofun, ?_⟩⟩
  exact List.forall_mem_cons.mpr ⟨⟨by decide, rfl, List.forall_mem_singleton.mpr nofun⟩, fun _ h => nomatch h⟩

end HyperTransfer
