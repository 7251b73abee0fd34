import HyperTransfer.Disk.Steps

/-! What the report of an upload says about the file.

Each task's bytes are written behind those of the tasks before it, as far as `write` takes
them, from the position the start has reached, and only the last `write` is looked at. They go
to the file of the upload, or to what an object left for the descriptor has open. The report
says that the file holds the whole upload exactly where what the writes have taken, put over
what was there, makes it the whole upload (`stored_iff`). -/
namespace HyperTransfer
open CString

/-- The tasks of an upload, in order, with what the calls of each bring. -/
structure Upload where
  fd : Fd
  start : DiskInput
  chunks : List DiskInput
  last : DiskInput
  start_task : start.task.action = .storStart ∧ start.task.ctrlFd = fd
  chunk_tasks : ∀ i ∈ chunks, i.task.action = .storing ∧ i.task.ctrlFd = fd
  last_task : last.task.action = .storOk ∧ last.task.ctrlFd = fd

/-- The bytes of a task that its `write` takes; one that fails takes none. -/
def DiskInput.taken (i : DiskInput) : List Char := i.task.payload.take (i.calls.writes.getD 0)

namespace Upload

def inputs (u : Upload) : List DiskInput := u.start :: (u.chunks ++ [u.last])

def path (u : Upload) : List Char := strncpy pathSize u.start.task.curPath

/-- Where the upload is to start in the file. -/
def offset (u : Upload) : Nat := u.start.task.restSize.toNat

/-- Where it does: the offset is passed through an `int`, and the seek may fail. -/
def reached (u : Upload) : Nat := if u.start.calls.seeks then u.start.task.getRestSize.toNat else 0

/-- What the tasks carry. -/
def payloads (u : Upload) : List Char := (u.chunks ++ [u.last]).flatMap fun i => i.task.payload

/-- What the writes take of it. -/
def stored (u : Upload) : List Char := (u.chunks ++ [u.last]).flatMap DiskInput.taken

/-- The number the file is opened under, if the open succeeds: it creates the file where the
upload starts at its beginning. -/
def opened (m : DiskManager) (u : Upload) : Option Nat :=
  (m.files.openFile u.path (u.start.task.getRestSize = 0) u.start.calls.opens).1

/-- What the file held before. -/
def old (m : DiskManager) (u : Upload) : List Char := (m.files.content u.path).getD []

/-- What the files hold when the start is done. -/
def begun (m : DiskManager) (u : Upload) : List Char → Option (List Char) :=
  if (u.opened m).isSome then Function.update m.files.content u.path (some (u.old m)) else m.files.content

/-- The number the tasks write to: that of the object left for the descriptor, if there is one. -/
def handle (m : DiskManager) (u : Upload) : Option Nat :=
  match m.seekDisk u.fd with
  | none => u.opened m
  | some d => d.fileHandle

/-- What a number is open on when the start is done. -/
def openedOn (m : DiskManager) (u : Upload) (n : Nat) : Option (Description (List Char)) :=
  if u.opened m = some n then some {path := u.path, pos := u.reached} else m.files.opened n

/-- The session is told that the transfer is over. -/
def Reported (m : DiskManager) (u : Upload) : Prop :=
  ∃ e ∈ diskManager.trace m u.inputs, .postToSession {fd := u.fd, action := .transOk} ∈ e.effects

/-- The file holds, from the start on, the whole upload. -/
def Stored (m : DiskManager) (u : Upload) : Prop :=
  ∃ bytes, (diskManager.final m u.inputs).files.content u.path = some bytes ∧ bytes.drop u.offset = u.payloads

/-- Where the tasks have a file to write to and the last write takes anything, what the writes
took, put over what their file holds where they start, makes the file of the upload the whole
upload from the offset on. -/
def Complete (m : DiskManager) (u : Upload) : Prop :=
  ∀ n o held, u.handle m = some n → u.openedOn m n = some o → u.begun m o.path = some held → u.last.taken ≠ [] →
    ∃ bytes, Function.update (u.begun m) o.path (some (Files.splice '\x00' held o.pos u.stored)) u.path = some bytes ∧
      bytes.drop u.offset = u.payloads

end Upload

section
variable {m : DiskManager} {fd : Fd} {n start : Nat} {path old put : List Char} {i : DiskInput}
  {base : List Char → Option (List Char)}

/-- The object found for a descriptor has put bytes into the file its handle is open on. -/
def Putting (m : DiskManager) (fd : Fd) (n : Nat) (path : List Char) (start : Nat)
    (base : List Char → Option (List Char)) (old put : List Char) : Prop :=
  ∃ d, m.infos fd = some d ∧ d.fileHandle = some n ∧ Files.Puts '\x00' m.files n path start base old put

/-- It has nothing to write to. -/
def Closed (m : DiskManager) (fd : Fd) : Prop :=
  ∃ d, m.infos fd = some d ∧ ∀ n, d.fileHandle = some n → m.files.Shut n

theorem writeToDisk_closed {w : DiskWork} (h : ∀ n, w.info.fileHandle = some n → w.files.Shut n) :
    w.writeToDisk i.calls i.task = (-1, w) := by
  unfold DiskWork.writeToDisk
  cases hhandle : w.info.fileHandle with
  | none => rfl
  | some n =>
    dsimp only
    rw [Files.write_shut '\x00' (h n hhandle)]

theorem closeFileHandle_closed (w : DiskWork) :
    w.closeFileHandle.info = w.info ∧ (∀ n, w.info.fileHandle = some n → w.closeFileHandle.files.Shut n) ∧
      ∀ t, .postToSession t ∈ w.closeFileHandle.effects → .postToSession t ∈ w.effects := by
  unfold DiskWork.closeFileHandle
  cases hhandle : w.info.fileHandle with
  | none => exact ⟨rfl, nofun, fun t ht => ht⟩
  | some n =>
    refine ⟨rfl, fun k hk => ?_, fun t ht => by simpa using ht⟩
    cases hk
    exact Files.close_shut _ _

theorem writeToDisk_puts {w : DiskWork} (hhandle : w.info.fileHandle = some n)
    (hputs : Files.Puts '\x00' w.files n path start base old put) :
    ∃ ret v, w.writeToDisk i.calls i.task = (ret, v) ∧ v.info = w.info ∧
      Files.Puts '\x00' v.files n path start base old (put ++ i.taken) ∧ (ret ≠ 0 ∧ ret ≠ -1 ↔ i.taken ≠ []) ∧
      ∀ t, .postToSession t ∈ v.effects → .postToSession t ∈ w.effects := by
  obtain ⟨hret, hafter⟩ := Files.write_puts '\x00' hputs i.task.payload i.calls.writes
  unfold DiskWork.writeToDisk
  rw [hhandle]
  dsimp only
  cases hwrite : w.files.write '\x00' n i.task.payload i.calls.writes with
  | mk count files =>
    rw [hwrite] at hret hafter
    have htaken : (i.taken ≠ []) ↔ count.isSome = true ∧ count ≠ some 0 := by
      dsimp only at hret
      rw [hret, DiskInput.taken]
      cases i.calls.writes with
      | none => simp
      | some k => simp [← List.length_eq_zero_iff, List.length_take]
    cases count with
    | none =>
      refine ⟨_, _, rfl, rfl, hafter, ?_, fun t ht => ht⟩
      rw [htaken]
      simp
    | some k =>
      refine ⟨_, _, rfl, rfl, hafter, ?_, fun t ht => ?_⟩
      · rw [htaken]
        simp
      · simpa using ht

theorem writeToDisk_spares {w : DiskWork} (hhandle : w.info.fileHandle = some n) {k : Nat} (hk : k ≠ n) :
    (w.writeToDisk i.calls i.task).2.files.opened k = w.files.opened k := by
  unfold DiskWork.writeToDisk
  rw [hhandle]
  dsimp only
  have hspares := Files.write_spares '\x00' w.files hk i.task.payload i.calls.writes
  split
  · rename_i files hwrite
    rw [hwrite] at hspares
    exact hspares
  · rename_i count files hwrite
    rw [hwrite] at hspares
    exact hspares

/-- Deleting the object of a descriptor closes its handle and frees its entry. -/
theorem delDisk_found_closed {d : DiskInfo} (hd : m.infos fd = some d) (hhandle : d.fileHandle = some n) :
    m.delDisk fd = ({m with infos := Registry.erase m.infos fd, files := m.files.close n}, [.closed n]) := by
  unfold DiskManager.delDisk DiskManager.seekDisk
  rw [hd]
  dsimp only
  unfold DiskWork.closeFileHandle
  dsimp only
  rw [hhandle]
  rfl

/-- A task of an upload on the object found for it. -/
theorem step_found {d : DiskInfo} (hd : m.infos fd = some d) (hfd : i.task.ctrlFd = fd) {h : DiskHandled}
    (htask : (i.task.action = .storing ∧ DiskFsm.storing i.calls i.task m d = h) ∨
      (i.task.action = .storOk ∧ DiskFsm.storOk i.calls i.task m d = h)) :
    diskManager.step i m = .ok (h.manager, h.effects) := by
  apply step_of_roll
  unfold DiskFsm.rollStateMachine DiskManager.seekDisk
  rcases htask with ⟨haction, hh⟩ | ⟨haction, hh⟩
  · rw [haction, hfd, hd, ← hh]
  · rw [haction, hfd, hd, ← hh]

theorem worked_found (hfd : i.task.ctrlFd = fd) (w : DiskWork) (ret : Int) :
    (m.worked i.task.ctrlFd w ret).manager.infos fd = some w.info := by
  rw [← hfd]
  exact Registry.modify_same m.infos i.task.ctrlFd w.info

/-- A chunk is put behind those before it, and nothing is reported. -/
theorem storing_puts (h : Putting m fd n path start base old put) (hi : i.task.action = .storing ∧ i.task.ctrlFd = fd) :
    ∃ t es, diskManager.step i m = .ok (t, es) ∧ Putting t fd n path start base old (put ++ i.taken) ∧
      (∀ k, k ≠ n → t.files.opened k = m.files.opened k) ∧ ∀ s, .postToSession s ∉ es := by
  obtain ⟨d, hd, hhandle, hputs⟩ := h
  obtain ⟨haction, hfd⟩ := hi
  have hspares (k : Nat) (hk : k ≠ n) :=
    writeToDisk_spares (i := i) (w := {info := d, files := m.files : DiskWork}.setDataAction .storing) hhandle hk
  obtain ⟨ret, v, hwrite, hinfo, hafter, _, hsilent⟩ :=
    writeToDisk_puts (i := i) (w := {info := d, files := m.files : DiskWork}.setDataAction .storing) hhandle hputs
  have hkept : v.info.fileHandle = some n := by
    rw [hinfo]
    exact hhandle
  refine ⟨_, _, step_found hd hfd (Or.inl ⟨haction, rfl⟩), ?_⟩
  unfold DiskFsm.storing DiskFsm.runStorLoading
  rw [hwrite] at hspares ⊢
  dsimp only
  split
  · exact ⟨⟨_, worked_found hfd _ _, hkept, hafter⟩, hspares, fun s hs => nomatch hsilent s hs⟩
  · split
    · exact ⟨⟨_, worked_found hfd _ _, hkept, hafter⟩, hspares, fun s hs => nomatch hsilent s hs⟩
    · exact ⟨⟨_, worked_found hfd _ _, hkept, hafter⟩, hspares, fun s hs => nomatch hsilent s hs⟩

/-- The last chunk is reported, once, exactly if anything of it is taken; then the object is
deleted and its handle closed. -/
theorem storOk_puts (h : Putting m fd n path start base old put) (hi : i.task.action = .storOk ∧ i.task.ctrlFd = fd) :
    ∃ t es, diskManager.step i m = .ok (t, es) ∧
      es.count (.postToSession {fd := fd, action := .transOk}) = (if i.taken = [] then 0 else 1) ∧
      t.files.content = Function.update base path (some (Files.splice '\x00' old start (put ++ i.taken))) ∧
      (i.taken ≠ [] → t.infos fd = none ∧ t.files.opened n = none) ∧
      ∀ k, k ≠ n → t.files.opened k = m.files.opened k := by
  obtain ⟨d, hd, hhandle, hputs⟩ := h
  obtain ⟨haction, hfd⟩ := hi
  have hspares (k : Nat) (hk : k ≠ n) :=
    writeToDisk_spares (i := i) (w := {info := d, files := m.files : DiskWork}.setDataAction .storing) hhandle hk
  obtain ⟨ret, v, hwrite, hinfo, hafter, hret, hsilent⟩ :=
    writeToDisk_puts (i := i) (w := {info := d, files := m.files : DiskWork}.setDataAction .storing) hhandle hputs
  have hkept : v.info.fileHandle = some n := by
    rw [hinfo]
    exact hhandle
  have hclose : v.closeFileHandle = {v with files := v.files.close n, effects := v.effects ++ [.closed n]} := by
    unfold DiskWork.closeFileHandle
    rw [hkept]
  have hquiet (s : SessionTask) : .postToSession s ∉ v.effects ++ [.closed n] := by
    intro hs
    rcases List.mem_append.mp hs with hs | hs
    · exact nomatch hsilent s hs
    · exact nomatch List.mem_singleton.mp hs
  have hnow : (v.files.close n).content = _ := hafter.content
  rw [hwrite] at hspares
  have hothers (k : Nat) (hk : k ≠ n) : (v.files.close n).opened k = m.files.opened k :=
    (Files.close_spares _ hk).trans (hspares k hk)
  refine ⟨_, _, step_found hd hfd (Or.inr ⟨haction, rfl⟩), ?_⟩
  unfold DiskFsm.storOk DiskFsm.runStorFinish
  rw [hwrite]
  dsimp only
  rw [hclose]
  by_cases hmore : i.taken = []
  · have hstops : ret = 0 ∨ ret = -1 := by
      by_contra hneither
      exact hret.mp ⟨fun h => hneither (Or.inl h), fun h => hneither (Or.inr h)⟩ hmore
    rw [if_pos hmore]
    have hcount := List.count_eq_zero_of_not_mem (hquiet {fd := fd, action := .transOk})
    rcases hstops with hzero | hfailed
    · rw [if_pos hzero]
      exact ⟨hcount, hnow, fun hsome => absurd hmore hsome, hothers⟩
    · rw [if_neg (by rw [hfailed]; decide), if_pos hfailed]
      exact ⟨hcount, hnow, fun hsome => absurd hmore hsome, hothers⟩
  · obtain ⟨hzero, hfailed⟩ := hret.mpr hmore
    rw [if_neg hzero, if_neg hfailed, if_neg hmore]
    unfold DiskHandled.finish DiskHandled.thenDelete
    rw [hfd, delDisk_found_closed (d := {v.info with dataAction := .storDone}) (Registry.modify_same ..) hkept]
    refine ⟨?_, hnow, fun _ => ⟨Registry.erase_same .., Files.close_closed _ _⟩, fun k hk => ?_⟩
    · show List.count _ (((v.effects ++ [.closed n]) ++ [.postToSession {fd := fd, action := .transOk}]) ++ [.closed n]) = 1
      rw [List.count_append, List.count_append, List.count_eq_zero_of_not_mem (hquiet _), List.count_singleton_self]
      rfl
    · exact (Files.close_spares _ hk).trans (hothers k hk)

/-- With no file to write to nothing is written, and nothing is reported. -/
theorem step_closed (h : Closed m fd)
    (hi : (i.task.action = .storing ∨ i.task.action = .storOk) ∧ i.task.ctrlFd = fd) :
    ∃ t es, diskManager.step i m = .ok (t, es) ∧ Closed t fd ∧ ∀ s, .postToSession s ∉ es := by
  obtain ⟨d, hd, hshut⟩ := h
  obtain ⟨haction, hfd⟩ := hi
  have hwrite := writeToDisk_closed (i := i) (w := {info := d, files := m.files : DiskWork}.setDataAction .storing) hshut
  rcases haction with haction | haction
  · refine ⟨_, _, step_found hd hfd (Or.inl ⟨haction, rfl⟩), ?_⟩
    unfold DiskFsm.storing DiskFsm.runStorLoading
    rw [hwrite]
    dsimp only
    rw [if_neg (by decide), if_pos rfl]
    exact ⟨⟨_, worked_found hfd _ _, hshut⟩, fun s hs => nomatch hs⟩
  · obtain ⟨hinfo, hstill, hsilent⟩ :=
      closeFileHandle_closed ({info := d, files := m.files : DiskWork}.setDataAction .storing)
    refine ⟨_, _, step_found hd hfd (Or.inr ⟨haction, rfl⟩), ?_⟩
    unfold DiskFsm.storOk DiskFsm.runStorFinish
    rw [hwrite]
    dsimp only
    rw [if_neg (by decide), if_pos rfl]
    exact ⟨⟨_, worked_found hfd _ _, hinfo ▸ hstill⟩, fun s hs => nomatch hsilent s hs⟩

end

section
variable {m : DiskManager} {u : Upload}

theorem openPath_eq {c : DiskCalls} {create : Bool} {w : DiskWork} {handle : Option Nat}
    {files : Files (List Char) Char} (h : w.files.openFile w.info.curPath create c.opens = (handle, files)) :
    w.openPath c create =
      { info := {w.info with fileHandle := handle}
        files := files
        effects := w.effects ++ [.opened w.info.curPath handle] } := by
  unfold DiskWork.openPath
  rw [h]

/-- The object and the files when the start is done. -/
structure Begun (m : DiskManager) (u : Upload) (w : DiskWork) : Prop where
  fd : w.info.fd = u.fd
  handle : w.info.fileHandle = u.opened m
  content : w.files.content = u.begun m
  opened : ∀ n, w.files.opened n = u.openedOn m n
  silent : ∀ s, .postToSession s ∉ w.effects

theorem begun_opened {w : DiskWork} {n : Nat} (hn : u.opened m = some n) (hfd : w.info.fd = u.fd)
    (hhandle : w.info.fileHandle = some n)
    (hopened : w.files.opened = Function.update m.files.opened n (some {path := u.path, pos := u.reached}))
    (hcontent : w.files.content = Function.update m.files.content u.path (some (u.old m)))
    (hsilent : ∀ s, .postToSession s ∉ w.effects) : Begun m u w where
  fd := hfd
  handle := hhandle.trans hn.symm
  content := by
    unfold Upload.begun
    rw [hcontent, hn, if_pos (Option.isSome_some)]
  opened k := by
    unfold Upload.openedOn
    rw [hopened, hn, Function.update_apply]
    simp only [Option.some.injEq, eq_comm]
  silent := hsilent

theorem begun_failed {w : DiskWork} (hn : u.opened m = none) (hfd : w.info.fd = u.fd)
    (hhandle : w.info.fileHandle = none) (hfiles : w.files = m.files) (hsilent : ∀ s, .postToSession s ∉ w.effects) :
    Begun m u w where
  fd := hfd
  handle := hhandle.trans hn.symm
  content := by
    unfold Upload.begun
    rw [hfiles, hn, if_neg (by decide)]
  opened k := by
    unfold Upload.openedOn
    rw [hfiles, hn, if_neg nofun]
  silent := hsilent

/-- The start opens the file and goes where it gets to, or there is no file. -/
theorem runStorStart_begun {w : DiskWork}
    (hw : (DiskFsm.runStorStart u.start.calls (m.construct u.start.task)).2 = w) : Begun m u w := by
  have hint : toInt (m.construct u.start.task).info.restSize = u.start.task.getRestSize := toInt_toInt _
  have hfd : u.start.task.ctrlFd = u.fd := u.start_task.2
  have hsilent (handle : Option Nat) (s : SessionTask) :
      .postToSession s ∉ [] ++ [DiskEffect.opened u.path handle] := by simp
  unfold DiskFsm.runStorStart at hw
  rw [hint] at hw
  cases hopen : m.files.openFile u.path (u.start.task.getRestSize = 0) u.start.calls.opens with
  | mk handle files =>
    have hhandle : u.opened m = handle := congrArg Prod.fst hopen
    split at hw
    · rename_i hzero
      have hcreate := hopen
      rw [decide_eq_true hzero] at hcreate
      rw [← hw]
      dsimp only
      rw [DiskWork.openCreate, openPath_eq (w := m.construct u.start.task) hcreate]
      cases handle with
      | none => exact begun_failed hhandle hfd rfl (Files.openFile_fails hopen) (hsilent none)
      | some n =>
        obtain ⟨hopened, hcontent⟩ := Files.openFile_opens hopen
        refine begun_opened hhandle hfd rfl ?_ hcontent (hsilent (some n))
        rw [hopened, Upload.reached, hzero, Int.toNat_zero, ite_self]
    · rename_i hsome
      have hwriteonly := hopen
      rw [decide_eq_false hsome] at hwriteonly
      rw [← hw]
      dsimp only
      rw [DiskWork.openWriteonly, openPath_eq (w := m.construct u.start.task) hwriteonly]
      unfold DiskWork.seekFileHandle
      cases handle with
      | none => exact begun_failed hhandle hfd rfl (Files.openFile_fails hopen) (hsilent none)
      | some n =>
        obtain ⟨hopened, hcontent⟩ := Files.openFile_opens hopen
        obtain ⟨hseek, hkept⟩ := Files.seek_start (f := files) (d := n) (hopened ▸ Function.update_self ..)
          u.start.task.getRestSize u.start.calls.seeks
        refine begun_opened hhandle hfd rfl ?_ (hkept.trans hcontent) (hsilent (some n))
        exact hseek.trans (by rw [hopened, Function.update_idem, Upload.reached])

/-- After the start the tasks work on the object left for the descriptor, or on its own. -/
theorem step_start (m : DiskManager) (u : Upload) :
    ∃ t es d, diskManager.step u.start m = .ok (t, es) ∧ .postToSession {fd := u.fd, action := .transOk} ∉ es ∧
      t.infos u.fd = some d ∧ d.fileHandle = u.handle m ∧ t.files.content = u.begun m ∧
      ∀ n, t.files.opened n = u.openedOn m n := by
  have haction := u.start_task.1
  cases hw : DiskFsm.runStorStart u.start.calls (m.construct u.start.task) with
  | mk ret w =>
    have hret : ret = 0 := by
      have := DiskFsm.runStorStart_ret (c := u.start.calls) (m.construct u.start.task)
      rw [hw] at this
      exact this
    have hbegun := runStorStart_begun (congrArg Prod.snd hw)
    have hroll : DiskFsm.rollStateMachine u.start.calls u.start.task m = .ok {
        m.started (w.setDataAction .storStart) with
        effects := w.effects ++ [.postToSession {fd := u.start.task.ctrlFd, action := .storStart}] } := by
      unfold DiskFsm.rollStateMachine
      rw [haction]
      dsimp only
      rw [hw]
      dsimp only
      rw [if_pos hret]
      rfl
    have hfound : ∃ d, (m.started (w.setDataAction .storStart)).manager.infos u.fd = some d ∧ d.fileHandle = u.handle m := by
      show ∃ d, Registry.insert m.infos w.info.fd _ u.fd = some d ∧ _
      rw [hbegun.fd]
      unfold Upload.handle DiskManager.seekDisk
      cases hentry : m.infos u.fd with
      | none => exact ⟨_, Registry.insert_free hentry _, hbegun.handle⟩
      | some d => exact ⟨d, by rw [Registry.insert_taken hentry, hentry], rfl⟩
    obtain ⟨d, hd, hhandle⟩ := hfound
    refine ⟨_, _, d, step_of_roll hroll, ?_, hd, hhandle, hbegun.content, hbegun.opened⟩
    intro hmem
    rcases List.mem_append.mp hmem with hmem | hmem
    · exact hbegun.silent _ hmem
    · injection List.mem_singleton.mp hmem with htask
      injection htask with _ hother
      exact nomatch hother

/-- The chunks put what their writes take, one behind the other, and report nothing. -/
theorem chunks_put {n start : Nat} {path old put : List Char} {base : List Char → Option (List Char)} {fd : Fd}
    {chunks : List DiskInput} (rest : List DiskInput) (h : Putting m fd n path start base old put)
    (hchunks : ∀ i ∈ chunks, i.task.action = .storing ∧ i.task.ctrlFd = fd) :
    ∃ t pre, Putting t fd n path start base old (put ++ chunks.flatMap DiskInput.taken) ∧
      diskManager.trace m (chunks ++ rest) = pre ++ diskManager.trace t rest ∧
      diskManager.final m (chunks ++ rest) = diskManager.final t rest ∧
      (∀ k, k ≠ n → t.files.opened k = m.files.opened k) ∧ ∀ e ∈ pre, ∀ s, .postToSession s ∉ e.effects := by
  induction chunks generalizing m put with
  | nil =>
    exact ⟨m, [], by rwa [List.flatMap_nil, List.append_nil], rfl, rfl, fun _ _ => rfl, fun _ he => nomatch he⟩
  | cons i chunks ih =>
    obtain ⟨t, es, hstep, hputs, hspares, hsilent⟩ := storing_puts h (hchunks i (List.mem_cons_self ..))
    obtain ⟨v, pre, hv, htrace, hfinal, hothers, hposts⟩ := ih hputs fun j hj => hchunks j (List.mem_cons_of_mem _ hj)
    refine ⟨v, ⟨m, i, t, es⟩ :: pre, ?_, ?_, (Machine.final_ok hstep _).trans hfinal,
      fun k hk => (hothers k hk).trans (hspares k hk), List.forall_mem_cons.mpr ⟨hsilent, hposts⟩⟩
    · rwa [List.flatMap_cons, ← List.append_assoc]
    · rw [List.cons_append, Machine.trace_ok hstep, htrace, List.cons_append]

theorem chunks_closed {fd : Fd} {inputs : List DiskInput} (h : Closed m fd)
    (hinputs : ∀ i ∈ inputs, (i.task.action = .storing ∨ i.task.action = .storOk) ∧ i.task.ctrlFd = fd) :
    ∀ e ∈ diskManager.trace m inputs, ∀ s, .postToSession s ∉ e.effects := by
  induction inputs generalizing m with
  | nil => exact fun e he => nomatch he
  | cons i inputs ih =>
    obtain ⟨t, es, hstep, hclosed, hsilent⟩ := step_closed h (hinputs i (List.mem_cons_self ..))
    rw [Machine.trace_ok hstep]
    refine List.forall_mem_cons.mpr ⟨hsilent, ih hclosed fun j hj => hinputs j (List.mem_cons_of_mem _ hj)⟩

end

/-- What the start leaves the tasks to write to. -/
theorem started_puts {d : DiskInfo} {fd : Fd} (hd : m.infos fd = some d) {n : Nat} (hhandle : d.fileHandle = some n)
    {o : Description (List Char)} (ho : m.files.opened n = some o) {held : List Char}
    (hheld : m.files.content o.path = some held) :
    Putting m fd n o.path o.pos m.files.content held [] := by
  refine ⟨d, hd, hhandle, ho, ?_⟩
  show _ = Function.update m.files.content o.path (some held)
  rw [← hheld, Function.update_eq_self]

/-- **226 means stored**, exactly where what the writes have taken, put over what the file they
go to holds, makes the file of the upload the whole upload; where there is nothing to write to,
or the last write takes nothing, nothing is reported. -/
theorem stored_iff (m : DiskManager) (u : Upload) : (u.Reported m → u.Stored m) ↔ u.Complete m := by
  obtain ⟨t, es, d, hstep, hsilent, hd, hhandle, hcontent, hopened⟩ := step_start m u
  have hreported : u.Reported m ↔ ∃ e ∈ diskManager.trace t (u.chunks ++ [u.last]),
      .postToSession {fd := u.fd, action := .transOk} ∈ e.effects := by
    unfold Upload.Reported Upload.inputs
    rw [Machine.trace_ok hstep]
    simp only [List.mem_cons, exists_eq_or_imp, or_iff_right hsilent]
  have hfinal : diskManager.final m u.inputs = diskManager.final t (u.chunks ++ [u.last]) :=
    Machine.final_ok hstep _
  by_cases hshut : ∀ n, d.fileHandle = some n → t.files.Shut n
  · refine iff_of_true (fun h => ?_) fun n o held hn ho hheld => ?_
    · obtain ⟨e, he, hmem⟩ := hreported.mp h
      refine absurd hmem (chunks_closed ⟨d, hd, hshut⟩ (fun i hi => ?_) e he _)
      rcases List.mem_append.mp hi with hi | hi
      · exact ⟨Or.inl (u.chunk_tasks i hi).1, (u.chunk_tasks i hi).2⟩
      · rw [List.mem_singleton.mp hi]
        exact ⟨Or.inr u.last_task.1, u.last_task.2⟩
    · have hnone := hshut n (hhandle.trans hn) o ((hopened n).trans ho)
      rw [hcontent, hheld] at hnone
      exact nomatch hnone
  · obtain ⟨n, hn, o, ho, hsome⟩ : ∃ n, d.fileHandle = some n ∧ ∃ o, t.files.opened n = some o ∧
        t.files.content o.path ≠ none := by simpa [Files.Shut] using hshut
    obtain ⟨held, hheld⟩ := Option.ne_none_iff_exists'.mp hsome
    obtain ⟨v, pre, hputs, htrace, hlast, _, hposts⟩ := chunks_put [u.last] (started_puts hd hn ho hheld) u.chunk_tasks
    obtain ⟨w, es', hstep', hcount, hnow, _⟩ := storOk_puts hputs u.last_task
    have hstored : u.stored = [] ++ u.chunks.flatMap DiskInput.taken ++ u.last.taken := by
      rw [Upload.stored, List.flatMap_append, List.flatMap_singleton, List.nil_append]
    rw [← hstored, hcontent] at hnow
    have hlastly : u.Reported m ↔ u.last.taken ≠ [] := by
      rw [hreported, htrace, Machine.trace_ok hstep', Machine.trace]
      constructor
      · intro hposted hnothing
        obtain ⟨e, he, hmem⟩ := hposted
        rcases List.mem_append.mp he with he | he
        · exact hposts e he _ hmem
        · rw [List.mem_singleton.mp he] at hmem
          rw [if_pos hnothing] at hcount
          exact List.count_eq_zero.mp hcount hmem
      · intro hsome
        rw [if_neg hsome] at hcount
        exact ⟨_, List.mem_append_right _ (List.mem_singleton_self _), List.count_pos_iff.mp (by rw [hcount]; exact Nat.one_pos)⟩
    have hfile : u.Stored m ↔ ∃ bytes, Function.update (u.begun m) o.path
        (some (Files.splice '\x00' held o.pos u.stored)) u.path = some bytes ∧ bytes.drop u.offset = u.payloads := by
      unfold Upload.Stored
      rw [hfinal, hlast, Machine.final_ok hstep', ← hnow]
      rfl
    rw [hlastly, hfile]
    rw [hhandle] at hn
    rw [hopened] at ho
    rw [hcontent] at hheld
    constructor
    · intro h n' o' held' hn' ho' hheld'
      cases hn.symm.trans hn'
      cases ho.symm.trans ho'
      cases hheld.symm.trans hheld'
      exact h
    · intro h
      exact h n o held hn ho hheld

/-- Beginnings of all parts make the whole only where each is the whole part. -/
theorem flatMap_beginnings {A B : Type} {f g : A → List B} {l : List A} (h : ∀ a ∈ l, f a <+: g a) :
    (l.flatMap f).length ≤ (l.flatMap g).length ∧ (l.flatMap f = l.flatMap g ↔ ∀ a ∈ l, f a = g a) := by
  induction l with
  | nil => exact ⟨Nat.le_refl _, iff_of_true rfl fun a ha => nomatch ha⟩
  | cons a l ih =>
    obtain ⟨hfirst, hrest⟩ := List.forall_mem_cons.mp h
    obtain ⟨hlength, hall⟩ := ih hrest
    have hle := hfirst.length_le
    simp only [List.flatMap_cons, List.length_append, List.forall_mem_cons]
    refine ⟨by omega, ?_⟩
    constructor
    · intro heq
      have hsame : f a = g a := by
        have := congrArg List.length heq
        simp only [List.length_append] at this
        exact hfirst.eq_of_length (by omega)
      rw [hsame] at heq
      exact ⟨hsame, hall.mp (List.append_cancel_left heq)⟩
    · intro heq
      rw [heq.1, hall.mpr heq.2]

/-- With no object left for the descriptor the tasks write to the file of the upload, if it can
be opened. -/
theorem complete_free (m : DiskManager) (u : Upload) (hfree : m.seekDisk u.fd = none) : u.Complete m ↔
    ((u.opened m).isSome = true → u.last.taken ≠ [] →
      (Files.splice '\x00' (u.old m) u.reached u.stored).drop u.offset = u.payloads) := by
  have hhandle : u.handle m = u.opened m := by
    unfold Upload.handle
    rw [hfree]
  unfold Upload.Complete Upload.openedOn Upload.begun
  rw [hhandle]
  cases u.opened m with
  | none => exact iff_of_true nofun nofun
  | some n =>
    constructor
    · intro h _ hlast
      obtain ⟨bytes, hbytes, hdrop⟩ := h n _ _ rfl (if_pos rfl) (Function.update_self ..) hlast
      rw [Function.update_self] at hbytes
      cases hbytes
      exact hdrop
    · intro h n' o held hn ho hheld hlast
      cases hn
      rw [if_pos rfl] at ho
      cases ho
      cases (Function.update_self ..).symm.trans hheld
      exact ⟨_, Function.update_self .., h rfl hlast⟩

/-- Where moreover the start gets to the offset and nothing old lies behind it, every write has
to take its whole chunk. -/
theorem complete_whole (m : DiskManager) (u : Upload) (hfree : m.seekDisk u.fd = none) (hseeked : u.reached = u.offset)
    (hold : (u.old m).length ≤ u.offset) : u.Complete m ↔
    ((u.opened m).isSome = true → u.last.taken ≠ [] → ∀ i ∈ u.chunks ++ [u.last], i.taken = i.task.payload) := by
  have hnothing : (u.old m).drop (u.offset + u.stored.length) = [] := List.drop_eq_nil_of_le (by omega)
  rw [complete_free m u hfree, hseeked, Files.drop_splice, hnothing, List.append_nil]
  refine imp_congr_right fun _ => imp_congr_right fun _ => ?_
  exact (flatMap_beginnings fun i _ => List.take_prefix _ _).2

/-- The task that opens a new file. -/
def newFile : DiskInput := ⟨{ctrlFd := 7, action := .storStart, curPath := "/up".toList}, {opens := some 3}⟩

theorem newFile_task : newFile.task.action = .storStart ∧ newFile.task.ctrlFd = 7 := ⟨rfl, rfl⟩

/-- An upload of two chunks into a new file, with what its two writes take. -/
def twoChunks (first second : Option Nat) : Upload where
  fd := 7
  start := newFile
  chunks := [⟨{ctrlFd := 7, action := .storing, fileBuffer := some "ab".toList, bufLen := 2}, {writes := first}⟩]
  last := ⟨{ctrlFd := 7, action := .storOk, fileBuffer := some "c".toList, bufLen := 1}, {writes := second}⟩
  start_task := newFile_task
  chunk_tasks := List.forall_mem_singleton.mpr ⟨rfl, rfl⟩
  last_task := ⟨rfl, rfl⟩

/-- The first write fails, and the upload is reported all the same. -/
theorem reported_not_stored :
    (twoChunks none (some 1)).Reported (.idle .empty) ∧ ¬ (twoChunks none (some 1)).Stored (.idle .empty) ∧
      (diskManager.final (.idle .empty) (twoChunks none (some 1)).inputs).files.content "/up".toList = some ['c'] := by
  refine ⟨⟨_, List.mem_of_getLast? rfl, by decide⟩, fun h => ?_, rfl⟩
  obtain ⟨bytes, hbytes, hdrop⟩ := h
  cases hbytes
  exact absurd hdrop (by decide)

end HyperTransfer
