import HyperTransfer.Disk.Steps

/-! Downloads that fail.

`run_retr_start` and `run_retr_loading` close the file when `read` brings nothing and when
it fails, and in both cases `data_post` is given what `read` returned as the length of a
buffer. `downloads_sound_iff` says that nothing but a failing call makes it anything else
than a length: an `open` that fails shows as the `read` that follows it. -/
namespace HyperTransfer
open CString

/-- A `read` through the object's handle returns -1. -/
def DiskWork.Unread (c : DiskCalls) (w : DiskWork) : Prop :=
  ∀ n, w.info.fileHandle = some n → (w.files.read n fileBufSize c.reads).1 = none

namespace DiskFsm

/-- The work of a task for a download, up to its `read`. -/
def reading (c : DiskCalls) (t : DiskTask) (m : DiskManager) : Option DiskWork :=
  match t.action with
  | .retrStart => some (((m.construct t).openReadonly c).seekFileHandle c)
  | .writeDone =>
    match m.seekDisk t.ctrlFd with
    | some d => if d.dataAction = .retrLoading then some {info := d, files := m.files} else none
    | none => none
  | _ => none

/-- The length the task gives to `data_post` for a download. -/
def postedLength (c : DiskCalls) (t : DiskTask) (m : DiskManager) : Option Int :=
  (reading c t m).map fun w => (runRetrLoading c w).2.info.bufLen

/-- An `open` or a `read` of the task's download returns -1. -/
def Fails (c : DiskCalls) (t : DiskTask) (m : DiskManager) : Prop :=
  match t.action with
  | .retrStart => (m.files.openFile (m.construct t).info.curPath false c.opens).1 = none ∨ c.reads = none
  | .writeDone => ∃ d, m.seekDisk t.ctrlFd = some d ∧ d.dataAction = .retrLoading ∧
      ({info := d, files := m.files} : DiskWork).Unread c
  | _ => False

end DiskFsm

/-- The step reports the end of a download to the session. -/
def ReportsDownload (e : DiskEdge) : Prop :=
  ∃ d, e.before.seekDisk e.input.task.ctrlFd = some d ∧ d.dataAction = .retrFinish ∧
    .postToSession {fd := e.input.task.ctrlFd, action := .transOk} ∈ e.effects

/-- Every length a download gives to `data_post` is one of its buffer, and none that failed is
reported as done. -/
def DownloadsSound (m : DiskManager) (inputs : List DiskInput) : Prop :=
  (∀ a ∈ diskManager.attempts m inputs, ∀ len, DiskFsm.postedLength a.2.calls a.2.task a.1 = some len →
    0 ≤ len ∧ len ≤ fileBufSize) ∧
  ∀ now e rest, diskManager.trace m inputs = now ++ e :: rest → ReportsDownload e →
    ∀ x ∈ now, x.input.task.ctrlFd = e.input.task.ctrlFd → ¬ DiskFsm.Fails x.input.calls x.input.task x.before

/-! ### One read -/

section
variable {c : DiskCalls} {t : DiskTask} {m : DiskManager} {w : DiskWork}

/-- What `read` returns is the length kept for the buffer. -/
theorem readFromDisk_bufLen (w : DiskWork) : (w.readFromDisk c).2.info.bufLen = (w.readFromDisk c).1 := by
  unfold DiskWork.readFromDisk
  split
  · rfl
  · split <;> rfl

theorem runRetrLoading_bufLen (w : DiskWork) : (DiskFsm.runRetrLoading c w).2.info.bufLen = (w.readFromDisk c).1 := by
  rw [← readFromDisk_bufLen]
  unfold DiskFsm.runRetrLoading
  dsimp only
  split
  · rfl
  · rw [DiskWork.closeFileHandle_info]

theorem read_length {P B : Type} (f : Files P B) (d n : Nat) (outcome : Option Nat) :
    ∀ bytes, (f.read d n outcome).1 = some bytes → bytes.length ≤ n := by
  intro bytes h
  unfold Files.read at h
  split at h
  · split at h
    · exact nomatch h
    · injection h with h
      rw [← h, List.length_take]
      omega
  · exact nomatch h

/-- A failed `read` returns -1, any other a length of the buffer. -/
theorem readFromDisk_ret (w : DiskWork) : (w.Unread c ∧ (w.readFromDisk c).1 = -1) ∨
    (¬ w.Unread c ∧ 0 ≤ (w.readFromDisk c).1 ∧ (w.readFromDisk c).1 ≤ fileBufSize) := by
  unfold DiskWork.Unread DiskWork.readFromDisk
  cases hhandle : w.info.fileHandle with
  | none => exact Or.inl ⟨fun _ h => (nomatch h), rfl⟩
  | some n =>
    have hlength := read_length w.files n fileBufSize c.reads
    dsimp only
    cases hread : w.files.read n fileBufSize c.reads with
    | mk got files =>
      rw [hread] at hlength
      cases got with
      | none =>
        refine Or.inl ⟨fun k hk => ?_, rfl⟩
        injection hk with hk
        rw [← hk, hread]
      | some bytes =>
        refine Or.inr ⟨fun h => ?_, Int.natCast_nonneg _, Int.ofNat_le.mpr (hlength bytes rfl)⟩
        have hnone := h n rfl
        rw [hread] at hnone
        exact nomatch hnone

theorem dataPost_length (w : DiskWork) (buf : List Char) (len : Int) : Returns (w.dataPost buf len) fun _ => 0 ≤ len := by
  unfold DiskWork.dataPost
  split
  · exact .error _
  · exact .ok (by omega)

/-- A start reads what it has opened, unless the `open` or the `read` fails. -/
theorem retrStart_unread : (((m.construct t).openReadonly c).seekFileHandle c).Unread c ↔
    (m.files.openFile (m.construct t).info.curPath false c.opens).1 = none ∨ c.reads = none := by
  unfold DiskWork.Unread
  generalize hpath : (m.construct t).info.curPath = path
  cases hopen : m.files.openFile path false c.opens with
  | mk handle files =>
    have hopened : (m.construct t).openReadonly c =
        { info := {DiskInfo.new m.allocated t with fileHandle := handle}
          files := files
          effects := [.opened path handle] } := by
      have hfiles : (m.construct t).files = m.files := rfl
      show DiskWork.openPath c false (m.construct t) = _
      unfold DiskWork.openPath
      rw [hpath, hfiles, hopen]
      rfl
    rw [hopened]
    cases handle with
    | none => exact iff_of_true (fun _ h => nomatch h) (Or.inl rfl)
    | some k =>
      obtain ⟨hdescription, hcontent⟩ := Files.openFile_opens hopen
      have hat : files.opened k = some {path := path, pos := 0} := by rw [hdescription, Function.update_self]
      have hbytes : files.content path = some ((m.files.content path).getD []) := by rw [hcontent, Function.update_self]
      obtain ⟨hmoved, hsame⟩ := Files.seek_start hat t.getRestSize c.seeks
      have hseek : (DiskWork.seekFileHandle c {
          info := {DiskInfo.new m.allocated t with fileHandle := some k}
          files := files
          effects := [.opened path (some k)] }).files = files.seek k t.getRestSize c.seeks := rfl
      rw [hseek]
      constructor
      · intro h
        apply Or.inr
        cases hreads : c.reads with
        | none => rfl
        | some r =>
          have hnone := h k rfl
          obtain ⟨got, pos, hread, _⟩ := Files.read_open (f := files.seek k t.getRestSize c.seeks)
            (by rw [hmoved, Function.update_self]) (by rw [hsame]; exact hbytes) (n := fileBufSize) (by decide) r
          rw [hreads, hread] at hnone
          exact nomatch hnone
      · intro h n _
        rcases h with h | h
        · exact nomatch h
        · rw [h, Files.read_failed]

/-- The calls of a download's task fail exactly when its `read` does. -/
theorem fails_iff (h : DiskFsm.reading c t m = some w) : DiskFsm.Fails c t m ↔ w.Unread c := by
  unfold DiskFsm.reading at h
  unfold DiskFsm.Fails
  cases ht : t.action with
  | retrStart =>
    rw [ht] at h
    injection h with h
    rw [← h]
    exact retrStart_unread.symm
  | writeDone =>
    rw [ht] at h
    dsimp only at h ⊢
    cases hd : m.seekDisk t.ctrlFd with
    | none =>
      rw [hd] at h
      exact nomatch h
    | some d =>
      rw [hd] at h
      dsimp only at h
      split at h
      · rename_i hloading
        injection h with h
        rw [← h]
        refine ⟨fun hfails => ?_, fun hreads => ⟨d, rfl, hloading, hreads⟩⟩
        obtain ⟨d', hd', _, hreads⟩ := hfails
        cases hd'
        exact hreads
      · exact nomatch h
  | _ =>
    rw [ht] at h
    exact nomatch h

/-- Only a download's task has such calls. -/
theorem fails_reading (h : DiskFsm.Fails c t m) : ∃ w, DiskFsm.reading c t m = some w := by
  unfold DiskFsm.Fails at h
  unfold DiskFsm.reading
  cases ht : t.action with
  | retrStart => exact ⟨_, rfl⟩
  | writeDone =>
    rw [ht] at h
    obtain ⟨d, hd, hloading, _⟩ := h
    dsimp only
    rw [hd]
    exact ⟨_, if_pos hloading⟩
  | _ =>
    rw [ht] at h
    exact h.elim

/-- A download's task gives what it has read to `data_post`, with the length kept for it. -/
theorem roll_reading (h : DiskFsm.reading c t m = some w) : ∃ k : DiskWork → DiskHandled,
    DiskFsm.rollStateMachine c t m = (do
      let (a, v) := DiskFsm.runRetrLoading c w
      let v ← (v.setDataAction a).dataPost v.info.fileBuffer v.info.bufLen
      return k v) := by
  unfold DiskFsm.reading at h
  unfold DiskFsm.rollStateMachine
  cases ht : t.action with
  | retrStart =>
    rw [ht] at h
    injection h with h
    rw [← h]
    exact ⟨m.started, rfl⟩
  | writeDone =>
    rw [ht] at h
    dsimp only at h ⊢
    cases hd : m.seekDisk t.ctrlFd with
    | none =>
      rw [hd] at h
      exact nomatch h
    | some d =>
      rw [hd] at h
      dsimp only at h ⊢
      split at h
      · rename_i hloading
        injection h with h
        rw [← h]
        refine ⟨fun v => m.worked t.ctrlFd v, ?_⟩
        unfold DiskFsm.writeDone
        rw [hloading]
      · exact nomatch h
  | _ =>
    rw [ht] at h
    exact nomatch h

/-- A download's length is one of its buffer exactly when no call of the task fails. -/
theorem postedLength_range {len : Int} (h : DiskFsm.postedLength c t m = some len) :
    (0 ≤ len ∧ len ≤ fileBufSize) ↔ ¬ DiskFsm.Fails c t m := by
  obtain ⟨w, hw, hlen⟩ := Option.map_eq_some_iff.mp h
  rw [fails_iff hw, ← hlen, runRetrLoading_bufLen]
  rcases readFromDisk_ret (c := c) w with ⟨hfails, hret⟩ | ⟨hreads, hret⟩
  · rw [hret]
    exact iff_of_false (fun h => absurd h.1 (by decide)) fun h => h hfails
  · exact iff_of_true hret hreads

/-- A task that returns has no failing call in it: the negative length is no buffer's. -/
theorem returns_not_failed : Returns (DiskFsm.rollStateMachine c t m) fun _ => ¬ DiskFsm.Fails c t m := by
  intro h hr hfails
  obtain ⟨w, hw⟩ := fails_reading hfails
  obtain ⟨k, hk⟩ := roll_reading hw
  rw [hk] at hr
  obtain ⟨v, hv, _⟩ := bind_eq_ok.mp hr
  have hlen : 0 ≤ (DiskFsm.runRetrLoading c w).2.info.bufLen := dataPost_length _ _ _ v hv
  rw [runRetrLoading_bufLen] at hlen
  rcases readFromDisk_ret (c := c) w with ⟨_, hret⟩ | ⟨hreads, _⟩
  · rw [hret] at hlen
    exact absurd hlen (by decide)
  · exact hreads ((fails_iff hw).mp hfails)

end

/-! ### Runs -/

theorem takes_no_failure {e : DiskEdge} (h : diskManager.Takes e) :
    ¬ DiskFsm.Fails e.input.calls e.input.task e.before := by
  obtain ⟨r, hr, _⟩ := bind_eq_ok.mp h
  exact returns_not_failed r hr

/-- The lengths of every download are sound, and none that failed is reported as done, exactly when
no `open` and no `read` of a download ever fails. -/
theorem downloads_sound_iff (files : Files (List Char) Char) (inputs : List DiskInput) :
    DownloadsSound (.idle files) inputs ↔
      ∀ a ∈ diskManager.attempts (.idle files) inputs, ¬ DiskFsm.Fails a.2.calls a.2.task a.1 := by
  constructor
  · intro h a ha hfails
    obtain ⟨w, hw⟩ := fails_reading hfails
    have hlen : DiskFsm.postedLength a.2.calls a.2.task a.1 = some _ := congrArg (Option.map _) hw
    exact (postedLength_range hlen).mp (h.1 a ha _ hlen) hfails
  · intro h
    refine ⟨fun a ha len hlen => (postedLength_range hlen).mpr (h a ha), fun now e rest hrun _ x hx _ => ?_⟩
    have htrace : x ∈ diskManager.trace (.idle files) inputs := by
      rw [hrun]
      exact List.mem_append_left _ hx
    exact takes_no_failure (Machine.takes_of_mem htrace)

/-- A download of a file of two bytes whose second `read` fails. -/
def failingDownload : List DiskInput :=
  [⟨.ofPath 7 .retrStart "/a".toList, {opens := some 5, reads := some 1}⟩, ⟨{ctrlFd := 7, action := .writeDone}, {}⟩]

/-- The failure is posted as a block of -1 bytes. -/
theorem download_failed_posted :
    ¬ DownloadsSound (.idle {content := fun _ => some ['x', 'y'], opened := fun _ => none}) failingDownload := by
  intro h
  have hlengths : ∀ o ∈ (diskManager.attempts (.idle {content := fun _ => some ['x', 'y'], opened := fun _ => none})
      failingDownload).map (fun a => DiskFsm.postedLength a.2.calls a.2.task a.1), ∀ len ∈ o, 0 ≤ len := by
    intro o ho len hlen
    obtain ⟨a, ha, rfl⟩ := List.mem_map.mp ho
    exact (h.1 a ha len hlen).1
  revert hlengths
  decide +kernel

end HyperTransfer
