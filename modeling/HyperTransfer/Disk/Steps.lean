import HyperTransfer.Disk.Fsm

/-! What a disk task may do.

A start task makes an object and leaves the map's entry as `insert` does. Any other task
either finds nothing, or works on the object it finds, which keeps its number, its path
and its handle, or ends its transfer and deletes it. Files are read and written through
the object's handle alone. -/
namespace HyperTransfer
open CString

/-- The path of the file or the directory an effect opens, lists, reads or writes. -/
def DiskEffect.path? : DiskEffect → Option (List Char)
  | .opened path _ => some path
  | .read path _ => path
  | .wrote path _ => path
  | .listed path => some path
  | _ => none

/-- The effect goes by the object's path, not by what the number of its handle is open on. -/
def DiskEffect.byPath : DiskEffect → Bool
  | .opened _ _ => true
  | .listed _ => true
  | _ => false

/-- What work on an object leaves alone. -/
def DiskInfo.kept (d : DiskInfo) : Nat × Fd × List Char × Option Nat := (d.address, d.fd, d.curPath, d.fileHandle)

namespace DiskWork

/-- The effect concerns the object's path, or the file its handle is open on. -/
def Touches (w : DiskWork) (x : DiskEffect) : Prop :=
  ∀ p, x.path? = some p →
    p = w.info.curPath ∨ x.byPath = false ∧ ∃ d, w.info.fileHandle = some d ∧ w.files.pathOf d = some p

/-- Work that opens nothing. -/
structure Goes (w v : DiskWork) : Prop where
  kept : v.info.kept = w.info.kept
  files : w.files.Keeps v.files
  effects : ∃ new, v.effects = w.effects ++ new ∧ ∀ x ∈ new, w.Touches x

variable {w v u : DiskWork} {c : DiskCalls}

theorem Goes.address (h : w.Goes v) : v.info.address = w.info.address := congrArg Prod.fst h.kept

theorem Goes.fd (h : w.Goes v) : v.info.fd = w.info.fd := congrArg (fun p => p.2.1) h.kept

theorem Goes.curPath (h : w.Goes v) : v.info.curPath = w.info.curPath := congrArg (fun p => p.2.2.1) h.kept

theorem Goes.fileHandle (h : w.Goes v) : v.info.fileHandle = w.info.fileHandle :=
  congrArg (fun p => p.2.2.2) h.kept

/-- Work with one effect at most. -/
theorem goes_one {x : DiskEffect} (hkept : v.info.kept = w.info.kept) (hfiles : w.files.Keeps v.files)
    (heffects : v.effects = w.effects ++ [x]) (hx : w.Touches x) : w.Goes v :=
  ⟨hkept, hfiles, [x], heffects, List.forall_mem_singleton.mpr hx⟩

theorem goes_none (hkept : v.info.kept = w.info.kept) (hfiles : w.files.Keeps v.files)
    (heffects : v.effects = w.effects) : w.Goes v :=
  ⟨hkept, hfiles, [], by rw [heffects, List.append_nil], fun _ h => nomatch h⟩

theorem Goes.refl (w : DiskWork) : w.Goes w := goes_none rfl (.refl _) rfl

theorem Goes.trans (h : w.Goes v) (g : v.Goes u) : w.Goes u := by
  obtain ⟨new, hnew, htouch⟩ := h.effects
  obtain ⟨more, hmore, hthen⟩ := g.effects
  refine ⟨g.kept.trans h.kept, h.files.trans g.files, new ++ more, ?_, ?_⟩
  · rw [hmore, hnew, List.append_assoc]
  · intro x hx
    rcases List.mem_append.mp hx with hx | hx
    · exact htouch x hx
    · intro p hp
      rcases hthen x hx p hp with hpath | ⟨hnumber, d, hd, hopen⟩
      · exact Or.inl (hpath.trans h.curPath)
      · exact Or.inr ⟨hnumber, d, h.fileHandle ▸ hd, h.files d p hopen⟩

theorem setDataAction_goes (w : DiskWork) (a : DiskAction) : w.Goes (w.setDataAction a) :=
  goes_none rfl (.refl _) rfl

theorem seekFileHandle_goes (w : DiskWork) : w.Goes (w.seekFileHandle c) := by
  unfold seekFileHandle
  split
  · exact .refl w
  · exact goes_none rfl (Files.seek_keeps _ _ _ _) rfl

theorem readFromDisk_goes (w : DiskWork) : w.Goes (w.readFromDisk c).2 := by
  unfold readFromDisk
  split
  · exact goes_none rfl (.refl _) rfl
  · rename_i d hd
    have hkeeps := Files.read_keeps w.files d fileBufSize c.reads
    split
    · rename_i files hread
      rw [hread] at hkeeps
      exact goes_none rfl hkeeps rfl
    · rename_i bytes files hread
      rw [hread] at hkeeps
      exact goes_one rfl hkeeps rfl fun p hp => Or.inr ⟨rfl, d, hd, hp⟩

theorem writeToDisk_goes (t : DiskTask) (w : DiskWork) : w.Goes (w.writeToDisk c t).2 := by
  unfold writeToDisk
  split
  · exact .refl w
  · rename_i d hd
    have hkeeps := Files.write_keeps '\x00' w.files d t.payload c.writes
    dsimp only
    split
    · rename_i files hwrite
      rw [hwrite] at hkeeps
      exact goes_none rfl hkeeps rfl
    · rename_i n files hwrite
      rw [hwrite] at hkeeps
      exact goes_one rfl hkeeps rfl fun p hp => Or.inr ⟨rfl, d, hd, hp⟩

/-- How many bytes are taken, or `-1`, whatever the data action is. -/
theorem writeToDisk_ret (t : DiskTask) (w : DiskWork) (a : DiskAction) :
    -1 ≤ (w.writeToDisk c t).1 ∧ ((w.setDataAction a).writeToDisk c t).1 = (w.writeToDisk c t).1 := by
  have hhandle : (w.setDataAction a).info.fileHandle = w.info.fileHandle := rfl
  unfold writeToDisk
  rw [hhandle]
  cases w.info.fileHandle with
  | none => exact ⟨Int.le_refl _, rfl⟩
  | some d =>
    have hfiles : (w.setDataAction a).files = w.files := rfl
    dsimp only
    rw [hfiles]
    cases hwrite : w.files.write '\x00' d t.payload c.writes with
    | mk n files =>
      cases n with
      | none => exact ⟨Int.le_refl _, rfl⟩
      | some n => exact ⟨by dsimp only; omega, rfl⟩

theorem touches_none {x : DiskEffect} (h : x.path? = none) : w.Touches x := by
  intro p hp
  rw [h] at hp
  exact nomatch hp

theorem closeFileHandle_goes (w : DiskWork) : w.Goes w.closeFileHandle := by
  unfold closeFileHandle
  split
  · exact .refl w
  · exact goes_one rfl (Files.close_keeps _ _) rfl (touches_none rfl)

theorem listFrom_goes (w : DiskWork) (entries : List (List Char)) :
    Returns (w.listFrom c entries) fun r => w.Goes r.2 := by
  refine .bind_any fun r => .ok (goes_one rfl (.refl _) rfl fun p hp => Or.inl ?_)
  injection hp with hp
  exact hp.symm

theorem dataPost_goes (w : DiskWork) (buf : List Char) (len : Int) :
    Returns (w.dataPost buf len) fun v => w.Goes v := by
  unfold dataPost
  split
  · exact .error _
  · exact .ok (goes_one rfl (.refl _) rfl (touches_none rfl))

theorem writeToDisk_info (t : DiskTask) (w : DiskWork) : (w.writeToDisk c t).2.info = w.info := by
  unfold writeToDisk
  split
  · rfl
  · dsimp only
    split <;> rfl

theorem closeFileHandle_info (w : DiskWork) : w.closeFileHandle.info = w.info := by
  unfold closeFileHandle
  split <;> rfl

theorem dataPost_info (w : DiskWork) (buf : List Char) (len : Int) :
    Returns (w.dataPost buf len) fun v => v.info = w.info := by
  unfold dataPost
  split
  · exact .error _
  · exact .ok rfl

/-- What a start task makes of a new object before anything is read through its handle. -/
structure Begins (c : DiskCalls) (m : DiskManager) (t : DiskTask) (w : DiskWork) : Prop where
  address : w.info.address = m.allocated
  fd : w.info.fd = t.ctrlFd
  curPath : w.info.curPath = strncpy pathSize t.curPath
  handle : ∀ d, w.info.fileHandle = some d → c.opens = some d ∧ w.files.Describes d w.info.curPath
  files : ∀ d p, w.info.fileHandle ≠ some d → w.files.pathOf d = some p → m.files.pathOf d = some p

variable {m : DiskManager} {t : DiskTask}

theorem Begins.goes (h : w.Begins c m t) (g : w.Goes v) : v.Begins c m t := by
  refine ⟨g.address.trans h.address, g.fd.trans h.fd, g.curPath.trans h.curPath, ?_, ?_⟩
  · intro d hd
    obtain ⟨hopens, hpath⟩ := h.handle d (g.fileHandle ▸ hd)
    rw [g.curPath]
    exact ⟨hopens, hpath.keep g.files⟩
  · intro d p hd hp
    exact h.files d p (g.fileHandle ▸ hd) (g.files d p hp)

theorem construct_begins : (m.construct t).Begins c m t :=
  ⟨rfl, rfl, rfl, fun _ h => (nomatch h), fun _ _ _ h => h⟩

theorem openPath_begins (create : Bool) : ((m.construct t).openPath c create).Begins c m t := by
  unfold openPath
  rcases Files.openFile_cases (m.construct t).files (m.construct t).info.curPath create c.opens with
    hnone | ⟨d, g, hopens, hsome, hpath, hother⟩
  · rw [hnone]
    exact ⟨rfl, rfl, rfl, fun _ h => (nomatch h), fun _ _ _ h => h⟩
  · rw [hsome]
    refine ⟨rfl, rfl, rfl, ?_, ?_⟩
    · intro d' hd'
      injection hd' with hd'
      rw [← hd']
      refine ⟨hopens, fun p hp => ?_⟩
      rw [hpath] at hp
      exact (Option.some.inj hp).symm
    · intro d' p hd' hp
      have hne : d' ≠ d := fun he => hd' (he ▸ rfl)
      rwa [hother d' hne] at hp

end DiskWork

/-- A task that makes an object. -/
def DiskTaskAction.starts : DiskTaskAction → Bool
  | .indexStart => true
  | .storStart => true
  | .retrStart => true
  | _ => false

/-- The task is the last of the object's transfer: the last block of a download or the
last page of a listing has been written, the last chunk of an upload is not empty and is
taken, or the object is to be deleted. -/
def DiskInfo.ends (c : DiskCalls) (t : DiskTask) (files : Files (List Char) Char) (d : DiskInfo) : Bool :=
  match t.action with
  | .writeDone => d.dataAction = .indexFinish || d.dataAction = .retrFinish
  | .storOk => 0 < (DiskWork.writeToDisk c t {info := d, files := files}).1
  | .dele => true
  | _ => false

namespace DiskFsm

/-- What a handled task has done. -/
inductive Acts (c : DiskCalls) (t : DiskTask) (m : DiskManager) (h : DiskHandled) : Prop where
  | starts (w : DiskWork) (hstarts : t.action.starts = true) (hw : w.Begins c m t)
      (hm : h.manager = (m.started w).manager)
  | unknown (hstarts : t.action.starts = false) (hd : m.seekDisk t.ctrlFd = none) (hm : h.manager = m)
      (he : h.effects = [])
  | works (d : DiskInfo) (w : DiskWork) (hstarts : t.action.starts = false)
      (hd : m.seekDisk t.ctrlFd = some d) (hends : d.ends c t m.files = false)
      (hw : DiskWork.Goes {info := d, files := m.files} w) (hm : h.manager = (m.worked t.ctrlFd w).manager)
      (he : ∀ x ∈ h.effects, DiskWork.Touches {info := d, files := m.files} x)
  | ends (d : DiskInfo) (files : Files (List Char) Char) (hstarts : t.action.starts = false)
      (hd : m.seekDisk t.ctrlFd = some d) (hends : d.ends c t m.files = true) (hfiles : m.files.Keeps files)
      (hm : h.manager = {m with infos := Registry.erase m.infos t.ctrlFd, files := files})
      (he : ∀ x ∈ h.effects, DiskWork.Touches {info := d, files := m.files} x)

variable {c : DiskCalls} {t : DiskTask} {m : DiskManager} {d : DiskInfo}

/-- Work that goes on from the object found touches what the object does. -/
theorem touches_goes {w : DiskWork} (hw : DiskWork.Goes {info := d, files := m.files} w) :
    ∀ x ∈ w.effects, DiskWork.Touches {info := d, files := m.files} x := by
  obtain ⟨new, hnew, htouch⟩ := hw.effects
  intro x hx
  rw [hnew] at hx
  exact htouch x hx

theorem acts_worked {w : DiskWork} {ret : Int} (hstarts : t.action.starts = false)
    (hd : m.seekDisk t.ctrlFd = some d) (hends : d.ends c t m.files = false)
    (hw : DiskWork.Goes {info := d, files := m.files} w) : Acts c t m (m.worked t.ctrlFd w ret) :=
  .works d w hstarts hd hends hw rfl (touches_goes hw)

theorem delDisk_found {fd : Fd} (hd : m.seekDisk fd = some d) :
    ∃ files, (m.delDisk fd).1 = {m with infos := Registry.erase m.infos fd, files := files} ∧
      m.files.Keeps files ∧ ∀ x ∈ (m.delDisk fd).2, x.path? = none := by
  unfold DiskManager.delDisk
  rw [hd]
  refine ⟨_, rfl, (DiskWork.closeFileHandle_goes {info := d, files := m.files}).files, ?_⟩
  dsimp only
  unfold DiskWork.closeFileHandle
  split
  · exact fun _ h => nomatch h
  · exact List.forall_mem_singleton.mpr rfl

/-- Closing the handle posts nothing. -/
theorem delDisk_posts (m : DiskManager) (fd : Fd) : (m.delDisk fd).2 = [] ∨ ∃ n, (m.delDisk fd).2 = [.closed n] := by
  unfold DiskManager.delDisk
  split
  · exact Or.inl rfl
  · dsimp only
    unfold DiskWork.closeFileHandle
    split
    · exact Or.inl rfl
    · exact Or.inr ⟨_, rfl⟩

/-- The object of a transfer that is over is deleted, once the session has been told. -/
theorem acts_deleted {w : DiskWork} (hstarts : t.action.starts = false) (hd : m.seekDisk t.ctrlFd = some d)
    (hends : d.ends c t m.files = true) (hw : DiskWork.Goes {info := d, files := m.files} w)
    {h : DiskHandled} (hh : h.manager = (m.worked t.ctrlFd w).manager)
    (he : ∀ x ∈ h.effects, DiskWork.Touches {info := d, files := m.files} x) :
    Acts c t m (h.thenDelete t.ctrlFd) := by
  have hfound : h.manager.seekDisk t.ctrlFd = some w.info := by
    rw [hh]
    exact Registry.modify_same ..
  obtain ⟨files, hmanager, hkeeps, heffects⟩ := delDisk_found hfound
  rw [hh] at hkeeps
  refine .ends d files hstarts hd hends (hw.files.trans hkeeps) ?_ ?_
  · show (h.manager.delDisk t.ctrlFd).1 = _
    rw [hmanager, hh]
    show DiskManager.mk (Registry.erase (Registry.modify m.infos t.ctrlFd w.info) t.ctrlFd) _ _ = _
    rw [Registry.erase_modify]
    rfl
  · intro x hx
    rcases List.mem_append.mp hx with hx | hx
    · exact he x hx
    · exact DiskWork.touches_none (heffects x hx)

theorem worked_self (hd : m.seekDisk t.ctrlFd = some d) :
    m = (m.worked t.ctrlFd {info := d, files := m.files}).manager := by
  have hsame : Registry.modify m.infos t.ctrlFd d = m.infos := by
    unfold Registry.modify
    rw [← show m.infos t.ctrlFd = some d from hd, Function.update_eq_self]
  show m = {m with infos := Registry.modify m.infos t.ctrlFd d, files := m.files}
  rw [hsame]

/-- Nothing was done to the object found. -/
theorem acts_nothing (hstarts : t.action.starts = false) (hd : m.seekDisk t.ctrlFd = some d)
    (hends : d.ends c t m.files = false) : Acts c t m {manager := m} :=
  .works d _ hstarts hd hends (.refl _) (worked_self hd) fun _ h => nomatch h

theorem acts_finished {w : DiskWork} (hstarts : t.action.starts = false) (hd : m.seekDisk t.ctrlFd = some d)
    (hends : d.ends c t m.files = true) (hw : DiskWork.Goes {info := d, files := m.files} w)
    {h : DiskHandled} (hh : h.manager = (m.worked t.ctrlFd w).manager)
    (he : ∀ x ∈ h.effects, DiskWork.Touches {info := d, files := m.files} x) :
    Acts c t m (h.finish t.ctrlFd) := by
  refine acts_deleted hstarts hd hends hw hh ?_
  intro x hx
  rcases List.mem_append.mp hx with hx | hx
  · exact he x hx
  · rw [List.mem_singleton.mp hx]
    exact DiskWork.touches_none rfl

/-! ### One task -/

theorem runRetrLoading_goes (w : DiskWork) : w.Goes (runRetrLoading c w).2 := by
  have hread := w.readFromDisk_goes (c := c)
  unfold runRetrLoading
  dsimp only
  split
  · exact hread
  · exact hread.trans (DiskWork.closeFileHandle_goes _)

theorem runStorFinish_goes (w : DiskWork) : w.Goes (runStorFinish c t w).2 :=
  (w.writeToDisk_goes t).trans (DiskWork.closeFileHandle_goes _)

theorem clearListInfo_goes (w : DiskWork) : w.Goes w.clearListInfo := DiskWork.goes_none rfl (.refl _) rfl

theorem runIndexStart_goes (w : DiskWork) : Returns (runIndexStart c w) fun r => w.Goes r.2 :=
  .bind (DiskWork.listFrom_goes _ _) fun _ hr => .ok ((clearListInfo_goes w).trans hr)

theorem runIndexLoading_goes (w : DiskWork) : Returns (runIndexLoading c w) fun r => w.Goes r.2 :=
  .bind (DiskWork.listFrom_goes _ _) fun _ hr => .ok ((clearListInfo_goes w).trans hr)

theorem runRetrStart_begins : (runRetrStart c (m.construct t)).2.Begins c m t :=
  ((DiskWork.openPath_begins false).goes (DiskWork.seekFileHandle_goes _)).goes (runRetrLoading_goes _)

theorem runStorStart_begins : (runStorStart c (m.construct t)).2.Begins c m t := by
  unfold runStorStart
  split
  · exact DiskWork.openPath_begins true
  · exact ((DiskWork.openPath_begins false).goes (DiskWork.seekFileHandle_goes _)).goes
      (DiskWork.goes_none rfl (.refl _) rfl)

theorem runStorStart_ret (w : DiskWork) : (runStorStart c w).1 = 0 := by
  unfold runStorStart
  split <;> rfl

theorem writeDone_acts (ht : t.action = .writeDone) (hd : m.seekDisk t.ctrlFd = some d) :
    Returns (writeDone c t m d) fun h => Acts c t m h := by
  have hstarts : t.action.starts = false := by simp [ht, DiskTaskAction.starts]
  unfold writeDone
  split
  · rename_i ha
    have hends : d.ends c t m.files = false := by simp [DiskInfo.ends, ht, ha]
    refine .bind (runIndexLoading_goes _) fun r hr => .bind (DiskWork.dataPost_goes _ _ _) fun w hw => .ok ?_
    exact acts_worked hstarts hd hends ((hr.trans (DiskWork.setDataAction_goes _ _)).trans hw)
  · rename_i ha
    have hends : d.ends c t m.files = true := by simp [DiskInfo.ends, ht, ha]
    exact .ok (acts_finished hstarts hd hends (.refl _) (worked_self hd) fun _ h => nomatch h)
  · rename_i ha
    have hends : d.ends c t m.files = false := by simp [DiskInfo.ends, ht, ha]
    refine .bind (DiskWork.dataPost_goes _ _ _) fun w hw => .ok ?_
    exact acts_worked hstarts hd hends (((runRetrLoading_goes _).trans (DiskWork.setDataAction_goes _ _)).trans hw)
  · rename_i ha
    have hends : d.ends c t m.files = true := by simp [DiskInfo.ends, ht, ha]
    exact .ok (acts_finished hstarts hd hends (.refl _) (worked_self hd) fun _ h => nomatch h)
  · rename_i hfinish _ hloaded
    have hends : d.ends c t m.files = false := by simpa [DiskInfo.ends, ht] using ⟨hfinish, hloaded⟩
    exact .ok (acts_nothing hstarts hd hends)

theorem storing_acts (ht : t.action = .storing) (hd : m.seekDisk t.ctrlFd = some d) :
    Acts c t m (storing c t m d) := by
  have hstarts : t.action.starts = false := by simp [ht, DiskTaskAction.starts]
  have hends : d.ends c t m.files = false := by simp [DiskInfo.ends, ht]
  have hw := (DiskWork.setDataAction_goes {info := d, files := m.files} .storing).trans
    (DiskWork.writeToDisk_goes (c := c) t _)
  unfold storing
  dsimp only
  split
  · exact acts_worked hstarts hd hends hw
  · split
    · exact acts_worked hstarts hd hends hw
    · exact acts_worked hstarts hd hends (hw.trans (DiskWork.setDataAction_goes _ _))

theorem storOk_acts (ht : t.action = .storOk) (hd : m.seekDisk t.ctrlFd = some d) :
    Acts c t m (storOk c t m d) := by
  have hstarts : t.action.starts = false := by simp [ht, DiskTaskAction.starts]
  have hw := (DiskWork.setDataAction_goes {info := d, files := m.files} .storing).trans
    (runStorFinish_goes (c := c) (t := t) _)
  obtain ⟨hleast, hsame⟩ := DiskWork.writeToDisk_ret (c := c) t {info := d, files := m.files} .storing
  have hret : (runStorFinish c t (DiskWork.setDataAction {info := d, files := m.files} .storing)).1 =
      (DiskWork.writeToDisk c t {info := d, files := m.files}).1 := hsame
  unfold storOk
  dsimp only
  rw [hret]
  split
  · rename_i hzero
    have hends : d.ends c t m.files = false := by simp [DiskInfo.ends, ht, hzero]
    exact acts_worked hstarts hd hends hw
  · rename_i hzero
    split
    · rename_i hfailed
      have hends : d.ends c t m.files = false := by simp [DiskInfo.ends, ht, hfailed]
      exact acts_worked hstarts hd hends hw
    · rename_i hfailed
      have hends : d.ends c t m.files = true := by
        simp only [DiskInfo.ends, ht, decide_eq_true_eq]
        omega
      have hdone := hw.trans (DiskWork.setDataAction_goes _ .storDone)
      exact acts_finished hstarts hd hends hdone rfl (touches_goes hdone)

/-- Every task that returns has acted in one of these ways. -/
theorem rollStateMachine_acts : Returns (rollStateMachine c t m) fun h => Acts c t m h := by
  unfold rollStateMachine
  cases ht : t.action with
  | indexStart =>
    refine .bind (runIndexStart_goes _) fun r hr => .bind (DiskWork.dataPost_goes _ _ _) fun w hw => .ok ?_
    have hgoes := (hr.trans (DiskWork.setDataAction_goes _ _)).trans hw
    exact .starts w (by simp [ht, DiskTaskAction.starts]) (DiskWork.construct_begins.goes hgoes) rfl
  | storStart =>
    dsimp only
    rw [runStorStart_ret, if_pos rfl]
    have hgoes := runStorStart_begins.goes (DiskWork.setDataAction_goes (runStorStart c (m.construct t)).2 .storStart)
    exact .ok (.starts _ (by simp [ht, DiskTaskAction.starts]) hgoes rfl)
  | retrStart =>
    refine .bind (DiskWork.dataPost_goes _ _ _) fun w hw => .ok ?_
    exact .starts w (by simp [ht, DiskTaskAction.starts])
      (runRetrStart_begins.goes ((DiskWork.setDataAction_goes _ _).trans hw)) rfl
  | writeDone =>
    dsimp only
    split
    · exact .ok (.unknown (by simp [ht, DiskTaskAction.starts]) ‹_› rfl rfl)
    · exact writeDone_acts ht ‹_›
  | storing =>
    dsimp only
    split
    · exact .ok (.unknown (by simp [ht, DiskTaskAction.starts]) ‹_› rfl rfl)
    · exact .ok (storing_acts ht ‹_›)
  | storOk =>
    dsimp only
    split
    · exact .ok (.unknown (by simp [ht, DiskTaskAction.starts]) ‹_› rfl rfl)
    · exact .ok (storOk_acts ht ‹_›)
  | dele =>
    dsimp only
    split
    · exact .ok (.unknown (by simp [ht, DiskTaskAction.starts]) ‹_› rfl rfl)
    · rename_i d hd
      have hends : d.ends c t m.files = true := by simp [DiskInfo.ends, ht]
      exact .ok (acts_deleted (by simp [ht, DiskTaskAction.starts]) hd hends (.refl _) (worked_self hd) fun _ h => nomatch h)
  | other code =>
    dsimp only
    split
    · exact .ok (.unknown (by simp [ht, DiskTaskAction.starts]) ‹_› rfl rfl)
    · rename_i d hd
      exact .ok (acts_nothing (by simp [ht, DiskTaskAction.starts]) hd (by simp [DiskInfo.ends, ht]))

end DiskFsm

theorem step_of_roll {i : DiskInput} {m : DiskManager} {h : DiskHandled}
    (hroll : DiskFsm.rollStateMachine i.calls i.task m = .ok h) : diskManager.step i m = .ok (h.manager, h.effects) :=
  bind_eq_ok.mpr ⟨h, hroll, rfl⟩

/-- A step of the disk side is a task that has acted. -/
theorem takes_acts {e : DiskEdge} (h : diskManager.Takes e) :
    ∃ r, DiskFsm.Acts e.input.calls e.input.task e.before r ∧ r.manager = e.after ∧ r.effects = e.effects := by
  obtain ⟨r, hr, he⟩ := bind_eq_ok.mp h
  injection he with he
  injection he with hafter heffects
  exact ⟨r, DiskFsm.rollStateMachine_acts r hr, hafter, heffects⟩

end HyperTransfer
