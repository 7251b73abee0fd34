import HyperTransfer.Disk.Ownership
import HyperTransfer.Lib.Ledger

/-! How often a file is closed.

`close_file_handle` leaves the number of the file in the object, and the destructor closes
what number is there: a file whose end a download has come to, or whose upload was told of
its end, is closed a second time with the object. By then the number may be that of a
socket the server has accepted. No file is closed twice exactly when no task comes that
closes again (`closed_once_iff`). -/
namespace HyperTransfer
open CString Ledger History

/-- Who has opened a descriptor: an object of the disk side, or other code of the process. -/
inductive Owner where
  | object (address : Nat)
  | other
deriving DecidableEq

/-- What an effect does to the descriptors, on behalf of an object. -/
def DiskEffect.entry (a : Nat) : DiskEffect → Option (Entry Owner)
  | .opened _ (some n) => some (.take n (.object a))
  | .closed n => some (.give n (.object a))
  | _ => none

/-- The object a task works on, which is the next one where it makes one. -/
def DiskManager.worksOn (m : DiskManager) (t : DiskTask) : Nat :=
  match if t.action.starts then none else m.seekDisk t.ctrlFd with
  | none => m.allocated
  | some d => d.address

/-- The disk side, and who holds the descriptors of the process. -/
structure Process where
  disk : DiskManager
  owner : Nat → Option Owner

/-- A disk task, or other code that is given a free number or closes one of its own. -/
inductive ProcessInput where
  | task (i : DiskInput)
  | opens (n : Nat) (o : Description (List Char))
  | closes (n : Nat)

namespace Process

/-- Before the first task, other code has opened whatever is open. -/
def idle (files : Files (List Char) Char) : Process :=
  {disk := .idle files, owner := fun n => (files.opened n).map fun _ => .other}

def next (p : Process) (disk : DiskManager) (entries : List (Entry Owner)) : Process × List (Entry Owner) :=
  ({disk := disk, owner := posted p.owner entries}, entries)

def opens (p : Process) (n : Nat) (o : Description (List Char)) : Process × List (Entry Owner) :=
  if (p.disk.files.opened n).isSome then p.next p.disk []
  else
    let files := {p.disk.files with opened := Function.update p.disk.files.opened n (some o)}
    p.next {p.disk with files := files} [.take n .other]

def closes (p : Process) (n : Nat) : Process × List (Entry Owner) :=
  if p.owner n = some .other then p.next {p.disk with files := p.disk.files.close n} [.give n .other]
  else p.next p.disk []

end Process

/-- The disk tasks of a process in which other code opens and closes descriptors as well. -/
def diskProcess : Machine ProcessInput Process (Entry Owner) Fault where
  step
    | .task i, p => do
      let h ← DiskFsm.rollStateMachine i.calls i.task p.disk
      return p.next h.manager (h.effects.filterMap (DiskEffect.entry (p.disk.worksOn i.task)))
    | .opens n o, p => .ok (p.opens n o)
    | .closes n, p => .ok (p.closes n)

abbrev ProcessEdge := Edge ProcessInput Process (Entry Owner)

/-- The task that is handled, and the object it finds. -/
def finding (e : ProcessEdge) : Option (DiskInput × DiskInfo) :=
  match e.input with
  | .task i => if i.task.action.starts then none else (e.before.disk.seekDisk i.task.ctrlFd).map fun d => (i, d)
  | _ => none

/-- What the steps did to the descriptors. -/
def entries (past : List ProcessEdge) : List (Entry Owner) := past.flatMap Edge.effects

/-- Every object closes its file once at most, and whoever closes a descriptor holds it. -/
structure ClosedOnce (files : Files (List Char) Char) (run : List ProcessEdge) : Prop where
  once : ∀ a, gives (.object a) (entries run) ≤ 1
  held : Rightful (Process.idle files).owner (entries run)

/-- The object was told of the end of its upload, or has been found at the end of its file. -/
def ToldEnd (past : List ProcessEdge) (a : Nat) : Prop :=
  ∃ x ∈ past, ∃ f ∈ finding x, f.2.address = a ∧ (f.1.task.action = .storOk ∨ f.2.dataAction = .retrFinish)

/-- `close_file_handle` has been called on the object. -/
def CloseCalled (past : List ProcessEdge) (d : DiskInfo) : Prop := d.dataAction = .retrFinish ∨ ToldEnd past d.address

/-- The task closes a file for the second time: it ends a download that has come to the end of its file, it
tells an upload of its end with bytes that are taken, or what it closes has been closed. -/
def ClosesAgain (past : List ProcessEdge) (m : DiskManager) (i : DiskInput) (d : DiskInfo) : Prop :=
  match i.task.action with
  | .writeDone => d.dataAction = .retrFinish
  | .storOk => CloseCalled past d ∨ d.ends i.calls i.task m.files = true
  | .dele => CloseCalled past d
  | _ => False

/-- No task comes that closes again. -/
def NoneAgain (past : List ProcessEdge) (e : ProcessEdge) : Prop :=
  ∀ f ∈ finding e, f.2.fileHandle.isSome → ¬ ClosesAgain past e.before.disk f.1 f.2

/-- What is held is what is open. -/
def Accounts (held : Nat → Option Owner) (f : Files (List Char) Char) : Prop :=
  ∀ n, (held n).isSome = (f.opened n).isSome

/-- The entries of a file that is closed so and so often. -/
def closings (handle : Option Nat) (k a : Nat) : List (Entry Owner) :=
  handle.toList.flatMap fun n => List.replicate k (.give n (.object a))

/-- Work that opens nothing and closes the object's file so and so often. -/
structure DiskWork.Closes (k : Nat) (w v : DiskWork) : Prop where
  handle : v.info.fileHandle = w.info.fileHandle
  effects : ∃ new, v.effects = w.effects ++ new ∧
    ∀ a, new.filterMap (DiskEffect.entry a) = closings w.info.fileHandle k a
  files : ∀ held a, Accounts held w.files → Accounts (posted held (closings w.info.fileHandle k a)) v.files

/-- The entry of a file that is opened. -/
def openings (handle : Option Nat) (a : Nat) : List (Entry Owner) := handle.toList.map fun n => .take n (.object a)

/-- What a start task has done to the descriptors: a file was opened under a free number, if any was,
and closed so and so often. -/
structure DiskWork.Starts (k : Nat) (m : DiskManager) (w : DiskWork) : Prop where
  effects : ∀ a, w.effects.filterMap (DiskEffect.entry a) =
    openings w.info.fileHandle a ++ closings w.info.fileHandle k a
  free : ∀ n, w.info.fileHandle = some n → m.files.opened n = none
  files : ∀ held a, Accounts held m.files →
    Accounts (posted held (openings w.info.fileHandle a ++ closings w.info.fileHandle k a)) w.files

/-- How often a start task closes the file it opens, and the state it leaves the object in. -/
inductive FileBegun : Nat → DiskInfo → Prop where
  | listing {d : DiskInfo} (hd : d.fileHandle = none) : FileBegun 0 d
  | storing {d : DiskInfo} (hd : d.dataAction = .storStart) : FileBegun 0 d
  | loading {d : DiskInfo} (hd : d.dataAction = .retrLoading) : FileBegun 0 d
  | read {d : DiskInfo} (hd : d.dataAction = .retrFinish) : FileBegun 1 d

/-- How often a task closes the file of the object it finds, and the state it leaves the object in
if it leaves it there. -/
inductive Handles (c : DiskCalls) (t : DiskTask) (files : Files (List Char) Char) (d : DiskInfo) :
    Nat → Option DiskAction → Prop where
  | same (hstor : t.action ≠ .storOk) (hends : d.ends c t files = false) : Handles c t files d 0 (some d.dataAction)
  | listed (a : DiskAction) (ht : t.action = .writeDone) (hd : d.dataAction = .indexLoading)
      (ha : a = .indexLoading ∨ a = .indexFinish) : Handles c t files d 0 (some a)
  | stored (a : DiskAction) (ht : t.action = .storing) (ha : a = .storing ∨ a = .storDone) :
      Handles c t files d 0 (some a)
  | loaded (ht : t.action = .writeDone) (hd : d.dataAction = .retrLoading) : Handles c t files d 1 (some .retrFinish)
  | refused (ht : t.action = .storOk) (hends : d.ends c t files = false) : Handles c t files d 1 (some .storing)
  | told (ht : t.action = .storOk) (hends : d.ends c t files = true) : Handles c t files d 2 none
  | finished (ht : t.action = .writeDone) (hd : d.dataAction = .indexFinish ∨ d.dataAction = .retrFinish) :
      Handles c t files d 1 none
  | deleted (ht : t.action = .dele) : Handles c t files d 1 none

/-- What becomes of the object found, its file and the descriptors. -/
def FileHandled (c : DiskCalls) (t : DiskTask) (m : DiskManager) (d : DiskInfo) (h : DiskHandled) : Prop :=
  ∃ k a, Handles c t m.files d k a ∧ (h.manager.infos t.ctrlFd).map DiskInfo.dataAction = a ∧
    (∀ b, h.effects.filterMap (DiskEffect.entry b) = closings d.fileHandle k b) ∧
    ∀ held b, Accounts held m.files → Accounts (posted held (closings d.fileHandle k b)) h.manager.files

section
variable {c : DiskCalls} {t : DiskTask} {m : DiskManager} {d : DiskInfo} {w v u : DiskWork} {k l : Nat}
  {held : Nat → Option Owner} {f : Files (List Char) Char}

/-! ### Methods -/

theorem closings_zero (handle : Option Nat) (a : Nat) : closings handle 0 a = [] := by
  cases handle <;> rfl

theorem closings_add (handle : Option Nat) (k l a : Nat) :
    closings handle (k + l) a = closings handle k a ++ closings handle l a := by
  cases handle with
  | none => rfl
  | some n => simp [closings]

theorem gives_closings (handle : Option Nat) (k a b : Nat) :
    gives (.object b) (closings handle k a) = if handle.isSome = true ∧ a = b then k else 0 := by
  induction k with
  | zero => rw [closings_zero, gives_nil, ite_self]
  | succ k ih =>
    rw [closings_add, gives_append, ih]
    cases handle with
    | none => rfl
    | some n =>
      by_cases hab : a = b
      · simp [closings, hab]
      · simp [closings, hab]

/-- A number that is taken or given back, in the ledger and by the system. -/
theorem accounts_update (h : Accounts held f) {g : Files (List Char) Char} {n : Nat} {a : Option Owner}
    {o : Option (Description (List Char))} (hg : g.opened = Function.update f.opened n o) (hsome : a.isSome = o.isSome) :
    Accounts (Function.update held n a) g := by
  intro j
  rw [hg]
  by_cases hj : j = n
  · rw [hj, Function.update_self, Function.update_self, hsome]
  · rw [Function.update_of_ne hj, Function.update_of_ne hj]
    exact h j

theorem accounts_take (h : Accounts held f) {g : Files (List Char) Char} {n : Nat} (a : Owner)
    {o : Description (List Char)} (hg : g.opened = Function.update f.opened n (some o)) :
    Accounts (posted held [.take n a]) g := accounts_update h hg rfl

theorem accounts_give (h : Accounts held f) (n : Nat) (a : Owner) : Accounts (posted held [.give n a]) (f.close n) :=
  accounts_update h rfl rfl

namespace DiskWork

/-- Work that opens and closes nothing, with one effect. -/
theorem closes_one {x : DiskEffect} (hhandle : v.info.fileHandle = w.info.fileHandle)
    (heffects : v.effects = w.effects ++ [x]) (hx : ∀ a, x.entry a = none)
    (hfiles : ∀ j, (v.files.opened j).isSome = (w.files.opened j).isSome) : w.Closes 0 v := by
  refine ⟨hhandle, ⟨[x], heffects, fun a => ?_⟩, fun held a haccounts j => ?_⟩
  · rw [closings_zero, List.filterMap_cons_none (hx a), List.filterMap_nil]
  · rw [closings_zero, hfiles]
    exact haccounts j

theorem closes_none (hhandle : v.info.fileHandle = w.info.fileHandle) (heffects : v.effects = w.effects)
    (hfiles : ∀ j, (v.files.opened j).isSome = (w.files.opened j).isSome) : w.Closes 0 v := by
  refine ⟨hhandle, ⟨[], by rw [heffects, List.append_nil], fun a => ?_⟩, fun held a haccounts j => ?_⟩
  · rw [closings_zero, List.filterMap_nil]
  · rw [closings_zero, hfiles]
    exact haccounts j

theorem Closes.refl (w : DiskWork) : w.Closes 0 w :=
  closes_none rfl rfl fun _ => rfl

theorem Closes.trans (h : w.Closes k v) (g : v.Closes l u) : w.Closes (k + l) u := by
  obtain ⟨new, hnew, hentries⟩ := h.effects
  obtain ⟨more, hmore, hthen⟩ := g.effects
  refine ⟨g.handle.trans h.handle, ⟨new ++ more, ?_, fun a => ?_⟩, fun held a haccounts => ?_⟩
  · rw [hmore, hnew, List.append_assoc]
  · rw [List.filterMap_append, hentries, hthen, h.handle, closings_add]
  · have hlater := g.files _ a (h.files held a haccounts)
    rw [h.handle] at hlater
    rw [closings_add, posted_append]
    exact hlater

theorem setDataAction_closes (w : DiskWork) (a : DiskAction) : w.Closes 0 (w.setDataAction a) :=
  closes_none rfl rfl fun _ => rfl

theorem setRestSize_closes (w : DiskWork) (n : Int) : w.Closes 0 (w.setRestSize n) :=
  closes_none rfl rfl fun _ => rfl

theorem clearListInfo_closes (w : DiskWork) : w.Closes 0 w.clearListInfo :=
  closes_none rfl rfl fun _ => rfl

theorem seekFileHandle_closes (w : DiskWork) : w.Closes 0 (w.seekFileHandle c) := by
  unfold seekFileHandle
  split
  · exact .refl w
  · exact closes_none rfl rfl (Files.seek_isSome _ _ _ _)

theorem readFromDisk_closes (w : DiskWork) : w.Closes 0 (w.readFromDisk c).2 := by
  unfold readFromDisk
  split
  · exact closes_none rfl rfl fun _ => rfl
  · rename_i n _
    have hopened := Files.read_isSome w.files n fileBufSize c.reads
    split
    · rename_i files hread
      rw [hread] at hopened
      exact closes_none rfl rfl hopened
    · rename_i bytes files hread
      rw [hread] at hopened
      exact closes_one rfl rfl (fun _ => rfl) hopened

theorem writeToDisk_closes (t : DiskTask) (w : DiskWork) : w.Closes 0 (w.writeToDisk c t).2 := by
  unfold writeToDisk
  split
  · exact .refl w
  · rename_i n _
    have hopened := Files.write_isSome '\x00' w.files n t.payload c.writes
    dsimp only
    split
    · rename_i files hwrite
      rw [hwrite] at hopened
      exact closes_none rfl rfl hopened
    · rename_i files hwrite
      rw [hwrite] at hopened
      exact closes_one rfl rfl (fun _ => rfl) hopened

theorem closeFileHandle_closes (w : DiskWork) : w.Closes 1 w.closeFileHandle := by
  unfold closeFileHandle
  split
  · rename_i hnone
    refine ⟨rfl, ⟨[], (List.append_nil _).symm, fun a => ?_⟩, fun held a haccounts => ?_⟩
    · rw [hnone]
      rfl
    · rw [hnone]
      exact haccounts
  · rename_i n hn
    refine ⟨rfl, ⟨[.closed n], rfl, fun a => ?_⟩, fun held a haccounts => ?_⟩
    · rw [hn]
      rfl
    · rw [hn]
      exact accounts_give haccounts n _

theorem listFrom_closes (w : DiskWork) (names : List (List Char)) :
    Returns (w.listFrom c names) fun r => w.Closes 0 r.2 :=
  .bind_any fun _ => .ok (closes_one rfl rfl (fun _ => rfl) fun _ => rfl)

theorem dataPost_closes (w : DiskWork) (buf : List Char) (len : Int) :
    Returns (w.dataPost buf len) fun v => w.Closes 0 v := by
  unfold dataPost
  split
  · exact .error _
  · exact .ok (closes_one rfl rfl (fun _ => rfl) fun _ => rfl)

end DiskWork

/-! ### Tasks -/

/-- A read that brings nothing is followed by closing the file. -/
theorem runRetrLoading_closes (w : DiskWork) : ∃ k, w.Closes k (DiskFsm.runRetrLoading c w).2 ∧
    (k = 0 ∧ (DiskFsm.runRetrLoading c w).1 = .retrLoading ∨ k = 1 ∧ (DiskFsm.runRetrLoading c w).1 = .retrFinish) := by
  have hread := w.readFromDisk_closes (c := c)
  unfold DiskFsm.runRetrLoading
  dsimp only
  split
  · exact ⟨0, hread, Or.inl ⟨rfl, rfl⟩⟩
  · exact ⟨1, hread.trans (DiskWork.closeFileHandle_closes _), Or.inr ⟨rfl, rfl⟩⟩

theorem runIndexLoading_closes (w : DiskWork) : Returns (DiskFsm.runIndexLoading c w) fun r =>
    w.Closes 0 r.2 ∧ (r.1 = .indexLoading ∨ r.1 = .indexFinish) := by
  refine .bind (DiskWork.listFrom_closes _ _) fun r hr => .ok ⟨(DiskWork.clearListInfo_closes _).trans hr, ?_⟩
  dsimp only
  split
  · exact Or.inl rfl
  · exact Or.inr rfl

theorem handled_worked {ret : Int} (hw : DiskWork.Closes k {info := d, files := m.files} w)
    (h : Handles c t m.files d k (some w.info.dataAction)) : FileHandled c t m d (m.worked t.ctrlFd w ret) := by
  obtain ⟨new, hnew, hentries⟩ := hw.effects
  refine ⟨k, _, h, ?_, fun b => ?_, hw.files⟩
  · exact congrArg _ (Registry.modify_same ..)
  · show w.effects.filterMap _ = _
    rw [hnew]
    exact hentries b

theorem handled_nothing (hstor : t.action ≠ .storOk) (hends : d.ends c t m.files = false)
    (hd : m.infos t.ctrlFd = some d) : FileHandled c t m d {manager := m} := by
  refine ⟨0, _, .same hstor hends, congrArg _ hd, fun b => (closings_zero ..).symm, fun held b haccounts => ?_⟩
  rw [closings_zero]
  exact haccounts

/-- The object is deleted after all, which closes its file once more. -/
theorem handled_deleted {h : DiskHandled} (hw : DiskWork.Closes k {info := d, files := m.files} w)
    (hm : h.manager.infos t.ctrlFd = some w.info) (hfiles : h.manager.files = w.files)
    (heffects : ∀ b, h.effects.filterMap (DiskEffect.entry b) = w.effects.filterMap (DiskEffect.entry b))
    (hk : Handles c t m.files d (k + 1) none) : FileHandled c t m d (h.thenDelete t.ctrlFd) := by
  have hclose := DiskWork.closeFileHandle_closes {info := w.info, files := w.files}
  have hdelete : h.manager.delDisk t.ctrlFd =
      ({h.manager with
          infos := Registry.erase h.manager.infos t.ctrlFd
          files := (DiskWork.closeFileHandle {info := w.info, files := w.files}).files},
        (DiskWork.closeFileHandle {info := w.info, files := w.files}).effects) := by
    unfold DiskManager.delDisk DiskManager.seekDisk
    rw [hm, hfiles]
  obtain ⟨new, hnew, hentries⟩ := hw.effects
  obtain ⟨more, hmore, hthen⟩ := hclose.effects
  have hhandle : w.info.fileHandle = d.fileHandle := hw.handle
  refine ⟨k + 1, none, hk, ?_, fun b => ?_, fun held b haccounts => ?_⟩
  · show Option.map _ ((h.manager.delDisk t.ctrlFd).1.infos t.ctrlFd) = none
    rw [hdelete]
    exact congrArg _ (Registry.erase_same ..)
  · show List.filterMap _ (h.effects ++ (h.manager.delDisk t.ctrlFd).2) = _
    rw [hdelete, List.filterMap_append, heffects, hnew, hmore]
    apply (congrArg₂ (· ++ ·) (hentries b) (hthen b)).trans
    rw [← hhandle]
    exact (closings_add ..).symm
  · show Accounts _ (h.manager.delDisk t.ctrlFd).1.files
    rw [hdelete, closings_add, posted_append, ← hhandle]
    exact hclose.files _ b (hhandle ▸ hw.files held b haccounts)

theorem writeDone_handled (ht : t.action = .writeDone) (hd : m.infos t.ctrlFd = some d) :
    Returns (DiskFsm.writeDone c t m d) fun h => FileHandled c t m d h := by
  have hstor : t.action ≠ .storOk := by simp [ht]
  have hfinish (hstate : d.dataAction = .indexFinish ∨ d.dataAction = .retrFinish) :
      FileHandled c t m d ({manager := m : DiskHandled}.finish t.ctrlFd) :=
    handled_deleted (.refl _) hd rfl (fun _ => rfl) (.finished ht hstate)
  unfold DiskFsm.writeDone
  split
  · rename_i hstate
    refine .bind (runIndexLoading_closes _) fun r hr => ?_
    intro h hh
    obtain ⟨w, hw, hh⟩ := bind_eq_ok.mp hh
    cases hh
    apply handled_worked ((hr.1.trans (DiskWork.setDataAction_closes _ _)).trans (DiskWork.dataPost_closes _ _ _ w hw))
    rw [DiskWork.dataPost_info _ _ _ w hw]
    exact .listed _ ht hstate hr.2
  · exact .ok (hfinish (Or.inl ‹_›))
  · rename_i hstate
    obtain ⟨k, hk, hread⟩ := runRetrLoading_closes (c := c) {info := d, files := m.files}
    intro h hh
    obtain ⟨w, hw, hh⟩ := bind_eq_ok.mp hh
    cases hh
    apply handled_worked ((hk.trans (DiskWork.setDataAction_closes _ _)).trans (DiskWork.dataPost_closes _ _ _ w hw))
    rw [DiskWork.dataPost_info _ _ _ w hw]
    show Handles c t m.files d k (some (DiskFsm.runRetrLoading c _).1)
    rcases hread with ⟨hk, ha⟩ | ⟨hk, ha⟩
    · rw [hk, ha, ← hstate]
      exact .same hstor (by simp [DiskInfo.ends, ht, hstate])
    · rw [hk, ha]
      exact .loaded ht hstate
  · exact .ok (hfinish (Or.inr ‹_›))
  · rename_i hlisted _ hread
    exact .ok (handled_nothing hstor (by simpa [DiskInfo.ends, ht] using ⟨hlisted, hread⟩) hd)

theorem storing_handled (ht : t.action = .storing) : FileHandled c t m d (DiskFsm.storing c t m d) := by
  have hw := (DiskWork.setDataAction_closes {info := d, files := m.files} .storing).trans
    (DiskWork.writeToDisk_closes (c := c) t _)
  have hinfo := DiskWork.writeToDisk_info (c := c) t (DiskWork.setDataAction {info := d, files := m.files} .storing)
  have hstoring : Handles c t m.files d 0
      (some (DiskWork.writeToDisk c t (DiskWork.setDataAction {info := d, files := m.files} .storing)).2.info.dataAction) := by
    rw [hinfo]
    exact .stored _ ht (Or.inl rfl)
  unfold DiskFsm.storing DiskFsm.runStorLoading
  dsimp only
  split
  · exact handled_worked hw hstoring
  · split
    · exact handled_worked hw hstoring
    · exact handled_worked (hw.trans (DiskWork.setDataAction_closes _ .storDone)) (.stored _ ht (Or.inr rfl))

theorem storOk_handled (ht : t.action = .storOk) : FileHandled c t m d (DiskFsm.storOk c t m d) := by
  have hw := ((DiskWork.setDataAction_closes {info := d, files := m.files} .storing).trans
    (DiskWork.writeToDisk_closes (c := c) t _)).trans (DiskWork.closeFileHandle_closes _)
  have hinfo : (DiskFsm.runStorFinish c t (DiskWork.setDataAction {info := d, files := m.files} .storing)).2.info =
      {d with dataAction := .storing} :=
    (DiskWork.closeFileHandle_info _).trans (DiskWork.writeToDisk_info t _)
  obtain ⟨hleast, hsame⟩ := DiskWork.writeToDisk_ret (c := c) t {info := d, files := m.files} .storing
  have hret : (DiskFsm.runStorFinish c t (DiskWork.setDataAction {info := d, files := m.files} .storing)).1 =
      (DiskWork.writeToDisk c t {info := d, files := m.files}).1 := hsame
  have hrefused (hends : d.ends c t m.files = false) : Handles c t m.files d 1 (some
      (DiskFsm.runStorFinish c t (DiskWork.setDataAction {info := d, files := m.files} .storing)).2.info.dataAction) := by
    rw [hinfo]
    exact .refused ht hends
  unfold DiskFsm.storOk
  dsimp only
  rw [hret]
  split
  · exact handled_worked hw (hrefused (by simp [DiskInfo.ends, *]))
  · split
    · exact handled_worked hw (hrefused (by simp [DiskInfo.ends, *]))
    · have hends : d.ends c t m.files = true := by
        simp only [DiskInfo.ends, ht, decide_eq_true_eq]
        omega
      refine handled_deleted (hw.trans (DiskWork.setDataAction_closes _ .storDone)) (Registry.modify_same ..) rfl
        (fun b => ?_) (.told ht hends)
      exact List.filterMap_append.trans (List.append_nil _)

/-- Every task but a start that finds an object. -/
theorem rollStateMachine_handled (hstarts : t.action.starts = false) (hd : m.infos t.ctrlFd = some d) :
    Returns (DiskFsm.rollStateMachine c t m) fun h => FileHandled c t m d h := by
  have hfound : m.seekDisk t.ctrlFd = some d := hd
  unfold DiskFsm.rollStateMachine
  cases ht : t.action with
  | writeDone =>
    simp only [hfound]
    exact writeDone_handled ht hd
  | storing =>
    simp only [hfound]
    exact .ok (storing_handled ht)
  | storOk =>
    simp only [hfound]
    exact .ok (storOk_handled ht)
  | dele =>
    simp only [hfound]
    exact .ok (handled_deleted (.refl _) hd rfl (fun _ => rfl) (.deleted ht))
  | other code =>
    simp only [hfound]
    exact .ok (handled_nothing (by simp [ht]) (by simp [DiskInfo.ends, ht]) hd)
  | _ =>
    rw [ht] at hstarts
    cases hstarts

/-- An object that is left in the map is in a state of a listing or of a download that goes on only if it
was, and its file has been closed once where it comes to its end or its upload is told of its own. -/
theorem Handles.stays {files : Files (List Char) Char} {s : DiskAction} (h : Handles c t files d k (some s)) :
    (s = .indexLoading ∨ s = .indexFinish → d.dataAction = .indexLoading ∨ d.dataAction = .indexFinish) ∧
      (s = .retrLoading → d.dataAction = .retrLoading ∧ t.action ≠ .storOk) ∧
      (k = 0 ∧ t.action ≠ .storOk ∧ (s = .retrFinish → d.dataAction = .retrFinish) ∨
        k = 1 ∧ d.dataAction = .retrLoading ∧ s = .retrFinish ∨ k = 1 ∧ t.action = .storOk) := by
  cases h with
  | same hstor hends => exact ⟨id, fun hs => ⟨hs, hstor⟩, Or.inl ⟨rfl, hstor, id⟩⟩
  | listed a ht hd ha => rcases ha with ha | ha <;> simp [ha, hd, ht]
  | stored a ht ha => rcases ha with ha | ha <;> simp [ha, ht]
  | loaded ht hd => simp [hd]
  | refused ht hends => simp [ht]

/-! ### Starts -/

namespace DiskWork

theorem construct_starts : Starts 0 m (m.construct t) :=
  ⟨fun _ => rfl, fun _ h => (nomatch h), fun _ _ h => h⟩

theorem openPath_starts (create : Bool) : Starts 0 m ((m.construct t).openPath c create) := by
  unfold openPath
  cases hopen : (m.construct t).files.openFile (m.construct t).info.curPath create c.opens with
  | mk handle files =>
    cases handle with
    | none =>
      rw [Files.openFile_fails hopen]
      exact ⟨fun _ => rfl, fun _ h => (nomatch h), fun _ _ h => h⟩
    | some n =>
      have hopened := (Files.openFile_opens hopen).1
      refine ⟨fun _ => rfl, fun k hk => ?_, fun held b haccounts => ?_⟩
      · cases hk
        exact Files.openFile_free hopen
      · exact accounts_take haccounts (.object b) hopened

theorem Starts.closes (h : Starts k m w) (g : w.Closes l v) : Starts (k + l) m v := by
  obtain ⟨new, hnew, hentries⟩ := g.effects
  refine ⟨fun b => ?_, fun n hn => h.free n (g.handle ▸ hn), fun held b haccounts => ?_⟩
  · rw [hnew, List.filterMap_append, h.effects, hentries, g.handle, closings_add, List.append_assoc]
  · rw [g.handle, closings_add, ← List.append_assoc, posted_append]
    exact g.files _ b (h.files held b haccounts)

end DiskWork

/-- Every start task. -/
theorem rollStateMachine_begun (hstarts : t.action.starts = true) : Returns (DiskFsm.rollStateMachine c t m) fun h =>
    ∃ w : DiskWork, ∃ k, w.Begins c m t ∧ h.manager = (m.started w).manager ∧ DiskWork.Starts k m w ∧
      (∀ b, h.effects.filterMap (DiskEffect.entry b) = w.effects.filterMap (DiskEffect.entry b)) ∧
      FileBegun k w.info := by
  unfold DiskFsm.rollStateMachine
  cases ht : t.action with
  | indexStart =>
    intro h hh
    obtain ⟨r, hr, hh⟩ := bind_eq_ok.mp hh
    obtain ⟨w, hw, hh⟩ := bind_eq_ok.mp hh
    cases hh
    obtain ⟨p, hp, hr'⟩ := bind_eq_ok.mp hr
    have hgoes := ((DiskFsm.runIndexStart_goes _ r hr).trans (DiskWork.setDataAction_goes _ _)).trans
      (DiskWork.dataPost_goes _ _ _ w hw)
    have hlist := (DiskWork.clearListInfo_closes _).trans (DiskWork.listFrom_closes _ _ p hp)
    cases hr'
    have hcloses := (hlist.trans (DiskWork.setDataAction_closes _ _)).trans (DiskWork.dataPost_closes _ _ _ w hw)
    exact ⟨w, 0, DiskWork.construct_begins.goes hgoes, rfl, DiskWork.construct_starts.closes hcloses, fun _ => rfl,
      .listing hgoes.fileHandle⟩
  | storStart =>
    have hopen : DiskWork.Starts 0 m (DiskFsm.runStorStart c (m.construct t)).2 := by
      unfold DiskFsm.runStorStart
      split
      · exact DiskWork.openPath_starts true
      · exact ((DiskWork.openPath_starts false).closes (DiskWork.seekFileHandle_closes _)).closes
          (DiskWork.setRestSize_closes _ 0)
    dsimp only
    rw [DiskFsm.runStorStart_ret, if_pos rfl]
    have hgoes := DiskFsm.runStorStart_begins.goes
      (DiskWork.setDataAction_goes (DiskFsm.runStorStart c (m.construct t)).2 .storStart)
    refine .ok ⟨_, 0, hgoes, rfl, hopen.closes (DiskWork.setDataAction_closes _ .storStart), fun b => ?_, .storing rfl⟩
    exact List.filterMap_append.trans (List.append_nil _)
  | retrStart =>
    obtain ⟨k, hk, hread⟩ :=
      runRetrLoading_closes (c := c) (((m.construct t).openReadonly c).seekFileHandle c)
    intro h hh
    obtain ⟨w, hw, hh⟩ := bind_eq_ok.mp hh
    cases hh
    have hgoes := (DiskWork.setDataAction_goes _ _).trans (DiskWork.dataPost_goes _ _ _ w hw)
    have hcloses := (((DiskWork.seekFileHandle_closes _).trans hk).trans (DiskWork.setDataAction_closes _ _)).trans
      (DiskWork.dataPost_closes _ _ _ w hw)
    have hinfo := DiskWork.dataPost_info _ _ _ w hw
    refine ⟨w, _, DiskFsm.runRetrStart_begins.goes hgoes, rfl, (DiskWork.openPath_starts false).closes hcloses,
      fun _ => rfl, ?_⟩
    have hstate : w.info.dataAction = (DiskFsm.runRetrStart c (m.construct t)).1 := by
      rw [hinfo]
      rfl
    rcases hread with ⟨hk, ha⟩ | ⟨hk, ha⟩
    · rw [hk]
      exact .loading (hstate.trans ha)
    · rw [hk]
      exact .read (hstate.trans ha)
  | _ =>
    rw [ht] at hstarts
    exact nomatch hstarts

/-! ### Steps of the process -/

/-- What a step of the process is. -/
inductive Does (e : ProcessEdge) : Prop where
  | starts (i : DiskInput) (w : DiskWork) (k : Nat) (hfinding : finding e = none)
      (hw : w.Begins i.calls e.before.disk i.task) (hm : e.after.disk = (e.before.disk.started w).manager)
      (hk : DiskWork.Starts k e.before.disk w) (hbegun : FileBegun k w.info)
      (he : e.effects = openings w.info.fileHandle w.info.address ++ closings w.info.fileHandle k w.info.address)
  | finds (i : DiskInput) (d : DiskInfo) (k : Nat) (a : Option DiskAction) (hfinding : finding e = some (i, d))
      (hd : e.before.disk.infos i.task.ctrlFd = some d) (hk : Handles i.calls i.task e.before.disk.files d k a)
      (ha : (e.after.disk.infos i.task.ctrlFd).map DiskInfo.dataAction = a)
      (he : e.effects = closings d.fileHandle k d.address)
      (hallocated : e.after.disk.allocated = e.before.disk.allocated)
      (hentry : ∀ fd d', e.after.disk.infos fd = some d' → ∃ d, e.before.disk.infos fd = some d ∧ d'.kept = d.kept)
      (hother : ∀ fd, fd ≠ i.task.ctrlFd → e.after.disk.infos fd = e.before.disk.infos fd)
      (hfiles : Accounts e.before.owner e.before.disk.files →
        Accounts (posted e.before.owner e.effects) e.after.disk.files)
  | apart (hfinding : finding e = none) (hinfos : e.after.disk.infos = e.before.disk.infos)
      (hallocated : e.after.disk.allocated = e.before.disk.allocated)
      (hfiles : Accounts e.before.owner e.before.disk.files →
        Accounts (posted e.before.owner e.effects) e.after.disk.files)
      (he : e.effects = [] ∨ (∃ n, e.effects = [.take n .other] ∧ e.before.disk.files.opened n = none) ∨
        ∃ n, e.effects = [.give n .other] ∧ e.before.owner n = some .other)

theorem process_does {e : ProcessEdge} (h : diskProcess.Takes e) :
    e.after.owner = posted e.before.owner e.effects ∧ Does e := by
  obtain ⟨p, input, q, es⟩ := e
  cases input with
  | task i =>
    obtain ⟨r, hr, he⟩ := bind_eq_ok.mp h
    have he : p.next r.manager (r.effects.filterMap (DiskEffect.entry (p.disk.worksOn i.task))) = (q, es) :=
      Except.ok.inj he
    cases he
    refine ⟨rfl, ?_⟩
    have hstep : diskManager.Takes ⟨p.disk, i, r.manager, r.effects⟩ := step_of_roll hr
    cases hstarts : i.task.action.starts with
    | true =>
      obtain ⟨w, k, hw, hm, hk, heffects, hbegun⟩ := rollStateMachine_begun hstarts r hr
      have hworks : p.disk.worksOn i.task = w.info.address := by
        rw [hw.address]
        unfold DiskManager.worksOn
        rw [hstarts]
        rfl
      refine .starts i w k ?_ hw hm hk hbegun ?_
      · unfold finding
        dsimp only
        rw [hstarts]
        rfl
      · show r.effects.filterMap _ = _
        rw [hworks, heffects, hk.effects]
    | false =>
      cases hd : p.disk.infos i.task.ctrlFd with
      | none =>
        obtain ⟨hm, he⟩ := unknown_step hstep hstarts hd
        have he : r.effects.filterMap (DiskEffect.entry (p.disk.worksOn i.task)) = [] := by
          rw [show r.effects = [] from he]
          rfl
        have hm : r.manager = p.disk := hm
        refine .apart ?_ (congrArg DiskManager.infos hm) (congrArg DiskManager.allocated hm) ?_ (Or.inl he)
        · unfold finding DiskManager.seekDisk
          dsimp only
          rw [hstarts, hd]
          rfl
        · show Accounts p.owner p.disk.files → Accounts (posted p.owner (r.effects.filterMap _)) r.manager.files
          rw [he, hm]
          exact id
      | some d =>
        have hworks : p.disk.worksOn i.task = d.address := by
          unfold DiskManager.worksOn DiskManager.seekDisk
          rw [hstarts, hd]
          rfl
        obtain ⟨k, a, hk, ha, heffects, hfiles⟩ := rollStateMachine_handled hstarts hd r hr
        obtain ⟨hallocated, _, hentry, _⟩ := follow_step hstep hstarts
        have he : r.effects.filterMap (DiskEffect.entry (p.disk.worksOn i.task)) = closings d.fileHandle k d.address := by
          rw [hworks, heffects]
        refine .finds i d k a ?_ hd hk ha he hallocated hentry (fun fd hfd => infos_other hstep hfd hstarts) ?_
        · unfold finding DiskManager.seekDisk
          dsimp only
          rw [hstarts, hd]
          rfl
        · show Accounts p.owner p.disk.files → Accounts (posted p.owner (r.effects.filterMap _)) r.manager.files
          rw [he]
          exact hfiles p.owner d.address
  | opens n o =>
    have he : p.opens n o = (q, es) := Except.ok.inj h
    unfold Process.opens at he
    cases hopened : p.disk.files.opened n with
    | some x =>
      rw [hopened, Option.isSome_some, if_pos rfl] at he
      cases he
      exact ⟨rfl, .apart rfl rfl rfl id (Or.inl rfl)⟩
    | none =>
      rw [hopened, Option.isSome_none, if_neg Bool.false_ne_true] at he
      cases he
      refine ⟨rfl, .apart rfl rfl rfl (fun haccounts => ?_) (Or.inr (Or.inl ⟨n, rfl, hopened⟩))⟩
      exact accounts_take haccounts .other rfl
  | closes n =>
    have he : p.closes n = (q, es) := Except.ok.inj h
    unfold Process.closes at he
    by_cases howner : p.owner n = some .other
    · rw [if_pos howner] at he
      cases he
      refine ⟨rfl, .apart rfl rfl rfl (fun haccounts => ?_) (Or.inr (Or.inr ⟨n, rfl, howner⟩))⟩
      exact accounts_give haccounts n .other
    · rw [if_neg howner] at he
      cases he
      exact ⟨rfl, .apart rfl rfl rfl id (Or.inl rfl)⟩

end

/-! ### Runs -/

/-- What is known of an object of the map. -/
structure Followed (past : List ProcessEdge) (allocated : Nat) (d : DiskInfo) : Prop where
  old : d.address < allocated
  took : ∀ n, d.fileHandle = some n → .take n (.object d.address) ∈ entries past
  listing : d.dataAction = .indexLoading ∨ d.dataAction = .indexFinish → d.fileHandle = none
  loading : d.dataAction = .retrLoading → ¬ ToldEnd past d.address
  counted : d.fileHandle.isSome →
    (CloseCalled past d ∧ gives (.object d.address) (entries past) = 1) ∨
      (¬ CloseCalled past d ∧ gives (.object d.address) (entries past) = 0)

/-- The ledger of a run and the map agree. -/
structure Recorded (files : Files (List Char) Char) (past : List ProcessEdge) (p : Process) : Prop where
  owner : p.owner = posted (Process.idle files).owner (entries past)
  accounts : Accounts p.owner p.disk.files
  free : TakesFree (Process.idle files).owner (entries past)
  backed : Backed (· ≠ .other) (Process.idle files).owner (entries past)
  once : ∀ a, gives (.object a) (entries past) ≤ 1
  fresh : ∀ a, p.disk.allocated ≤ a → gives (.object a) (entries past) = 0 ∧ ¬ ToldEnd past a
  apart : ∀ fd fd' d d', p.disk.infos fd = some d → p.disk.infos fd' = some d' → d.address = d'.address → fd = fd'
  objects : ∀ fd d, p.disk.infos fd = some d → Followed past p.disk.allocated d

section
variable {files : Files (List Char) Char} {past : List ProcessEdge} {e : ProcessEdge} {i : DiskInput} {d d' : DiskInfo}
  {a k allocated : Nat} {fd : Fd}

theorem entries_append : entries (past ++ [e]) = entries past ++ e.effects := by
  simp [entries]

theorem told_append : ToldEnd (past ++ [e]) a ↔ ToldEnd past a ∨ ∃ f ∈ finding e, f.2.address = a ∧
    (f.1.task.action = .storOk ∨ f.2.dataAction = .retrFinish) := by
  constructor
  · intro h
    obtain ⟨x, hx, hf⟩ := h
    rcases List.mem_append.mp hx with hx | hx
    · exact Or.inl ⟨x, hx, hf⟩
    · exact Or.inr (List.mem_singleton.mp hx ▸ hf)
  · intro h
    rcases h with ⟨x, hx, hf⟩ | hf
    · exact ⟨x, List.mem_append_left _ hx, hf⟩
    · exact ⟨e, List.mem_append_right _ (List.mem_singleton_self e), hf⟩

/-- A step that finds another object or none. -/
theorem told_aside (h : ∀ f ∈ finding e, f.2.address ≠ a) : ToldEnd (past ++ [e]) a ↔ ToldEnd past a := by
  rw [told_append]
  constructor
  · intro htold
    rcases htold with htold | ⟨f, hf, haddress, _⟩
    · exact htold
    · exact absurd haddress (h f hf)
  · exact Or.inl

theorem told_found (h : finding e = some (i, d)) : ToldEnd (past ++ [e]) d.address ↔
    ToldEnd past d.address ∨ i.task.action = .storOk ∨ d.dataAction = .retrFinish := by
  rw [told_append, h]
  simp

theorem gives_openings (handle : Option Nat) (a : Nat) (b : Owner) : gives b (openings handle a) = 0 := by
  cases handle <;> rfl

theorem closings_gives (handle : Option Nat) (k a : Nat) :
    ∀ x ∈ closings handle k a, ∃ n, x = .give n (.object a) ∧ handle = some n := by
  intro x hx
  cases handle with
  | none => exact nomatch hx
  | some n =>
    simp only [closings, Option.toList_some, List.flatMap_cons, List.flatMap_nil, List.append_nil] at hx
    exact ⟨n, (List.mem_replicate.mp hx).2, rfl⟩

/-- An object the step has nothing to do with. -/
theorem followed_aside (h : Followed past allocated d) {allocated' : Nat} (hle : allocated ≤ allocated')
    (hgives : gives (.object d.address) e.effects = 0) (htold : ∀ f ∈ finding e, f.2.address ≠ d.address) :
    Followed (past ++ [e]) allocated' d := by
  have hcounted := h.counted
  unfold CloseCalled at hcounted
  refine ⟨Nat.lt_of_lt_of_le h.old hle, fun n hn => ?_, h.listing, fun hstate => ?_, ?_⟩
  · rw [entries_append]
    exact List.mem_append_left _ (h.took n hn)
  · rw [told_aside htold]
    exact h.loading hstate
  · unfold CloseCalled
    rw [told_aside htold, entries_append, gives_append, hgives, Nat.add_zero]
    exact hcounted

/-- The object a start task has made. -/
theorem followed_begun (hbegun : FileBegun k d) (hfresh : gives (.object d.address) (entries past) = 0)
    (htold : ¬ ToldEnd past d.address) (hfinding : finding e = none) (hold : d.address < allocated)
    (he : e.effects = openings d.fileHandle d.address ++ closings d.fileHandle k d.address) :
    Followed (past ++ [e]) allocated d := by
  have hstill : ToldEnd (past ++ [e]) d.address ↔ ToldEnd past d.address :=
    told_aside fun f hf => nomatch hfinding.symm.trans hf
  have hgives : gives (.object d.address) (entries (past ++ [e])) = if d.fileHandle.isSome = true then k else 0 := by
    rw [entries_append, gives_append, he, gives_append, hfresh, gives_openings, gives_closings]
    simp
  refine ⟨hold, fun n hn => ?_, fun hstate => ?_, fun _ => fun h => htold (hstill.mp h), fun hhandle => ?_⟩
  · rw [entries_append, he, hn]
    exact List.mem_append_right _ (List.mem_append_left _ (List.mem_singleton_self _))
  · cases hbegun with
    | listing hd => exact hd
    | storing hd => rcases hstate with hstate | hstate <;> exact nomatch hd.symm.trans hstate
    | loading hd => rcases hstate with hstate | hstate <;> exact nomatch hd.symm.trans hstate
    | read hd => rcases hstate with hstate | hstate <;> exact nomatch hd.symm.trans hstate
  · unfold CloseCalled
    rw [hgives, if_pos hhandle, hstill]
    cases hbegun with
    | listing hd =>
      rw [hd] at hhandle
      exact nomatch hhandle
    | storing hd => exact Or.inr ⟨by simp [hd, htold], rfl⟩
    | loading hd => exact Or.inr ⟨by simp [hd, htold], rfl⟩
    | read hd => exact Or.inl ⟨Or.inl hd, rfl⟩

/-- The object a task has found, where it is left. -/
theorem followed_found (h : Followed past allocated d) (hC : NoneAgain past e) (hfinding : finding e = some (i, d))
    (hk : Handles i.calls i.task e.before.disk.files d k (some d'.dataAction)) (hkept : d'.kept = d.kept)
    (he : e.effects = closings d.fileHandle k d.address) : Followed (past ++ [e]) allocated d' := by
  injection hkept with haddress hkept
  injection hkept with _ hkept
  injection hkept with _ hhandle
  have htold : ToldEnd (past ++ [e]) d.address ↔ _ := told_found hfinding
  have hgives (hsome : d.fileHandle.isSome) :
      gives (.object d.address) (entries (past ++ [e])) = gives (.object d.address) (entries past) + k := by
    rw [entries_append, gives_append, he, gives_closings, if_pos ⟨hsome, rfl⟩]
  have hstays := hk.stays
  have hcounted := h.counted
  unfold CloseCalled at hcounted
  refine ⟨haddress ▸ h.old, fun n hn => ?_, fun hstate => ?_, fun hstate => ?_, fun hsome => ?_⟩
  · rw [entries_append, haddress]
    exact List.mem_append_left _ (h.took n (hhandle ▸ hn))
  · rw [hhandle]
    exact h.listing (hstays.1 hstate)
  · obtain ⟨hbefore, hstor⟩ := hstays.2.1 hstate
    rw [haddress, htold, hbefore]
    simpa [hstor] using h.loading hbefore
  · rw [hhandle] at hsome
    unfold CloseCalled
    rw [haddress, htold, hgives hsome]
    rcases hstays.2.2 with ⟨hk, hstor, hfinish⟩ | ⟨hk, hbefore, hafter⟩ | ⟨hk, hstor⟩
    · -- neither closed nor told
      rw [hk, Nat.add_zero]
      refine (hcounted hsome).imp (fun hcalled => ⟨?_, hcalled.2⟩) fun hcalled => ⟨?_, hcalled.2⟩
      · rcases hcalled.1 with hstate | hstate
        · exact Or.inr (Or.inr (Or.inr hstate))
        · exact Or.inr (Or.inl hstate)
      · rintro (hstate | hstate | hstate | hstate)
        · exact hcalled.1 (Or.inl (hfinish hstate))
        · exact hcalled.1 (Or.inr hstate)
        · exact hstor hstate
        · exact hcalled.1 (Or.inl hstate)
    · have hzero := (hcounted hsome).resolve_left fun hcalled => by simp [hbefore, h.loading hbefore] at hcalled
      exact Or.inl ⟨Or.inl hafter, by rw [hk, hzero.2]⟩
    · have hagain := hC (i, d) hfinding hsome
      have hzero := (hcounted hsome).resolve_left fun hcalled => hagain (by
        unfold ClosesAgain
        rw [hstor]
        exact Or.inl hcalled.1)
      exact Or.inl ⟨Or.inr (Or.inr (Or.inl hstor)), by rw [hk, hzero.2]⟩

/-- A file is closed for the second time exactly by a task that closes again. -/
theorem closes_once_iff {m : DiskManager} {s : Option DiskAction} (h : Followed past allocated d)
    (hk : Handles i.calls i.task m.files d k s) (hsome : d.fileHandle.isSome) :
    gives (.object d.address) (entries past) + k ≤ 1 ↔ ¬ ClosesAgain past m i d := by
  have hlisting (hstate : d.dataAction = .indexLoading ∨ d.dataAction = .indexFinish) : False := by
    rw [h.listing hstate] at hsome
    cases hsome
  have hquiet (hstor : i.task.action ≠ .storOk) (hends : d.ends i.calls i.task m.files = false) :
      ¬ ClosesAgain past m i d := by
    unfold ClosesAgain
    cases ht : i.task.action with
    | writeDone => simp_all [DiskInfo.ends]
    | storOk => exact absurd ht hstor
    | dele => simp [DiskInfo.ends, ht] at hends
    | _ => exact id
  have hle : gives (.object d.address) (entries past) ≤ 1 := by
    rcases h.counted hsome with ⟨_, hone⟩ | ⟨_, hzero⟩ <;> omega
  have honce : gives (.object d.address) (entries past) + 1 ≤ 1 ↔ ¬ CloseCalled past d := by
    rcases h.counted hsome with ⟨hcalled, hone⟩ | ⟨hcalled, hzero⟩
    · exact iff_of_false (by omega) (not_not.mpr hcalled)
    · exact iff_of_true (by omega) hcalled
  cases hk with
  | same hstor hends => exact iff_of_true hle (hquiet hstor hends)
  | listed a ht hd ha => exact (hlisting (Or.inl hd)).elim
  | stored a ht ha => exact iff_of_true hle (by simp [ClosesAgain, ht])
  | loaded ht hd =>
    refine iff_of_true (honce.mpr fun hcalled => ?_) (by simp [ClosesAgain, ht, hd])
    rcases hcalled with hcalled | hcalled
    · have hfinal := hd.symm.trans hcalled
      cases hfinal
    · exact h.loading hd hcalled
  | refused ht hends => exact honce.trans (by simp [ClosesAgain, ht, hends])
  | told ht hends => exact iff_of_false (by omega) (by simp [ClosesAgain, ht, hends])
  | finished ht hd =>
    rcases hd with hd | hd
    · exact (hlisting (Or.inr hd)).elim
    · exact iff_of_false (fun hcloses => honce.mp hcloses (Or.inl hd)) (by simp [ClosesAgain, ht, hd])
  | deleted ht => exact honce.trans (by simp [ClosesAgain, ht])

theorem takesFree_openings {held : Nat → Option Owner} {handle : Option Nat} {es : List (Entry Owner)}
    (h : TakesFree held es) (hfree : ∀ n, handle = some n → posted held es n = none) :
    TakesFree held (es ++ openings handle a) := by
  cases handle with
  | none =>
    rw [openings, Option.toList_none, List.map_nil, List.append_nil]
    exact h
  | some n =>
    refine always_append.mpr ⟨h, fun k b htake => ?_⟩
    cases htake
    exact hfree n rfl

theorem backed_openings {held : Nat → Option Owner} {handle : Option Nat} {es : List (Entry Owner)}
    {once : Owner → Prop} (h : Backed once held es) : Backed once held (es ++ openings handle a) := by
  cases handle with
  | none =>
    rw [openings, Option.toList_none, List.map_nil, List.append_nil]
    exact h
  | some n => exact always_append.mpr ⟨h, fun k b hgive => nomatch hgive⟩

theorem recorded_begun {w : DiskWork} (howner : e.after.owner = posted e.before.owner e.effects)
    (hp : Recorded files past e.before) (hfinding : finding e = none)
    (hw : w.Begins i.calls e.before.disk i.task) (hm : e.after.disk = (e.before.disk.started w).manager)
    (hk : DiskWork.Starts k e.before.disk w) (hbegun : FileBegun k w.info)
    (he : e.effects = openings w.info.fileHandle w.info.address ++ closings w.info.fileHandle k w.info.address) :
    Recorded files (past ++ [e]) e.after := by
  have hallocated : e.after.disk.allocated = e.before.disk.allocated + 1 := by
    rw [hm]
    rfl
  have hentry (fd : Fd) (d : DiskInfo) (hd : e.after.disk.infos fd = some d) :
      e.before.disk.infos fd = some d ∨ fd = w.info.fd ∧ d = w.info := by
    rw [hm] at hd
    exact Registry.insert_cases hd
  have hnone (a : Nat) : ∀ f ∈ finding e, f.2.address ≠ a := fun f hf => nomatch hfinding.symm.trans hf
  have hgives (b : Nat) : gives (.object b) e.effects =
      if w.info.fileHandle.isSome = true ∧ w.info.address = b then k else 0 := by
    rw [he, gives_append, gives_openings, gives_closings, Nat.zero_add]
  have haside (b : Nat) (hb : b ≠ w.info.address) : gives (.object b) e.effects = 0 := by
    rw [hgives]
    exact if_neg fun h => hb h.2.symm
  obtain ⟨hzero, htold⟩ := hp.fresh w.info.address (Nat.le_of_eq hw.address.symm)
  refine ⟨?_, ?_, ?_, ?_, fun b => ?_, fun b hb => ?_, fun fd fd' d d' hd hd' hsame => ?_, fun fd d hd => ?_⟩
  · rw [howner, hp.owner, entries_append, posted_append]
  · rw [howner, he, hm]
    exact hk.files _ _ hp.accounts
  · rw [entries_append, he, ← List.append_assoc]
    refine takesFree_gives ?_ fun x hx => ?_
    · apply takesFree_openings hp.free
      intro n hn
      rw [← hp.owner]
      exact Option.not_isSome_iff_eq_none.mp (by rw [hp.accounts n, hk.free n hn]; exact Bool.false_ne_true)
    · obtain ⟨n, hx, _⟩ := closings_gives _ _ _ x hx
      exact ⟨n, _, hx⟩
  · rw [entries_append, he, ← List.append_assoc]
    apply backed_gives (backed_openings hp.backed)
    intro x hx
    obtain ⟨n, hx, hn⟩ := closings_gives _ _ _ x hx
    refine ⟨n, _, hx, nofun, List.mem_append_right _ ?_⟩
    rw [hn]
    exact List.mem_singleton_self _
  · rw [entries_append, gives_append]
    by_cases hb : b = w.info.address
    · rw [hb, hzero, hgives, Nat.zero_add]
      split
      · cases hbegun <;> decide
      · exact Nat.zero_le _
    · rw [haside b hb]
      exact hp.once b
  · have hne : b ≠ w.info.address := by
      rw [hw.address]
      omega
    obtain ⟨hgives, hold⟩ := hp.fresh b (by omega)
    rw [entries_append, gives_append, haside b hne, hgives, told_aside (hnone b)]
    exact ⟨rfl, hold⟩
  · have hlt (fd : Fd) (d : DiskInfo) (hd : e.before.disk.infos fd = some d) : d.address ≠ w.info.address := by
      rw [hw.address]
      exact Nat.ne_of_lt (hp.objects fd d hd).old
    rcases hentry fd d hd with hd | ⟨hfd, hd⟩ <;> rcases hentry fd' d' hd' with hd' | ⟨hfd', hd'⟩
    · exact hp.apart fd fd' d d' hd hd' hsame
    · rw [hd'] at hsame
      exact absurd hsame (hlt fd d hd)
    · rw [hd] at hsame
      exact absurd hsame.symm (hlt fd' d' hd')
    · exact hfd.trans hfd'.symm
  · rcases hentry fd d hd with hd | ⟨_, hd⟩
    · have hfollowed := hp.objects fd d hd
      refine followed_aside hfollowed (Nat.le_of_lt (by omega)) (haside _ ?_) (hnone _)
      rw [hw.address]
      exact Nat.ne_of_lt hfollowed.old
    · rw [hd]
      refine followed_begun hbegun hzero htold hfinding ?_ he
      rw [hw.address]
      omega

theorem recorded_found {k : Nat} {s : Option DiskAction} (howner : e.after.owner = posted e.before.owner e.effects)
    (hp : Recorded files past e.before) (hC : NoneAgain past e) (hfinding : finding e = some (i, d))
    (hd : e.before.disk.infos i.task.ctrlFd = some d) (hk : Handles i.calls i.task e.before.disk.files d k s)
    (hs : (e.after.disk.infos i.task.ctrlFd).map DiskInfo.dataAction = s)
    (he : e.effects = closings d.fileHandle k d.address)
    (hallocated : e.after.disk.allocated = e.before.disk.allocated)
    (hentry : ∀ fd d', e.after.disk.infos fd = some d' → ∃ d, e.before.disk.infos fd = some d ∧ d'.kept = d.kept)
    (hother : ∀ fd, fd ≠ i.task.ctrlFd → e.after.disk.infos fd = e.before.disk.infos fd)
    (hfiles : Accounts (posted e.before.owner e.effects) e.after.disk.files) :
    Recorded files (past ++ [e]) e.after := by
  have hfollowed := hp.objects _ d hd
  have hgives (b : Nat) : gives (.object b) e.effects = if d.fileHandle.isSome = true ∧ d.address = b then k else 0 := by
    rw [he, gives_closings]
  have haside (b : Nat) (hb : b ≠ d.address) : gives (.object b) e.effects = 0 := by
    rw [hgives]
    exact if_neg fun h => hb h.2.symm
  have hnone (b : Nat) (hb : b ≠ d.address) : ∀ f ∈ finding e, f.2.address ≠ b := by
    intro f hf
    rw [hfinding] at hf
    cases hf
    exact fun h => hb h.symm
  refine ⟨?_, ?_, ?_, ?_, fun b => ?_, fun b hb => ?_, fun fd fd' d' d'' hd' hd'' hsame => ?_, fun fd d' hd' => ?_⟩
  · rw [howner, hp.owner, entries_append, posted_append]
  · rw [howner]
    exact hfiles
  · rw [entries_append, he]
    apply takesFree_gives hp.free
    intro x hx
    obtain ⟨n, hx, _⟩ := closings_gives _ _ _ x hx
    exact ⟨n, _, hx⟩
  · rw [entries_append, he]
    apply backed_gives hp.backed
    intro x hx
    obtain ⟨n, hx, hn⟩ := closings_gives _ _ _ x hx
    exact ⟨n, _, hx, nofun, hfollowed.took n hn⟩
  · rw [entries_append, gives_append]
    by_cases hb : b = d.address
    · rw [hb, hgives]
      split
      · rename_i hhandle
        exact (closes_once_iff hfollowed hk hhandle.1).mpr (hC (i, d) hfinding hhandle.1)
      · exact hp.once _
    · rw [haside b hb]
      exact hp.once b
  · have hne : b ≠ d.address := by
      have := hfollowed.old
      omega
    obtain ⟨hzero, hold⟩ := hp.fresh b (hallocated ▸ hb)
    rw [entries_append, gives_append, haside b hne, hzero, told_aside (hnone b hne)]
    exact ⟨rfl, hold⟩
  · obtain ⟨d₁, hd₁, hkept₁⟩ := hentry fd d' hd'
    obtain ⟨d₂, hd₂, hkept₂⟩ := hentry fd' d'' hd''
    have h₁ : d'.address = d₁.address := congrArg Prod.fst hkept₁
    have h₂ : d''.address = d₂.address := congrArg Prod.fst hkept₂
    exact hp.apart fd fd' d₁ d₂ hd₁ hd₂ (h₁.symm.trans (hsame.trans h₂))
  · rw [hallocated]
    by_cases hfd : fd = i.task.ctrlFd
    · rw [hfd] at hd'
      obtain ⟨d₁, hd₁, hkept⟩ := hentry _ _ hd'
      cases hd.symm.trans hd₁
      rw [hd'] at hs
      cases hs
      exact followed_found hfollowed hC hfinding hk hkept he
    · rw [hother fd hfd] at hd'
      have hne : d'.address ≠ d.address := fun h => hfd (hp.apart _ _ _ _ hd' hd h)
      exact followed_aside (hp.objects fd d' hd') (Nat.le_refl _) (haside _ hne) (hnone _ hne)

theorem recorded_apart (howner : e.after.owner = posted e.before.owner e.effects)
    (hp : Recorded files past e.before) (hfinding : finding e = none)
    (hinfos : e.after.disk.infos = e.before.disk.infos) (hallocated : e.after.disk.allocated = e.before.disk.allocated)
    (hfiles : Accounts (posted e.before.owner e.effects) e.after.disk.files)
    (he : e.effects = [] ∨ (∃ n, e.effects = [.take n .other] ∧ e.before.disk.files.opened n = none) ∨
      ∃ n, e.effects = [.give n .other] ∧ e.before.owner n = some .other) : Recorded files (past ++ [e]) e.after := by
  have hnone (a : Nat) : ∀ f ∈ finding e, f.2.address ≠ a := fun f hf => nomatch hfinding.symm.trans hf
  have hgives (a : Nat) : gives (.object a) e.effects = 0 := by
    rcases he with he | ⟨n, he, _⟩ | ⟨n, he, _⟩ <;> rw [he] <;> rfl
  refine ⟨?_, ?_, ?_, ?_, fun b => ?_, fun b hb => ?_, ?_, fun fd d hd => ?_⟩
  · rw [howner, hp.owner, entries_append, posted_append]
  · rw [howner]
    exact hfiles
  · rw [entries_append]
    rcases he with he | ⟨n, he, hn⟩ | ⟨n, he, _⟩ <;> rw [he]
    · rw [List.append_nil]
      exact hp.free
    · refine always_append.mpr ⟨hp.free, fun k b htake => ?_⟩
      cases htake
      rw [← hp.owner]
      exact Option.not_isSome_iff_eq_none.mp (by rw [hp.accounts n, hn]; exact Bool.false_ne_true)
    · exact always_append.mpr ⟨hp.free, fun k b htake => nomatch htake⟩
  · rw [entries_append]
    rcases he with he | ⟨n, he, _⟩ | ⟨n, he, hn⟩ <;> rw [he]
    · rw [List.append_nil]
      exact hp.backed
    · exact always_append.mpr ⟨hp.backed, fun k b hgive => nomatch hgive⟩
    · refine always_append.mpr ⟨hp.backed, fun k b hgive => ?_⟩
      cases hgive
      rw [← hp.owner]
      exact ⟨fun hother => absurd rfl hother, fun _ => hn⟩
  · rw [entries_append, gives_append, hgives]
    exact hp.once b
  · rw [hallocated] at hb
    rw [entries_append, gives_append, hgives, told_aside (hnone b)]
    exact hp.fresh b hb
  · rw [hinfos]
    exact hp.apart
  · rw [hinfos] at hd
    rw [hallocated]
    exact followed_aside (hp.objects fd d hd) (Nat.le_refl _) (hgives _) (hnone _)

theorem recorded_step (h : diskProcess.Takes e) (hC : NoneAgain past e) (hp : Recorded files past e.before) :
    Recorded files (past ++ [e]) e.after := by
  obtain ⟨howner, hdoes⟩ := process_does h
  cases hdoes with
  | starts i w k hfinding hw hm hk hbegun he => exact recorded_begun howner hp hfinding hw hm hk hbegun he
  | finds i d k a hfinding hd hk ha he hallocated hentry hother hfiles =>
    exact recorded_found howner hp hC hfinding hd hk ha he hallocated hentry hother (hfiles hp.accounts)
  | apart hfinding hinfos hallocated hfiles he =>
    exact recorded_apart howner hp hfinding hinfos hallocated (hfiles hp.accounts) he

theorem Recorded.closed {p : Process} (h : Recorded files past p) : ClosedOnce files past := by
  refine ⟨h.once, rightful_of_once h.free h.backed fun a ha => ?_⟩
  cases a with
  | object a => exact h.once a
  | other => exact absurd rfl ha

theorem closed_step_iff (h : diskProcess.Takes e) (hp : Recorded files past e.before) :
    ClosedOnce files (past ++ [e]) ↔ NoneAgain past e := by
  constructor
  · intro hclosed f hf hsome
    cases (process_does h).2 with
    | starts i w k hfinding => exact nomatch hfinding.symm.trans hf
    | finds i d k a hfinding hd hk ha he =>
      cases hfinding.symm.trans hf
      apply (closes_once_iff (hp.objects _ d hd) hk hsome).mp
      have honce := hclosed.once d.address
      rwa [entries_append, gives_append, he, gives_closings, if_pos ⟨hsome, rfl⟩] at honce
    | apart hfinding => exact nomatch hfinding.symm.trans hf
  · exact fun hC => (recorded_step h hC hp).closed

end

theorem recorded_idle (files : Files (List Char) Char) : Recorded files [] (Process.idle files) where
  owner := rfl
  accounts n := Option.isSome_map ..
  free := fun now x rest h => by simp [entries] at h
  backed := fun now x rest h => by simp [entries] at h
  once a := Nat.zero_le _
  fresh a _ := ⟨rfl, fun ⟨_, hx, _⟩ => nomatch hx⟩
  apart _ _ _ _ h := nomatch h
  objects _ _ h := nomatch h

/-- **A disk object closes its file once**, and no descriptor but one it holds, exactly when no task comes that
closes again. -/
theorem closed_once_iff (files : Files (List Char) Char) (inputs : List ProcessInput) :
    ClosedOnce files (diskProcess.trace (Process.idle files) inputs) ↔
      Always NoneAgain (diskProcess.trace (Process.idle files) inputs) := by
  have hnil : ClosedOnce files [] := (recorded_idle files).closed
  have hback (now : List ProcessEdge) (e : ProcessEdge) (h : ClosedOnce files (now ++ [e])) : ClosedOnce files now := by
    refine ⟨fun a => ?_, fun before x rest hx => ?_⟩
    · have honce := h.once a
      rw [entries_append, gives_append] at honce
      omega
    · exact h.held before x (rest ++ e.effects) (by rw [entries_append, hx, List.append_assoc, List.cons_append])
  rw [← always_beginnings hnil hback]
  exact always_iff_under inputs (recorded_idle files) (fun _ _ => recorded_step) fun _ _ => closed_step_iff

/-- A download of two bytes; between its last two tasks other code is given the number of the file. -/
def reusedNumber : List ProcessInput :=
  [.task {task := .ofPath 7 .retrStart "/data/a".toList, calls := {opens := some 5, reads := some 2}},
    .task {task := {ctrlFd := 7, action := .writeDone}, calls := {reads := some 2}},
    .opens 5 {path := "socket".toList, pos := 0},
    .task {task := {ctrlFd := 7, action := .writeDone}}]

/-- A disk on which every file has two bytes, and on which nothing is open. -/
def twoBytes : Files (List Char) Char := {content := fun _ => some ['x', 'y'], opened := fun _ => none}

/-- The download closes its file when the read brings nothing, and what has the number by then with its object. -/
theorem number_reused :
    ¬ ClosedOnce twoBytes (diskProcess.trace (.idle twoBytes) reusedNumber) ∧
      entries (diskProcess.trace (.idle twoBytes) reusedNumber) =
        [.take 5 (.object 0), .give 5 (.object 0), .take 5 .other, .give 5 (.object 0)] := by
  have hentries : entries (diskProcess.trace (.idle twoBytes) reusedNumber) =
      [.take 5 (.object 0), .give 5 (.object 0), .take 5 .other, .give 5 (.object 0)] := by
    decide +kernel
  refine ⟨fun h => ?_, hentries⟩
  have hheld := h.held
  rw [hentries] at hheld
  exact nomatch hheld [.take 5 (.object 0), .give 5 (.object 0), .take 5 .other] _ [] rfl 5 (.object 0) rfl

end HyperTransfer
