import HyperTransfer.Disk.Ownership
import HyperTransfer.Lib.History

/-! What disk tasks make of the contents of files.

A start of an upload may create its file, empty; a chunk is written over what is there, through the
handle of the object found. Nothing else a task does shows in the contents, and nothing makes a
file shorter (`contents_step`, `contents_grow`). A handle is only as good as what opened it: the
task that opened a descriptor is the last one after which it is open and before which it was not
(`opener`). -/
namespace HyperTransfer
open CString History

namespace DiskWork
variable {c : DiskCalls} {t : DiskTask} (w : DiskWork)

@[simp] theorem setDataAction_files (a : DiskAction) : (w.setDataAction a).files = w.files := rfl

@[simp] theorem setRestSize_files (n : Int) : (w.setRestSize n).files = w.files := rfl

@[simp] theorem clearListInfo_files : w.clearListInfo.files = w.files := rfl

@[simp] theorem seekFileHandle_content : (w.seekFileHandle c).files.content = w.files.content := by
  unfold seekFileHandle
  split
  · rfl
  · exact Files.seek_content ..

@[simp] theorem readFromDisk_content : (w.readFromDisk c).2.files.content = w.files.content := by
  unfold readFromDisk
  split
  · rfl
  · rename_i d _
    have hread := Files.read_content w.files d fileBufSize c.reads
    split
    · rename_i files hr
      rw [hr] at hread
      exact hread
    · rename_i bytes files hr
      rw [hr] at hread
      exact hread

@[simp] theorem closeFileHandle_content : w.closeFileHandle.files.content = w.files.content := by
  unfold closeFileHandle
  split
  · rfl
  · exact Files.close_content ..

theorem listFrom_files (entries : List (List Char)) : Returns (w.listFrom c entries) fun r => r.2.files = w.files :=
  .bind_any fun _ => .ok rfl

theorem dataPost_files (buf : List Char) (len : Int) : Returns (w.dataPost buf len) fun v => v.files = w.files := by
  unfold dataPost
  split
  · exact .error _
  · exact .ok rfl

theorem writeToDisk_files {n : Nat} (hn : w.info.fileHandle = some n) :
    (w.writeToDisk c t).2.files = (w.files.write '\x00' n t.payload c.writes).2 := by
  unfold writeToDisk
  rw [hn]
  dsimp only
  split
  · rename_i hr
    rw [hr]
  · rename_i hr
    rw [hr]

/-- A write through the handle. -/
theorem writeToDisk_content :
    (w.writeToDisk c t).2.files.content = w.files.content ∨
      ∃ n o old k, w.info.fileHandle = some n ∧ w.files.opened n = some o ∧ w.files.content o.path = some old ∧
        c.writes = some k ∧ (w.writeToDisk c t).2.files.content =
          Function.update w.files.content o.path (some (Files.splice '\x00' old o.pos (t.payload.take k))) := by
  cases hn : w.info.fileHandle with
  | none =>
    unfold writeToDisk
    rw [hn]
    exact Or.inl rfl
  | some n =>
    rw [writeToDisk_files w hn]
    rcases Files.write_content '\x00' w.files n t.payload c.writes with hsame | ⟨o, old, k, ho, hold, hk, hput⟩
    · exact Or.inl hsame
    · exact Or.inr ⟨n, o, old, k, rfl, ho, hold, hk, hput⟩

end DiskWork

namespace DiskFsm

/-- All that a task can make of the contents. -/
inductive Contents (c : DiskCalls) (t : DiskTask) (m : DiskManager) : (List Char → Option (List Char)) → Prop where
  | same : Contents c t m m.files.content
  | creates (ht : t.action = .storStart) (hnone : m.files.content (strncpy pathSize t.curPath) = none) :
      Contents c t m (Function.update m.files.content (strncpy pathSize t.curPath) (some []))
  | writes (ht : t.action = .storing ∨ t.action = .storOk) (d : DiskInfo) (hd : m.infos t.ctrlFd = some d) (n : Nat)
      (hn : d.fileHandle = some n) (o : Description (List Char)) (ho : m.files.opened n = some o) (old : List Char)
      (hold : m.files.content o.path = some old) (k : Nat) (hk : c.writes = some k) :
      Contents c t m (Function.update m.files.content o.path (some (Files.splice '\x00' old o.pos (t.payload.take k))))

variable {c : DiskCalls} {t : DiskTask} {m : DiskManager} {d : DiskInfo}

/-- The contents are as they were. -/
theorem contents_same {content : List Char → Option (List Char)} (h : content = m.files.content) :
    Contents c t m content := h ▸ .same

theorem runIndexStart_files (w : DiskWork) : Returns (runIndexStart c w) fun r => r.2.files = w.files :=
  .bind (DiskWork.listFrom_files _ _) fun _ hr => .ok hr

theorem runIndexLoading_files (w : DiskWork) : Returns (runIndexLoading c w) fun r => r.2.files = w.files :=
  .bind (DiskWork.listFrom_files _ _) fun _ hr => .ok hr

theorem runRetrLoading_content (w : DiskWork) : (runRetrLoading c w).2.files.content = w.files.content := by
  unfold runRetrLoading
  dsimp only
  split <;> simp

theorem openPath_content (create : Bool) (w : DiskWork) :
    (w.openPath c create).files.content = w.files.content ∨
      create = true ∧ w.files.content w.info.curPath = none ∧
        (w.openPath c create).files.content = Function.update w.files.content w.info.curPath (some []) :=
  Files.openFile_content ..

theorem openPath_existing (w : DiskWork) : (w.openPath c false).files.content = w.files.content := by
  rcases openPath_content (c := c) false w with hsame | ⟨hcreate, _, _⟩
  · exact hsame
  · cases hcreate

theorem runStorStart_contents (ht : t.action = .storStart) :
    Contents c t m (runStorStart c (m.construct t)).2.files.content := by
  unfold runStorStart
  split
  · rcases openPath_content (c := c) true (m.construct t) with hsame | ⟨_, hnone, hnew⟩
    · exact contents_same hsame
    · exact hnew ▸ .creates ht hnone
  · refine contents_same ?_
    rw [DiskWork.setRestSize_files, DiskWork.seekFileHandle_content]
    exact openPath_existing _

theorem runRetrStart_content : (runRetrStart c (m.construct t)).2.files.content = m.files.content := by
  unfold runRetrStart
  rw [runRetrLoading_content, DiskWork.seekFileHandle_content]
  exact openPath_existing _

/-- Deleting an object closes its handle at most. -/
theorem delDisk_content (m : DiskManager) (fd : Fd) : (m.delDisk fd).1.files.content = m.files.content := by
  unfold DiskManager.delDisk
  split
  · rfl
  · exact DiskWork.closeFileHandle_content _

theorem thenDelete_content (fd : Fd) (h : DiskHandled) :
    (h.thenDelete fd).manager.files.content = h.manager.files.content := delDisk_content ..

theorem finish_content (fd : Fd) (h : DiskHandled) : (h.finish fd).manager.files.content = h.manager.files.content :=
  thenDelete_content ..

theorem writeDone_content : Returns (writeDone c t m d) fun h => h.manager.files.content = m.files.content := by
  unfold writeDone
  split
  · refine .bind (runIndexLoading_files _) fun r hr => .bind (DiskWork.dataPost_files _ _ _) fun w hw => .ok ?_
    exact congrArg Files.content (hw.trans hr)
  · exact .ok (finish_content ..)
  · refine .bind (DiskWork.dataPost_files _ _ _) fun w hw => .ok ?_
    exact (congrArg Files.content hw).trans (runRetrLoading_content _)
  · exact .ok (finish_content ..)
  · exact .ok rfl

/-- What a chunk makes of the contents: what its write does. -/
theorem written_contents (ht : t.action = .storing ∨ t.action = .storOk) (hd : m.infos t.ctrlFd = some d)
    {content : List Char → Option (List Char)}
    (h : content = (({info := d, files := m.files : DiskWork}.setDataAction .storing).writeToDisk c t).2.files.content) :
    Contents c t m content := by
  rcases DiskWork.writeToDisk_content (c := c) (t := t) ({info := d, files := m.files : DiskWork}.setDataAction .storing)
    with hsame | ⟨n, o, old, k, hn, ho, hold, hk, hput⟩
  · exact contents_same (h.trans hsame)
  · rw [h, hput]
    exact .writes ht d hd n hn o ho old hold k hk

theorem storing_contents (ht : t.action = .storing) (hd : m.infos t.ctrlFd = some d) :
    Contents c t m (storing c t m d).manager.files.content := by
  refine written_contents (Or.inl ht) hd ?_
  unfold storing runStorLoading
  dsimp only
  split
  · rfl
  · split <;> rfl

theorem storOk_contents (ht : t.action = .storOk) (hd : m.infos t.ctrlFd = some d) :
    Contents c t m (storOk c t m d).manager.files.content := by
  refine written_contents (Or.inr ht) hd ?_
  have hclosed := DiskWork.closeFileHandle_content
    (({info := d, files := m.files : DiskWork}.setDataAction .storing).writeToDisk c t).2
  unfold storOk runStorFinish
  dsimp only
  split
  · exact hclosed
  · split
    · exact hclosed
    · rw [finish_content]
      exact hclosed

/-- A handled task makes one of these of the contents. -/
theorem roll_contents : Returns (rollStateMachine c t m) fun h => Contents c t m h.manager.files.content := by
  unfold rollStateMachine
  cases ht : t.action with
  | indexStart =>
    refine .bind (runIndexStart_files _) fun r hr => .bind (DiskWork.dataPost_files _ _ _) fun w hw => .ok ?_
    exact contents_same (congrArg Files.content (hw.trans hr))
  | storStart =>
    dsimp only
    rw [runStorStart_ret, if_pos rfl]
    exact .ok (runStorStart_contents ht)
  | retrStart =>
    refine .bind (DiskWork.dataPost_files _ _ _) fun w hw => .ok (contents_same ?_)
    exact (congrArg Files.content hw).trans runRetrStart_content
  | writeDone =>
    cases hd : m.seekDisk t.ctrlFd with
    | none => exact .ok .same
    | some d => exact writeDone_content.mono fun h hh => contents_same hh
  | storing =>
    cases hd : m.seekDisk t.ctrlFd with
    | none => exact .ok .same
    | some d => exact .ok (storing_contents ht hd)
  | storOk =>
    cases hd : m.seekDisk t.ctrlFd with
    | none => exact .ok .same
    | some d => exact .ok (storOk_contents ht hd)
  | dele =>
    cases hd : m.seekDisk t.ctrlFd with
    | none => exact .ok .same
    | some d => exact .ok (contents_same (thenDelete_content ..))
  | _ =>
    dsimp only
    split
    · exact .ok .same
    · exact .ok .same

/-- Nothing gets shorter. -/
theorem Contents.grows {content : List Char → Option (List Char)} (h : Contents c t m content) {p old : List Char}
    (hold : m.files.content p = some old) : ∃ new, content p = some new ∧ old.length ≤ new.length := by
  cases h with
  | same => exact ⟨old, hold, Nat.le_refl _⟩
  | creates _ hnone =>
    have hp : p ≠ strncpy pathSize t.curPath := by
      rintro rfl
      cases hold.symm.trans hnone
    exact ⟨old, (Function.update_of_ne hp ..).trans hold, Nat.le_refl _⟩
  | writes _ d _ n _ o _ old' hold' k _ =>
    by_cases hp : p = o.path
    · rw [hp] at hold ⊢
      cases hold'.symm.trans hold
      exact ⟨_, Function.update_self .., Files.length_splice ..⟩
    · exact ⟨old, (Function.update_of_ne hp ..).trans hold, Nat.le_refl _⟩

/-! A start leaves what is open as it was. -/

theorem openPath_adds (create : Bool) (w : DiskWork) : w.files.Adds (w.openPath c create).files :=
  Files.openFile_adds w.files _ create c.opens

theorem runRetrStart_adds : m.files.Adds (runRetrStart c (m.construct t)).2.files :=
  (openPath_adds false (m.construct t)).keep
    ((DiskWork.seekFileHandle_goes _).trans (runRetrLoading_goes _)).files

theorem runStorStart_adds : m.files.Adds (runStorStart c (m.construct t)).2.files := by
  unfold runStorStart
  split
  · exact openPath_adds true (m.construct t)
  · exact (openPath_adds false (m.construct t)).keep (DiskWork.seekFileHandle_goes _).files

/-- A listing opens nothing. -/
theorem indexStart_files (ht : t.action = .indexStart) :
    Returns (rollStateMachine c t m) fun h => h.manager.files = m.files := by
  unfold rollStateMachine
  rw [ht]
  exact .bind (runIndexStart_files _) fun r hr => .bind (DiskWork.dataPost_files _ _ _) fun w hw => .ok (hw.trans hr)

theorem starts_add (hstarts : t.action.starts = true) :
    Returns (rollStateMachine c t m) fun h => m.files.Adds h.manager.files := by
  cases ht : t.action with
  | indexStart =>
    refine (indexStart_files ht).mono fun h hfiles => ?_
    rw [hfiles]
    exact (Files.Keeps.refl _).adds
  | storStart =>
    unfold rollStateMachine
    rw [ht]
    dsimp only
    rw [runStorStart_ret, if_pos rfl]
    exact .ok runStorStart_adds
  | retrStart =>
    unfold rollStateMachine
    rw [ht]
    refine .bind (DiskWork.dataPost_files _ _ _) fun w hw => .ok ?_
    have hfiles : w.files = (runRetrStart c (m.construct t)).2.files := hw
    show m.files.Adds w.files
    rw [hfiles]
    exact runRetrStart_adds
  | _ =>
    rw [ht] at hstarts
    cases hstarts

end DiskFsm

/-- What a step makes of the contents. -/
theorem contents_step {e : DiskEdge} (h : diskManager.Takes e) :
    DiskFsm.Contents e.input.calls e.input.task e.before e.after.files.content := by
  obtain ⟨r, hr, he⟩ := bind_eq_ok.mp h
  have hafter : r.manager = e.after := by
    injection he with he
    exact congrArg Prod.fst he
  rw [← hafter]
  exact DiskFsm.roll_contents r hr

/-! ### What opened a descriptor -/

/-- The step opens the descriptor. -/
def OpensAs (n : Nat) (e : DiskEdge) : Bool := (e.before.files.opened n).isNone && (e.after.files.opened n).isSome

/-- The task of the last step that opened the descriptor. -/
def opener (past : List DiskEdge) (n : Nat) : Option DiskTask :=
  latest (fun e => if OpensAs n e then some e.input.task else none) past

/-- A download opens its file for reading: a write through a descriptor it has opened fails. -/
def WritesRefused (past : List DiskEdge) (m : DiskManager) (i : DiskInput) : Prop :=
  ∀ d n t, m.infos i.task.ctrlFd = some d → d.fileHandle = some n → opener past n = some t → t.action = .retrStart →
    i.calls.writes = none

section
variable {past : List DiskEdge} {e : DiskEdge} {n : Nat} {p : List Char}

theorem opener_opens (h : OpensAs n e = true) : opener (past ++ [e]) n = some e.input.task :=
  latest_said (if_pos h)

theorem opener_keeps (h : OpensAs n e = false) : opener (past ++ [e]) n = opener past n :=
  latest_silent (if_neg (by rw [h]; exact Bool.false_ne_true))

/-- The tasks that open a file. -/
def DiskTask.OpensFile (t : DiskTask) : Prop := t.action = .storStart ∨ t.action = .retrStart

theorem starts_of_opensFile {t : DiskTask} (h : t.OpensFile) : t.action.starts = true := by
  rcases h with h | h <;> rw [h] <;> rfl

theorem opened_of_path {f : Files (List Char) Char} (hp : f.pathOf n = some p) : (f.opened n).isSome = true := by
  unfold Files.pathOf at hp
  cases ho : f.opened n with
  | none =>
    rw [ho] at hp
    cases hp
  | some o => rfl

/-- What is open after a step was open before on the same path, or the step has opened it on the path of its task. -/
theorem open_step (h : diskManager.Takes e) (hp : e.after.files.pathOf n = some p) :
    OpensAs n e = false ∧ e.before.files.pathOf n = some p ∨
      OpensAs n e = true ∧ e.input.task.OpensFile ∧ p = strncpy pathSize e.input.task.curPath := by
  have hkept (hbefore : e.before.files.pathOf n = some p) : OpensAs n e = false := by
    have hopen := opened_of_path hbefore
    unfold OpensAs
    cases ho : e.before.files.opened n with
    | none =>
      rw [ho] at hopen
      cases hopen
    | some o => rfl
  cases hstarts : e.input.task.action.starts with
  | false =>
    have hbefore := (follow_step h hstarts).2.1 n p hp
    exact Or.inl ⟨hkept hbefore, hbefore⟩
  | true =>
    obtain ⟨r, hr, he⟩ := bind_eq_ok.mp h
    have hafter : r.manager = e.after := by
      injection he with he
      exact congrArg Prod.fst he
    have hadds : e.before.files.Adds e.after.files := hafter ▸ DiskFsm.starts_add hstarts r hr
    rcases hadds n p hp with hnone | hbefore
    · have hon : StartsOn e.input.task.ctrlFd e = true := by simp [StartsOn, hstarts]
      obtain ⟨w, hw, _, _, _, hfiles⟩ := start_step h hon
      have hopens : OpensAs n e = true := by
        unfold OpensAs
        rw [hnone, opened_of_path hp]
        rfl
      have hfile : e.input.task.OpensFile := by
        cases ht : e.input.task.action with
        | storStart => exact Or.inl ht
        | retrStart => exact Or.inr ht
        | indexStart =>
          have hsame : e.after.files = e.before.files := hafter ▸ DiskFsm.indexStart_files ht r hr
          have hopen := opened_of_path hp
          rw [hsame, hnone] at hopen
          cases hopen
        | _ =>
          rw [ht] at hstarts
          cases hstarts
      rw [hfiles] at hp
      by_cases hnew : w.info.fileHandle = some n
      · exact Or.inr ⟨hopens, hfile, by rw [(hw.handle n hnew).2 p hp, hw.curPath]⟩
      · have hbefore := opened_of_path (hw.files n p hnew hp)
        rw [hnone] at hbefore
        cases hbefore
    · exact Or.inl ⟨hkept hbefore, hbefore⟩

/-- Whatever is open was opened by a start task, on the path that one names. -/
def Traced (past : List DiskEdge) (P : DiskTask → Prop) (m : DiskManager) : Prop :=
  ∀ n p, m.files.pathOf n = some p → ∃ t, opener past n = some t ∧ t.OpensFile ∧ P t ∧ p = strncpy pathSize t.curPath

theorem traced_next {P : DiskTask → Prop} (h : diskManager.Takes e) (hp : Traced past P e.before)
    (hnames : e.input.task.OpensFile → P e.input.task) : Traced (past ++ [e]) P e.after := by
  intro n p hpath
  rcases open_step h hpath with ⟨hkept, hbefore⟩ | ⟨hopens, hfile, hnamed⟩
  · obtain ⟨t, ht, hrest⟩ := hp n p hbefore
    exact ⟨t, (opener_keeps hkept).trans ht, hrest⟩
  · exact ⟨e.input.task, opener_opens hopens, hfile, hnames hfile, hnamed⟩

/-- A file that a step changes is one that an upload was to write to. -/
theorem changed_by_upload {P : DiskTask → Prop} (h : diskManager.Takes e) (hp : Traced past P e.before)
    (hnames : e.input.task.OpensFile → P e.input.task)
    (hrefused : WritesRefused past e.before e.input) (hchanged : e.after.files.content p ≠ e.before.files.content p) :
    ∃ t, P t ∧ t.action = .storStart ∧ p = strncpy pathSize t.curPath := by
  have hcontents := contents_step h
  revert hchanged
  generalize e.after.files.content = content at hcontents
  intro hchanged
  cases hcontents with
  | same => exact absurd rfl hchanged
  | creates ht hnone =>
    by_cases hpath : p = strncpy pathSize e.input.task.curPath
    · exact ⟨e.input.task, hnames (Or.inl ht), ht, hpath⟩
    · exact absurd (Function.update_of_ne hpath ..) hchanged
  | writes _ d hd n hn o ho old _ k hk =>
    by_cases hpath : p = o.path
    · obtain ⟨t, ht, hfile, hPt, hpt⟩ := hp n o.path (by unfold Files.pathOf; rw [ho]; rfl)
      rcases hfile with hstor | hretr
      · exact ⟨t, hPt, hstor, hpath.trans hpt⟩
      · rw [hrefused d n t hd hn ht hretr] at hk
        cases hk
    · exact absurd (Function.update_of_ne hpath ..) hchanged

end
end HyperTransfer
