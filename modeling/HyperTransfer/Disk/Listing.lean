import HyperTransfer.Disk.Steps
import Mathlib.Data.List.Forall2

/-! What a directory listing is made of.

The entries are gone through once: a page takes up to 32 rows, skips what cannot be looked at
without counting it, and leaves the object where the next page goes on. A page is posted when
the one before it has been written, by the object found for the descriptor. Where that is the
one the listing started with, the pages are the rows of the directory in order, and the end is
reported when the last one has been written; an object left from an earlier transfer does what
it still owes instead, and an entry whose owner or group has no name ends the listing with the
server (`list_complete_iff`). -/
namespace HyperTransfer
open CString

/-- 32 rows of less than 320 characters fit the page. -/
theorem strncat_page {info text : List Char} {k : Nat} (hk : k < pageRows) (hinfo : info.length ≤ k * fileInfoLen)
    (htext : text.length < fileInfoLen) :
    strncat indexSize info text fileInfoLen = .ok (info ++ text) ∧
      (info ++ text).length ≤ (k + 1) * fileInfoLen := by
  have hlong : (info ++ text).length ≤ (k + 1) * fileInfoLen := by
    rw [List.length_append, Nat.succ_mul]
    exact Nat.add_le_add hinfo htext.le
  have hpage : (info ++ text).length < indexSize := by
    have hfirst : info.length ≤ 31 * fileInfoLen :=
      hinfo.trans (Nat.mul_le_mul_right _ (Nat.le_of_lt_succ hk))
    rw [List.length_append]
    exact Nat.add_lt_add_of_le_of_lt hfirst htext
  rw [strncat, List.take_of_length_le htext.le]
  exact ⟨cstr_of_lt hpage, hlong⟩

namespace Directories

/-- The row of an entry, if it can be looked at and its owner and group have names. -/
def row (dirs : Directories) (pwd name : List Char) : Option (List Char) :=
  match entryPath pwd name with
  | .error _ => none
  | .ok path =>
    match dirs.columns path with
    | .ok (some columns) => some (columns ++ name ++ "\r\n".toList)
    | _ => none

/-- `lstat` succeeds. -/
def reached (dirs : Directories) (pwd name : List Char) : Bool :=
  match entryPath pwd name with
  | .error _ => false
  | .ok path => dirs.columns path ≠ .ok none

/-- The path of the entry fits its array, and so do the columns and the row. -/
def Fits (dirs : Directories) (pwd name : List Char) : Prop :=
  (∃ path, entryPath pwd name = .ok path ∧ dirs.columns path ≠ .error .overrun) ∧
    ∀ text ∈ dirs.row pwd name, text.length < fileInfoLen

/-- The owner and the group of the entry have names, if it can be looked at. -/
def Named (dirs : Directories) (pwd name : List Char) : Prop :=
  ∀ path, entryPath pwd name = .ok path → dirs.columns path ≠ .error .nullPointer

/-- An entry that a listing gets past. -/
structure Listable (dirs : Directories) (pwd name : List Char) : Prop where
  columns : ∃ path o, entryPath pwd name = .ok path ∧ dirs.columns path = .ok o
  row : ∀ text ∈ dirs.row pwd name, text.length < fileInfoLen

/-- The rows of a directory, in its order. -/
def rows (dirs : Directories) (pwd : List Char) (names : List (List Char)) : List (List Char) :=
  names.filterMap (dirs.row pwd)

variable {dirs : Directories} {pwd : List Char}

/-- A page: the rows of the first entries, up to 32 of them, and where the next one goes on. -/
theorem getDir_page {names : List (List Char)} (hfits : ∀ name ∈ names, dirs.Listable pwd name) {k : Nat} (hk : k < pageRows)
    {info : List Char} (hinfo : info.length ≤ k * fileInfoLen) :
    ∃ page rest, getDir dirs pwd k names info = .ok (rest, info ++ page.flatten) ∧
      dirs.rows pwd names = page ++ dirs.rows pwd rest ∧ k + page.length ≤ pageRows ∧
      (rest ≠ [] → k + page.length = pageRows) ∧ rest <:+ names ∧ (names ≠ [] → rest.length < names.length) := by
  induction names generalizing k info with
  | nil =>
    exact ⟨[], [], by rw [List.flatten_nil, List.append_nil]; rfl, rfl, hk.le, by simp, List.suffix_refl _, by simp⟩
  | cons name names ih =>
    obtain ⟨⟨path, o, hpath, hcolumns⟩, hrow⟩ := hfits name (List.mem_cons_self ..)
    have hrest := fun n hn => hfits n (List.mem_cons_of_mem _ hn)
    have hcut {rest : List (List Char)} (h : rest <:+ names) :
        rest <:+ name :: names ∧ (name :: names ≠ [] → rest.length < (name :: names).length) :=
      ⟨h.trans (List.suffix_cons _ _), fun _ => Nat.lt_succ_of_le h.length_le⟩
    cases o with
    | none =>
      obtain ⟨page, rest, hget, hrows, hlength, hfull, hsuffix, _⟩ := ih hrest hk hinfo
      refine ⟨page, rest, ?_, ?_, hlength, hfull, hcut hsuffix⟩
      · unfold getDir
        rw [hpath]
        dsimp only [bind, Except.bind]
        rw [hcolumns]
        exact hget
      · rw [← hrows, rows, List.filterMap_cons_none]
        · rfl
        · simp [row, hpath, hcolumns]
    | some columns =>
      have htext : dirs.row pwd name = some (columns ++ name ++ "\r\n".toList) := by
        simp [row, hpath, hcolumns]
      generalize hrowText : columns ++ name ++ "\r\n".toList = text at htext
      have hshort := hrow text htext
      have hconcat : concat fileInfoLen [columns, name, "\r\n".toList] = .ok text := by
        rw [concat_eq_ok (by decide)]
        simp only [List.flatten_cons, List.flatten_nil, List.append_nil, ← List.append_assoc]
        rw [hrowText]
        exact ⟨rfl, hshort⟩
      obtain ⟨hadds, hlong⟩ := strncat_page hk hinfo hshort
      have hrows {rest : List (List Char)} {page : List (List Char)} (h : dirs.rows pwd names = page ++ dirs.rows pwd rest) :
          dirs.rows pwd (name :: names) = (text :: page) ++ dirs.rows pwd rest := by
        rw [rows, List.filterMap_cons_some htext, List.cons_append, ← h, rows]
      unfold getDir
      rw [hpath]
      dsimp only [bind, Except.bind]
      rw [hcolumns]
      dsimp only
      rw [hconcat]
      dsimp only
      rw [hadds]
      dsimp only
      split
      · refine ⟨[text], names, ?_, hrows rfl, ?_, fun _ => ?_, hcut (List.suffix_refl _)⟩
        · rw [List.flatten_singleton]
          rfl
        · simp only [List.length_singleton]
          omega
        · simp only [List.length_singleton]
          omega
      · obtain ⟨page, rest, hget, hpage, hlength, hfull, hsuffix, _⟩ := ih hrest (k := k + 1) (by omega) hlong
        refine ⟨text :: page, rest, ?_, hrows hpage, ?_, fun hne => ?_, hcut hsuffix⟩
        · rw [hget, List.flatten_cons, List.append_assoc]
        · rw [List.length_cons]
          omega
        · have := hfull hne
          rw [List.length_cons]
          omega

/-- The first page of a directory has its first 32 rows. -/
theorem getDir_first {names : List (List Char)} (hfits : ∀ name ∈ names, dirs.Listable pwd name) :
    ∃ rest, getDir dirs pwd 0 names [] = .ok (rest, ((dirs.rows pwd names).take pageRows).flatten) ∧
      dirs.rows pwd rest = (dirs.rows pwd names).drop pageRows ∧ rest <:+ names ∧
      (names ≠ [] → rest.length < names.length) := by
  obtain ⟨page, rest, hget, hrows, hlength, hfull, hsuffix, hless⟩ :=
    getDir_page hfits (by decide) (show ([] : List Char).length ≤ 0 * fileInfoLen from Nat.zero_le _)
  rw [Nat.zero_add] at hlength hfull
  have hcut : (dirs.rows pwd names).take pageRows = page ∧ (dirs.rows pwd names).drop pageRows = dirs.rows pwd rest := by
    rw [hrows]
    by_cases hne : rest = []
    · subst hne
      show (page ++ []).take pageRows = page ∧ (page ++ []).drop pageRows = []
      rw [List.append_nil]
      exact ⟨List.take_of_length_le hlength, List.drop_of_length_le hlength⟩
    · rw [← hfull hne]
      exact ⟨List.take_left, List.drop_left⟩
  exact ⟨rest, by rw [hcut.1]; exact hget, hcut.2.symm, hsuffix, hless⟩

theorem row_ne_nil {name text : List Char} (h : dirs.row pwd name = some text) : text ≠ [] := by
  unfold row at h
  split at h
  · exact nomatch h
  · split at h
    · cases h
      simp
    · exact nomatch h

/-- What fits and is named is got past. -/
theorem listable_iff {name : List Char} (hfits : dirs.Fits pwd name) : dirs.Listable pwd name ↔ dirs.Named pwd name := by
  obtain ⟨⟨path, hpath, hcolumns⟩, hrow⟩ := hfits
  constructor
  · intro h path' hpath' hnull
    obtain ⟨⟨path'', o, hpath'', hok⟩, _⟩ := h
    cases hpath'.symm.trans hpath''
    exact nomatch hnull.symm.trans hok
  · intro h
    refine ⟨⟨path, ?_⟩, hrow⟩
    cases hread : dirs.columns path with
    | ok o => exact ⟨o, hpath, rfl⟩
    | error f =>
      cases f with
      | nullPointer => exact absurd hread (h path hpath)
      | overrun => exact absurd hread hcolumns

/-- There is a row for every entry that `lstat` reaches exactly where all of them are named. -/
theorem rows_iff {names rows : List (List Char)} (hfits : ∀ name ∈ names, dirs.Fits pwd name) :
    List.Forall₂ (fun name text => dirs.row pwd name = some text) (names.filter (dirs.reached pwd)) rows ↔
      rows = dirs.rows pwd names ∧ ∀ name ∈ names, dirs.Named pwd name := by
  induction names generalizing rows with
  | nil => simp [Directories.rows, List.forall₂_nil_left_iff]
  | cons name names ih =>
    obtain ⟨⟨path, hpath, hcolumns⟩, _⟩ := hfits name (List.mem_cons_self ..)
    have hrest {rows : List (List Char)} := @ih rows fun n hn => hfits n (List.mem_cons_of_mem _ hn)
    rw [List.forall_mem_cons]
    cases hread : dirs.columns path with
    | error f =>
      have hnull : f = .nullPointer := by
        cases f with
        | nullPointer => rfl
        | overrun => exact absurd hread hcolumns
      have hrow : dirs.row pwd name = none := by simp [row, hpath, hread]
      have hreached : dirs.reached pwd name = true := by simp [reached, hpath, hread]
      rw [List.filter_cons_of_pos hreached]
      refine iff_of_false (fun h => ?_) fun h => ?_
      · cases h with
        | cons htext _ => exact nomatch hrow.symm.trans htext
      · exact h.2.1 path hpath (hnull ▸ hread)
    | ok o =>
      have hnamed : dirs.Named pwd name := by
        intro path' hpath' hnull
        cases hpath.symm.trans hpath'
        exact nomatch hread.symm.trans hnull
      rw [and_iff_right hnamed]
      cases o with
      | none =>
        have hrow : dirs.row pwd name = none := by simp [row, hpath, hread]
        have hreached : ¬ dirs.reached pwd name = true := by simp [reached, hpath, hread]
        rw [List.filter_cons_of_neg hreached, hrest, Directories.rows, Directories.rows, List.filterMap_cons_none hrow]
      | some columns =>
        have hrow : dirs.row pwd name = some (columns ++ name ++ "\r\n".toList) := by simp [row, hpath, hread]
        have hreached : dirs.reached pwd name = true := by simp [reached, hpath, hread]
        rw [List.filter_cons_of_pos hreached, Directories.rows, List.filterMap_cons_some hrow]
        constructor
        · intro h
          cases h with
          | cons htext hmore =>
            obtain ⟨rfl, hall⟩ := hrest.mp hmore
            cases hrow.symm.trans htext
            exact ⟨rfl, hall⟩
        · rintro ⟨rfl, hall⟩
          exact .cons hrow (hrest.mpr ⟨rfl, hall⟩)

end Directories

/-! ### Pages -/

/-- What is posted to the data connection. -/
def DiskEffect.page? : DiskEffect → Option (Fd × List Char × Int)
  | .dataPost fd buf len => some (fd, buf, len)
  | _ => none

/-- The pages a run posts. -/
def paged (run : List DiskEdge) : List (Fd × List Char × Int) :=
  run.flatMap fun e => e.effects.filterMap DiskEffect.page?

/-- How often a run reports the end of the transfer of `fd`. -/
def reported (fd : Fd) (run : List DiskEdge) : Nat :=
  (run.flatMap Edge.effects).count (.postToSession {fd := fd, action := .transOk})

/-- The page posted last has been written. -/
structure Written (dirs : Directories) (fd : Fd) (i : DiskInput) : Prop where
  action : i.task.action = .writeDone
  fd : i.task.ctrlFd = fd
  dirs : i.calls.dirs = dirs

/-- A run that is told of pages written posts the texts, one for each, and then reports the
end. -/
structure Posts (fd : Fd) (texts : List (List Char)) (m : DiskManager) (acks : List DiskInput) : Prop where
  returns : (diskManager.trace m acks).length = acks.length
  posted : paged (diskManager.trace m acks) = (texts.take acks.length).map fun text => (fd, text, (text.length : Int))
  reports : reported fd (diskManager.trace m acks) = if texts.length < acks.length then 1 else 0

/-- The texts of the pages from some entries on. -/
inductive Pages (dirs : Directories) (pwd : List Char) : List (List Char) → List (List Char) → Prop where
  | last {names : List (List Char)} {text : List Char} (hget : dirs.getDir pwd 0 names [] = .ok ([], text)) :
      Pages dirs pwd names [text]
  | more {names rest : List (List Char)} {text : List Char} {texts : List (List Char)}
      (hget : dirs.getDir pwd 0 names [] = .ok (rest, text)) (hne : rest ≠ []) (hmore : Pages dirs pwd rest texts) :
      Pages dirs pwd names (text :: texts)

/-- What an object still posts before its end is reported. -/
def DiskInfo.Owes (dirs : Directories) (fd : Fd) (d : DiskInfo) (texts : List (List Char)) : Prop :=
  match d.dataAction with
  | .indexLoading => d.fd = fd ∧ Pages dirs d.curPath d.curDir texts
  | .indexFinish => texts = []
  | .retrFinish => texts = []
  | _ => False

section
variable {dirs : Directories} {fd : Fd} {m : DiskManager} {d : DiskInfo} {i : DiskInput}

/-- The object after a page is made: its text, and where the next one goes on. -/
def DiskWork.turned (w : DiskWork) (left : List (List Char)) (text : List Char) : DiskWork :=
  {w with
    info := {w.info with bufLen := 0, curDir := left, listInfo := text}
    effects := w.effects ++ [.listed w.info.curPath] }

/-- Whether there is more to come. -/
def nextIndex (left : List (List Char)) : DiskAction := if left ≠ [] then .indexLoading else .indexFinish

/-- The object after the page is posted. -/
def DiskWork.listed (w : DiskWork) (left : List (List Char)) (text : List Char) : DiskWork :=
  {w.turned left text with
    info := {(w.turned left text).info with dataAction := nextIndex left}
    effects := w.effects ++ [.listed w.info.curPath, .dataPost w.info.fd text text.length] }

theorem listFrom_turned {c : DiskCalls} {w : DiskWork} {names left : List (List Char)} {text : List Char}
    (h : c.dirs.getDir w.info.curPath 0 names [] = .ok (left, text)) :
    w.clearListInfo.listFrom c names = .ok (left, w.turned left text) := by
  unfold DiskWork.listFrom
  rw [show c.dirs.getDir w.clearListInfo.info.curPath 0 names [] = _ from h]
  rfl

theorem turned_posts (w : DiskWork) (left : List (List Char)) (text : List Char) :
    ((w.turned left text).setDataAction (nextIndex left)).dataPost text text.length = .ok (w.listed left text) := by
  rw [DiskWork.dataPost, if_neg (by omega), Int.toNat_natCast, List.take_length]
  unfold DiskWork.listed DiskWork.turned DiskWork.setDataAction
  dsimp only
  rw [List.append_assoc]
  rfl

/-! ### One page written -/

theorem roll_written (hd : m.infos fd = some d) (hi : Written dirs fd i) :
    DiskFsm.rollStateMachine i.calls i.task m = DiskFsm.writeDone i.calls i.task m d := by
  unfold DiskFsm.rollStateMachine DiskManager.seekDisk
  rw [hi.action, hi.fd, hd]

/-- A listing in progress posts its next page, if that can be made. -/
theorem page_step (hd : m.infos fd = some d) (hdata : d.dataAction = .indexLoading) (hi : Written dirs fd i)
    {left : List (List Char)} {text : List Char} (hget : dirs.getDir d.curPath 0 d.curDir [] = .ok (left, text)) :
    ∃ t, diskManager.step i m = .ok (t, [.listed d.curPath, .dataPost d.fd text text.length]) ∧
      t.infos fd = some {d with bufLen := 0, curDir := left, listInfo := text, dataAction := nextIndex left} := by
  have hpage : DiskFsm.runIndexLoading i.calls {info := d, files := m.files} =
      .ok (nextIndex left, DiskWork.turned {info := d, files := m.files} left text) := by
    have hturned := listFrom_turned (c := i.calls) (w := {info := d, files := m.files}) (hi.dirs ▸ hget)
    exact bind_eq_ok.mpr ⟨_, hturned, rfl⟩
  have hroll : DiskFsm.rollStateMachine i.calls i.task m =
      .ok (m.worked fd (DiskWork.listed {info := d, files := m.files} left text)) := by
    rw [roll_written hd hi]
    unfold DiskFsm.writeDone
    rw [hdata, hi.fd]
    exact bind_eq_ok.mpr ⟨_, hpage, bind_eq_ok.mpr ⟨_, turned_posts _ left text, rfl⟩⟩
  exact ⟨_, step_of_roll hroll, Registry.modify_same ..⟩

/-- Where a page cannot be made the thread does not come back. -/
theorem page_made (hd : m.infos fd = some d) (hdata : d.dataAction = .indexLoading) (hi : Written dirs fd i)
    {t : DiskManager} {es : List DiskEffect} (hstep : diskManager.step i m = .ok (t, es)) :
    ∃ left text, dirs.getDir d.curPath 0 d.curDir [] = .ok (left, text) := by
  obtain ⟨h, hroll, _⟩ := bind_eq_ok.mp hstep
  rw [roll_written hd hi] at hroll
  unfold DiskFsm.writeDone at hroll
  rw [hdata] at hroll
  obtain ⟨r, hpage, _⟩ := bind_eq_ok.mp hroll
  obtain ⟨_, hlist, _⟩ := bind_eq_ok.mp hpage
  obtain ⟨⟨left, text⟩, hget, _⟩ := bind_eq_ok.mp hlist
  exact ⟨left, text, hi.dirs ▸ hget⟩

/-- At its end an object is reported and gone. -/
theorem end_step (hd : m.infos fd = some d) (hdata : d.dataAction = .indexFinish ∨ d.dataAction = .retrFinish)
    (hi : Written dirs fd i) :
    ∃ t es, diskManager.step i m = .ok (t, es) ∧ t.infos fd = none ∧ es.filterMap DiskEffect.page? = [] ∧
      es.count (.postToSession {fd := fd, action := .transOk}) = 1 := by
  have hroll : DiskFsm.rollStateMachine i.calls i.task m = .ok ({manager := m : DiskHandled}.finish fd) := by
    rw [roll_written hd hi]
    unfold DiskFsm.writeDone
    rcases hdata with hdata | hdata
    · rw [hdata, hi.fd]
    · rw [hdata, hi.fd]
  obtain ⟨_, hmanager, _, _⟩ := DiskFsm.delDisk_found hd
  refine ⟨(m.delDisk fd).1, _ :: (m.delDisk fd).2, step_of_roll hroll, ?_, ?_⟩
  · rw [hmanager]
    exact Registry.erase_same ..
  · rcases DiskFsm.delDisk_posts m fd with hnone | ⟨n, hclosed⟩
    · rw [hnone]
      exact ⟨rfl, List.count_singleton_self ..⟩
    · rw [hclosed]
      exact ⟨rfl, by simp⟩

/-- Nothing happens where there is no object, or one that no page has been posted for. -/
theorem idle_step (h : ∀ d, m.infos fd = some d → d.dataAction ≠ .indexLoading ∧ d.dataAction ≠ .indexFinish ∧
    d.dataAction ≠ .retrLoading ∧ d.dataAction ≠ .retrFinish) (hi : Written dirs fd i) :
    diskManager.step i m = .ok (m, []) := by
  refine step_of_roll (h := {manager := m}) ?_
  cases hentry : m.infos fd with
  | none =>
    unfold DiskFsm.rollStateMachine DiskManager.seekDisk
    rw [hi.action, hi.fd, hentry]
  | some d =>
    obtain ⟨hindex, hlisted, hretr, hsent⟩ := h d hentry
    rw [roll_written hentry hi]
    unfold DiskFsm.writeDone
    split
    · exact absurd ‹_› hindex
    · exact absurd ‹_› hlisted
    · exact absurd ‹_› hretr
    · exact absurd ‹_› hsent
    · rfl

/-- A download whose next block cannot be read does not come back. -/
theorem retr_step (hd : m.infos fd = some d) (hdata : d.dataAction = .retrLoading) (hi : Written dirs fd i)
    (hreads : i.calls.reads = none) : ∃ f, diskManager.step i m = .error f := by
  have hread (w : DiskWork) : (w.readFromDisk i.calls).1 = -1 ∧ (w.readFromDisk i.calls).2.info.bufLen = -1 := by
    unfold DiskWork.readFromDisk
    cases w.info.fileHandle with
    | none => exact ⟨rfl, rfl⟩
    | some n =>
      dsimp only
      rw [hreads, Files.read_failed]
      exact ⟨rfl, rfl⟩
  obtain ⟨hret, hlen⟩ := hread {info := d, files := m.files}
  generalize hv : DiskWork.readFromDisk i.calls {info := d, files := m.files} = r at hret hlen
  obtain ⟨ret, v⟩ := r
  dsimp only at hret hlen
  have hpost : ((v.closeFileHandle).setDataAction .retrFinish).dataPost v.closeFileHandle.info.fileBuffer
      v.closeFileHandle.info.bufLen = .error .overrun := by
    rw [DiskWork.dataPost, DiskWork.closeFileHandle_info, hlen, if_pos (by decide)]
  refine ⟨.overrun, ?_⟩
  show (do
    let h ← DiskFsm.rollStateMachine i.calls i.task m
    return (h.manager, h.effects)) = Except.error Fault.overrun
  rw [roll_written hd hi]
  unfold DiskFsm.writeDone DiskFsm.runRetrLoading
  rw [hdata]
  dsimp only
  rw [hv]
  dsimp only
  rw [if_neg (by omega)]
  show (do
    let h ← (do
      let w ← ((v.closeFileHandle).setDataAction .retrFinish).dataPost v.closeFileHandle.info.fileBuffer
        v.closeFileHandle.info.bufLen
      return m.worked i.task.ctrlFd w)
    return (h.manager, h.effects)) = Except.error Fault.overrun
  rw [hpost]
  rfl

end

/-! ### Runs -/

section
variable {dirs : Directories} {fd : Fd} {m t : DiskManager} {d : DiskInfo} {i : DiskInput} {acks : List DiskInput}
  {es : List DiskEffect} {texts : List (List Char)} {text pwd : List Char}

/-- A page that has been written. -/
def ack (dirs : Directories) (fd : Fd) : DiskInput where
  task := {ctrlFd := fd, action := .writeDone}
  calls := {dirs := dirs}

theorem ack_written (dirs : Directories) (fd : Fd) : Written dirs fd (ack dirs fd) := ⟨rfl, rfl, rfl⟩

theorem idle_run (h : ∀ i, Written dirs fd i → diskManager.step i m = .ok (m, []))
    (hacks : ∀ i ∈ acks, Written dirs fd i) :
    (diskManager.trace m acks).length = acks.length ∧ (diskManager.trace m acks).flatMap Edge.effects = [] ∧
      paged (diskManager.trace m acks) = [] := by
  induction acks with
  | nil => exact ⟨rfl, rfl, rfl⟩
  | cons i acks ih =>
    obtain ⟨hlength, heffects, hpaged⟩ := ih fun j hj => hacks j (List.mem_cons_of_mem _ hj)
    rw [Machine.trace_ok (h i (hacks i (List.mem_cons_self ..)))]
    exact ⟨congrArg (· + 1) hlength, heffects, hpaged⟩

/-- What a step adds to the pages and to the reports of a run. -/
theorem paged_cons (h : diskManager.step i m = .ok (t, es)) (acks : List DiskInput) :
    paged (diskManager.trace m (i :: acks)) = es.filterMap DiskEffect.page? ++ paged (diskManager.trace t acks) := by
  rw [Machine.trace_ok h]
  rfl

theorem reported_cons (h : diskManager.step i m = .ok (t, es)) (fd : Fd) (acks : List DiskInput) :
    reported fd (diskManager.trace m (i :: acks)) =
      es.count (.postToSession {fd := fd, action := .transOk}) + reported fd (diskManager.trace t acks) := by
  rw [Machine.trace_ok h]
  exact List.count_append

theorem length_cons (h : diskManager.step i m = .ok (t, es)) :
    (diskManager.trace m (i :: acks)).length = (i :: acks).length ↔ (diskManager.trace t acks).length = acks.length := by
  rw [Machine.trace_ok h, List.length_cons, List.length_cons]
  exact Nat.succ_inj

/-- A page more. -/
theorem posts_cons (h : diskManager.step i m = .ok (t, [.listed pwd, .dataPost fd text text.length])) :
    Posts fd (text :: texts) m (i :: acks) ↔ Posts fd texts t acks := by
  have hpaged := paged_cons h acks
  have hreported := reported_cons h fd acks
  constructor
  · intro hposts
    refine ⟨(length_cons h).mp hposts.returns, ?_, ?_⟩
    · have hposted := hpaged.symm.trans hposts.posted
      exact (List.cons.inj hposted).2
    · have hreports := hreported.symm.trans hposts.reports
      simpa using hreports
  · intro hposts
    refine ⟨(length_cons h).mpr hposts.returns, ?_, ?_⟩
    · rw [hpaged, hposts.posted]
      rfl
    · rw [hreported, hposts.reports]
      simp

theorem posts_returns (h : Posts fd texts m (i :: acks)) : ∃ t es, diskManager.step i m = .ok (t, es) := by
  cases hstep : diskManager.step i m with
  | ok r => exact ⟨r.1, r.2, rfl⟩
  | error f =>
    have := h.returns
    rw [Machine.trace_error hstep] at this
    exact nomatch this

/-- At its end an object owes nothing. -/
theorem posts_end (hd : m.infos fd = some d) (hdata : d.dataAction = .indexFinish ∨ d.dataAction = .retrFinish) :
    (∀ acks, (∀ i ∈ acks, Written dirs fd i) → Posts fd texts m acks) ↔ texts = [] := by
  constructor
  · intro h
    obtain ⟨t, es, hstep, _, _, hreport⟩ := end_step hd hdata (ack_written dirs fd)
    have hreports := (h [ack dirs fd] (List.forall_mem_singleton.mpr (ack_written dirs fd))).reports
    rw [reported_cons hstep, hreport] at hreports
    by_contra hne
    have hlong := List.length_pos_iff.mpr hne
    rw [List.length_singleton, if_neg (by omega)] at hreports
    omega
  · rintro rfl acks hacks
    cases acks with
    | nil => exact ⟨rfl, rfl, rfl⟩
    | cons i acks =>
      obtain ⟨t, es, hstep, hgone, hpages, hreport⟩ := end_step hd hdata (hacks i (List.mem_cons_self ..))
      have hidle (j : DiskInput) (hj : Written dirs fd j) : diskManager.step j t = .ok (t, []) :=
        idle_step (fun d hd => nomatch hgone.symm.trans hd) hj
      obtain ⟨hlength, heffects, hpaged⟩ := idle_run hidle fun j hj => hacks j (List.mem_cons_of_mem _ hj)
      refine ⟨(length_cons hstep).mpr hlength, ?_, ?_⟩
      · rw [paged_cons hstep, hpages, hpaged]
        rfl
      · rw [reported_cons hstep, hreport, reported, heffects]
        rfl

/-- What an object owes is posted. -/
theorem pages_posts {names : List (List Char)} (h : Pages dirs pwd names texts) (hd : m.infos fd = some d)
    (hdata : d.dataAction = .indexLoading) (hfd : d.fd = fd) (hpwd : d.curPath = pwd) (hnames : d.curDir = names)
    (hacks : ∀ i ∈ acks, Written dirs fd i) : Posts fd texts m acks := by
  induction h generalizing m d acks with
  | last hget =>
    cases acks with
    | nil => exact ⟨rfl, rfl, rfl⟩
    | cons i acks =>
      obtain ⟨t, hstep, hnext⟩ := page_step hd hdata (hacks i (List.mem_cons_self ..)) (hpwd ▸ hnames ▸ hget)
      rw [hfd] at hstep
      have hthen : ∀ i ∈ acks, Written dirs fd i := fun j hj => hacks j (List.mem_cons_of_mem _ hj)
      exact (posts_cons hstep).mpr ((posts_end hnext (Or.inl rfl)).mpr rfl acks hthen)
  | more hget hne _ ih =>
    cases acks with
    | nil => exact ⟨rfl, rfl, rfl⟩
    | cons i acks =>
      obtain ⟨t, hstep, hnext⟩ := page_step hd hdata (hacks i (List.mem_cons_self ..)) (hpwd ▸ hnames ▸ hget)
      rw [hfd] at hstep
      refine (posts_cons hstep).mpr (ih hnext (if_pos hne) hfd hpwd rfl fun j hj => ?_)
      exact hacks j (List.mem_cons_of_mem _ hj)

/-- What is posted has been owed. -/
theorem posts_pages (hd : m.infos fd = some d) (hdata : d.dataAction = .indexLoading)
    (h : ∀ acks, (∀ i ∈ acks, Written dirs fd i) → Posts fd texts m acks) :
    d.fd = fd ∧ Pages dirs d.curPath d.curDir texts := by
  have hack := ack_written dirs fd
  induction texts generalizing m d with
  | nil =>
    have hposts := h [ack dirs fd] (List.forall_mem_singleton.mpr hack)
    obtain ⟨t, es, hstep⟩ := posts_returns hposts
    obtain ⟨left, text, hget⟩ := page_made hd hdata hack hstep
    obtain ⟨t, hstep, _⟩ := page_step hd hdata hack hget
    have hposted := hposts.posted
    rw [paged_cons hstep] at hposted
    exact nomatch hposted
  | cons first texts ih =>
    have hposts := h [ack dirs fd] (List.forall_mem_singleton.mpr hack)
    obtain ⟨t, es, hstep⟩ := posts_returns hposts
    obtain ⟨left, text, hget⟩ := page_made hd hdata hack hstep
    obtain ⟨t, hstep, hnext⟩ := page_step hd hdata hack hget
    have hposted := hposts.posted
    rw [paged_cons hstep] at hposted
    obtain ⟨rfl, rfl⟩ : d.fd = fd ∧ text = first := by
      injection hposted with hpage
      injection hpage with hfd hpage
      injection hpage with htext
      exact ⟨hfd, htext⟩
    have hthen (acks : List DiskInput) (hacks : ∀ i ∈ acks, Written dirs d.fd i) : Posts d.fd texts t acks :=
      (posts_cons hstep).mp (h (ack dirs d.fd :: acks) (List.forall_mem_cons.mpr ⟨hack, hacks⟩))
    refine ⟨rfl, ?_⟩
    by_cases hne : left = []
    · subst hne
      rw [(posts_end hnext (Or.inl rfl)).mp hthen]
      exact .last hget
    · exact .more hget hne (ih hnext (if_pos hne) hthen).2

/-- Where nothing happens the end is never reported. -/
theorem not_posts_idle (h : ∀ i, Written dirs fd i → diskManager.step i m = .ok (m, [])) :
    ¬ ∀ acks, (∀ i ∈ acks, Written dirs fd i) → Posts fd texts m acks := by
  intro hposts
  have hacks : ∀ i ∈ List.replicate (texts.length + 1) (ack dirs fd), Written dirs fd i := fun i hi =>
    List.eq_of_mem_replicate hi ▸ ack_written dirs fd
  have hreports := (hposts _ hacks).reports
  rw [reported, (idle_run h hacks).2.1, List.length_replicate, if_pos (Nat.lt_succ_self _)] at hreports
  exact nomatch hreports

/-- The object found posts these texts and is reported exactly where it owes them. -/
theorem owes_iff (hd : m.infos fd = some d) :
    (∀ acks, (∀ i ∈ acks, Written dirs fd i) → Posts fd texts m acks) ↔ d.Owes dirs fd texts := by
  have hstuck (hdata : d.dataAction ≠ .indexLoading ∧ d.dataAction ≠ .indexFinish ∧ d.dataAction ≠ .retrLoading ∧
      d.dataAction ≠ .retrFinish) (i : DiskInput) (hi : Written dirs fd i) : diskManager.step i m = .ok (m, []) :=
    idle_step (fun d' hd' => Option.some.inj (hd.symm.trans hd') ▸ hdata) hi
  unfold DiskInfo.Owes
  cases hdata : d.dataAction with
  | indexLoading =>
    exact ⟨posts_pages hd hdata, fun h acks hacks => pages_posts h.2 hd hdata h.1 rfl rfl hacks⟩
  | indexFinish => exact posts_end hd (Or.inl hdata)
  | retrFinish => exact posts_end hd (Or.inr hdata)
  | retrLoading =>
    refine iff_of_false (fun h => ?_) id
    obtain ⟨f, herror⟩ := retr_step hd hdata (ack_written dirs fd) rfl
    obtain ⟨t, es, hstep⟩ := posts_returns (h [ack dirs fd] (List.forall_mem_singleton.mpr (ack_written dirs fd)))
    exact nomatch herror.symm.trans hstep
  | storStart => exact iff_of_false (not_posts_idle (hstuck (by simp [hdata]))) id
  | storing => exact iff_of_false (not_posts_idle (hstuck (by simp [hdata]))) id
  | storDone => exact iff_of_false (not_posts_idle (hstuck (by simp [hdata]))) id
  | task a => exact iff_of_false (not_posts_idle (hstuck (by simp [hdata]))) id

end

/-! ### Listings -/

/-- The start of a listing. -/
structure Listing where
  fd : Fd
  start : DiskInput
  start_task : start.task.action = .indexStart ∧ start.task.ctrlFd = fd

namespace Listing

def dirs (l : Listing) : Directories := l.start.calls.dirs

def path (l : Listing) : List Char := strncpy pathSize l.start.task.curPath

/-- The rows of the directory. -/
def rows (l : Listing) : List (List Char) := l.dirs.rows l.path (l.dirs.getDirDetail l.path)

/-- The texts are those of pages of at most 32 rows each that make up these rows. -/
def Paged (rows texts : List (List Char)) : Prop :=
  ∃ pages : List (List (List Char)), pages.flatten = rows ∧ (∀ page ∈ pages, page.length ≤ pageRows) ∧
    pages.map List.flatten = texts

/-- These pages are posted, the first one when the listing starts and the others one by one as the
page before has been written; the end is reported once, when the last page has been written. -/
def Delivers (m : DiskManager) (l : Listing) (rows : List (List Char)) : Prop :=
  ∃ texts, Paged rows texts ∧ ∀ acks, (∀ i ∈ acks, Written l.dirs l.fd i) → Posts l.fd texts m (l.start :: acks)

/-- The whole listing is posted: one row for each entry that `lstat` reaches, in the order of the
directory. -/
def Complete (m : DiskManager) (l : Listing) : Prop :=
  ∃ rows, List.Forall₂ (fun name text => l.dirs.row l.path name = some text)
    ((l.dirs.getDirDetail l.path).filter (l.dirs.reached l.path)) rows ∧ l.Delivers m rows

/-- An object left for the descriptor would itself post what follows the first page. -/
def Continued (l : Listing) (d : DiskInfo) : Prop :=
  ∃ texts, Paged (l.rows.drop pageRows) texts ∧ d.Owes l.dirs l.fd texts

end Listing

section
variable {dirs : Directories} {fd : Fd} {m : DiskManager} {pwd : List Char} {l : Listing}

/-- The pages of entries that fit. -/
theorem pages_fit {names : List (List Char)} (hfits : ∀ name ∈ names, dirs.Listable pwd name) (hne : names ≠ []) :
    ∃ texts, Listing.Paged (dirs.rows pwd names) texts ∧ Pages dirs pwd names texts := by
  -- each page takes at least one entry
  induction hn : names.length using Nat.strong_induction_on generalizing names with
  | _ n ih =>
    obtain ⟨rest, hget, hrows, hsuffix, hless⟩ := Directories.getDir_first hfits
    have hsplit := List.take_append_drop pageRows (dirs.rows pwd names)
    by_cases hrest : rest = []
    · subst hrest
      refine ⟨_, ⟨[(dirs.rows pwd names).take pageRows], ?_, ?_, rfl⟩, .last hget⟩
      · rw [← hrows] at hsplit
        rw [List.flatten_singleton]
        exact (List.append_nil _).symm.trans hsplit
      · exact List.forall_mem_singleton.mpr (List.length_take_le ..)
    · obtain ⟨_, ⟨pages, hflat, hshort, rfl⟩, hpages⟩ :=
        ih rest.length (hn ▸ hless hne) (fun name h => hfits name (hsuffix.subset h)) hrest rfl
      refine ⟨_, ⟨(dirs.rows pwd names).take pageRows :: pages, ?_, ?_, rfl⟩, .more hget hrest hpages⟩
      · rw [List.flatten_cons, hflat, hrows, hsplit]
      · exact List.forall_mem_cons.mpr ⟨List.length_take_le .., hshort⟩

/-- Of two beginnings of a list of texts none of which is empty, those with one text are one. -/
theorem flatten_beginnings {A : Type} {rows p q : List (List A)} (hp : p <+: rows) (hq : q <+: rows)
    (hrows : ∀ row ∈ rows, row ≠ []) (h : p.flatten = q.flatten) : p = q := by
  have hnothing {p q : List (List A)} (hp : p <+: q) (hq : ∀ row ∈ q, row ≠ []) (h : p.flatten = q.flatten) : p = q := by
    obtain ⟨rest, rfl⟩ := hp
    rw [List.flatten_append, List.self_eq_append_right, List.flatten_eq_nil_iff] at h
    have hnil : rest = [] := List.eq_nil_iff_forall_not_mem.mpr fun row hrow =>
      hq row (List.mem_append_right _ hrow) (h row hrow)
    rw [hnil, List.append_nil]
  rcases List.prefix_or_prefix_of_prefix hp hq with hpq | hqp
  · exact hnothing hpq (fun row hrow => hrows row (hq.subset hrow)) h
  · exact (hnothing hqp (fun row hrow => hrows row (hp.subset hrow)) h.symm).symm

/-- Pages after the first one. -/
theorem paged_cons_iff {rows texts : List (List Char)} (hrows : ∀ row ∈ rows, row ≠ []) :
    Listing.Paged rows ((rows.take pageRows).flatten :: texts) ↔ Listing.Paged (rows.drop pageRows) texts := by
  constructor
  · rintro ⟨pages, hflat, hshort, htexts⟩
    obtain ⟨page, pages, rfl, hfirst, hrest⟩ := List.map_eq_cons_iff.mp htexts
    obtain ⟨hpage, hpages⟩ := List.forall_mem_cons.mp hshort
    rw [List.flatten_cons] at hflat
    have hsame : page = rows.take pageRows :=
      flatten_beginnings ⟨_, hflat⟩ (List.take_prefix ..) hrows hfirst
    refine ⟨pages, ?_, hpages, hrest⟩
    rw [hsame] at hflat
    exact List.append_cancel_left (hflat.trans (List.take_append_drop pageRows rows).symm)
  · rintro ⟨pages, hflat, hshort, rfl⟩
    refine ⟨rows.take pageRows :: pages, ?_, List.forall_mem_cons.mpr ⟨List.length_take_le .., hshort⟩, rfl⟩
    rw [List.flatten_cons, hflat, List.take_append_drop]

/-- The first page is posted by the start. The pages after it are those of the object left for
the descriptor, or of its own, which owes them. -/
theorem start_page (m : DiskManager) (hfits : ∀ name ∈ l.dirs.getDirDetail l.path, l.dirs.Listable l.path name) :
    ∃ t d, diskManager.step l.start m = .ok (t, [.listed l.path,
        .dataPost l.fd (l.rows.take pageRows).flatten (l.rows.take pageRows).flatten.length]) ∧
      t.infos l.fd = some d ∧ (m.seekDisk l.fd = none → l.Continued d) ∧ ∀ d', m.seekDisk l.fd = some d' → d' = d := by
  obtain ⟨haction, hfd⟩ := l.start_task
  obtain ⟨rest, hget, hrows, hsuffix, _⟩ := Directories.getDir_first hfits
  have hpage : DiskFsm.runIndexStart l.start.calls (m.construct l.start.task) =
      .ok (nextIndex rest, (m.construct l.start.task).turned rest (l.rows.take pageRows).flatten) :=
    bind_eq_ok.mpr ⟨_, listFrom_turned hget, rfl⟩
  have hroll : DiskFsm.rollStateMachine l.start.calls l.start.task m =
      .ok (m.started ((m.construct l.start.task).listed rest (l.rows.take pageRows).flatten)) := by
    unfold DiskFsm.rollStateMachine
    rw [haction]
    exact bind_eq_ok.mpr ⟨_, hpage, bind_eq_ok.mpr ⟨_, turned_posts _ rest _, rfl⟩⟩
  have hadded : (m.started ((m.construct l.start.task).listed rest (l.rows.take pageRows).flatten)).manager.infos =
      Registry.insert m.infos l.fd ((m.construct l.start.task).listed rest (l.rows.take pageRows).flatten).info := by
    rw [← hfd]
    rfl
  have hstep : diskManager.step l.start m =
      .ok ((m.started ((m.construct l.start.task).listed rest (l.rows.take pageRows).flatten)).manager,
        [.listed l.path, .dataPost l.fd (l.rows.take pageRows).flatten (l.rows.take pageRows).flatten.length]) := by
    rw [← hfd]
    exact step_of_roll hroll
  cases hentry : m.infos l.fd with
  | none =>
    refine ⟨_, _, hstep, by rw [hadded]; exact Registry.insert_free hentry _, fun _ => ?_,
      fun d' hd' => nomatch hentry.symm.trans hd'⟩
    by_cases hrest : rest = []
    · subst hrest
      exact ⟨[], ⟨[], hrows, List.forall_mem_nil _, rfl⟩, rfl⟩
    · obtain ⟨texts, hpaged, hpages⟩ := pages_fit (fun name h => hfits name (hsuffix.subset h)) hrest
      refine ⟨texts, hrows ▸ hpaged, ?_⟩
      unfold DiskInfo.Owes
      rw [show ((m.construct l.start.task).listed rest (l.rows.take pageRows).flatten).info.dataAction =
        .indexLoading from if_pos hrest]
      exact ⟨hfd, hpages⟩
  | some d =>
    refine ⟨_, d, hstep, by rw [hadded, Registry.insert_taken hentry, hentry], fun hfree => ?_, fun d' hd' => ?_⟩
    · exact nomatch hentry.symm.trans hfree
    · exact Option.some.inj (hd'.symm.trans hentry)

/-- After the first page the listing is whole exactly where the object found posts the rest. -/
theorem complete_continued {t : DiskManager} {d : DiskInfo}
    (hstep : diskManager.step l.start m = .ok (t, [.listed l.path,
      .dataPost l.fd (l.rows.take pageRows).flatten (l.rows.take pageRows).flatten.length]))
    (hd : t.infos l.fd = some d) : l.Delivers m l.rows ↔ l.Continued d := by
  have hrows : ∀ row ∈ l.rows, row ≠ [] := by
    intro row hrow
    obtain ⟨name, _, hname⟩ := List.mem_filterMap.mp hrow
    exact Directories.row_ne_nil hname
  constructor
  · rintro ⟨texts, hpaged, hposts⟩
    have hfirst := (hposts [] (List.forall_mem_nil _)).posted
    rw [paged_cons hstep] at hfirst
    cases texts with
    | nil => exact nomatch hfirst
    | cons text texts =>
      injection hfirst with hpage
      injection hpage with _ hpage
      injection hpage with htext
      rw [← htext] at hpaged hposts
      refine ⟨texts, (paged_cons_iff hrows).mp hpaged, (owes_iff hd).mp fun acks hacks => ?_⟩
      exact (posts_cons hstep).mp (hposts acks hacks)
  · rintro ⟨texts, hpaged, howes⟩
    refine ⟨_, (paged_cons_iff hrows).mpr hpaged, fun acks hacks => (posts_cons hstep).mpr ?_⟩
    exact (owes_iff hd).mpr howes acks hacks

end

/-- A complete listing has a name for every owner and group, and delivers the rows. -/
theorem complete_iff (m : DiskManager) {l : Listing}
    (hfits : ∀ name ∈ l.dirs.getDirDetail l.path, l.dirs.Fits l.path name) :
    l.Complete m ↔ (∀ name ∈ l.dirs.getDirDetail l.path, l.dirs.Named l.path name) ∧ l.Delivers m l.rows := by
  unfold Listing.Complete
  simp only [Directories.rows_iff hfits]
  constructor
  · rintro ⟨_, ⟨rfl, hnamed⟩, hrows⟩
    exact ⟨hnamed, hrows⟩
  · rintro ⟨hnamed, hrows⟩
    exact ⟨_, ⟨rfl, hnamed⟩, hrows⟩

/-- **A listing is complete**, exactly where the owners and groups of all entries have names, and
the descriptor has no object, or one that would itself post what follows the first page. -/
theorem list_complete_iff (m : DiskManager) (l : Listing)
    (hfits : ∀ name ∈ l.dirs.getDirDetail l.path, l.dirs.Fits l.path name) :
    l.Complete m ↔ (∀ name ∈ l.dirs.getDirDetail l.path, l.dirs.Named l.path name) ∧
      ∀ d, m.seekDisk l.fd = some d → l.Continued d := by
  rw [complete_iff m hfits, and_congr_right_iff]
  intro hnamed
  obtain ⟨t, d, hstep, hd, hown, hleft⟩ :=
    start_page m fun name hname => (Directories.listable_iff (hfits name hname)).mpr (hnamed name hname)
  rw [complete_continued hstep hd]
  constructor
  · intro h d' hd'
    rw [hleft d' hd']
    exact h
  · intro h
    cases hentry : m.seekDisk l.fd with
    | none => exact hown hentry
    | some d' =>
      have hsame := hleft d' hentry
      rw [← hsame]
      exact h d' hentry

/-- A directory of forty files of one name, as the entries are given. -/
def fortyFiles : Directories where
  entries _ := some (".".toList :: "..".toList :: List.replicate 40 "x".toList)
  columns _ := .ok (some "-rw-r--r-- 1 ftp ftp 0 Jan 1 00:00 ".toList)

/-- Its listing. -/
def listForty : Listing where
  fd := 7
  start := ⟨{ctrlFd := 7, action := .indexStart, curPath := "/home".toList}, {dirs := fortyFiles}⟩
  start_task := ⟨rfl, rfl⟩

theorem listForty_fits : ∀ name ∈ listForty.dirs.getDirDetail listForty.path, listForty.dirs.Fits listForty.path name := by
  intro name hname
  have hentries : listForty.dirs.getDirDetail listForty.path = List.replicate 40 "x".toList := by decide +kernel
  rw [hentries] at hname
  rw [List.eq_of_mem_replicate hname]
  exact ⟨⟨"/home/x".toList, by decide +kernel, nofun⟩, by decide +kernel⟩

theorem list_complete_forty : listForty.Complete (.idle .empty) :=
  (list_complete_iff (.idle .empty) listForty listForty_fits).mpr
    ⟨fun _ _ _ _ hnull => (nomatch hnull), fun _ hd => nomatch hd⟩

/-- After an upload whose data connection failed. -/
def afterAborted : DiskManager := diskManager.final (.idle .empty)
  [{task := .ofPath 7 .storStart "/home/up".toList, calls := {opens := some 3}},
    {task := {ctrlFd := 7, action := .storing, fileBuffer := some ['a'], bufLen := 1}, calls := {writes := some 1}}]

/-- The object it left is found when the first page has been written. -/
theorem list_incomplete_aborted : ¬ listForty.Complete afterAborted ∧
    reported 7 (diskManager.trace afterAborted (listForty.start :: List.replicate 3 (ack fortyFiles 7))) = 0 := by
  refine ⟨fun h => ?_, by decide +kernel⟩
  obtain ⟨hnamed, hrows⟩ := (complete_iff afterAborted listForty_fits).mp h
  obtain ⟨t, d, hstep, hd, _, hleft⟩ := start_page (l := listForty) afterAborted fun name hname =>
    (Directories.listable_iff (listForty_fits name hname)).mpr (hnamed name hname)
  obtain ⟨texts, _, howes⟩ := (complete_continued hstep hd).mp hrows
  have hfound : (afterAborted.seekDisk 7).map DiskInfo.dataAction = some .storDone := by decide +kernel
  obtain ⟨d', hd', hdata⟩ := Option.map_eq_some_iff.mp hfound
  rw [hleft d' hd'] at hdata
  unfold DiskInfo.Owes at howes
  rw [hdata] at howes
  exact howes

end HyperTransfer
