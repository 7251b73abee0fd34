import HyperTransfer.Common
import HyperTransfer.Lib.Istream
import HyperTransfer.Lib.Trimming

/-! The class that reads the configuration file.

`operator>>` reads ahead, so that a value may go on in the lines behind its own; both of its loops end
as what is left of the stream gets less. Line by line it does what a machine with three states does
(`resume_lines`): the last line is taken twice if nothing ends it. -/
namespace HyperTransfer
open Trimming

abbrev Contents := Std.ExtTreeMap (List Char) (List Char)

structure ConfigFile where
  myDelimiter : List Char := ['=']
  myComment : List Char := ['#']
  mySentry : List Char := []
  myContents : Contents := ∅

namespace ConfigFile

/-- The `whitespace` of `trim`. -/
def whitespace (c : Char) : Bool := [' ', '\n', '\t', '\x0b', '\r', '\x0c'].contains c

/-- `trim`. -/
abbrev trimmed (s : List Char) : List Char := Trimming.trim whitespace s

/-- `readInto(var, key)`, with the `string_as_T` of its type. -/
def readInto {T : Type} (stringAsT : List Char → T) (cf : ConfigFile) (var : T) (key : List Char) : T × Bool :=
  match cf.myContents[key]? with
  | some value => (stringAsT value, true)
  | none => (var, false)

/-- `add(key, value)`, with the `T_as_string` of its type. -/
def add {T : Type} (asString : T → List Char) (cf : ConfigFile) (key : List Char) (value : T) : ConfigFile :=
  {cf with myContents := cf.myContents.insert (trimmed key) (trimmed (asString value))}

/-- What `operator<<` writes of one entry. -/
def entry (cf : ConfigFile) (key value : List Char) : List Char :=
  key ++ ' ' :: (cf.myDelimiter ++ ' ' :: value) ++ ['\n']

/-- `operator<<`. -/
def save (cf : ConfigFile) : List Char := cf.myContents.toList.flatMap fun p => cf.entry p.1 p.2

/-- The end of file sentry stands in a line. -/
def Ended (cf : ConfigFile) (line : List Char) : Prop := cf.mySentry ≠ [] ∧ cf.mySentry <:+: line

instance (cf : ConfigFile) (line : List Char) : Decidable (cf.Ended line) := inferInstanceAs (Decidable (_ ∧ _))

/-- The inner loop of `operator>>`: the value, what was read ahead, and the stream behind it. -/
def goOn (cf : ConfigFile) (is : Istream) (nextline line : List Char) : List Char × List Char × Istream :=
  if is.fail then (line, nextline, is)
  else
    let got := is.getline nextline
    if trimmed got.1 = [] then (line, got)
    else
      let nextline := before got.1 cf.myComment
      if cf.myDelimiter <:+: nextline ∨ cf.Ended nextline then (line, nextline, got.2)
      else
        let line := if trimmed nextline ≠ [] then line ++ ['\n'] else line
        cf.goOn got.2 nextline (line ++ nextline)
termination_by is.left
decreasing_by exact Istream.getline_left _ (Bool.eq_false_iff.mpr ‹_›)

theorem goOn_fail (cf : ConfigFile) {is : Istream} (h : is.fail) (nextline line : List Char) :
    cf.goOn is nextline line = (line, nextline, is) := by
  rw [goOn, if_pos h]

theorem goOn_left (cf : ConfigFile) (is : Istream) (nextline line : List Char) :
    (cf.goOn is nextline line).2.2.left + (!is.fail).toNat ≤ is.left := by
  fun_induction goOn with
  | case1 is nextline line h =>
    rw [h]
    exact Nat.le_refl _
  | case2 is nextline line h got hblank =>
    rw [Bool.not_eq_true] at h
    rw [h]
    exact Istream.getline_left nextline h
  | case3 is nextline line h got hblank cut hstop =>
    rw [Bool.not_eq_true] at h
    rw [h]
    exact Istream.getline_left nextline h
  | case4 is nextline line h got hblank cut hstop value ih =>
    rw [Bool.not_eq_true] at h
    rw [h]
    exact Nat.lt_of_le_of_lt (Nat.le_of_add_right_le ih) (Istream.getline_left nextline h)

/-- What the outer loop still has to do: it may be the line that was read ahead. -/
def todo (is : Istream) (nextline : List Char) : Nat := 2 * is.left + (!nextline.isEmpty).toNat

theorem goOn_todo (cf : ConfigFile) (is : Istream) (line : List Char) :
    todo (cf.goOn is [] line).2.2 (cf.goOn is [] line).2.1 ≤ 2 * is.left := by
  unfold todo
  by_cases h : is.fail
  · rw [goOn_fail cf h]
    exact Nat.le_refl _
  · have hleft := cf.goOn_left is [] line
    have hahead : (!(cf.goOn is [] line).2.1.isEmpty).toNat ≤ 1 := Bool.toNat_le _
    rw [Bool.not_eq_true] at h
    rw [h, Bool.not_false, Bool.toNat_true] at hleft
    omega

/-- The line that the outer loop takes: what was read ahead, or the next one. -/
theorem read_left {is : Istream} {nextline : List Char} (h : ¬ (is.fail ∧ nextline = [])) :
    2 * (if nextline ≠ [] then (nextline, is) else is.getline []).2.left < todo is nextline := by
  unfold todo
  cases nextline with
  | nil =>
    have hgo : is.fail = false := Bool.eq_false_iff.mpr fun hfail => h ⟨hfail, rfl⟩
    have hleft := Istream.getline_left [] hgo
    rw [if_neg fun hne => hne rfl]
    omega
  | cons c nextline => exact Nat.lt_succ_self _

/-- The outer loop of `operator>>`. -/
def loadLoop (cf : ConfigFile) (is : Istream) (nextline : List Char) (contents : Contents) : Contents :=
  if is.fail ∧ nextline = [] then contents
  else
    let got := if nextline ≠ [] then (nextline, is) else is.getline []
    let line := before got.1 cf.myComment
    if cf.Ended line then contents
    else
      match line.dropInfix? cf.myDelimiter with
      | none => cf.loadLoop got.2 [] contents
      | some (key, line) =>
        let value := cf.goOn got.2 [] line
        cf.loadLoop value.2.2 value.2.1 (contents.insert (trimmed key) (trimmed value.1))
termination_by todo is nextline
decreasing_by
  · exact Nat.lt_of_le_of_lt (Nat.le_refl _) (read_left ‹_›)
  · exact Nat.lt_of_le_of_lt (cf.goOn_todo ..) (read_left ‹_›)

/-- `operator>>`. -/
def load (cf : ConfigFile) (is : Istream) : ConfigFile :=
  {cf with myContents := cf.loadLoop is [] cf.myContents}

/-! ### Line by line -/

/-- Where the loops are between two lines: an entry may be open whose value still goes on, and behind
the sentry nothing is read. -/
inductive Reading where
  | between (contents : Contents)
  | within (contents : Contents) (key value : List Char)
  | ended (contents : Contents)

/-- The contents with the open entry. -/
def Reading.stored : Reading → Contents
  | between contents => contents
  | within contents key value => contents.insert (trimmed key) (trimmed value)
  | ended contents => contents

/-- A line that does not go on with a value. -/
def fresh (cf : ConfigFile) (contents : Contents) (line : List Char) : Reading :=
  let line := before line cf.myComment
  if cf.Ended line then .ended contents
  else
    match line.dropInfix? cf.myDelimiter with
    | none => .between contents
    | some (key, value) => .within contents key value

/-- A value ends at a blank line, at an entry and at the sentry. -/
def Ends (cf : ConfigFile) (line : List Char) : Prop :=
  trimmed line = [] ∨ cf.myDelimiter <:+: before line cf.myComment ∨ cf.Ended (before line cf.myComment)

instance (cf : ConfigFile) (line : List Char) : Decidable (cf.Ends line) := inferInstanceAs (Decidable (_ ∨ _))

/-- A value with one more line; of a line that is only a comment the blanks are left. -/
def joined (cf : ConfigFile) (value line : List Char) : List Char :=
  (if trimmed (before line cf.myComment) ≠ [] then value ++ ['\n'] else value) ++ before line cf.myComment

def takeLine (cf : ConfigFile) (s : Reading) (line : List Char) : Reading :=
  match s with
  | .between contents => cf.fresh contents line
  | .within contents key value =>
    if cf.Ends line then cf.fresh s.stored line else .within contents key (cf.joined value line)
  | .ended contents => .ended contents

/-- The loops, from there on. -/
def resume (cf : ConfigFile) (is : Istream) : Reading → Contents
  | .between contents => cf.loadLoop is [] contents
  | .within contents key line =>
    let value := cf.goOn is [] line
    cf.loadLoop value.2.2 value.2.1 (contents.insert (trimmed key) (trimmed value.1))
  | .ended contents => contents

/-- A line is free of comments and of the sentry. -/
def Plain (cf : ConfigFile) (line : List Char) : Prop := ¬ cf.myComment <:+: line ∧ ¬ cf.Ended line

instance (cf : ConfigFile) (line : List Char) : Decidable (cf.Plain line) := inferInstanceAs (Decidable (_ ∧ _))

/-- The strings of the syntax are words, and neither a comment nor the sentry stands in the delimiter. -/
structure Sound (cf : ConfigFile) : Prop where
  delimiter : cf.myDelimiter ≠ []
  comment : cf.myComment ≠ []
  words : ∀ c ∈ cf.myDelimiter ++ cf.myComment ++ cf.mySentry, whitespace c = false
  plain : cf.Plain cf.myDelimiter

variable {cf : ConfigFile} {m : Contents} {is : Istream} {nextline line last : List Char} {s : Reading}

/-! ### The loops -/

theorem loadLoop_over (h : is.fail) (m : Contents) : cf.loadLoop is [] m = m := by
  rw [loadLoop, if_pos ⟨h, rfl⟩]

/-- A line that was read ahead. -/
theorem loadLoop_ahead (h : nextline ≠ []) : cf.loadLoop is nextline m = cf.resume is (cf.fresh m nextline) := by
  rw [loadLoop, if_neg fun hover => h hover.2, if_pos h, fresh]
  dsimp only
  split
  · rfl
  · split <;> rfl

/-- A line that is read. -/
theorem loadLoop_reads (h : is.fail = false) :
    cf.loadLoop is [] m = cf.resume (is.getline []).2 (cf.fresh m (is.getline []).1) := by
  have hgot : (if ([] : List Char) ≠ [] then (([] : List Char), is) else is.getline []) = is.getline [] :=
    if_neg fun hne => hne rfl
  rw [loadLoop, if_neg fun hover => Bool.false_ne_true (h.symm.trans hover.1), fresh]
  dsimp only
  rw [hgot]
  split
  · rfl
  · split <;> rfl

/-- As long as there are lines, nothing is taken from the one before. -/
theorem goOn_good (heof : is.eof = false) (hfail : is.fail = false) (nextline line : List Char) :
    cf.goOn is nextline line = cf.goOn is [] line := by
  have hsame : is.getline nextline = is.getline [] := by
    unfold Istream.getline
    rw [heof, hfail]
    rfl
  have hgo : ¬ is.fail = true := Bool.eq_false_iff.mp hfail
  rw [goOn, hsame, if_neg hgo]
  conv => rhs; rw [goOn, if_neg hgo]

/-! ### Lines -/

theorem Sound.delimiter_blank (h : cf.Sound) (c : Char) (hc : whitespace c) : c ∉ cf.myDelimiter := by
  intro hmem
  exact Bool.false_ne_true ((h.words c (List.mem_append_left _ (List.mem_append_left _ hmem))).symm.trans hc)

theorem Sound.comment_blank (h : cf.Sound) (c : Char) (hc : whitespace c) : c ∉ cf.myComment := by
  intro hmem
  exact Bool.false_ne_true ((h.words c (List.mem_append_left _ (List.mem_append_right _ hmem))).symm.trans hc)

theorem Sound.sentry_blank (h : cf.Sound) (c : Char) (hc : whitespace c) : c ∉ cf.mySentry := by
  intro hmem
  exact Bool.false_ne_true ((h.words c (List.mem_append_right _ hmem)).symm.trans hc)

theorem fresh_between (hdelim : ¬ cf.myDelimiter <:+: before line cf.myComment)
    (hended : ¬ cf.Ended (before line cf.myComment)) : cf.fresh m line = .between m := by
  rw [fresh, if_neg hended, dropInfix?_eq_none.mpr hdelim]

/-- What a line is that does not go on with a value. -/
theorem fresh_cases (cf : ConfigFile) (m : Contents) (line : List Char) :
    cf.Ended (before line cf.myComment) ∧ cf.fresh m line = .ended m ∨
      ¬ cf.Ended (before line cf.myComment) ∧ (¬ cf.myDelimiter <:+: before line cf.myComment) ∧
        cf.fresh m line = .between m ∨
      ¬ cf.Ended (before line cf.myComment) ∧ ∃ key value,
        (before line cf.myComment).dropInfix? cf.myDelimiter = some (key, value) ∧
          cf.fresh m line = .within m key value := by
  rw [fresh]
  by_cases hended : cf.Ended (before line cf.myComment)
  · exact Or.inl ⟨hended, if_pos hended⟩
  · rw [if_neg hended]
    cases hfind : (before line cf.myComment).dropInfix? cf.myDelimiter with
    | none => exact Or.inr (Or.inl ⟨hended, dropInfix?_eq_none.mp hfind, rfl⟩)
    | some p => exact Or.inr (Or.inr ⟨hended, p.1, p.2, rfl, rfl⟩)

/-- No word of the syntax stands in blanks. -/
theorem Sound.not_infix (h : cf.Sound) (hblank : trimmed line = []) :
    ¬ cf.myDelimiter <:+: line ∧ ¬ cf.Ended line := by
  rw [trim_eq_nil] at hblank
  refine ⟨fun hin => h.delimiter ?_, fun hin => hin.1 ?_⟩
  · exact List.eq_nil_iff_forall_not_mem.mpr fun c hc => h.delimiter_blank c (hblank c (hin.subset hc)) hc
  · exact List.eq_nil_iff_forall_not_mem.mpr fun c hc => h.sentry_blank c (hblank c (hin.2.subset hc)) hc

theorem Ended.mono {line' : List Char} (h : cf.Ended line) (hin : line <:+: line') : cf.Ended line' :=
  ⟨h.1, h.2.trans hin⟩

/-- Nothing comes of blanks. -/
theorem fresh_blank (h : cf.Sound) (hblank : trimmed line = []) : cf.fresh m line = .between m := by
  obtain ⟨hdelim, hended⟩ := h.not_infix hblank
  have hstarts := (before_starts line cf.myComment).isInfix
  exact fresh_between (fun hin => hdelim (hin.trans hstarts)) fun hin => hended (hin.mono hstarts)

theorem before_before (h : cf.Sound) : before (before line cf.myComment) cf.myComment = before line cf.myComment :=
  before_of_not (before_not h.comment line)

theorem fresh_cut (h : cf.Sound) : cf.fresh m (before line cf.myComment) = cf.fresh m line := by
  rw [fresh, fresh, before_before h]

/-- A line that ends a value is taken afresh. -/
theorem resume_ends (h : cf.Sound) {is' : Istream} {key value : List Char} (hfail : is.fail = false)
    (hread : is.getline [] = (line, is')) (hends : cf.Ends line) :
    cf.resume is (.within m key value) = cf.resume is' (cf.takeLine (.within m key value) line) := by
  rw [resume, goOn, if_neg (Bool.eq_false_iff.mp hfail), hread, takeLine, if_pos hends]
  dsimp only
  by_cases hblank : trimmed line = []
  · rw [if_pos hblank, fresh_blank h hblank]
    cases line with
    | nil => rfl
    | cons c line =>
      rw [loadLoop_ahead (List.cons_ne_nil c line), fresh_blank h hblank]
      rfl
  · have hstop := hends.resolve_left hblank
    have hcut : before line cf.myComment ≠ [] := by
      intro hnil
      rw [hnil, List.infix_nil] at hstop
      obtain hdelim | hended := hstop
      · exact h.delimiter hdelim
      · exact hended.1 (List.infix_nil.mp hended.2)
    rw [if_neg hblank, if_pos hstop, loadLoop_ahead hcut, fresh_cut h]
    rfl

theorem goOn_goes {is' : Istream} {value : List Char} (hfail : is.fail = false)
    (hread : is.getline nextline = (line, is')) (hgoes : ¬ cf.Ends line) :
    cf.goOn is nextline value = cf.goOn is' (before line cf.myComment) (cf.joined value line) := by
  obtain ⟨hblank, hstop⟩ := not_or.mp hgoes
  rw [goOn, if_neg (Bool.eq_false_iff.mp hfail), hread, if_neg hblank]
  dsimp only
  rw [if_neg hstop, joined]

/-- One line of the file. -/
theorem resume_line (h : cf.Sound) {rest : List Char} (hline : '\n' ∉ line) (s : Reading) :
    cf.resume ⟨line ++ '\n' :: rest, false, false⟩ s = cf.resume ⟨rest, false, false⟩ (cf.takeLine s line) := by
  have hread : (Istream.mk (line ++ '\n' :: rest) false false).getline [] = (line, ⟨rest, false, false⟩) :=
    Istream.getline_line [] hline
  cases s with
  | ended contents => rfl
  | between contents => rw [resume, loadLoop_reads rfl, hread, takeLine]
  | within contents key value =>
    by_cases hends : cf.Ends line
    · exact resume_ends h rfl hread hends
    · rw [resume, goOn_goes rfl hread hends, goOn_good rfl rfl, takeLine, if_neg hends]
      rfl

/-- An entry is stored in the same way twice. -/
theorem insert_insert (m : Contents) (key value : List Char) :
    (m.insert key value).insert key value = m.insert key value := by
  apply Std.ExtTreeMap.ext_getElem?
  intro k
  rw [Std.ExtTreeMap.getElem?_insert]
  split
  · rename_i heq
    rw [Std.ExtTreeMap.getElem?_insert, if_pos heq]
  · rfl

theorem resume_failed (h : cf.Sound) (hnext : trimmed nextline = []) (m : Contents) :
    cf.loadLoop ⟨[], true, true⟩ nextline m = m := by
  cases nextline with
  | nil => exact loadLoop_over rfl m
  | cons c nextline =>
    rw [loadLoop_ahead (List.cons_ne_nil c nextline), fresh_blank h hnext]
    exact loadLoop_over rfl m

/-- Where nothing is left, the open entry is stored. -/
theorem resume_nil (h : cf.Sound) (s : Reading) : cf.resume ⟨[], false, false⟩ s = s.stored := by
  have hnone (line : List Char) : (Istream.mk [] false false).getline line = ([], ⟨[], true, true⟩) := rfl
  cases s with
  | ended contents => rfl
  | between contents =>
    rw [resume, loadLoop_reads rfl, hnone, fresh_blank h rfl]
    exact loadLoop_over rfl contents
  | within contents key value =>
    rw [resume, goOn, if_neg Bool.false_ne_true, hnone]
    exact loadLoop_over rfl _

/-- The last line has been read, and it does not go on with a value. -/
theorem resume_end (h : cf.Sound) (m : Contents) (last : List Char) :
    cf.resume ⟨[], true, false⟩ (cf.fresh m last) = (cf.takeLine (cf.fresh m last) last).stored := by
  obtain ⟨_, hfresh⟩ | ⟨_, _, hfresh⟩ | ⟨_, key, value, hfind, hfresh⟩ := cf.fresh_cases m last
  · rw [hfresh]
    rfl
  · rw [hfresh, resume, loadLoop_reads rfl, Istream.getline_eof, fresh_blank h rfl, takeLine, hfresh]
    exact loadLoop_over rfl m
  · -- it is an entry, and once more the same one
    have hends : cf.Ends last := by
      obtain ⟨hcut, _⟩ := dropInfix?_eq_some.mp hfind
      exact Or.inr (Or.inl ⟨key, value, hcut.symm⟩)
    have hagain : cf.fresh (m.insert (trimmed key) (trimmed value)) last =
        .within (m.insert (trimmed key) (trimmed value)) key value := by
      obtain ⟨hended, _⟩ | ⟨_, hnone, _⟩ | ⟨_, key', value', hfind', hfresh'⟩ :=
        cf.fresh_cases (m.insert (trimmed key) (trimmed value)) last
      · contradiction
      · exact absurd (dropInfix?_eq_none.mpr hnone) (by rw [hfind]; exact Option.some_ne_none _)
      · cases hfind.symm.trans hfind'
        exact hfresh'
    rw [hfresh, resume, goOn, if_neg Bool.false_ne_true, Istream.getline_eof, takeLine, if_pos hends, Reading.stored,
      hagain, Reading.stored, insert_insert]
    exact loadLoop_over rfl _

/-- The last line, which nothing ends, is taken twice. -/
theorem resume_last (h : cf.Sound) (hlast : '\n' ∉ last) (hne : last ≠ []) (s : Reading) :
    cf.resume ⟨last, false, false⟩ s = (cf.takeLine (cf.takeLine s last) last).stored := by
  have hread (line : List Char) : (Istream.mk last false false).getline line = (last, ⟨[], true, false⟩) := by
    rw [Istream.getline_last line hlast, List.isEmpty_eq_false_iff.mpr hne]
  cases s with
  | ended contents => rfl
  | between contents =>
    rw [resume, loadLoop_reads rfl, hread]
    exact resume_end h contents last
  | within contents key value =>
    by_cases hends : cf.Ends last
    · rw [resume_ends h rfl (hread []) hends]
      have htaken : cf.takeLine (.within contents key value) last =
          cf.fresh (contents.insert (trimmed key) (trimmed value)) last := by rw [takeLine, if_pos hends]; rfl
      rw [htaken]
      exact resume_end h _ last
    · -- it goes on with the value; then nothing is read any more, and what was read ahead is still there
      obtain ⟨hblank, hstop⟩ := not_or.mp hends
      obtain ⟨hdelim, hended⟩ := not_or.mp hstop
      have htaken : cf.takeLine (cf.takeLine (.within contents key value) last) last =
          .within contents key (cf.joined (cf.joined value last) last) := by
        rw [takeLine, if_neg hends, takeLine, if_neg hends]
      rw [resume, goOn_goes rfl (hread []) hends, htaken]
      generalize cf.joined value last = value
      by_cases hcut : trimmed (before last cf.myComment) = []
      · have hstops : cf.goOn ⟨[], true, false⟩ (before last cf.myComment) value =
            (value, before last cf.myComment, ⟨[], true, true⟩) := by
          rw [goOn, if_neg Bool.false_ne_true, Istream.getline_eof, if_pos hcut]
        have hsame : trimmed (cf.joined value last) = trimmed value := by
          rw [joined, if_neg fun hne => hne hcut]
          exact trim_around (List.forall_mem_nil _) (trim_eq_nil.mp hcut)
        rw [hstops, Reading.stored, hsame]
        exact resume_failed h hcut _
      · have hgoes : ¬ cf.Ends (before last cf.myComment) := by
          rw [Ends, before_before h]
          exact not_or.mpr ⟨hcut, hstop⟩
        have hjoined : cf.joined value (before last cf.myComment) = cf.joined value last := by
          rw [joined, before_before h, joined]
        have hnext : before last cf.myComment ≠ [] := fun hnil => hcut (by rw [hnil]; rfl)
        rw [goOn_goes rfl (Istream.getline_eof _ _) hgoes, goOn_fail cf rfl, hjoined, loadLoop_ahead, fresh_cut h,
          fresh_cut h, fresh_between hdelim hended]
        · exact loadLoop_over rfl _
        · rw [before_before h]
          exact hnext

/-! ### The file -/

/-- Lines with what ends each of them, and one that nothing ends. -/
def fileText (lines : List (List Char)) (last : List Char) : List Char := lines.flatMap (· ++ ['\n']) ++ last

/-- The lines that are taken. -/
def taken (lines : List (List Char)) (last : List Char) : List (List Char) :=
  lines ++ if last = [] then [] else [last, last]

theorem fileText_cons (line : List Char) (lines : List (List Char)) (last : List Char) :
    fileText (line :: lines) last = line ++ '\n' :: fileText lines last := by
  simp only [fileText, List.flatMap_cons, List.append_assoc, List.cons_append, List.nil_append]

/-- The loops do with a file what the lines do one after the other. -/
theorem resume_lines (h : cf.Sound) {lines : List (List Char)} (hlines : ∀ l ∈ lines, '\n' ∉ l) (hlast : '\n' ∉ last)
    (s : Reading) : cf.resume ⟨fileText lines last, false, false⟩ s = ((taken lines last).foldl cf.takeLine s).stored := by
  induction lines generalizing s with
  | nil =>
    show cf.resume ⟨last, false, false⟩ s = _
    rw [taken, List.nil_append]
    split
    · rename_i hnil
      rw [hnil]
      exact resume_nil h s
    · rename_i hne
      exact resume_last h hlast hne s
  | cons line lines ih =>
    have hrest : ∀ l ∈ lines, '\n' ∉ l := fun l hl => hlines l (List.mem_cons_of_mem line hl)
    rw [fileText_cons, resume_line h (hlines line (List.mem_cons_self ..)), ih hrest]
    rfl

/-- A file is made of lines. -/
theorem exists_lines (text : List Char) :
    ∃ lines last, text = fileText lines last ∧ (∀ l ∈ lines, '\n' ∉ l) ∧ '\n' ∉ last := by
  obtain ⟨first, hfirst, htext, hlater⟩ := exists_first '\n' text
  generalize later '\n' text = more at htext hlater
  subst htext
  induction more generalizing first with
  | nil => exact ⟨[], first, List.append_nil first, List.forall_mem_nil _, hfirst⟩
  | cons l more ih =>
    obtain ⟨lines, last, htext, hlines, hlast⟩ :=
      ih l (hlater l (List.mem_cons_self ..)) fun x hx => hlater x (List.mem_cons_of_mem l hx)
    refine ⟨first :: lines, last, ?_, List.forall_mem_cons.mpr ⟨hfirst, hlines⟩, hlast⟩
    rw [List.flatMap_cons, List.cons_append, htext, fileText_cons]

theorem load_lines (h : cf.Sound) {lines : List (List Char)} (hlines : ∀ l ∈ lines, '\n' ∉ l) (hlast : '\n' ∉ last) :
    cf.load ⟨fileText lines last, false, false⟩ =
      {cf with myContents := ((taken lines last).foldl cf.takeLine (.between cf.myContents)).stored} := by
  rw [load, ← resume_lines h hlines hlast]
  rfl

/-! ### The syntax of the server -/

/-- What the constructor with a file name starts from, where only the name is given. -/
def unread : ConfigFile := {mySentry := "EndConfigFile".toList}

theorem unread_sound : unread.Sound where
  delimiter := List.cons_ne_nil _ _
  comment := List.cons_ne_nil _ _
  words c hc := by
    have hwords : (unread.myDelimiter ++ unread.myComment ++ unread.mySentry).all (!whitespace ·) = true := by decide
    exact Bool.not_eq_true' _ |>.mp (List.all_eq_true.mp hwords c hc)
  plain := by decide

end ConfigFile
end HyperTransfer
