import HyperTransfer.Lib.Messages

/-! Replies of a code and lines of text.

A reply has a code of three digits and is one line, `ddd text`, or several: then the first is
`ddd-text`, the last is `ddd text`, and none in between begins like the last. Who reads them
needs the lines, each of which shows its end, and the code of the first of them: the end of a reply shows,
and no beginning of it looks like one (`lines_message`). So replies sent one after the other
are read back, and of what has come so far the replies that are there as a whole (`replies_front`). -/
namespace HyperTransfer.ReplyText
open Messages

def eol : List Char := ['\r', '\n']

/-- Text within a line. -/
def Plain (text : List Char) : Prop := '\r' ∉ text ∧ '\n' ∉ text

instance (text : List Char) : Decidable (Plain text) := inferInstanceAs (Decidable (_ ∧ _))

def endsLine (text : List Char) : Bool := eol.isSuffixOf text

/-- The code a line begins with. -/
def code? (line : List Char) : Option (List Char) :=
  if (line.take 3).length = 3 ∧ (line.take 3).all Char.isDigit then some (line.take 3) else none

/-- The last line begins with the code of the first, and a blank. -/
def endsReply (lines : List (List Char)) : Bool :=
  match lines.head?.bind code?, lines.getLast? with
  | some code, some last => (code ++ [' ']).isPrefixOf last
  | _, _ => false

/-- The replies of a stream, each as its lines. -/
def replies (stream : List Char) : List (List (List Char)) := read endsReply (read endsLine stream)

structure Reply where
  code : List Char
  before : List (List Char)
  last : List Char
  three : code.length = 3
  decimal : ∀ c ∈ code, c.isDigit = true
  plain : ∀ l ∈ last :: before, Plain l
  inner : ∀ l ∈ before.tail, ¬ code ++ [' '] <+: l

namespace Reply

/-- The lines before the last; the code is put in front of the first. -/
def opening (r : Reply) : List (List Char) :=
  match r.before with
  | [] => []
  | first :: middle => (r.code ++ '-' :: first) :: middle

def closing (r : Reply) : List Char := r.code ++ ' ' :: r.last

/-- The lines, with their ends. -/
def lines (r : Reply) : List (List Char) := (r.opening ++ [r.closing]).map (· ++ eol)

def render (r : Reply) : List Char := r.lines.flatten

end Reply

/-- The text is one reply as a whole. -/
def IsReply (text : List Char) : Prop := ∃ r : Reply, r.render = text

/-! ### Lines -/

section
variable {text : List Char}

theorem plain_append {a b : List Char} : Plain (a ++ b) ↔ Plain a ∧ Plain b := by
  unfold Plain
  rw [List.mem_append, List.mem_append, not_or, not_or]
  exact and_and_and_comm

theorem Plain.sublist {part : List Char} (h : Plain text) (hpart : part.Sublist text) : Plain part :=
  ⟨fun hmem => h.1 (hpart.subset hmem), fun hmem => h.2 (hpart.subset hmem)⟩

theorem plain_digits (h : ∀ c ∈ text, c.isDigit = true) : Plain text :=
  ⟨fun hmem => absurd (h _ hmem) (by decide), fun hmem => absurd (h _ hmem) (by decide)⟩

/-- A line shows its end. -/
theorem line_message (h : Plain text) : Message endsLine (text ++ eol) := by
  refine ⟨List.append_ne_nil_of_right_ne_nil _ (List.cons_ne_nil _ _), ?_, fun part _ hprefix hne => ?_⟩
  · exact List.isSuffixOf_iff_suffix.mpr (List.suffix_append ..)
  · -- there is no line feed before the last character
    have hbody : part <+: text ++ ['\r'] := by
      have hall : text ++ eol = (text ++ ['\r']) ++ ['\n'] := by simp [eol]
      rw [hall] at hprefix hne
      rcases List.prefix_concat_iff.mp hprefix with heq | hbody
      · exact absurd heq hne
      · exact hbody
    rw [Bool.eq_false_iff]
    intro hends
    have hmem : '\n' ∈ text ++ ['\r'] :=
      hbody.subset ((List.isSuffixOf_iff_suffix.mp hends).subset (by decide))
    rcases List.mem_append.mp hmem with hmem | hmem
    · exact h.2 hmem
    · exact absurd hmem (by decide)

end

/-! ### Replies -/

namespace Reply
variable (r : Reply)

theorem plain_line {l : List Char} (h : l ∈ r.opening ++ [r.closing]) : Plain l := by
  have hcode : Plain r.code := plain_digits r.decimal
  have hplain := List.forall_mem_cons.mp r.plain
  rcases List.mem_append.mp h with h | h
  · unfold opening at h
    split at h
    · exact absurd h List.not_mem_nil
    · rename_i first middle hbefore
      rw [hbefore] at hplain
      rcases List.mem_cons.mp h with rfl | h
      · exact plain_append.mpr ⟨hcode, plain_append (a := ['-']).mpr ⟨by decide, hplain.2 _ (List.mem_cons_self ..)⟩⟩
      · exact hplain.2 l (List.mem_cons_of_mem _ h)
  · rw [List.mem_singleton.mp h]
    exact plain_append.mpr ⟨hcode, plain_append (a := [' ']).mpr ⟨by decide, hplain.1⟩⟩

theorem code_front (rest : List Char) : code? (r.code ++ rest) = some r.code := by
  have htake : (r.code ++ rest).take 3 = r.code := by
    rw [← r.three, List.take_left]
  unfold code?
  rw [htake]
  exact if_pos ⟨r.three, List.all_eq_true.mpr r.decimal⟩

/-- The first line begins with the code. -/
theorem code_head : r.lines.head?.bind code? = some r.code := by
  unfold lines opening closing
  split
  · simp only [List.nil_append, List.map_cons, List.head?_cons, Option.bind_some, List.append_assoc]
    exact r.code_front _
  · simp only [List.cons_append, List.map_cons, List.head?_cons, Option.bind_some, List.append_assoc]
    exact r.code_front _

/-- A line before the last does not look like it. -/
theorem opening_open {l : List Char} (h : l ∈ r.opening) : ¬ r.code ++ [' '] <+: l ++ eol := by
  unfold opening at h
  split at h
  · exact absurd h List.not_mem_nil
  · rename_i first middle hbefore
    rcases List.mem_cons.mp h with rfl | h
    · rw [List.append_assoc, List.prefix_append_right_inj, List.cons_append, List.cons_prefix_cons]
      exact fun h => absurd h.1 (by decide)
    · intro hprefix
      have hinner := r.inner l (by rw [hbefore]; exact h)
      rcases List.prefix_or_prefix_of_prefix hprefix (List.prefix_append l eol) with hwhole | ⟨more, hcode⟩
      · exact hinner hwhole
      · -- the blank is no part of the end of a line
        rw [← hcode, List.prefix_append_right_inj] at hprefix
        cases more using List.reverseRecOn with
        | nil => exact hinner (by rw [← hcode, List.append_nil])
        | append_singleton rest x _ =>
          have hlast := congrArg List.getLast? hcode
          rw [← List.append_assoc, List.getLast?_concat, List.getLast?_concat] at hlast
          have hmem := hprefix.subset (List.mem_append_right _ (List.mem_singleton_self x))
          rw [Option.some.inj hlast] at hmem
          exact absurd hmem (by decide)

/-- **The end of a reply shows.** -/
theorem lines_message : Message endsReply r.lines := by
  have hlines : r.lines = r.opening.map (· ++ eol) ++ [r.closing ++ eol] := by
    rw [lines, List.map_append, List.map_singleton]
  refine ⟨by rw [hlines]; exact List.append_ne_nil_of_right_ne_nil _ (List.cons_ne_nil _ _), ?_, ?_⟩
  · have hlast : r.lines.getLast? = some (r.closing ++ eol) := by rw [hlines, List.getLast?_concat]
    unfold endsReply
    rw [r.code_head, hlast]
    refine List.isPrefixOf_iff_prefix.mpr ?_
    rw [closing, List.append_assoc, List.prefix_append_right_inj]
    exact List.prefix_append [' '] _
  · intro part hsome hprefix hne
    obtain ⟨first, rest, rfl⟩ := List.exists_cons_of_ne_nil hsome
    have hhead : (first :: rest).head?.bind code? = some r.code := by
      rw [← r.code_head]
      obtain ⟨more, hmore⟩ := hprefix
      rw [← hmore]
      rfl
    obtain ⟨front, last, hfront⟩ := List.eq_nil_or_concat (first :: rest) |>.resolve_left hsome
    unfold endsReply
    rw [hhead, hfront, List.concat_eq_append, List.getLast?_concat]
    dsimp only
    rw [Bool.eq_false_iff]
    intro hends
    -- the last line of what is less than all is one before the last
    rw [hlines] at hprefix hne
    rcases List.prefix_concat_iff.mp hprefix with heq | hopening
    · exact hne heq
    · have hmem : last ∈ r.opening.map (· ++ eol) := hopening.subset (by rw [hfront]; simp)
      obtain ⟨l, hl, rfl⟩ := List.mem_map.mp hmem
      exact r.opening_open hl (List.isPrefixOf_iff_prefix.mp hends)

end Reply

/-- **Replies are read back**: from all that was sent all of them, and from what has come of it those that are
there as a whole. -/
theorem replies_front (rs : List Reply) :
    (∀ stream, stream <+: (rs.map Reply.render).flatten → replies stream <+: rs.map Reply.lines) ∧
      replies (rs.map Reply.render).flatten = rs.map Reply.lines := by
  have hgroups : ∀ g ∈ rs.map Reply.lines, Message endsReply g ∧ ∀ m ∈ g, Message endsLine m := by
    intro g hg
    obtain ⟨r, _, rfl⟩ := List.mem_map.mp hg
    refine ⟨r.lines_message, fun m hm => ?_⟩
    obtain ⟨l, hl, rfl⟩ := List.mem_map.mp hm
    exact line_message (r.plain_line hl)
  have hrender : rs.map Reply.render = (rs.map Reply.lines).map List.flatten := by
    rw [List.map_map]
    rfl
  rw [hrender]
  have hread (stream : List Char) : (stream <+: ((rs.map Reply.lines).map List.flatten).flatten →
      replies stream <+: rs.map Reply.lines) ∧
        replies ((rs.map Reply.lines).map List.flatten).flatten = rs.map Reply.lines := read_nested hgroups
  exact ⟨fun stream => (hread stream).1, (hread []).2⟩

/-- Texts that are replies, as replies. -/
theorem exists_replies {texts : List (List Char)} (h : ∀ t ∈ texts, IsReply t) :
    ∃ rs : List Reply, texts = rs.map Reply.render := by
  induction texts with
  | nil => exact ⟨[], rfl⟩
  | cons t rest ih =>
    obtain ⟨⟨r, hr⟩, hrest⟩ := List.forall_mem_cons.mp h
    obtain ⟨rs, hrs⟩ := ih hrest
    exact ⟨r :: rs, by rw [List.map_cons, hr, ← hrs]⟩

/-! ### Text put together -/

/-- The front of a line: a code, a blank and text. -/
def Fronts (front : List Char) : Prop := (code? front).isSome ∧ front[3]? = some ' ' ∧ Plain (front.drop 4)

instance (front : List Char) : Decidable (Fronts front) := inferInstanceAs (Decidable (_ ∧ _))

/-- The back of a line: text and the end. -/
def Backs (back : List Char) : Prop := eol <:+ back ∧ Plain (back.take (back.length - 2))

instance (back : List Char) : Decidable (Backs back) := inferInstanceAs (Decidable (_ ∧ _))

section
variable {front middle back text : List Char}

/-- Text between the front and the back of a line. -/
theorem isReply_quote (hfront : Fronts front) (hmiddle : Plain middle) (hback : Backs back) :
    IsReply (front ++ (middle ++ back)) := by
  obtain ⟨hcode, hblank, hrest⟩ := hfront
  obtain ⟨⟨last, rfl⟩, hlast⟩ := hback
  have hthree : (front.take 3).length = 3 ∧ (front.take 3).all Char.isDigit = true := by
    unfold code? at hcode
    split at hcode
    · assumption
    · cases hcode
  have hfront : front = front.take 3 ++ ' ' :: front.drop 4 := by
    obtain ⟨hlt, hget⟩ := List.getElem?_eq_some_iff.mp hblank
    rw [← hget, List.getElem_cons_drop, List.take_append_drop]
  have hlast : Plain last := by
    rwa [List.length_append, show (last.length + eol.length - 2) = last.length from rfl, List.take_left] at hlast
  refine ⟨{
    code := front.take 3, before := [], last := front.drop 4 ++ (middle ++ last)
    three := hthree.1, decimal := List.all_eq_true.mp hthree.2
    plain := List.forall_mem_singleton.mpr (plain_append.mpr ⟨hrest, plain_append.mpr ⟨hmiddle, hlast⟩⟩)
    inner := List.forall_mem_nil _ }, ?_⟩
  have hline : (front.take 3 ++ ' ' :: (front.drop 4 ++ (middle ++ last)) ++ eol : List Char) =
      (front.take 3 ++ ' ' :: front.drop 4) ++ (middle ++ (last ++ eol)) := by simp
  rw [← hfront] at hline
  rw [← hline]
  exact List.flatten_singleton

/-- A text that is fixed. -/
theorem isReply_fixed (h : Fronts (text.take 4) ∧ Backs (text.drop 4)) : IsReply text := by
  have hall : IsReply (text.take 4 ++ ([] ++ text.drop 4)) := isReply_quote h.1 (by decide) h.2
  rwa [List.nil_append, List.take_append_drop] at hall

end

end HyperTransfer.ReplyText
