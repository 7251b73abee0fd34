import HyperTransfer.Lib.Lexical

/-! Texts, the blanks around them and the patterns in them.

`trim` takes the blanks at both ends away, `before` what stands from the first occurrence of a pattern
on. A pattern stands on one side of a character it does not have (`infix_across`), so that the first
occurrence behind such a character is found there (`dropInfix?_behind`). `later` are the lines of a
text behind its first one; how they change at both ends of the text says what is left of them when it
is trimmed (`later_trim`). -/
namespace HyperTransfer.Trimming
variable {α : Type} {p : α → Bool} {s t front rest lead tail a b : List α} {x : α}

/-! ### Blanks -/

def trim (p : α → Bool) (s : List α) : List α := (s.dropWhile p).rdropWhile p

theorem trim_within (s : List α) : trim p s <:+: s :=
  (List.rdropWhile_prefix p _).isInfix.trans (List.dropWhile_suffix p).isInfix

/-- What is taken away are blanks. -/
theorem exists_trim (p : α → Bool) (s : List α) :
    ∃ lead tail, s = lead ++ trim p s ++ tail ∧ (∀ c ∈ lead, p c) ∧ ∀ c ∈ tail, p c := by
  refine ⟨s.takeWhile p, (s.dropWhile p).rtakeWhile p, ?_, fun c hc => List.mem_takeWhile_imp hc,
    fun c hc => List.mem_rtakeWhile_imp hc⟩
  rw [List.append_assoc, trim, List.rdropWhile_append_rtakeWhile, List.takeWhile_append_dropWhile]

theorem trim_eq_nil : trim p s = [] ↔ ∀ c ∈ s, p c := by
  rw [trim, List.rdropWhile_eq_nil_iff]
  constructor
  · intro h c hc
    rw [← List.takeWhile_append_dropWhile (p := p) (l := s), List.mem_append] at hc
    obtain hc | hc := hc
    · exact List.mem_takeWhile_imp hc
    · exact h c hc
  · intro h c hc
    exact h c ((List.dropWhile_suffix p).subset hc)

theorem rdropWhile_append (htail : ∀ c ∈ tail, p c) : (s ++ tail).rdropWhile p = s.rdropWhile p := by
  rw [List.rdropWhile, List.reverse_append, List.dropWhile_append_of_pos, List.rdropWhile]
  intro c hc
  exact htail c (List.mem_reverse.mp hc)

theorem trim_around (hlead : ∀ c ∈ lead, p c) (htail : ∀ c ∈ tail, p c) :
    trim p (lead ++ s ++ tail) = trim p s := by
  rw [trim, List.append_assoc, List.dropWhile_append_of_pos hlead, List.dropWhile_append]
  split
  · rename_i hnone
    rw [List.isEmpty_iff] at hnone
    rw [List.dropWhile_eq_nil_iff.mpr htail, trim, hnone]
  · rw [rdropWhile_append htail, trim]

theorem trim_trim (s : List α) : trim p (trim p s) = trim p s := by
  obtain ⟨lead, tail, hs, hlead, htail⟩ := exists_trim p s
  rw [← trim_around hlead htail, ← hs]

/-! ### Patterns -/

section
variable {pat : List α}

/-- A pattern does not reach over a character it does not have. -/
theorem infix_across (hx : x ∉ pat) : pat <:+: a ++ x :: b ↔ pat <:+: a ∨ pat <:+: b := by
  constructor
  · intro h
    obtain ⟨front, rest, h⟩ := h
    rw [List.append_assoc, List.append_eq_append_iff] at h
    obtain ⟨k, rfl, h⟩ | ⟨k, rfl, h⟩ := h
    · -- it begins in `a`
      rw [List.append_eq_append_iff] at h
      obtain ⟨m, rfl, _⟩ | ⟨m, rfl, h⟩ := h
      · exact Or.inl ⟨front, m, List.append_assoc ..⟩
      · cases m with
        | nil =>
          rw [List.append_nil]
          exact Or.inl (List.suffix_append ..).isInfix
        | cons y m =>
          cases h
          exact absurd (List.mem_append_right k (List.mem_cons_self ..)) hx
    · cases k with
      | nil =>
        cases pat with
        | nil => exact Or.inl (List.nil_infix)
        | cons y pat =>
          cases h
          exact absurd (List.mem_cons_self ..) hx
      | cons y k =>
        cases h
        exact Or.inr ⟨k, rest, List.append_assoc ..⟩
  · intro h
    obtain h | h := h
    · exact h.trans (List.prefix_append ..).isInfix
    · exact h.trans ((List.suffix_cons x b).trans (List.suffix_append a _)).isInfix

/-- Nor into characters it has none of. -/
theorem infix_append (hpat : pat ≠ []) (htail : ∀ c ∈ tail, c ∉ pat) : pat <:+: s ++ tail ↔ pat <:+: s := by
  cases tail with
  | nil => rw [List.append_nil]
  | cons c tail =>
    rw [infix_across (htail c (List.mem_cons_self ..))]
    constructor
    · intro h
      obtain h | h := h
      · exact h
      · obtain ⟨y, more, rfl⟩ := List.exists_cons_of_ne_nil hpat
        exact absurd (List.mem_cons_self ..) (htail y (List.mem_cons_of_mem c (h.subset (List.mem_cons_self ..))))
    · exact Or.inl

variable [DecidableEq α]

theorem dropInfix?_eq_some :
    s.dropInfix? pat = some (front, rest) ↔
      s = front ++ pat ++ rest ∧ ∀ a b, s = a ++ pat ++ b → front.length ≤ a.length := by
  rw [List.dropInfix?_eq_some_iff]
  constructor
  · intro h
    obtain ⟨⟨i, hs, hi⟩, hfirst⟩ := h
    rw [beq_iff_eq] at hi
    subst hi
    exact ⟨hs, fun a b hab => hfirst a i b hab (beq_self_eq_true i)⟩
  · intro h
    obtain ⟨hs, hfirst⟩ := h
    refine ⟨⟨pat, hs, beq_self_eq_true pat⟩, fun a i b hab hi => ?_⟩
    rw [beq_iff_eq] at hi
    subst hi
    exact hfirst a b hab

theorem dropInfix?_go (acc : List α) : List.dropInfix?.go pat s acc = none ↔ ¬ pat <:+: s := by
  induction s generalizing acc with
  | nil =>
    rw [List.dropInfix?.go, List.infix_nil]
    cases pat with
    | nil => exact iff_of_false (fun h => nomatch h) fun h => h rfl
    | cons y more => exact iff_of_true rfl fun h => nomatch h
  | cons c s ih =>
    rw [List.dropInfix?.go, List.infix_cons_iff, not_or]
    cases hstarts : (c :: s).dropPrefix? pat with
    | none =>
      have hnot : ¬ pat <+: c :: s := by
        intro h
        obtain ⟨rest, h⟩ := h
        exact nomatch hstarts.symm.trans (List.dropPrefix?_eq_some_iff.mpr ⟨pat, h.symm, beq_self_eq_true pat⟩)
      rw [and_iff_right hnot]
      exact ih (c :: acc)
    | some rest =>
      refine iff_of_false (fun h => nomatch h) fun h => h.1 ?_
      obtain ⟨i, hs, hi⟩ := List.dropPrefix?_eq_some_iff.mp hstarts
      rw [beq_iff_eq] at hi
      exact ⟨rest, (hi ▸ hs).symm⟩

theorem dropInfix?_eq_none : s.dropInfix? pat = none ↔ ¬ pat <:+: s := dropInfix?_go []

/-- A pattern does not stand in front of its first occurrence. -/
theorem dropInfix?_front (hpat : pat ≠ []) (h : s.dropInfix? pat = some (front, rest)) : ¬ pat <:+: front := by
  intro hin
  obtain ⟨hs, hfirst⟩ := dropInfix?_eq_some.mp h
  obtain ⟨a, b, rfl⟩ := hin
  have hle := hfirst a (b ++ pat ++ rest) (by rw [hs]; simp only [List.append_assoc])
  have hpos := List.length_pos_iff.mpr hpat
  simp only [List.length_append] at hle
  omega

/-- Behind a text without the pattern and a character that it does not have, a pattern is found. -/
theorem dropInfix?_behind (hx : x ∉ pat) (hfront : ¬ pat <:+: front) :
    (front ++ x :: (pat ++ rest)).dropInfix? pat = some (front ++ [x], rest) := by
  rw [dropInfix?_eq_some]
  refine ⟨by simp only [List.append_assoc, List.cons_append, List.nil_append], fun a b h => ?_⟩
  by_contra hlt
  rw [List.length_append, List.length_singleton, Nat.not_le, Nat.lt_succ_iff] at hlt
  -- otherwise it would stand in the text or reach over the character
  have ha : a <+: front := by
    have hwhole : a <+: front ++ x :: (pat ++ rest) := by
      rw [h, List.append_assoc]
      exact List.prefix_append ..
    exact List.prefix_of_prefix_length_le hwhole (List.prefix_append ..) hlt
  obtain ⟨k, rfl⟩ := ha
  rw [List.append_assoc, List.append_assoc, List.append_cancel_left_eq, List.append_eq_append_iff] at h
  obtain ⟨m, hm, h⟩ | ⟨m, rfl, _⟩ := h
  · cases m with
    | nil =>
      rw [List.append_nil] at hm
      exact hfront (hm ▸ (List.suffix_append ..).isInfix)
    | cons y m =>
      rw [(List.cons_eq_cons.mp h).1] at hx
      exact hx (hm ▸ List.mem_append_right k (List.mem_cons_self ..))
  · exact hfront ⟨a, m, List.append_assoc ..⟩

/-- Of a single character the first occurrence is found. -/
theorem dropInfix?_singleton (hx : x ∉ front) : (front ++ x :: rest).dropInfix? [x] = some (front, rest) := by
  rw [dropInfix?_eq_some]
  refine ⟨by simp only [List.append_assoc, List.singleton_append], fun a b h => ?_⟩
  by_contra hlt
  rw [Nat.not_le] at hlt
  have ha : a ++ [x] <+: front := by
    have hwhole : a ++ [x] <+: front ++ x :: rest := ⟨b, h.symm⟩
    apply List.prefix_of_prefix_length_le hwhole (List.prefix_append ..)
    rw [List.length_append, List.length_singleton]
    exact hlt
  exact hx (ha.subset (List.mem_append_right _ (List.mem_singleton_self x)))

/-! ### What stands in front of a pattern -/

def before (s pat : List α) : List α :=
  match s.dropInfix? pat with
  | some (front, _) => front
  | none => s

theorem before_starts (s pat : List α) : before s pat <+: s := by
  unfold before
  split
  · rename_i h
    obtain ⟨hs, _⟩ := dropInfix?_eq_some.mp h
    exact ⟨_, (hs.trans (List.append_assoc ..)).symm⟩
  · exact List.prefix_rfl

theorem before_of_not (h : ¬ pat <:+: s) : before s pat = s := by
  rw [before, dropInfix?_eq_none.mpr h]

theorem before_not (hpat : pat ≠ []) (s : List α) : ¬ pat <:+: before s pat := by
  unfold before
  split
  · rename_i h
    exact dropInfix?_front hpat h
  · rename_i h
    exact dropInfix?_eq_none.mp h

end

/-! ### Lines -/

/-- Lines with what ends them, and with what stands between them. -/
theorem flatMap_lines (sep : α) (first : List α) (more : List (List α)) :
    (first :: more).flatMap (· ++ [sep]) = first ++ more.flatMap (sep :: ·) ++ [sep] := by
  induction more generalizing first with
  | nil => simp only [List.flatMap_cons, List.flatMap_nil, List.append_nil]
  | cons l more ih =>
    rw [List.flatMap_cons, ih, List.flatMap_cons]
    simp only [List.append_assoc, List.cons_append, List.nil_append]

section
variable [DecidableEq α] {sep : α} {l : List α}

/-- The lines of a text behind the first one. -/
def later (sep : α) (s : List α) : List (List α) := (s.splitOn sep).tail

/-- More text in the last line. -/
theorem splitOn_append (hl : sep ∉ l) :
    ∃ ls last, s.splitOn sep = ls ++ [last] ∧ (s ++ l).splitOn sep = ls ++ [last ++ l] := by
  induction s with
  | nil => exact ⟨[], [], rfl, List.splitOn_eq_singleton hl⟩
  | cons c s ih =>
    obtain ⟨ls, last, hs, hsl⟩ := ih
    rw [List.cons_append, List.splitOn_cons_eq_if_modifyHead, List.splitOn_cons_eq_if_modifyHead, hs, hsl]
    split
    · exact ⟨[] :: ls, last, rfl, rfl⟩
    · cases ls with
      | nil => exact ⟨[], c :: last, rfl, rfl⟩
      | cons first ls => exact ⟨(c :: first) :: ls, last, rfl, rfl⟩

theorem later_append_line (hl : sep ∉ l) : later sep (s ++ sep :: l) = later sep s ++ [l] := by
  rw [later, List.splitOn_append_cons_self, List.splitOn_eq_singleton hl,
    List.tail_append_of_ne_nil (List.splitOn_ne_nil _ _), later]

/-- Without its front a text has no other lines behind the first one. -/
theorem later_suffix (h : t <:+ s) : later sep t ⊆ later sep s := by
  obtain ⟨front, rfl⟩ := h
  induction front with
  | nil => exact List.Subset.refl _
  | cons c front ih =>
    refine List.Subset.trans ih ?_
    rw [later, later, List.cons_append, List.splitOn_cons_eq_if_modifyHead]
    split
    · exact List.tail_subset _
    · rw [List.tail_modifyHead]
      exact List.Subset.refl _

/-- Without blanks at its end a text has no other lines behind the first one, but for blanks at theirs. -/
theorem later_append (htail : ∀ c ∈ tail, p c) (hl : l ∈ later sep s) :
    ∃ blanks, (∀ c ∈ blanks, p c) ∧ l ++ blanks ∈ later sep (s ++ tail) := by
  induction tail generalizing s l with
  | nil => exact ⟨[], List.forall_mem_nil _, by rwa [List.append_nil, List.append_nil]⟩
  | cons c tail ih =>
    have hstep : ∃ blanks, (∀ c ∈ blanks, p c) ∧ l ++ blanks ∈ later sep (s ++ [c]) := by
      by_cases hc : c = sep
      · subst hc
        rw [later_append_line (List.not_mem_nil)]
        exact ⟨[], List.forall_mem_nil _, List.mem_append_left _ (by rwa [List.append_nil])⟩
      · obtain ⟨ls, last, hs, hsl⟩ := splitOn_append (s := s) (l := [c]) (fun h => hc (List.mem_singleton.mp h).symm)
        rw [later, hs] at hl
        rw [later, hsl]
        cases ls with
        | nil => exact nomatch hl
        | cons first ls =>
          obtain hl | hl := List.mem_append.mp hl
          · exact ⟨[], List.forall_mem_nil _, List.mem_append_left _ (by rwa [List.append_nil])⟩
          · rw [List.mem_singleton] at hl
            refine ⟨[c], fun d hd => ?_, List.mem_append_right _ (by rw [hl]; exact List.mem_singleton_self _)⟩
            rw [List.mem_singleton.mp hd]
            exact htail c (List.mem_cons_self ..)
    obtain ⟨blanks, hblanks, hmem⟩ := hstep
    obtain ⟨more, hmore, hmem⟩ := ih (fun d hd => htail d (List.mem_cons_of_mem c hd)) hmem
    refine ⟨blanks ++ more, fun d hd => ?_, ?_⟩
    · obtain hd | hd := List.mem_append.mp hd
      · exact hblanks d hd
      · exact hmore d hd
    · rw [List.append_assoc, List.append_assoc] at hmem
      exact hmem

theorem later_trim (hl : l ∈ later sep (trim p s)) :
    ∃ blanks, (∀ c ∈ blanks, p c) ∧ l ++ blanks ∈ later sep s := by
  obtain ⟨lead, tail, hs, _, htail⟩ := exists_trim p s
  obtain ⟨blanks, hblanks, hmem⟩ := later_append htail hl
  refine ⟨blanks, hblanks, ?_⟩
  rw [hs, List.append_assoc]
  exact later_suffix (List.suffix_append ..) hmem

/-- A text is its first line and the later ones. -/
theorem exists_first (sep : α) (s : List α) :
    ∃ first, sep ∉ first ∧ s = first ++ (later sep s).flatMap (sep :: ·) ∧ ∀ l ∈ later sep s, sep ∉ l := by
  obtain ⟨first, more, hsplit⟩ := List.exists_cons_of_ne_nil (List.splitOn_ne_nil sep s)
  have hlines : ∀ l ∈ first :: more, sep ∉ l := by
    intro l hl
    rw [← hsplit] at hl
    exact Lexical.not_mem_of_mem_splitOn hl
  have htext : (s.splitOn sep).flatMap (· ++ [sep]) = s ++ [sep] := Lexical.flatMap_splitOn s
  rw [hsplit, flatMap_lines] at htext
  have hlater : later sep s = more := by rw [later, hsplit, List.tail_cons]
  rw [hlater]
  exact ⟨first, hlines first (List.mem_cons_self ..), (List.append_cancel_right htext).symm,
    fun l hl => hlines l (List.mem_cons_of_mem first hl)⟩

end
end HyperTransfer.Trimming
