import Mathlib.Data.List.Basic
import HyperTransfer.Lib.Lexical

/-! Decimal numbers, and texts of them between separators.

`number` reads a text that is nothing but digits, `numbers` the texts between the separators.
Reading undoes printing (`number_toDigits`), goes piece by piece (`numbers_append`) and does
not care what the separator is (`numbers_map`). -/
namespace HyperTransfer.Numerals

/-- The number a text of digits spells. -/
def number (text : List Char) : Option Nat :=
  if text ≠ [] ∧ text.all Char.isDigit then some (Nat.ofDigitChars 10 text 0) else none

/-- The numbers between the separators, if there is nothing else. -/
def numbers (sep : Char) (text : List Char) : Option (List Nat) := (text.splitOn sep).mapM number

theorem number_toDigits (n : Nat) : number (Nat.toDigits 10 n) = some n := by
  rw [number, if_pos, Nat.ofDigitChars_ten_toDigits]
  refine ⟨Nat.toDigits_ne_nil, List.all_eq_true.mpr ?_⟩
  intro c hc
  exact Nat.isDigit_of_mem_toDigits (by decide) (by decide) hc

theorem digits_of_number {text : List Char} {n : Nat} (h : number text = some n) : ∀ c ∈ text, c.isDigit := by
  unfold number at h
  split at h
  · rename_i hboth
    exact List.all_eq_true.mp hboth.2
  · exact nomatch h

/-- What is read is the numbers in front of a separator and those behind it. -/
theorem numbers_append {sep : Char} {a b : List Char} {ms ns : List Nat} (ha : numbers sep a = some ms)
    (hb : numbers sep b = some ns) : numbers sep (a ++ sep :: b) = some (ms ++ ns) := by
  unfold numbers at *
  rw [List.splitOn_append_cons_self, List.mapM_append, ha, hb]
  rfl

theorem numbers_single {sep : Char} {text : List Char} {n : Nat} (hsep : sep.isDigit = false)
    (h : number text = some n) : numbers sep text = some [n] := by
  have hnot : sep ∉ text := fun hmem => nomatch hsep.symm.trans (digits_of_number h sep hmem)
  rw [numbers, List.splitOn_eq_singleton hnot, List.mapM_cons, h]
  rfl

theorem number_of_mapM {texts : List (List Char)} {ns : List Nat} (h : texts.mapM number = some ns) :
    ∀ text ∈ texts, ∃ n, number text = some n := by
  induction texts generalizing ns with
  | nil => exact fun _ hmem => nomatch hmem
  | cons first rest ih =>
    rw [List.mapM_cons] at h
    obtain ⟨n, hn, h⟩ := Option.bind_eq_some_iff.mp h
    obtain ⟨ms, hms, _⟩ := Option.bind_eq_some_iff.mp h
    intro text hmem
    rcases List.mem_cons.mp hmem with rfl | hmem
    · exact ⟨n, hn⟩
    · exact ih hms text hmem

/-- A text that is read has nothing but digits and separators in it. -/
theorem numbers_mem {sep : Char} {text : List Char} {ns : List Nat} (h : numbers sep text = some ns) :
    ∀ c ∈ text, c.isDigit ∨ c = sep := by
  intro c hc
  have hparts : c ∈ (text.splitOn sep).flatMap (· ++ [sep]) := by
    rw [Lexical.flatMap_splitOn]
    exact List.mem_append_left _ hc
  obtain ⟨part, hpart, hc⟩ := List.mem_flatMap.mp hparts
  obtain ⟨n, hn⟩ := number_of_mapM h part hpart
  rcases List.mem_append.mp hc with hc | hc
  · exact Or.inl (digits_of_number hn c hc)
  · exact Or.inr (List.mem_singleton.mp hc)

theorem splitOn_map {sep other : Char} {text : List Char} (hother : other ∉ text) :
    (text.map fun c => if c != sep then c else other).splitOn other = text.splitOn sep := by
  induction text with
  | nil => rfl
  | cons c rest ih =>
    rw [List.mem_cons, not_or] at hother
    rw [List.map_cons, List.splitOn_cons_eq_if_modifyHead, List.splitOn_cons_eq_if_modifyHead, ih hother.2]
    by_cases hc : c = sep
    · simp [hc]
    · have hne : (c == other) = false := beq_eq_false_iff_ne.mpr (Ne.symm hother.1)
      simp [hc, hne]

/-- Another separator in the place of the first. -/
theorem numbers_map {sep other : Char} {text : List Char} {ns : List Nat} (hdigit : other.isDigit = false)
    (hother : other ≠ sep) (h : numbers sep text = some ns) :
    numbers other (text.map fun c => if c != sep then c else other) = some ns := by
  have hnot : other ∉ text := by
    intro hmem
    rcases numbers_mem h other hmem with hc | hc
    · exact nomatch hdigit.symm.trans hc
    · exact hother hc
  rw [numbers, splitOn_map hnot]
  exact h

end HyperTransfer.Numerals
