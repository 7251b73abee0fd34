import HyperTransfer.Lib.CString
import Mathlib.Data.List.GetD

/-! Arrays byte by byte.

A memory gives the byte at every offset from an array's first byte, those behind the
array included. `strncpy` always writes as many bytes as its count: the string, and zeros
behind it. A text `Starts` a memory when the bytes before some offset are known; the rest
is whatever was there. -/
namespace HyperTransfer.CString

abbrev Memory := Nat → Char

namespace Memory

/-- `strncpy(array + k, src, n)`. -/
def strncpy (m : Memory) (k n : Nat) (src : List Char) : Memory :=
  fun j => if k ≤ j ∧ j < k + n then src.getD (j - k) '\x00' else m j

/-- An offset that `strncpy(array + k, src, n)` writes. -/
def Written (k n j : Nat) : Prop := k ≤ j ∧ j < k + n

/-- An array of `n` bytes holds a terminator. -/
def Ends (m : Memory) (n : Nat) : Prop := ∃ j < n, m j = '\x00'

/-- The text stands at the start of the array. -/
def Starts (m : Memory) (text : List Char) : Prop := ∀ j < text.length, m j = text.getD j '\x00'

/-- The string in an array of `n` bytes. -/
def string (m : Memory) (n : Nat) : List Char := terminated ((List.range n).map m)

variable {m : Memory} {k n : Nat} {src text : List Char}

/-- A full copy stays inside an array of its own size exactly when it starts at its first byte. -/
theorem written_inside (hn : 0 < n) : (∀ j, Written k n j → j < n) ↔ k = 0 := by
  constructor
  · intro h
    have hlast := h (k + n - 1) ⟨by omega, by omega⟩
    omega
  · intro h j hj
    rw [h] at hj
    exact Nat.lt_of_lt_of_eq hj.2 (Nat.zero_add n)

theorem strncpy_inside {j : Nat} (hj : j < n) : m.strncpy k n src (k + j) = src.getD j '\x00' := by
  unfold strncpy
  rw [if_pos ⟨Nat.le_add_right .., Nat.add_lt_add_left hj k⟩, Nat.add_sub_cancel_left]

theorem strncpy_before {j : Nat} (hj : j < k) : m.strncpy k n src j = m j :=
  if_neg fun h => Nat.not_le_of_lt hj h.1

theorem getD_ne {j : Nat} (hsrc : '\x00' ∉ src) (hj : j < src.length) : src.getD j '\x00' ≠ '\x00' := by
  rw [List.getD_eq_getElem src '\x00' hj]
  exact fun h => hsrc (h ▸ List.getElem_mem hj)

/-- A string copied behind a text leaves a terminator in the array exactly when both fit in it. -/
theorem strncpy_ends (htext : m.Starts text) (hnul : '\x00' ∉ text) (hsrc : '\x00' ∉ src) :
    (m.strncpy text.length n src).Ends n ↔ text.length + src.length < n := by
  constructor
  · intro h
    obtain ⟨j, hj, hend⟩ := h
    by_contra hlong
    by_cases hfront : j < text.length
    · rw [strncpy_before hfront, htext j hfront] at hend
      exact getD_ne hnul hfront hend
    · have hoffset : j = text.length + (j - text.length) := by omega
      rw [hoffset, strncpy_inside (by omega)] at hend
      exact getD_ne hsrc (by omega) hend
  · intro h
    refine ⟨text.length + src.length, h, ?_⟩
    rw [strncpy_inside (by omega)]
    exact List.getD_eq_default _ _ (Nat.le_refl _)

/-- Then the array holds the one and the other. -/
theorem strncpy_starts (htext : m.Starts text) (hsrc : src.length ≤ n) :
    (m.strncpy text.length n src).Starts (text ++ src) := by
  intro j hj
  rw [List.length_append] at hj
  by_cases hfront : j < text.length
  · rw [strncpy_before hfront, htext j hfront, List.getD_append _ _ _ _ hfront]
  · have hoffset : j = text.length + (j - text.length) := by omega
    rw [List.getD_append_right _ _ _ _ (by omega), hoffset, strncpy_inside (by omega)]
    congr 1
    omega

/-- The string of an array is the text it starts with and a terminator follows. -/
theorem string_of_starts (htext : m.Starts text) (hnul : '\x00' ∉ text) (hlen : text.length < n)
    (hend : m text.length = '\x00') : m.string n = text := by
  have hfront : (List.range text.length).map m = text := by
    apply List.ext_getElem (by simp)
    intro j hj hj'
    rw [List.getElem_map, List.getElem_range, htext j hj', List.getD_eq_getElem text '\x00' hj']
  have hcut : (List.range n).map m = text ++ '\x00' :: (List.range' (text.length + 1) (n - text.length - 1)).map m := by
    have hrange : List.range n = List.range text.length ++
        List.range' text.length 1 ++ List.range' (text.length + 1) (n - text.length - 1) := by
      rw [List.range_eq_range', List.range_eq_range', List.append_assoc, List.range'_append_1]
      have hone : 0 + text.length = text.length := Nat.zero_add _
      nth_rewrite 2 [← hone]
      rw [List.range'_append_1]
      congr 1
      omega
    rw [hrange, List.map_append, List.map_append, hfront, List.append_assoc]
    show text ++ (m text.length :: _) = _
    rw [hend]
    rfl
  rw [string, hcut, terminated, List.takeWhile_append_of_pos, List.takeWhile_cons_of_neg (by decide), List.append_nil]
  intro c hc
  have hne : c ≠ '\x00' := fun h => hnul (h ▸ hc)
  simpa using hne

end Memory
end HyperTransfer.CString
