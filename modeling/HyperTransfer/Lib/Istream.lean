import Mathlib.Data.List.DropRight

/-! Lines of an input stream, as `getline` of the standard library reads them.

A stream that has come to its end, or has failed, gives no line and leaves the string as it was; the
last line may lack what ends it, and only where there is nothing left does reading it fail. -/
namespace HyperTransfer

/-- `std::istream`: what is left of it, its `eofbit` and its `failbit`. -/
structure Istream where
  rest : List Char
  eof : Bool := false
  fail : Bool := false

namespace Istream

/-- `getline(is, line)`. -/
def getline (is : Istream) (line : List Char) : List Char × Istream :=
  if is.eof || is.fail then (line, {is with fail := true})
  else
    match is.rest.dropWhile (· != '\n') with
    | [] => (is.rest, {rest := [], eof := true, fail := is.rest.isEmpty})
    | _ :: rest => (is.rest.takeWhile (· != '\n'), {is with rest := rest})

/-- How much there is still to be read: the characters, the end, and that there is nothing behind it. -/
def left (is : Istream) : Nat := is.rest.length + (!is.eof).toNat + (!is.fail).toNat

variable {is : Istream} {line l rest : List Char}

theorem getline_left (line : List Char) (h : is.fail = false) : (is.getline line).2.left < is.left := by
  unfold getline left
  split
  · rw [h]
    exact Nat.lt_succ_self _
  · rename_i hgood
    rw [h, Bool.or_false, Bool.not_eq_true] at hgood
    rw [h, hgood]
    split
    · dsimp only
      have : (!is.rest.isEmpty).toNat ≤ 1 := Bool.toNat_le _
      simp only [List.length_nil, Bool.not_true, Bool.not_false, Bool.toNat_false, Bool.toNat_true]
      omega
    · rename_i c rest hrest
      have hlen := (List.dropWhile_suffix (· != '\n') (l := is.rest)).length_le
      rw [hrest, List.length_cons] at hlen
      dsimp only
      omega

/-- A line with what ends it. -/
theorem getline_line (line : List Char) (hl : '\n' ∉ l) :
    (Istream.mk (l ++ '\n' :: rest) false false).getline line = (l, ⟨rest, false, false⟩) := by
  have hall : ∀ c ∈ l, (c != '\n') = true := fun c hc => bne_iff_ne.mpr fun h => hl (h ▸ hc)
  unfold getline
  dsimp only
  rw [Bool.or_self, if_neg Bool.false_ne_true, List.dropWhile_append_of_pos hall,
    List.takeWhile_append_of_pos hall, List.dropWhile_cons_of_neg (by decide),
    List.takeWhile_cons_of_neg (by decide), List.append_nil]

/-- The last line, which ends with the stream. -/
theorem getline_last (line : List Char) (hl : '\n' ∉ l) :
    (Istream.mk l false false).getline line = (l, ⟨[], true, l.isEmpty⟩) := by
  have hall : ∀ c ∈ l, (c != '\n') = true := fun c hc => bne_iff_ne.mpr fun h => hl (h ▸ hc)
  unfold getline
  dsimp only
  rw [Bool.or_self, if_neg Bool.false_ne_true, List.dropWhile_eq_nil_iff.mpr hall]

theorem getline_eof (line : List Char) (fail : Bool) :
    (Istream.mk rest true fail).getline line = (line, ⟨rest, true, true⟩) := rfl

end Istream
end HyperTransfer
