import Mathlib.Algebra.BigOperators.Group.Finset.Basic
import Mathlib.Data.Nat.Find

/-! A source taken in pieces.

Whoever takes asks for a block and gets at least one element and at most the block, as long as
there are any; how many is up to the source. Pieces are taken until there are enough of them
(`Enough`), and nothing says that the last one ends where enough does: it does whatever the
pieces are where that is the end of the source (`Enough.all`), and elsewhere only for some
(`enough_beyond`). -/
namespace HyperTransfer.Pieces

/-- How much a piece brings where there is enough of it. -/
def piece (block : Nat) (offer : Option Nat) : Nat := min block (max 1 (offer.getD 0))

/-- What `k` pieces bring from the `i`-th offer on, where so much is left. -/
def pulled (block : Nat) (offers : Nat → Option Nat) (i left k : Nat) : Nat :=
  min left (∑ j ∈ Finset.range k, piece block (offers (i + j)))

/-- The `k`-th piece is the first with which there is enough, and all of them were given. -/
structure Enough (block : Nat) (offers : Nat → Option Nat) (i left n k : Nat) : Prop where
  given : ∀ j < k, (offers (i + j)).isSome
  short : ∀ j < k, pulled block offers i left j < n
  enough : n ≤ pulled block offers i left k

/-- Some number of pieces, all of them given, brings exactly so much. -/
def LandsOn (block : Nat) (offers : Nat → Option Nat) (i left n : Nat) : Prop :=
  ∃ k, (∀ j < k, (offers (i + j)).isSome) ∧ pulled block offers i left k = n

/-- Every piece is given. -/
def Steady (offers : Nat → Option Nat) : Prop := ∀ i, (offers i).isSome

variable {block : Nat} {offers : Nat → Option Nat} {i left n k m : Nat}

@[simp] theorem pulled_zero : pulled block offers i left 0 = 0 := Nat.min_zero left

theorem pulled_le : pulled block offers i left k ≤ left := Nat.min_le_left ..

theorem pulled_succ : pulled block offers i left (k + 1) =
    pulled block offers i left k + min (piece block (offers (i + k))) (left - pulled block offers i left k) := by
  unfold pulled
  rw [Finset.sum_range_succ]
  omega

theorem pulled_mono (h : k ≤ m) : pulled block offers i left k ≤ pulled block offers i left m := by
  induction h with
  | refl => exact Nat.le_refl _
  | step _ ih =>
    rw [pulled_succ]
    exact Nat.le_add_right_of_le ih

/-- As long as something is left, each piece brings some of it. -/
theorem le_pulled (hblock : 0 < block) (k : Nat) : min left k ≤ pulled block offers i left k := by
  induction k with
  | zero => exact Nat.zero_le _ |> Nat.le_trans (Nat.min_zero left).le
  | succ k ih =>
    have hpiece : 0 < piece block (offers (i + k)) := by
      unfold piece
      omega
    have hle : pulled block offers i left k ≤ left := pulled_le
    rw [pulled_succ]
    omega

theorem Enough.unique (hk : Enough block offers i left n k) (hm : Enough block offers i left n m) : k = m := by
  rcases Nat.lt_trichotomy k m with hlt | heq | hgt
  · exact absurd hk.enough (Nat.not_le.mpr (hm.short k hlt))
  · exact heq
  · exact absurd hm.enough (Nat.not_le.mpr (hk.short m hgt))

theorem Enough.le_left (h : Enough block offers i left n k) : n ≤ left := h.enough.trans pulled_le

/-- Enough pieces have a first that is enough. -/
theorem enough_of_pulled (hgiven : ∀ j < m, (offers (i + j)).isSome)
    (henough : n ≤ pulled block offers i left m) :
    ∃ k ≤ m, Enough block offers i left n k := by
  have hex : ∃ k, n ≤ pulled block offers i left k := ⟨m, henough⟩
  refine ⟨Nat.find hex, Nat.find_min' hex henough, ?_, ?_, Nat.find_spec hex⟩
  · exact fun j hj => hgiven j (hj.trans_le (Nat.find_min' hex henough))
  · exact fun j hj => Nat.not_le.mp (Nat.find_min hex hj)

/-- Pieces that bring exactly so much do so with the first that is enough. -/
theorem landsOn_iff : LandsOn block offers i left n ↔
    ∃ k, Enough block offers i left n k ∧ pulled block offers i left k = n := by
  constructor
  · intro h
    obtain ⟨m, hgiven, hexact⟩ := h
    obtain ⟨k, hk, henough⟩ := enough_of_pulled hgiven hexact.ge
    exact ⟨k, henough, Nat.le_antisymm (hexact ▸ pulled_mono hk) henough.enough⟩
  · intro h
    obtain ⟨k, henough, hexact⟩ := h
    exact ⟨k, henough.given, hexact⟩

/-- What is there is reached, if every piece is given. -/
theorem enough_steady (hblock : 0 < block) (hsteady : Steady offers) (hle : n ≤ left) :
    ∃ k, Enough block offers i left n k := by
  have hmany : n ≤ pulled block offers i left n := by
    have hle : min left n ≤ pulled block offers i left n := le_pulled hblock n
    omega
  obtain ⟨k, _, henough⟩ := enough_of_pulled (fun j _ => hsteady (i + j)) hmany
  exact ⟨k, henough⟩

/-- At the end of the source there is exactly enough, whatever the pieces are. -/
theorem Enough.all (h : Enough block offers i left left k) : pulled block offers i left k = left :=
  Nat.le_antisymm pulled_le h.enough

/-- One element at a time. -/
def single : Nat → Option Nat := fun _ => some 1

/-- One element at a time, and two with the `n`-th piece. -/
def overshoot (n : Nat) : Nat → Option Nat := fun j => if j + 1 = n then some 2 else some 1

theorem steady_single : Steady single := fun _ => rfl

theorem steady_overshoot : Steady (overshoot n) := by
  intro j
  unfold overshoot
  split <;> rfl

theorem pulled_single (hblock : 0 < block) (k : Nat) : pulled block single i left k = min left k := by
  have hpiece (j : Nat) : piece block (single j) = 1 := by
    unfold piece
    exact Nat.min_eq_right hblock
  simp [pulled, hpiece]

theorem enough_single (hblock : 0 < block) (hle : n ≤ left) :
    Enough block single i left n n ∧ pulled block single i left n = n := by
  have hsum (k : Nat) : pulled block single i left k = min left k := pulled_single hblock k
  refine ⟨⟨fun _ _ => rfl, fun j hj => ?_, ?_⟩, ?_⟩
  · rw [hsum]
    omega
  · rw [hsum]
    omega
  · rw [hsum]
    omega

/-- Short of the end, pieces can go beyond. -/
theorem enough_beyond (hblock : 1 < block) (hn : 0 < n) (hlt : n < left) :
    Enough block (overshoot n) 0 left n n ∧ pulled block (overshoot n) 0 left n = n + 1 := by
  have hbefore {k : Nat} (hk : k < n) : pulled block (overshoot n) 0 left k = k := by
    induction k with
    | zero => exact pulled_zero
    | succ k ih =>
      have hone : piece block (overshoot n (0 + k)) = 1 := by
        rw [overshoot, Nat.zero_add, if_neg (by omega)]
        exact Nat.min_eq_right hblock.le
      rw [pulled_succ, ih (by omega), hone]
      omega
  have hlast : pulled block (overshoot n) 0 left n = n + 1 := by
    obtain ⟨k, rfl⟩ : ∃ k, n = k + 1 := ⟨n - 1, by omega⟩
    have htwo : piece block (overshoot (k + 1) (0 + k)) = 2 := by
      rw [overshoot, Nat.zero_add, if_pos rfl]
      exact Nat.min_eq_right hblock
    rw [pulled_succ, hbefore (Nat.lt_succ_self k), htwo]
    omega
  refine ⟨⟨fun j _ => steady_overshoot _, fun j hj => ?_, ?_⟩, hlast⟩
  · rwa [hbefore hj]
  · rw [hlast]
    exact Nat.le_succ n

end HyperTransfer.Pieces
