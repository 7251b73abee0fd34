import Mathlib.Data.List.Infix
import Mathlib.Logic.Function.Basic

/-! A registry whose insertion does not overwrite.

Objects are registered under keys that come back: a key given up by one owner is
handed to the next. `insert` keeps an entry that is already there, as the map
insertion of most standard libraries does: a registration that finds its key taken is
lost. -/
namespace HyperTransfer.Registry
variable {K V : Type} [DecidableEq K]

/-- Insert unless the key is taken. -/
def insert (m : K → Option V) (k : K) (v : V) : K → Option V :=
  match m k with
  | none => Function.update m k (some v)
  | some _ => m

def erase (m : K → Option V) (k : K) : K → Option V := Function.update m k none

/-- Change the object under a key in place. -/
def modify (m : K → Option V) (k : K) (v : V) : K → Option V := Function.update m k (some v)

@[simp] theorem insert_free {m : K → Option V} {k : K} (h : m k = none) (v : V) :
    insert m k v k = some v := by
  simp [insert, h]

@[simp] theorem insert_taken {m : K → Option V} {k : K} {w : V} (h : m k = some w) (v : V) :
    insert m k v = m := by
  simp [insert, h]

@[simp] theorem insert_other (m : K → Option V) {k j : K} (v : V) (h : j ≠ k) :
    insert m k v j = m j := by
  cases hk : m k <;> simp [insert, hk, h]

/-- What is registered was there before, or is what was put in. -/
theorem insert_cases {m : K → Option V} {k j : K} {v x : V} (h : insert m k v j = some x) :
    m j = some x ∨ j = k ∧ x = v := by
  by_cases hj : j = k
  · rw [hj] at h ⊢
    cases hk : m k with
    | none => exact Or.inr ⟨rfl, (Option.some.inj ((insert_free hk v).symm.trans h)).symm⟩
    | some w =>
      rw [insert_taken hk, hk] at h
      exact Or.inl h
  · exact Or.inl ((insert_other m v hj).symm.trans h)

@[simp] theorem erase_same (m : K → Option V) (k : K) : erase m k k = none := by simp [erase]

@[simp] theorem erase_other (m : K → Option V) {k j : K} (h : j ≠ k) : erase m k j = m j := by
  simp [erase, h]

@[simp] theorem modify_same (m : K → Option V) (k : K) (v : V) : modify m k v k = some v := by
  simp [modify]

@[simp] theorem modify_other (m : K → Option V) {k j : K} (v : V) (h : j ≠ k) :
    modify m k v j = m j := by
  simp [modify, h]

@[simp] theorem erase_modify (m : K → Option V) (k : K) (v : V) : erase (modify m k v) k = erase m k := by
  simp [erase, modify]

/-! ### One key alone -/

/-- A registry with one entry at most. -/
def single (k : K) (o : Option V) : K → Option V := fun j => if j = k then o else none

@[simp] theorem single_same (k : K) (o : Option V) : single k o k = o := if_pos rfl

theorem single_other {k j : K} (o : Option V) (h : j ≠ k) : single k o j = none := if_neg h

/-- A registry with one entry at most is told by its entry. -/
theorem single_eq {m : K → Option V} {k : K} (h : ∀ j, j ≠ k → m j = none) : m = single k (m k) := by
  funext j
  by_cases hj : j = k
  · rw [hj, single_same]
  · rw [h j hj, single_other _ hj]

theorem insert_single (m : K → Option V) (k : K) (v : V) : insert (single k (m k)) k v = single k (insert m k v k) := by
  rw [single_eq (m := insert (single k (m k)) k v) (k := k) fun j hj =>
    (insert_other _ v hj).trans (single_other _ hj)]
  cases hk : m k with
  | none => rw [insert_free hk, insert_free (single_same ..)]
  | some w => rw [insert_taken hk, insert_taken (single_same ..), single_same, hk]

theorem erase_single (m : K → Option V) (k : K) : erase (single k (m k)) k = single k (erase m k k) := by
  rw [single_eq (m := erase (single k (m k)) k) (k := k) fun j hj => (erase_other _ hj).trans (single_other _ hj),
    erase_same, erase_same]

theorem modify_single (m : K → Option V) (k : K) (v : V) : modify (single k (m k)) k v = single k (modify m k v k) := by
  rw [single_eq (m := modify (single k (m k)) k v) (k := k) fun j hj =>
    (modify_other _ v hj).trans (single_other _ hj), modify_same, modify_same]

/-! ### Numbered entries -/

/-- Every entry has a number below `n`, and no two have the same. -/
structure Numbered (number : V → Nat) (n : Nat) (m : K → Option V) : Prop where
  below : ∀ k v, m k = some v → number v < n
  once : ∀ j k v w, m j = some v → m k = some w → number v = number w → j = k

section
variable {number : V → Nat} {n : Nat} {m : K → Option V} {k : K} {v w : V}

/-- Whatever is registered afterwards has the number of an entry of its key, or the next one. -/
theorem Numbered.of_cases {m' : K → Option V} {n' : Nat} (h : Numbered number n m) (hle : n ≤ n')
    (hcases : ∀ j x, m' j = some x → (∃ y, m j = some y ∧ number x = number y) ∨ j = k ∧ number x = n ∧ n < n') :
    Numbered number n' m' := by
  refine ⟨fun j x hx => ?_, fun i j x y hx hy hsame => ?_⟩
  · rcases hcases j x hx with ⟨z, hz, hnumber⟩ | ⟨_, hnumber, hlt⟩
    · have := h.below j z hz
      omega
    · omega
  · rcases hcases i x hx with ⟨a, ha, hxa⟩ | ⟨rfl, hxa, _⟩
    · rcases hcases j y hy with ⟨b, hb, hyb⟩ | ⟨rfl, hyb, _⟩
      · exact h.once i j a b ha hb (by omega)
      · have := h.below i a ha
        omega
    · rcases hcases j y hy with ⟨b, hb, hyb⟩ | ⟨rfl, _, _⟩
      · have := h.below j b hb
        omega
      · rfl

theorem Numbered.insert (h : Numbered number n m) (hv : number v = n) : Numbered number (n + 1) (insert m k v) := by
  refine h.of_cases (k := k) (Nat.le_succ n) fun j x hx => ?_
  rcases insert_cases hx with hx | ⟨rfl, rfl⟩
  · exact Or.inl ⟨x, hx, rfl⟩
  · exact Or.inr ⟨rfl, hv, Nat.lt_succ_self n⟩

theorem Numbered.modify (h : Numbered number n m) (hw : m k = some w) (hv : number v = number w) :
    Numbered number n (modify m k v) := by
  refine h.of_cases (k := k) (Nat.le_refl n) fun j x hx => Or.inl ?_
  by_cases hj : j = k
  · rw [hj, modify_same] at hx
    cases hx
    exact ⟨w, hj ▸ hw, hv⟩
  · exact ⟨x, (modify_other m v hj).symm.trans hx, rfl⟩

theorem Numbered.erase (h : Numbered number n m) : Numbered number n (erase m k) := by
  refine h.of_cases (k := k) (Nat.le_refl n) fun j x hx => Or.inl ?_
  by_cases hj : j = k
  · rw [hj, erase_same] at hx
    cases hx
  · exact ⟨x, (erase_other m hj).symm.trans hx, rfl⟩

end

end HyperTransfer.Registry
