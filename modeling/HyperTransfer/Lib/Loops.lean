/-! Loops whose steps may fault.

A routine has a step that goes on to another state or faults, and a test for being over. `Ends P`
is a run that comes to an end through states that all satisfy `P`: its induction is the one on
the steps left. `run` is the same with a bound on the rounds, to be evaluated. What
a routine is after each number of rounds says when it ends and where (`Counts`). -/
namespace HyperTransfer

structure Routine (S F : Type) where
  step : S → Except F S
  done : S → Bool

namespace Routine
variable {S F : Type} {l : Routine S F} {P : S → Prop} {s t u : S}

/-- From one state the routine ends in another, and every state on the way satisfies `P`. -/
inductive Ends (l : Routine S F) (P : S → Prop) : S → S → Prop where
  | done {s : S} (hdone : l.done s) (hs : P s) : l.Ends P s s
  | step {s t u : S} (hgo : l.done s = false) (hs : P s) (hstep : l.step s = .ok t) (hrest : l.Ends P t u) :
    l.Ends P s u

namespace Ends

theorem start (h : l.Ends P s t) : P s := by
  cases h with
  | done _ hs => exact hs
  | step _ hs _ _ => exact hs

/-- A run that is not over takes a step. -/
theorem next (h : l.Ends P s u) (hgo : l.done s = false) : ∃ t, l.step s = .ok t ∧ l.Ends P t u := by
  cases h with
  | done hdone _ => exact nomatch hgo.symm.trans hdone
  | step _ _ hstep hrest => exact ⟨_, hstep, hrest⟩

end Ends

/-! ### Rounds -/

/-- At most so many rounds: no fault is told where the routine is not over by then. -/
def run (l : Routine S F) : Nat → S → Except (Option F) S
  | 0, _ => .error none
  | fuel + 1, s =>
    if l.done s then .ok s
    else match l.step s with
      | .error f => .error (some f)
      | .ok t => l.run fuel t

theorem run_over {fuel : Nat} (hdone : l.done s) : l.run (fuel + 1) s = .ok s := if_pos hdone

theorem run_goes {fuel : Nat} (hgo : l.done s = false) (hstep : l.step s = .ok t) :
    l.run (fuel + 1) s = l.run fuel t := by
  rw [run, if_neg (Bool.eq_false_iff.mp hgo), hstep]

theorem ends_of_run {fuel : Nat} (hrun : l.run fuel s = .ok t) : l.Ends (fun _ => True) s t := by
  induction fuel generalizing s with
  | zero => exact nomatch hrun
  | succ fuel ih =>
    cases hdone : l.done s with
    | true =>
      rw [run_over hdone] at hrun
      cases hrun
      exact .done hdone trivial
    | false =>
      cases hstep : l.step s with
      | error f =>
        rw [run, if_neg (Bool.eq_false_iff.mp hdone), hstep] at hrun
        exact nomatch hrun
      | ok u =>
        rw [run_goes hdone hstep] at hrun
        exact .step hdone trivial hstep (ih hrun)

/-- A routine that ends does so in some number of rounds, and in every larger one. -/
theorem Ends.runs (h : l.Ends P s t) : ∃ fuel, ∀ more, fuel ≤ more → l.run more s = .ok t := by
  induction h with
  | done hdone _ =>
    refine ⟨1, fun more hmore => ?_⟩
    obtain ⟨fuel, rfl⟩ := Nat.exists_eq_add_of_le' hmore
    exact run_over hdone
  | step hgo _ hstep _ ih =>
    obtain ⟨fuel, hrun⟩ := ih
    refine ⟨fuel + 1, fun more hmore => ?_⟩
    obtain ⟨k, rfl⟩ := Nat.exists_eq_add_of_le' hmore
    rw [← Nat.add_assoc, run_goes hgo hstep]
    exact hrun _ (Nat.le_add_left fuel k)

/-- `At k` is where the routine is after `k` rounds, `Over k` whether it is over by then, and
`Goes k` whether the next round does not fault. -/
structure Counts (l : Routine S F) (At : Nat → S → Prop) (Over Goes : Nat → Prop) : Prop where
  ended : ∀ {k s}, At k s → (l.done s ↔ Over k)
  goes : ∀ {k s}, At k s → ¬ Over k → Goes k → ∃ t, l.step s = .ok t ∧ At (k + 1) t
  faults : ∀ {k s}, At k s → ¬ Over k → ¬ Goes k → ∃ f, l.step s = .error f

namespace Counts
variable {At : Nat → S → Prop} {Over Goes : Nat → Prop} {k m : Nat}

/-- A routine that ends does so after some number of rounds that all go on. -/
theorem reaches (h : l.Counts At Over Goes) (hs : At k s) (hends : l.Ends P s t) :
    ∃ m, k ≤ m ∧ (∀ j, k ≤ j → j < m → ¬ Over j ∧ Goes j) ∧ Over m ∧ At m t := by
  induction hends generalizing k with
  | done hdone _ =>
    exact ⟨k, Nat.le_refl k, fun j hk hj => absurd hk (Nat.not_le.mpr hj), (h.ended hs).mp hdone, hs⟩
  | step hgo _ hstep _ ih =>
    have hover : ¬ Over k := fun hover => nomatch hgo.symm.trans ((h.ended hs).mpr hover)
    have hgoes : Goes k := by
      apply Classical.byContradiction
      intro hstuck
      obtain ⟨f, hfault⟩ := h.faults hs hover hstuck
      exact nomatch hstep.symm.trans hfault
    obtain ⟨u, hu, hnext⟩ := h.goes hs hover hgoes
    cases hstep.symm.trans hu
    obtain ⟨m, hkm, hall, hend⟩ := ih hnext
    refine ⟨m, Nat.le_of_succ_le hkm, fun j hk hj => ?_, hend⟩
    rcases Nat.eq_or_lt_of_le hk with heq | hlt
    · exact heq ▸ ⟨hover, hgoes⟩
    · exact hall j hlt hj

/-- Where the rounds all go on until it is over, it ends. -/
theorem ends (h : l.Counts At Over Goes) (hs : At k s) (hkm : k ≤ m)
    (hall : ∀ j, k ≤ j → j < m → ¬ Over j ∧ Goes j) (hover : Over m) :
    ∃ t, l.Ends (fun _ => True) s t ∧ At m t := by
  obtain ⟨left, rfl⟩ := Nat.exists_eq_add_of_le hkm
  induction left generalizing k s with
  | zero => exact ⟨s, .done ((h.ended hs).mpr hover) trivial, hs⟩
  | succ left ih =>
    obtain ⟨hnot, hgoes⟩ := hall k (Nat.le_refl k) (Nat.lt_add_of_pos_right (Nat.succ_pos left))
    obtain ⟨t, hstep, hnext⟩ := h.goes hs hnot hgoes
    rw [Nat.add_comm left 1, ← Nat.add_assoc] at hall hover ⊢
    obtain ⟨u, hends, hu⟩ := ih hnext (Nat.le_add_right ..) (fun j hk hj => hall j (Nat.le_of_succ_le hk) hj) hover
    have hgo : l.done s = false := Bool.eq_false_iff.mpr fun hdone => hnot ((h.ended hs).mp hdone)
    exact ⟨u, .step hgo trivial hstep hends, hu⟩

end Counts
end Routine

end HyperTransfer
