import HyperTransfer.Lib.History

/-! Leases that run out.

A lease is held under a key and carries the time it was last renewed. Nothing watches it: a sweep
that is due takes away what has been idle for longer than a lease lives, and sets the time of the next
one. Where the sweeps come in time no lease is ever held for much longer (`idle_le`). -/
namespace HyperTransfer

/-- The clock, the time of the next sweep, and when each lease held was renewed. -/
structure Leases (K : Type) where
  now : Int
  due : Int
  held : K → Option Int

inductive LeaseEvent (K : Type) where
  | clock (t : Int)
  | renew (k : K)
  | drop (k : K)
  | sweep
deriving DecidableEq

namespace Leases
variable {K : Type} [DecidableEq K]

/-- What is left after a sweep. -/
def sweep (life span : Int) (s : Leases K) : Leases K :=
  {s with held := fun k => (s.held k).filter fun t => s.now ≤ life + t, due := s.now + span}

/-- A key that is renewed is held from then on. -/
def next (life span : Int) (s : Leases K) : LeaseEvent K → Leases K
  | .clock t => {s with now := t}
  | .renew k => {s with held := Function.update s.held k (some s.now)}
  | .drop k => {s with held := Function.update s.held k none}
  | .sweep => if s.due ≤ s.now then s.sweep life span else s

end Leases

section
variable {K : Type} [DecidableEq K]

def leases (life span : Int) : Machine (LeaseEvent K) (Leases K) Empty Empty where
  step i s := .ok (s.next life span i, [])

abbrev LeaseEdge (K : Type) := Edge (LeaseEvent K) (Leases K) Empty

/-- When the key was renewed last. -/
def renewedAt (past : List (LeaseEdge K)) (k : K) : Option Int :=
  History.latest (fun e => if e.input = .renew k then some e.before.now else none) past

variable {life span : Int} {past : List (LeaseEdge K)} {e : LeaseEdge K} {k : K} {s : Leases K}

theorem leases_next (h : (leases life span).Takes e) : e.after = e.before.next life span e.input :=
  (congrArg Prod.fst (Except.ok.inj h)).symm

theorem renewedAt_renew (h : e.input = .renew k) : renewedAt (past ++ [e]) k = some e.before.now :=
  History.latest_said (if_pos h)

theorem renewedAt_other (h : e.input ≠ .renew k) : renewedAt (past ++ [e]) k = renewedAt past k :=
  History.latest_silent (if_neg h)

/-- What is held carries the time of its last renewal. -/
def Leases.Stamped (past : List (LeaseEdge K)) (s : Leases K) : Prop := ∀ k t, s.held k = some t → renewedAt past k = some t

theorem stamped_next (h : (leases life span).Takes e) (hp : e.before.Stamped past) : e.after.Stamped (past ++ [e]) := by
  intro k t ht
  rw [leases_next h] at ht
  cases hi : e.input with
  | clock t' =>
    rw [renewedAt_other (by rw [hi]; intro hne; cases hne)]
    rw [hi] at ht
    exact hp k t ht
  | renew j =>
    rw [hi] at ht
    have ht : Function.update e.before.held j (some e.before.now) k = some t := ht
    by_cases hj : k = j
    · rw [renewedAt_renew (hi.trans (by rw [hj]))]
      rwa [hj, Function.update_self] at ht
    · rw [renewedAt_other (fun heq => hj (LeaseEvent.renew.inj (heq.symm.trans hi)))]
      exact hp k t ((Function.update_of_ne hj ..).symm.trans ht)
  | drop j =>
    rw [renewedAt_other (by rw [hi]; intro hne; cases hne)]
    rw [hi] at ht
    have ht : Function.update e.before.held j none k = some t := ht
    by_cases hj : k = j
    · rw [hj, Function.update_self] at ht
      cases ht
    · exact hp k t ((Function.update_of_ne hj ..).symm.trans ht)
  | sweep =>
    rw [renewedAt_other (by rw [hi]; intro hne; cases hne)]
    rw [hi] at ht
    refine hp k t ?_
    unfold Leases.next at ht
    dsimp only at ht
    split at ht
    · exact (Option.filter_eq_some_iff.mp ht).1
    · exact ht

/-! ### Sweeps in time -/

/-- The clock goes on, and no further than so much past the next sweep. -/
def Timely (late : Int) (s : Leases K) : LeaseEvent K → Prop
  | .clock t => s.now ≤ t ∧ t ≤ s.due + late
  | _ => True

/-- The next sweep is not long after the last, and that one has left nothing too old. -/
structure Leases.Fresh (life span late : Int) (s : Leases K) : Prop where
  due : s.due ≤ s.now + span
  clock : s.now ≤ s.due + late
  held : ∀ k t, s.held k = some t → s.due ≤ life + t + span

theorem fresh_next {late : Int} (hlife : 0 ≤ life) (hspan : 0 ≤ span) (hlate : 0 ≤ late) (h : (leases life span).Takes e)
    (htimely : Timely late e.before e.input) (hp : e.before.Fresh life span late) : e.after.Fresh life span late := by
  have hafter := leases_next h
  cases hi : e.input with
  | clock t =>
    rw [hi] at hafter htimely
    rw [hafter]
    exact ⟨show e.before.due ≤ t + span from Int.le_trans hp.due (Int.add_le_add_right htimely.1 span), htimely.2, hp.held⟩
  | renew j =>
    rw [hi] at hafter
    rw [hafter]
    refine ⟨hp.due, hp.clock, fun k t ht => ?_⟩
    by_cases hk : k = j
    · rw [hk] at ht
      cases (Function.update_self ..).symm.trans ht
      have := hp.due
      show e.before.due ≤ _
      omega
    · exact hp.held k t ((Function.update_of_ne hk ..).symm.trans ht)
  | drop j =>
    rw [hi] at hafter
    rw [hafter]
    refine ⟨hp.due, hp.clock, fun k t ht => ?_⟩
    by_cases hk : k = j
    · rw [hk] at ht
      cases (Function.update_self ..).symm.trans ht
    · exact hp.held k t ((Function.update_of_ne hk ..).symm.trans ht)
  | sweep =>
    rw [hi] at hafter
    unfold Leases.next at hafter
    dsimp only at hafter
    split at hafter
    · rw [hafter]
      refine ⟨Int.le_refl _, show e.before.now ≤ e.before.now + span + late by omega, fun k t ht => ?_⟩
      have hleft := (Option.filter_eq_some_iff.mp ht).2
      have hleft : e.before.now ≤ life + t := by simpa using hleft
      show e.before.now + span ≤ _
      omega
    · rw [hafter]
      exact hp

end

/-- Nothing is held for longer than it lives, a sweep is apart from the next, and a sweep is late. -/
theorem idle_le {K : Type} {s : Leases K} {life span late : Int} (h : s.Fresh life span late) {k : K} {t : Int}
    (hheld : s.held k = some t) : s.now ≤ t + life + span + late := by
  have := h.clock
  have := h.held k t hheld
  omega

end HyperTransfer
