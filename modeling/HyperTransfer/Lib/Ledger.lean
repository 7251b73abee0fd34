import HyperTransfer.Lib.History
import Mathlib.Logic.Function.Basic

/-! Who holds a number that is taken and given back.

A number that was given back is taken again, by whoever comes next, and giving back
frees a number whoever holds it: nothing but the order of the entries keeps a holder
from giving back what is another's. Where numbers are taken only while they are free,
each giving back is the holder's own as soon as nobody gives back twice what it took once
(`rightful_of_once`). -/
namespace HyperTransfer.Ledger
open History
variable {A : Type}

inductive Entry (A : Type) where
  | take (n : Nat) (a : A)
  | give (n : Nat) (a : A)
deriving DecidableEq

def post (held : Nat → Option A) : Entry A → Nat → Option A
  | .take n a => Function.update held n (some a)
  | .give n _ => Function.update held n none

/-- Who holds a number after the entries. -/
def posted (held : Nat → Option A) (entries : List (Entry A)) : Nat → Option A := entries.foldl post held

/-- How often something is given back by `a`. -/
def gives [DecidableEq A] (a : A) (entries : List (Entry A)) : Nat :=
  entries.countP fun
    | .give _ b => b = a
    | .take .. => false

/-- Numbers are taken while they are free. -/
def TakesFree (held : Nat → Option A) (entries : List (Entry A)) : Prop :=
  Always (fun now x => ∀ n a, x = .take n a → posted held now n = none) entries

/-- What is given back was taken by the one that gives it back; who may give back more than
once looks first. -/
def Backed (once : A → Prop) (held : Nat → Option A) (entries : List (Entry A)) : Prop :=
  Always (fun now x => ∀ n a, x = .give n a →
    (once a → .take n a ∈ now) ∧ (¬ once a → posted held now n = some a)) entries

/-- What is given back is held by the one that gives it back. -/
def Rightful (held : Nat → Option A) (entries : List (Entry A)) : Prop :=
  Always (fun now x => ∀ n a, x = .give n a → posted held now n = some a) entries

variable {held : Nat → Option A} {entries more : List (Entry A)} {n : Nat} {a b : A}

@[simp] theorem posted_append : posted held (entries ++ more) = posted (posted held entries) more :=
  List.foldl_append ..

section
variable [DecidableEq A]

@[simp] theorem gives_nil : gives a [] = 0 := rfl

@[simp] theorem gives_append : gives a (entries ++ more) = gives a entries + gives a more := List.countP_append ..

@[simp] theorem gives_give : gives a (.give n b :: entries) = gives a entries + if b = a then 1 else 0 := by
  unfold gives
  rw [List.countP_cons]
  simp only [decide_eq_true_eq]

theorem gives_pos (h : .give n a ∈ entries) : 0 < gives a entries := by
  obtain ⟨now, rest, hentries⟩ := List.append_of_mem h
  rw [hentries, gives_append, gives_give, if_pos rfl]
  omega

end

theorem takesFree_gives (h : TakesFree held entries) (hmore : ∀ x ∈ more, ∃ n a, x = .give n a) :
    TakesFree held (entries ++ more) := by
  induction more using List.reverseRecOn with
  | nil =>
    rw [List.append_nil]
    exact h
  | append_singleton more x ih =>
    rw [← List.append_assoc]
    refine always_append.mpr ⟨ih fun y hy => hmore y (List.mem_append_left _ hy), fun n a htake => ?_⟩
    obtain ⟨k, b, hgive⟩ := hmore x (List.mem_append_right _ (List.mem_singleton_self x))
    exact nomatch htake.symm.trans hgive

theorem backed_gives {once : A → Prop} (h : Backed once held entries)
    (hmore : ∀ x ∈ more, ∃ n a, x = .give n a ∧ once a ∧ .take n a ∈ entries) :
    Backed once held (entries ++ more) := by
  induction more using List.reverseRecOn with
  | nil =>
    rw [List.append_nil]
    exact h
  | append_singleton more x ih =>
    rw [← List.append_assoc]
    refine always_append.mpr ⟨ih fun y hy => hmore y (List.mem_append_left _ hy), fun n a hgive => ?_⟩
    obtain ⟨k, b, hx, honce, htake⟩ := hmore x (List.mem_append_right _ (List.mem_singleton_self x))
    cases hgive.symm.trans hx
    exact ⟨fun _ => List.mem_append_left _ htake, fun hno => absurd honce hno⟩

/-- What was taken while it was free and has not been given back is still held. -/
theorem held_still (hfree : TakesFree held entries) (hright : Rightful held entries) (htake : .take n a ∈ entries)
    (hgive : .give n a ∉ entries) : posted held entries n = some a := by
  induction entries using List.reverseRecOn with
  | nil => exact nomatch htake
  | append_singleton entries x ih =>
    obtain ⟨hfree, hx⟩ := always_append.mp hfree
    obtain ⟨hright, hy⟩ := always_append.mp hright
    rw [posted_append]
    rcases List.mem_append.mp htake with htake | htake
    · have hbefore := ih hfree hright htake fun h => hgive (List.mem_append_left _ h)
      -- a number somebody holds is neither taken nor given back by another
      cases x with
      | take k b =>
        have hk : n ≠ k := fun h => nomatch (h ▸ hbefore).symm.trans (hx k b rfl)
        exact (Function.update_of_ne hk ..).trans hbefore
      | give k b =>
        have hk : n ≠ k := by
          intro h
          have hb := (h ▸ hbefore).symm.trans (hy k b rfl)
          rw [h, Option.some.inj hb] at hgive
          exact hgive (List.mem_append_right _ (List.mem_singleton_self _))
        exact (Function.update_of_ne hk ..).trans hbefore
    · rw [← List.mem_singleton.mp htake]
      exact Function.update_self ..

/-- Nobody gives back another's number, where each gives back at most once what it has taken. -/
theorem rightful_of_once [DecidableEq A] {once : A → Prop} (hfree : TakesFree held entries)
    (hbacked : Backed once held entries) (honce : ∀ a, once a → gives a entries ≤ 1) : Rightful held entries := by
  induction entries using List.reverseRecOn with
  | nil =>
    intro now x rest h
    simp at h
  | append_singleton entries x ih =>
    obtain ⟨hfree, _⟩ := always_append.mp hfree
    obtain ⟨hbacked, hx⟩ := always_append.mp hbacked
    have hright : Rightful held entries := by
      apply ih hfree hbacked
      intro a ha
      have hone := honce a ha
      rw [gives_append] at hone
      omega
    refine always_append.mpr ⟨hright, fun n a hgive => ?_⟩
    obtain ⟨htake, hheld⟩ := hx n a hgive
    by_cases ha : once a
    · apply held_still hfree hright (htake ha)
      intro hmem
      have hpos := gives_pos hmem
      have hone := honce a ha
      rw [hgive, gives_append, gives_give, if_pos rfl, gives_nil] at hone
      omega
    · exact hheld ha

end HyperTransfer.Ledger
