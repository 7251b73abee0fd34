import HyperTransfer.Lib.Machine
import Mathlib.Data.List.Range

/-! Queues whose tasks rest on one another.

In a queue, or in the order in which one is worked off, some tasks open a number and others
need theirs opened before them (`Opened`). Numbers are given out in turn, and each is waiting
until it is opened, so the last one is opened exactly when none is waiting (`opened_last`).
Where tasks make a thing, may drop it or need it, `Served` follows whether it is there,
taking every drop for granted. -/
namespace HyperTransfer.Queues
variable {A K : Type}

/-- What needs a number comes after what opens it. -/
def Opened (opens needs : A → Option K) (l : List A) : Prop :=
  ∀ pre a post, l = pre ++ a :: post → ∀ k ∈ needs a, k ∈ pre.filterMap opens

section
variable {opens needs : A → Option K} {l : List A} {a : A}

theorem opened_nil : Opened opens needs [] := by
  intro pre a post h
  simp at h

theorem opened_append : Opened opens needs (l ++ [a]) ↔ Opened opens needs l ∧ ∀ k ∈ needs a, k ∈ l.filterMap opens := by
  constructor
  · intro h
    refine ⟨fun pre b post hl => h pre b (post ++ [a]) ?_, h l a [] rfl⟩
    rw [hl, List.append_assoc, List.cons_append]
  · intro h pre b post hl
    rcases append_last hl with ⟨_, hpre, hlast⟩ | ⟨rest, _, hrest⟩
    · rw [← hpre, ← hlast]
      exact h.2
    · exact h.1 pre b rest hrest

/-- What needs nothing may come at any time. -/
theorem opened_free (h : needs a = none) : Opened opens needs (l ++ [a]) ↔ Opened opens needs l := by
  rw [opened_append, h]
  simp

end

/-- The last number given out is opened exactly when none is waiting. -/
theorem opened_last {opened waiting : List Nat} {n : Nat} (h : opened ++ waiting = List.range' 1 n) (hn : 0 < n) :
    n ∈ opened ↔ waiting = [] := by
  obtain ⟨m, rfl⟩ := Nat.exists_eq_succ_of_ne_zero hn.ne'
  rw [Nat.succ_eq_add_one, List.range'_1_concat] at h
  constructor
  · intro hmem
    cases hlast : waiting.getLast? with
    | none => exact List.getLast?_eq_none_iff.mp hlast
    | some x =>
      obtain ⟨rest, hrest⟩ := List.getLast?_eq_some_iff.mp hlast
      rw [hrest, ← List.append_assoc] at h
      have hearlier := (List.append_inj' h rfl).1
      have hless := List.mem_append_left rest hmem
      rw [hearlier, List.mem_range'_1] at hless
      omega
  · intro hnone
    rw [hnone, List.append_nil] at h
    rw [h, Nat.add_comm 1 m]
    exact List.mem_append_right _ (List.mem_singleton_self _)

/-! ### What is there -/

section
variable (makes drops needs : A → Bool)

/-- Whether the thing is sure to be there after a task. -/
def next (there : Bool) (a : A) : Bool := makes a || (there && !drops a)

/-- Whether it is sure to be there after a queue. -/
def left (there : Bool) (q : List A) : Bool := q.foldl (next makes drops) there

/-- It is there for every task that needs it. -/
def Served : Bool → List A → Prop
  | _, [] => True
  | there, a :: q => (needs a = true → there = true) ∧ Served (next makes drops there a) q

variable {makes drops needs} {there : Bool} {q : List A} {a : A}

theorem left_cons : left makes drops there (a :: q) = left makes drops (next makes drops there a) q := rfl

theorem left_append : left makes drops there (q ++ [a]) = next makes drops (left makes drops there q) a := by
  unfold left
  rw [List.foldl_append]
  rfl

theorem served_append : Served makes drops needs there (q ++ [a]) ↔
    Served makes drops needs there q ∧ (needs a = true → left makes drops there q = true) := by
  induction q generalizing there with
  | nil => simp [Served, left]
  | cons b q ih =>
    rw [List.cons_append, Served, Served, ih, left_cons, and_assoc]

/-- A thing that is there after all does no harm. -/
theorem next_mono {before after : Bool} (h : before = true → after = true) :
    next makes drops before a = true → next makes drops after a = true := by
  unfold next
  rw [Bool.or_eq_true, Bool.or_eq_true, Bool.and_eq_true, Bool.and_eq_true]
  exact Or.imp_right (And.imp_left h)

theorem left_mono {before after : Bool} (h : before = true → after = true) :
    left makes drops before q = true → left makes drops after q = true := by
  induction q generalizing before after with
  | nil => exact h
  | cons b q ih => exact ih (next_mono h)

theorem served_mono {before after : Bool} (h : before = true → after = true) :
    Served makes drops needs before q → Served makes drops needs after q := by
  induction q generalizing before after with
  | nil => exact id
  | cons b q ih => exact fun hq => ⟨fun hb => h (hq.1 hb), ih (next_mono h) hq.2⟩

end
end HyperTransfer.Queues
