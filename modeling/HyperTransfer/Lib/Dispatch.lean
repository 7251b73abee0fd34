import Mathlib.Data.List.Basic
import Mathlib.Logic.Function.Basic

/-! Tasks given out to workers, each with a queue of its own.

A task is put at the end of the queue its index says, and a worker takes the first of its
own. Nothing orders the workers among each other; what was taken and what is left are, worker
by worker, what was put there, in order (`Dispatch.Books`). Where the index depends on a key of
the task alone, the tasks of a key are so taken by one worker, in order and once each
(`books_key`). -/
namespace HyperTransfer.Dispatch
variable {A K : Type}

/-- Put a task at the end of a queue. -/
def insertTail (queues : Nat → List A) (i : Nat) (a : A) : Nat → List A :=
  Function.update queues i (queues i ++ [a])

/-- A worker takes its first task, if it has one. -/
def takeFirst (queues : Nat → List A) (w : Nat) : Option A × (Nat → List A) :=
  match queues w with
  | [] => (none, queues)
  | a :: rest => (some a, Function.update queues w rest)

/-- What a worker has taken. -/
def takenBy (w : Nat) (taken : List (Nat × A)) : List A := (taken.filter fun x => x.1 = w).map Prod.snd

/-- Worker by worker, what was taken and what is queued is what was put there. -/
def Books (index : A → Nat) (put : List A) (taken : List (Nat × A)) (queues : Nat → List A) : Prop :=
  ∀ w, takenBy w taken ++ queues w = put.filter fun a => index a = w

variable {index : A → Nat} {put : List A} {taken : List (Nat × A)} {queues : Nat → List A} {w v : Nat} {a : A} {rest : List A}

@[simp] theorem takenBy_same : takenBy w (taken ++ [(w, a)]) = takenBy w taken ++ [a] := by
  simp [takenBy]

@[simp] theorem takenBy_other (h : v ≠ w) : takenBy w (taken ++ [(v, a)]) = takenBy w taken := by
  simp [takenBy, h]

theorem books_idle : Books index [] [] fun _ => [] := fun _ => rfl

theorem books_insert (h : Books index put taken queues) (a : A) :
    Books index (put ++ [a]) taken (insertTail queues (index a) a) := by
  intro w
  unfold insertTail
  by_cases hw : w = index a
  · rw [hw, Function.update_self, ← List.append_assoc, h, List.filter_append]
    simp
  · rw [Function.update_of_ne hw, h, List.filter_append]
    simp [Ne.symm hw]

theorem books_take (h : Books index put taken queues) (w : Nat) :
    Books index put (taken ++ ((takeFirst queues w).1.map fun a => (w, a)).toList) (takeFirst queues w).2 := by
  intro v
  unfold takeFirst
  split
  · rw [Option.map_none, Option.toList_none, List.append_nil]
    exact h v
  · rename_i a rest hqueue
    dsimp only
    rw [Option.map_some, Option.toList_some]
    by_cases hv : v = w
    · rw [hv, takenBy_same, Function.update_self, List.append_assoc, List.singleton_append, ← hqueue]
      exact h w
    · rw [takenBy_other (Ne.symm hv), Function.update_of_ne hv]
      exact h v

/-- A task is taken by the worker its index says. -/
theorem books_worker (h : Books index put taken queues) (htaken : (w, a) ∈ taken) : w = index a := by
  have hmem : a ∈ takenBy w taken ++ queues w :=
    List.mem_append_left _ (List.mem_map.mpr ⟨(w, a), List.mem_filter.mpr ⟨htaken, decide_eq_true rfl⟩, rfl⟩)
  rw [h w] at hmem
  exact (of_decide_eq_true (List.mem_filter.mp hmem).2).symm

/-- The tasks of a key are taken by one worker, each once and in the order in which they were put. -/
theorem books_key [DecidableEq K] {key : A → K} (place : K → Nat) (hindex : ∀ a, index a = place (key a))
    (h : Books index put taken queues) (k : K) :
    (∀ x ∈ taken, key x.2 = k → x.1 = place k) ∧
      (taken.map Prod.snd).filter (fun a => key a = k) ++ (queues (place k)).filter (fun a => key a = k) =
        put.filter fun a => key a = k := by
  have hworker (x : Nat × A) (hx : x ∈ taken) (hk : key x.2 = k) : x.1 = place k := by
    rw [books_worker h hx, hindex, hk]
  refine ⟨hworker, ?_⟩
  have hput : put.filter (fun a => key a = k) = (put.filter fun a => index a = place k).filter fun a => key a = k := by
    rw [List.filter_filter]
    apply List.filter_congr
    intro a _
    by_cases hk : key a = k
    · simp [hk, hindex]
    · simp [hk]
  have htaken : (taken.map Prod.snd).filter (fun a => key a = k) =
      (takenBy (place k) taken).filter fun a => key a = k := by
    unfold takenBy
    rw [List.filter_map, List.filter_map, List.filter_filter]
    refine congrArg _ (List.filter_congr fun x hx => ?_)
    by_cases hk : key x.2 = k
    · simp [hk, hworker x hx hk]
    · simp [hk]
  rw [hput, htaken, ← List.filter_append, h]

/-! ### The tasks of one key -/

section
variable {key : A → K} {place : K → Nat}

/-- Every task is in the queue of its key. -/
def Placed (key : A → K) (place : K → Nat) (queues : Nat → List A) : Prop := ∀ w, ∀ a ∈ queues w, place (key a) = w

theorem placed_idle : Placed key place fun _ => [] := fun _ _ h => nomatch h

theorem placed_insert (h : Placed key place queues) (a : A) :
    Placed key place (insertTail queues (place (key a)) a) := by
  intro w b hb
  unfold insertTail at hb
  by_cases hw : w = place (key a)
  · rw [hw, Function.update_self] at hb
    rcases List.mem_append.mp hb with hb | hb
    · rw [hw]
      exact h _ b hb
    · rw [hw, List.mem_singleton.mp hb]
  · rw [Function.update_of_ne hw] at hb
    exact h w b hb

variable [DecidableEq K]

/-- The tasks of a key that are queued, in order. -/
def ofKey (key : A → K) (place : K → Nat) (queues : Nat → List A) (k : K) : List A :=
  (queues (place k)).filter fun a => key a = k

theorem ofKey_insert_same (queues : Nat → List A) (a : A) :
    ofKey key place (insertTail queues (place (key a)) a) (key a) = ofKey key place queues (key a) ++ [a] := by
  unfold ofKey insertTail
  rw [Function.update_self, List.filter_append]
  simp

theorem ofKey_insert_other (queues : Nat → List A) {k : K} (hk : key a ≠ k) :
    ofKey key place (insertTail queues (place (key a)) a) k = ofKey key place queues k := by
  unfold ofKey insertTail
  by_cases hw : place k = place (key a)
  · rw [hw, Function.update_self, List.filter_append]
    simp [hk]
  · rw [Function.update_of_ne hw]

/-- A worker that takes a task takes the first of its key. -/
theorem placed_take (h : Placed key place queues) (hfirst : queues w = a :: rest) :
    Placed key place (Function.update queues w rest) ∧
      ofKey key place queues (key a) = a :: ofKey key place (Function.update queues w rest) (key a) ∧
      ∀ k, key a ≠ k → ofKey key place (Function.update queues w rest) k = ofKey key place queues k := by
  have hplace : place (key a) = w := h w a (hfirst ▸ List.mem_cons_self ..)
  refine ⟨fun v b hb => ?_, ?_, fun k hk => ?_⟩
  · by_cases hv : v = w
    · rw [hv, Function.update_self] at hb
      rw [hv]
      exact h w b (hfirst ▸ List.mem_cons_of_mem _ hb)
    · rw [Function.update_of_ne hv] at hb
      exact h v b hb
  · unfold ofKey
    rw [hplace, hfirst, Function.update_self]
    exact List.filter_cons_of_pos (decide_eq_true rfl)
  · unfold ofKey
    by_cases hw : place k = w
    · rw [hw, Function.update_self, hfirst, List.filter_cons_of_neg (by simpa using hk)]
    · rw [Function.update_of_ne hw]

end

end HyperTransfer.Dispatch
