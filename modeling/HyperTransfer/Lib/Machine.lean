import Mathlib.Data.List.Infix

/-! Machines whose steps may fail, and their runs.

A step takes an input and a state to the next state and a list of effects, or
fails; a failure ends the run. `trace` is the list of steps a run takes, each with
the states on both sides. What one step preserves, a run preserves (`invariant`),
under a condition on its steps where there is one; `history` does the same for
invariants that speak of the steps already taken. -/
namespace HyperTransfer

/-! ### Postconditions of a computation that may fail -/

/-- Every value `x` returns satisfies `Q`. -/
def Returns {F A : Type} (x : Except F A) (Q : A → Prop) : Prop := ∀ a, x = .ok a → Q a

namespace Returns
variable {F A B : Type} {Q : A → Prop}

theorem ok {a : A} (h : Q a) : Returns (.ok a : Except F A) Q := by
  intro b hb
  cases hb
  exact h

theorem pure {a : A} (h : Q a) : Returns (Pure.pure a : Except F A) Q := ok h

theorem error (f : F) : Returns (.error f : Except F A) Q := fun _ h => nomatch h

theorem throw (f : F) : Returns (MonadExcept.throw f : Except F A) Q := error f

theorem bind {P : B → Prop} {x : Except F B} {f : B → Except F A} (hx : Returns x P)
    (hf : ∀ b, P b → Returns (f b) Q) : Returns (x >>= f) Q := by
  intro a ha
  cases x with
  | error e => exact nomatch ha
  | ok b => exact hf b (hx b rfl) a ha

theorem ok_bind {b : B} {f : B → Except F A} (h : Returns (f b) Q) :
    Returns (Except.ok b >>= f) Q := h

/-- A bind whose first part only has to return. -/
theorem bind_any {x : Except F B} {f : B → Except F A} (hf : ∀ b, Returns (f b) Q) :
    Returns (x >>= f) Q :=
  bind (P := fun _ => True) (fun _ _ => trivial) fun b _ => hf b

theorem mono {P : A → Prop} {x : Except F A} (h : Returns x P) (hPQ : ∀ a, P a → Q a) :
    Returns x Q :=
  fun a ha => hPQ a (h a ha)

end Returns

/-- What `x` returns, where it satisfies `P`, `y` returns up to `f`. -/
def Mirrors {F A B : Type} (P : A → Prop) (f : A → B) (x : Except F A) (y : Except F B) : Prop :=
  Returns x fun a => P a → y = .ok (f a)

namespace Mirrors
variable {F A B C D : Type} {P : A → Prop} {f : A → B}

theorem ok {a : A} {b : B} (h : P a → b = f a) : Mirrors P f (.ok a : Except F A) (.ok b) :=
  Returns.ok fun ha => congrArg Except.ok (h ha)

theorem error (e : F) (y : Except F B) : Mirrors P f (.error e) y := Returns.error e

/-- The same first part. -/
theorem bind {x : Except F C} {k : C → Except F A} {k' : C → Except F B} (h : ∀ c, Mirrors P f (k c) (k' c)) :
    Mirrors P f (x >>= k) (x >>= k') := by
  cases x with
  | error e => exact error e _
  | ok c => exact h c

/-- A first part that is mirrored as well. -/
theorem bind_up {x : Except F C} {x' : Except F D} {g : C → D} {k : C → Except F A} {k' : D → Except F B}
    (hx : Mirrors (fun _ => True) g x x') (h : ∀ c, Mirrors P f (k c) (k' (g c))) :
    Mirrors P f (x >>= k) (x' >>= k') := by
  cases x with
  | error e => exact error e _
  | ok c =>
    rw [hx c rfl trivial]
    exact h c

theorem ite {c : Prop} [Decidable c] {x x' : Except F A} {y y' : Except F B} (hpos : c → Mirrors P f x y)
    (hneg : ¬ c → Mirrors P f x' y') : Mirrors P f (if c then x else x') (if c then y else y') := by
  by_cases hc : c
  · rw [if_pos hc, if_pos hc]
    exact hpos hc
  · rw [if_neg hc, if_neg hc]
    exact hneg hc

end Mirrors

theorem bind_eq_ok {F A B : Type} {x : Except F A} {f : A → Except F B} {b : B} :
    x >>= f = .ok b ↔ ∃ a, x = .ok a ∧ f a = .ok b := by
  cases x with
  | error e => exact ⟨fun h => (nomatch h), fun ⟨_, h, _⟩ => (nomatch h)⟩
  | ok a => exact ⟨fun h => ⟨a, rfl, h⟩, fun ⟨_, ha, h⟩ => by cases ha; exact h⟩

theorem mapError_eq_ok {A F G : Type} {x : Except F A} {f : F → G} {a : A} : x.mapError f = .ok a ↔ x = .ok a := by
  cases x with
  | error e => exact iff_of_false (fun h => nomatch h) fun h => nomatch h
  | ok b => exact Except.ok.injEq .. |>.to_iff.trans (Except.ok.injEq ..).to_iff.symm

/-- Continuations that agree on the value returned make the same computation. -/
theorem bind_same {F A B : Type} {x : Except F A} {f g : A → Except F B} (h : ∀ a, x = .ok a → f a = g a) :
    x >>= f = x >>= g := by
  cases x with
  | error e => rfl
  | ok a => exact h a rfl

/-! ### Runs -/

structure Machine (I S E F : Type) where
  step : I → S → Except F (S × List E)

/-- A step that was taken. -/
structure Edge (I S E : Type) where
  before : S
  input : I
  after : S
  effects : List E

/-- Where a marked step stands in a history that one more step was put at the end of. -/
theorem append_last {A : Type} {past pre post : List A} {last mark : A}
    (h : past ++ [last] = pre ++ mark :: post) :
    (post = [] ∧ past = pre ∧ last = mark) ∨ ∃ rest, post = rest ++ [last] ∧ past = pre ++ mark :: rest := by
  cases hp : post.getLast? with
  | none =>
    rw [List.getLast?_eq_none_iff] at hp
    rw [hp] at h
    obtain ⟨hpast, hlast⟩ := List.append_inj' h rfl
    exact Or.inl ⟨hp, hpast, List.head_eq_of_cons_eq hlast⟩
  | some x =>
    obtain ⟨rest, hrest⟩ := List.getLast?_eq_some_iff.mp hp
    rw [hrest, ← List.cons_append, ← List.append_assoc] at h
    obtain ⟨hpast, hlast⟩ := List.append_inj' h rfl
    rw [List.head_eq_of_cons_eq hlast]
    exact Or.inr ⟨rest, hrest, hpast⟩

namespace Machine
variable {I S E F : Type} (m : Machine I S E F)

/-- The steps of a run, up to its end or its first failure. -/
def trace (s : S) : List I → List (Edge I S E)
  | [] => []
  | i :: rest =>
    match m.step i s with
    | .ok (t, es) => ⟨s, i, t, es⟩ :: trace t rest
    | .error _ => []

/-- The states a run reaches. -/
def states (s : S) (inputs : List I) : List S := s :: (m.trace s inputs).map Edge.after

/-- The state a run ends in. -/
def final (s : S) (inputs : List I) : S := ((m.trace s inputs).getLast?.map Edge.after).getD s

/-- The steps a run tries, with the one it fails at. -/
def attempts (s : S) : List I → List (S × I)
  | [] => []
  | i :: rest =>
    (s, i) ::
      match m.step i s with
      | .ok (t, _) => attempts t rest
      | .error _ => []

/-- The edge is a step of the machine. -/
def Takes (e : Edge I S E) : Prop := m.step e.input e.before = .ok (e.after, e.effects)

variable {m}

theorem trace_ok {i : I} {s t : S} {es : List E} (h : m.step i s = .ok (t, es)) (rest : List I) :
    m.trace s (i :: rest) = ⟨s, i, t, es⟩ :: m.trace t rest := by
  simp [trace, h]

theorem trace_error {i : I} {s : S} {f : F} (h : m.step i s = .error f) (rest : List I) :
    m.trace s (i :: rest) = [] := by
  simp [trace, h]

theorem final_ok {i : I} {s t : S} {es : List E} (h : m.step i s = .ok (t, es)) (rest : List I) :
    m.final s (i :: rest) = m.final t rest := by
  rw [final, trace_ok h, final, List.getLast?_cons]
  cases (m.trace t rest).getLast? <;> rfl

/-- A run that takes all its steps, and what comes after. -/
theorem trace_append {s : S} {inputs : List I} (h : (m.trace s inputs).length = inputs.length) (rest : List I) :
    m.trace s (inputs ++ rest) = m.trace s inputs ++ m.trace (m.final s inputs) rest := by
  induction inputs generalizing s with
  | nil => rfl
  | cons i inputs ih =>
    cases hi : m.step i s with
    | error f =>
      rw [trace_error hi] at h
      exact nomatch h
    | ok r =>
      obtain ⟨t, es⟩ := r
      rw [trace_ok hi] at h
      rw [List.cons_append, trace_ok hi, trace_ok hi, final_ok hi, ih (Nat.succ.inj h), List.cons_append]

/-- Invariants that speak of the steps taken so far. -/
theorem history {H : List (Edge I S E) → S → Prop} {s : S} {inputs : List I} (C : Edge I S E → Prop)
    (past : List (Edge I S E)) (hs : H past s)
    (hstep : ∀ past e, m.Takes e → C e → H past e.before → H (past ++ [e]) e.after)
    (hc : ∀ e ∈ m.trace s inputs, C e) :
    ∀ now e rest, m.trace s inputs = now ++ e :: rest →
      m.Takes e ∧ H (past ++ now) e.before ∧ H (past ++ now ++ [e]) e.after := by
  induction inputs generalizing s past with
  | nil => intro now e rest h; simp [trace] at h
  | cons i inputs ih =>
    intro now e rest h
    cases hi : m.step i s with
    | error f =>
      rw [trace_error hi] at h
      simp at h
    | ok r =>
      obtain ⟨t, es⟩ := r
      rw [trace_ok hi] at h hc
      have hfirst := hstep past ⟨s, i, t, es⟩ hi (hc _ (List.mem_cons_self ..)) hs
      cases now with
      | nil =>
        simp only [List.nil_append, List.cons.injEq] at h
        obtain ⟨rfl, _⟩ := h
        rw [List.append_nil]
        exact ⟨hi, hs, hfirst⟩
      | cons e' now =>
        simp only [List.cons_append, List.cons.injEq] at h
        obtain ⟨rfl, h⟩ := h
        have := ih (past ++ [⟨s, i, t, es⟩]) hfirst
          (fun e he => hc e (List.mem_cons_of_mem _ he)) now e rest h
        simpa using this

/-- Where a step meeting `C` returns and carries the history on, a run whose attempts meet
`C` takes every step. -/
theorem history_returns {H : List (Edge I S E) → S → Prop} {s : S} {inputs : List I} (C : S → I → Prop)
    (past : List (Edge I S E)) (hs : H past s)
    (hstep : ∀ past s i, H past s → C s i →
      ∃ t es, m.step i s = .ok (t, es) ∧ H (past ++ [⟨s, i, t, es⟩]) t)
    (hc : ∀ a ∈ m.attempts s inputs, C a.1 a.2) :
    (m.trace s inputs).length = inputs.length ∧
      ∀ now e rest, m.trace s inputs = now ++ e :: rest → H (past ++ now ++ [e]) e.after := by
  induction inputs generalizing s past with
  | nil => exact ⟨rfl, fun now e rest h => by simp [trace] at h⟩
  | cons i inputs ih =>
    obtain ⟨t, es, hi, ht⟩ := hstep past s i hs (hc (s, i) (List.mem_cons_self ..))
    have hrest : ∀ a ∈ m.attempts t inputs, C a.1 a.2 := by
      intro a ha
      apply hc a
      rw [attempts, hi]
      exact List.mem_cons_of_mem _ ha
    obtain ⟨hlength, hnow⟩ := ih (past ++ [⟨s, i, t, es⟩]) ht hrest
    rw [trace_ok hi]
    refine ⟨congrArg (· + 1) hlength, fun now e rest h => ?_⟩
    cases now with
    | nil =>
      injection h with he _
      rw [← he, List.append_nil]
      exact ht
    | cons e' now =>
      injection h with he hrun
      rw [← he]
      have := hnow now e rest hrun
      rwa [List.append_assoc past, List.singleton_append] at this

/-- What holds after every step holds at the end. -/
theorem history_final {H : List (Edge I S E) → S → Prop} {s : S} {inputs : List I} (past : List (Edge I S E)) (hs : H past s)
    (h : ∀ now e rest, m.trace s inputs = now ++ e :: rest → H (past ++ now ++ [e]) e.after) :
    H (past ++ m.trace s inputs) (m.final s inputs) := by
  unfold final
  cases hlast : (m.trace s inputs).getLast? with
  | none =>
    rw [List.getLast?_eq_none_iff.mp hlast, List.append_nil]
    exact hs
  | some e =>
    obtain ⟨now, hnow⟩ := List.getLast?_eq_some_iff.mp hlast
    rw [hnow, ← List.append_assoc]
    exact h now e [] hnow

/-- What every step that meets `C` preserves holds on both sides of every step. -/
theorem invariant {P : S → Prop} {s : S} {inputs : List I} (C : Edge I S E → Prop) (hs : P s)
    (hstep : ∀ e, m.Takes e → C e → P e.before → P e.after)
    (hc : ∀ e ∈ m.trace s inputs, C e) :
    ∀ e ∈ m.trace s inputs, m.Takes e ∧ P e.before ∧ P e.after := by
  intro e he
  obtain ⟨now, rest, h⟩ := List.append_of_mem he
  exact history (H := fun _ => P) C [] hs (fun _ e ht hC hb => hstep e ht hC hb) hc now e rest h

theorem invariant_states {P : S → Prop} {s : S} {inputs : List I} (C : Edge I S E → Prop)
    (hs : P s) (hstep : ∀ e, m.Takes e → C e → P e.before → P e.after)
    (hc : ∀ e ∈ m.trace s inputs, C e) : ∀ t ∈ m.states s inputs, P t := by
  intro t ht
  rcases List.mem_cons.mp ht with rfl | ht
  · exact hs
  · obtain ⟨e, he, rfl⟩ := List.mem_map.mp ht
    exact (invariant C hs hstep hc e he).2.2

/-- Every step of a run is a step of the machine. -/
theorem takes_of_mem {s : S} {inputs : List I} {e : Edge I S E} (he : e ∈ m.trace s inputs) : m.Takes e :=
  (invariant (P := fun _ => True) (fun _ => True) trivial (fun _ _ _ _ => trivial) (fun _ _ => trivial) e he).1

theorem input_mem {s : S} {inputs : List I} {e : Edge I S E} (he : e ∈ m.trace s inputs) : e.input ∈ inputs := by
  induction inputs generalizing s with
  | nil => exact nomatch he
  | cons i rest ih =>
    cases hi : m.step i s with
    | error f =>
      rw [trace_error hi] at he
      exact nomatch he
    | ok r =>
      obtain ⟨t, es⟩ := r
      rw [trace_ok hi] at he
      rcases List.mem_cons.mp he with rfl | he
      · exact List.mem_cons_self ..
      · exact List.mem_cons_of_mem _ (ih he)

/-- What every step preserves holds wherever a step is tried. -/
theorem attempts_invariant {P : S → Prop} {s : S} {inputs : List I} (hs : P s)
    (hstep : ∀ e, m.Takes e → P e.before → P e.after) : ∀ a ∈ m.attempts s inputs, P a.1 := by
  induction inputs generalizing s with
  | nil => exact fun a ha => nomatch ha
  | cons i rest ih =>
    intro a ha
    rw [attempts] at ha
    rcases List.mem_cons.mp ha with rfl | ha
    · exact hs
    · cases hi : m.step i s with
      | error f =>
        rw [hi] at ha
        exact nomatch ha
      | ok r =>
        rw [hi] at ha
        exact ih (hstep ⟨s, i, r.1, r.2⟩ hi hs) a ha

/-- Where a step keeps the invariant exactly under `C`, a run keeps it exactly
when every step of it meets `C`. -/
theorem invariant_iff {P : S → Prop} {C : Edge I S E → Prop} {s : S} {inputs : List I} (hs : P s)
    (hstep : ∀ e, m.Takes e → P e.before → (P e.after ↔ C e)) :
    (∀ t ∈ m.states s inputs, P t) ↔ ∀ e ∈ m.trace s inputs, C e := by
  constructor
  · intro h
    induction inputs generalizing s with
    | nil => intro e he; simp [trace] at he
    | cons i rest ih =>
      intro e he
      cases hi : m.step i s with
      | error f => simp [trace_error hi] at he
      | ok r =>
        obtain ⟨t, es⟩ := r
        rw [states, trace_ok hi] at h
        rw [trace_ok hi] at he
        have ht : P t := h t (by simp)
        have hfirst := (hstep ⟨s, i, t, es⟩ hi hs).mp ht
        rcases List.mem_cons.mp he with rfl | he
        · exact hfirst
        · exact ih ht (fun u hu => h u (List.mem_cons_of_mem _ hu)) e he
  · intro hc
    exact invariant_states C hs (fun e ht hC hb => (hstep e ht hb).mpr hC) hc

/-- Two runs on inputs that make no difference to any step tried are the same run. -/
theorem trace_map {s : S} {inputs : List I} (f : I → I)
    (h : ∀ a ∈ m.attempts s inputs, m.step (f a.2) a.1 = m.step a.2 a.1) :
    m.trace s (inputs.map f) = (m.trace s inputs).map fun e => {e with input := f e.input} := by
  induction inputs generalizing s with
  | nil => rfl
  | cons i rest ih =>
    have hfirst : m.step (f i) s = m.step i s := h (s, i) (List.mem_cons_self ..)
    cases hi : m.step i s with
    | error x => rw [List.map_cons, trace_error hi, trace_error (hfirst.trans hi), List.map_nil]
    | ok r =>
      obtain ⟨t, es⟩ := r
      rw [List.map_cons, trace_ok hi, trace_ok (hfirst.trans hi), List.map_cons]
      refine congrArg _ (ih fun a ha => h a ?_)
      rw [attempts, hi]
      exact List.mem_cons_of_mem _ ha

end Machine
end HyperTransfer
