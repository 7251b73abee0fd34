import HyperTransfer.Lib.Machine

/-! A machine seen from one place.

Of each step it is seen as what input it comes to a smaller machine, if as any, and which of its
effects belong there. Where a step that is seen is one of the smaller machine and any other
changes nothing there (`Shows`), a run is seen as a run of the smaller machine on the inputs
seen (`trace_seen`), whatever else goes on in between: two runs that are seen as the same
inputs look the same (`seen_same`). Less may be seen of the inputs and of the state, as long as
the machine does the same with less (`narrow_shows`). -/
namespace HyperTransfer

structure View (I S E J T D : Type) where
  state : S → T
  input : I → S → Option J
  effects : List E → List D

namespace View
variable {I S E F J T D G : Type}

/-- What is seen of a step. -/
def edge (v : View I S E J T D) (e : Edge I S E) : Option (Edge J T D) :=
  (v.input e.input e.before).map fun j => ⟨v.state e.before, j, v.state e.after, v.effects e.effects⟩

/-- What a run comes to as inputs. -/
def inputs (v : View I S E J T D) (run : List (Edge I S E)) : List J := run.filterMap fun e => v.input e.input e.before

/-- What is seen of a run. -/
def seen (v : View I S E J T D) (run : List (Edge I S E)) : List (Edge J T D) := run.filterMap v.edge

/-- The steps of `m` from states in `P`, seen through `v`, are steps of `n` or nothing. -/
structure Shows (v : View I S E J T D) (m : Machine I S E F) (n : Machine J T D G) (P : S → Prop) : Prop where
  kept : ∀ e, m.Takes e → P e.before → P e.after
  seen : ∀ e, m.Takes e → P e.before → ∀ j ∈ v.input e.input e.before,
    n.Takes ⟨v.state e.before, j, v.state e.after, v.effects e.effects⟩
  unseen : ∀ e, m.Takes e → P e.before → v.input e.input e.before = none →
    v.state e.after = v.state e.before ∧ v.effects e.effects = []

variable {v : View I S E J T D} {m : Machine I S E F} {n : Machine J T D G} {P : S → Prop} {s : S} {inputs : List I}

theorem filterMap_cons_toList {A B : Type} (f : A → Option B) (a : A) (l : List A) :
    (a :: l).filterMap f = (f a).toList ++ l.filterMap f := by
  cases h : f a with
  | none => rw [List.filterMap_cons_none h, Option.toList_none, List.nil_append]
  | some b => rw [List.filterMap_cons_some h, Option.toList_some, List.singleton_append]

theorem seen_cons (e : Edge I S E) (run : List (Edge I S E)) :
    v.seen (e :: run) = (v.edge e).toList ++ v.seen run := filterMap_cons_toList ..

theorem seen_last (run : List (Edge I S E)) (e : Edge I S E) : v.seen (run ++ [e]) = v.seen run ++ (v.edge e).toList := by
  unfold seen
  rw [List.filterMap_append, filterMap_cons_toList, List.filterMap_nil, List.append_nil]

theorem inputs_cons (e : Edge I S E) (run : List (Edge I S E)) :
    v.inputs (e :: run) = (v.input e.input e.before).toList ++ v.inputs run := filterMap_cons_toList ..

/-- A run is seen as the run on what is seen of its inputs, all of whose steps are taken. -/
theorem trace_seen (h : v.Shows m n P) (hs : P s) (inputs : List I) :
    n.trace (v.state s) (v.inputs (m.trace s inputs)) = v.seen (m.trace s inputs) ∧
      n.final (v.state s) (v.inputs (m.trace s inputs)) = v.state (m.final s inputs) := by
  induction inputs generalizing s with
  | nil => exact ⟨rfl, rfl⟩
  | cons i rest ih =>
    cases hi : m.step i s with
    | error f =>
      have hfinal : m.final s (i :: rest) = s := by
        rw [Machine.final, Machine.trace_error hi]
        rfl
      rw [hfinal, Machine.trace_error hi]
      exact ⟨rfl, rfl⟩
    | ok r =>
      obtain ⟨t, es⟩ := r
      obtain ⟨htrace, hfinal⟩ := ih (h.kept ⟨s, i, t, es⟩ hi hs)
      rw [Machine.final_ok hi, Machine.trace_ok hi, seen_cons, inputs_cons, edge]
      cases hj : v.input i s with
      | none =>
        -- the step is not seen
        have hsame := (h.unseen ⟨s, i, t, es⟩ hi hs hj).1
        rw [← hsame]
        exact ⟨htrace, hfinal⟩
      | some j =>
        have hstep : n.step j (v.state s) = .ok (v.state t, v.effects es) := h.seen ⟨s, i, t, es⟩ hi hs j hj
        rw [Option.toList_some, Option.map_some, Option.toList_some, List.singleton_append, List.singleton_append,
          Machine.trace_ok hstep, Machine.final_ok hstep, htrace]
        exact ⟨rfl, hfinal⟩

/-- Runs that come to the same inputs look the same, be they of different machines. -/
theorem seen_same {I' S' E' F' : Type} {v' : View I' S' E' J T D} {m' : Machine I' S' E' F'} {P' : S' → Prop} {s' : S'}
    {inputs' : List I'} (h : v.Shows m n P) (h' : v'.Shows m' n P') (hs : P s) (hs' : P' s')
    (hstate : v.state s = v'.state s') (hinputs : v.inputs (m.trace s inputs) = v'.inputs (m'.trace s' inputs')) :
    v.seen (m.trace s inputs) = v'.seen (m'.trace s' inputs') ∧
      v.state (m.final s inputs) = v'.state (m'.final s' inputs') := by
  obtain ⟨htrace, hfinal⟩ := trace_seen h hs inputs
  obtain ⟨htrace', hfinal'⟩ := trace_seen h' hs' inputs'
  rw [← htrace, ← hfinal, ← htrace', ← hfinal', hstate, hinputs]
  exact ⟨rfl, rfl⟩

/-- The same view, with less of the state and of the inputs. -/
def narrow {J' T' : Type} (v : View I S E J T D) (f : T → T') (g : T → J → J') : View I S E J' T' D where
  state s := f (v.state s)
  input i s := (v.input i s).map (g (v.state s))
  effects := v.effects

/-- What is left of a step is a step where a machine does the same with less. -/
theorem narrow_shows {J' T' G' : Type} {n' : Machine J' T' D G'} {f : T → T'} {g : T → J → J'} {Q : T → Prop}
    (h : v.Shows m n P) (hP : ∀ s, P s → Q (v.state s))
    (hless : ∀ e, n.Takes e → Q e.before → n'.Takes ⟨f e.before, g e.before e.input, f e.after, e.effects⟩) :
    (v.narrow f g).Shows m n' P := by
  refine ⟨h.kept, fun e he hs j' hj' => ?_, fun e he hs hunseen => ?_⟩
  · obtain ⟨j, hj, rfl⟩ := Option.map_eq_some_iff.mp hj'
    exact hless _ (h.seen e he hs j hj) (hP _ hs)
  · obtain ⟨hstate, heffects⟩ := h.unseen e he hs (Option.map_eq_none_iff.mp hunseen)
    exact ⟨congrArg f hstate, heffects⟩

end View

/-! ### Steps that are runs -/

/-- Every input takes its step; the run ends in `t` and its effects are `es`. -/
structure Machine.Runs {I S E F : Type} (m : Machine I S E F) (s : S) (inputs : List I) (t : S) (es : List E) : Prop where
  taken : (m.trace s inputs).length = inputs.length
  final : m.final s inputs = t
  effects : (m.trace s inputs).flatMap Edge.effects = es

section
variable {I S E F : Type} {m : Machine I S E F} {s t u : S} {es fs : List E}

theorem Machine.runs_nil (s : S) : m.Runs s [] s [] := ⟨rfl, rfl, rfl⟩

theorem Machine.runs_one {i : I} (h : m.step i s = .ok (t, es)) : m.Runs s [i] t es := by
  refine ⟨?_, ?_, ?_⟩
  · rw [trace_ok h]
    rfl
  · rw [final_ok h]
    rfl
  · rw [trace_ok h]
    exact List.append_nil es

theorem Machine.Runs.append {a b : List I} (h : m.Runs s a t es) (g : m.Runs t b u fs) : m.Runs s (a ++ b) u (es ++ fs) := by
  have htrace := trace_append h.taken b
  rw [h.final] at htrace
  refine ⟨?_, ?_, ?_⟩
  · rw [htrace, List.length_append, h.taken, g.taken, List.length_append]
  · rw [← g.final, Machine.final, Machine.final, htrace, List.getLast?_append]
    cases (m.trace t b).getLast? with
    | some e => rfl
    | none => exact h.final
  · rw [htrace, List.flatMap_append, h.effects, g.effects]

/-- Where every step of a machine is a run of another, so is every run. -/
theorem Machine.runs_of_steps {J T G : Type} {n : Machine J T E G} {f : S → T} {P : S → Prop}
    (hstep : ∀ e, m.Takes e → P e.before → P e.after ∧ ∃ js, n.Runs (f e.before) js (f e.after) e.effects)
    (hs : P s) (inputs : List I) :
    ∃ js, n.Runs (f s) js (f (m.final s inputs)) ((m.trace s inputs).flatMap Edge.effects) := by
  induction inputs generalizing s with
  | nil => exact ⟨[], runs_nil _⟩
  | cons i rest ih =>
    cases hi : m.step i s with
    | error x =>
      rw [final, trace_error hi]
      exact ⟨[], runs_nil _⟩
    | ok r =>
      obtain ⟨t, es⟩ := r
      obtain ⟨ht, js, hjs⟩ := hstep ⟨s, i, t, es⟩ hi hs
      obtain ⟨ks, hks⟩ := ih ht
      rw [final_ok hi, trace_ok hi, List.flatMap_cons]
      exact ⟨js ++ ks, hjs.append hks⟩

end
end HyperTransfer
