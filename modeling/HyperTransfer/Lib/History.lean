import HyperTransfer.Lib.Machine

/-! What a history says of its end.

A history is a list of steps that grows at its end. `latest` is what the last step that
says anything says, `since` the steps after the last one marked. An invariant that speaks
of them is carried over a step by what they make of the step put at the end; `Always`
speaks of every step of a run together with what came before it. -/
namespace HyperTransfer.History
variable {E A B : Type}

/-- What the last step that says anything says. -/
def latest (tells : E → Option A) (past : List E) : Option A := (past.filterMap tells).getLast?

/-- The steps after the last one marked. -/
def since (mark : E → Bool) (past : List E) : List E :=
  past.foldl (fun run e => if mark e then [] else run ++ [e]) []

variable {tells : E → Option A} {mark : E → Bool}

@[simp] theorem latest_nil : latest tells [] = none := rfl

theorem latest_append (past : List E) (e : E) : latest tells (past ++ [e]) = (tells e).or (latest tells past) := by
  unfold latest
  rw [List.filterMap_append, List.getLast?_append]
  cases h : tells e with
  | none => rw [List.filterMap_cons_none h, List.filterMap_nil, List.getLast?_nil]
  | some a =>
    rw [List.filterMap_cons_some h, List.filterMap_nil]
    rfl

@[simp] theorem latest_said {past : List E} {e : E} {a : A} (h : tells e = some a) :
    latest tells (past ++ [e]) = some a := by
  rw [latest_append, h, Option.some_or]

@[simp] theorem latest_silent {past : List E} {e : E} (h : tells e = none) :
    latest tells (past ++ [e]) = latest tells past := by
  rw [latest_append, h, Option.none_or]

@[simp] theorem since_nil : since mark [] = [] := rfl

theorem since_append (past : List E) (e : E) :
    since mark (past ++ [e]) = if mark e then [] else since mark past ++ [e] := by
  unfold since
  rw [List.foldl_append]
  rfl

@[simp] theorem since_mark {past : List E} {e : E} (h : mark e = true) : since mark (past ++ [e]) = [] := by
  rw [since_append, if_pos h]

@[simp] theorem since_other {past : List E} {e : E} (h : mark e = false) :
    since mark (past ++ [e]) = since mark past ++ [e] := by
  rw [since_append, if_neg (by rw [h]; exact Bool.false_ne_true)]

/-- Where the one stays silent, so does the other. -/
theorem latest_none {other : E → Option B} (h : ∀ e, tells e = none → other e = none) {past : List E}
    (hpast : latest tells past = none) : latest other past = none := by
  induction past using List.reverseRecOn with
  | nil => rfl
  | append_singleton past e ih =>
    rw [latest_append] at hpast ⊢
    obtain ⟨he, hrest⟩ := Option.or_eq_none_iff.mp hpast
    rw [h e he, ih hrest, Option.none_or]

/-! ### Every step of a run -/

/-- Every step of the run satisfies `P`, given the steps before it. -/
def Always (P : List E → E → Prop) (run : List E) : Prop := ∀ now e rest, run = now ++ e :: rest → P now e

theorem always_fin {P : List E → E → Prop} {run : List E} :
    Always P run ↔ ∀ k : Fin run.length, P (run.take k) (run.get k) := by
  constructor
  · intro h k
    apply h _ _ (run.drop (k + 1))
    rw [List.get_eq_getElem, List.cons_getElem_drop_succ, List.take_append_drop]
  · intro h now e rest hrun
    have hlen : now.length < run.length := by
      rw [hrun, List.length_append, List.length_cons]
      omega
    have hnow := h ⟨now.length, hlen⟩
    simpa [hrun] using hnow

instance {P : List E → E → Prop} [∀ now e, Decidable (P now e)] (run : List E) : Decidable (Always P run) :=
  decidable_of_iff _ always_fin.symm

/-- A condition that does not look back. -/
theorem always_forall {P : E → Prop} {run : List E} : Always (fun _ e => P e) run ↔ ∀ e ∈ run, P e := by
  constructor
  · intro h e he
    obtain ⟨now, rest, hrun⟩ := List.append_of_mem he
    exact h now e rest hrun
  · exact fun h now e rest hrun => h e (hrun ▸ List.mem_append_right _ (List.mem_cons_self ..))

/-- Two conditions that agree at every step agree on the run. -/
theorem always_congr {P Q : List E → E → Prop} {run : List E} (h : Always (fun now e => P now e ↔ Q now e) run) :
    Always P run ↔ Always Q run := by
  constructor
  · intro hP now e rest hrun
    exact (h now e rest hrun).mp (hP now e rest hrun)
  · intro hQ now e rest hrun
    exact (h now e rest hrun).mpr (hQ now e rest hrun)

/-- An invariant of histories, where each step is taken under a condition that may look at
the history as well. -/
theorem always_history {I S F : Type} {X : Type} {m : Machine I S X F} {H : List (Edge I S X) → S → Prop}
    {C : List (Edge I S X) → Edge I S X → Prop} {s : S} {inputs : List I} (past : List (Edge I S X)) (hs : H past s)
    (hstep : ∀ past e, m.Takes e → C past e → H past e.before → H (past ++ [e]) e.after)
    (hc : ∀ now e rest, m.trace s inputs = now ++ e :: rest → C (past ++ now) e) :
    Always (fun now e => m.Takes e ∧ H (past ++ now) e.before) (m.trace s inputs) := by
  induction inputs generalizing s past with
  | nil =>
    intro now e rest h
    simp [Machine.trace] at h
  | cons i inputs ih =>
    intro now e rest h
    cases hi : m.step i s with
    | error f =>
      rw [Machine.trace_error hi] at h
      simp at h
    | ok r =>
      obtain ⟨t, es⟩ := r
      rw [Machine.trace_ok hi] at h hc
      cases now with
      | nil =>
        injection h with he _
        rw [← he, List.append_nil]
        exact ⟨hi, hs⟩
      | cons e' now =>
        injection h with he' hrun
        have hfirst := hc [] ⟨s, i, t, es⟩ _ rfl
        rw [List.append_nil] at hfirst
        have hnext := ih (past ++ [⟨s, i, t, es⟩]) (hstep past ⟨s, i, t, es⟩ hi hfirst hs) ?_ now e rest hrun
        · dsimp only at hnext
          rwa [List.append_assoc, List.singleton_append, he'] at hnext
        · intro now e rest hrun
          have hlater := hc (⟨s, i, t, es⟩ :: now) e rest (by rw [hrun, List.cons_append])
          rwa [List.append_assoc, List.singleton_append]

/-- An invariant of histories that every step keeps. -/
theorem always_kept {I S F X : Type} {m : Machine I S X F} {H : List (Edge I S X) → S → Prop} {s : S} (inputs : List I)
    (hs : H [] s) (hstep : ∀ past e, m.Takes e → H past e.before → H (past ++ [e]) e.after) :
    Always (fun now e => m.Takes e ∧ H now e.before) (m.trace s inputs) :=
  always_history (C := fun _ _ => True) [] hs (fun past e he _ hpast => hstep past e he hpast) fun _ _ _ _ => trivial

/-- Conditions that agree at every step under an invariant of histories agree on every run. -/
theorem always_iff {I S F X : Type} {m : Machine I S X F} {H : List (Edge I S X) → S → Prop}
    {P Q : List (Edge I S X) → Edge I S X → Prop} {s : S} (inputs : List I) (hs : H [] s)
    (hstep : ∀ past e, m.Takes e → H past e.before → H (past ++ [e]) e.after)
    (hiff : ∀ now e, m.Takes e → H now e.before → (P now e ↔ Q now e)) :
    Always P (m.trace s inputs) ↔ Always Q (m.trace s inputs) := by
  apply always_congr
  intro now e rest hrun
  obtain ⟨htakes, hnow⟩ := always_kept inputs hs hstep now e rest hrun
  exact hiff now e htakes hnow

theorem always_append {P : List E → E → Prop} {past : List E} {e : E} :
    Always P (past ++ [e]) ↔ Always P past ∧ P past e := by
  constructor
  · intro h
    refine ⟨fun now e' rest hpast => ?_, h past e [] rfl⟩
    exact h now e' (rest ++ [e]) (by rw [hpast, List.append_assoc, List.cons_append])
  · intro h now e' rest hrun
    obtain ⟨hpast, he⟩ := h
    rcases append_last hrun with ⟨_, hnow, hlast⟩ | ⟨rest', _, hnow⟩
    · rw [← hnow, ← hlast]
      exact he
    · exact hpast now e' rest' hnow

/-- What holds of every beginning of a run. -/
theorem always_beginnings {P : List E → Prop} {run : List E} (hnil : P []) (hback : ∀ now e, P (now ++ [e]) → P now) :
    Always (fun now e => P (now ++ [e])) run ↔ P run := by
  induction run using List.reverseRecOn with
  | nil =>
    refine iff_of_true (fun now e rest h => ?_) hnil
    simp at h
  | append_singleton run e ih =>
    rw [always_append, ih]
    exact ⟨fun h => h.2, fun h => ⟨hback run e h, h⟩⟩

/-- The same under an invariant that one of the conditions carries on: up to the first step
where they fail, which is the same, the invariant holds. -/
theorem always_iff_under {I S F X : Type} {m : Machine I S X F} {H : List (Edge I S X) → S → Prop}
    {P C : List (Edge I S X) → Edge I S X → Prop} {s : S} (inputs : List I) (hs : H [] s)
    (hstep : ∀ past e, m.Takes e → C past e → H past e.before → H (past ++ [e]) e.after)
    (hiff : ∀ now e, m.Takes e → H now e.before → (P now e ↔ C now e)) :
    Always P (m.trace s inputs) ↔ Always C (m.trace s inputs) := by
  have hkept := always_kept (m := m) (H := fun past t => Always C past → H past t) inputs (fun _ => hs)
    fun past e htakes hpast hC => hstep past e htakes (always_append.mp hC).2 (hpast (always_append.mp hC).1)
  constructor
  · intro hP
    have hupto : ∀ now rest, m.trace s inputs = now ++ rest → Always C now := by
      intro now
      induction now using List.reverseRecOn with
      | nil =>
        intro _ _ now e rest h
        simp at h
      | append_singleton now e ih =>
        intro rest hrun
        rw [List.append_assoc, List.singleton_append] at hrun
        have hnow := ih _ hrun
        obtain ⟨htakes, hbefore⟩ := hkept now e rest hrun
        exact always_append.mpr ⟨hnow, (hiff now e htakes (hbefore hnow)).mp (hP now e rest hrun)⟩
    exact hupto _ [] (List.append_nil _).symm
  · intro hC now e rest hrun
    obtain ⟨htakes, hnow⟩ := always_history [] hs hstep (fun now e rest hrun => hC now e rest hrun) now e rest hrun
    exact (hiff now e htakes hnow).mpr (hC now e rest hrun)

end HyperTransfer.History
