import HyperTransfer.Session.Writes

/-! Access control of transfers.

The command that asks for a transfer and the task that starts it are apart: the
command checks the rights and arms the data action, the data connection's task finds
it armed and posts to the disk threads, with any number of tasks in between. The
invariant keeps, with an armed data action, the step of the past that armed it. -/
namespace HyperTransfer
open CString

abbrev SessionEdge := Edge SessionInput Session Effect

/-- The step sets no data action. -/
def Quiet (e : SessionEdge) : Prop := ∀ a, .setDataAction a ∉ e.effects

/-- The step handles a command that may start the disk task, with the rights for it. -/
def Authorised (a : DiskTaskAction) (e : SessionEdge) : Prop :=
  ∃ cmd text, e.input.task.handles e.before = some (cmd, text) ∧
    match a with
    | .indexStart => cmd = .list ∧ e.before.logIn
    | .storStart => (cmd = .stor ∨ cmd = .appe) ∧ e.before.logIn ∧ e.before.uploadPer
    | .retrStart => cmd = .retr ∧ e.before.logIn ∧ e.before.downloadPer
    | _ => False

/-- A step of the past made the data action `d`, with the rights for it, and none has
set it since. -/
def Armed (past : List SessionEdge) (d : DataAction) : Prop :=
  ∃ pre e post, past = pre ++ e :: post ∧ .setDataAction d ∈ e.effects ∧ (∀ p ∈ post, Quiet p) ∧
    ∀ a : DiskTaskAction, a.from = d → a.from.armed → Authorised a e

section
variable {env : Env}

/-- An allowed command is authorised for the disk task its data action starts. -/
theorem authorised_of_allowed {e : SessionEdge} {cmd : Command} {text : List Char} {a : DiskTaskAction}
    (hc : e.input.task.handles e.before = some (cmd, text)) (hallowed : cmd.Allowed e.before.identity)
    (ha : a.from = cmd.arms) (harmed : a.from.armed) : Authorised a e := by
  refine ⟨cmd, text, hc, ?_⟩
  cases a with
  | indexStart => cases cmd <;> first | exact ⟨rfl, hallowed⟩ | exact nomatch ha
  | storStart =>
    cases cmd <;>
      first
        | exact ⟨Or.inl rfl, hallowed.1, hallowed.2⟩
        | exact ⟨Or.inr rfl, hallowed.1, hallowed.2⟩
        | exact nomatch ha
  | retrStart => cases cmd <;> first | exact ⟨rfl, hallowed.1, hallowed.2⟩ | exact nomatch ha
  | _ => exact nomatch harmed

/-- What a step does about the data action, and what it posts to the disk threads. -/
theorem takes_moves {e : SessionEdge} (h : (session env).Takes e) :
    ((Quiet e ∧ e.after.dataAction = e.before.dataAction) ∨ e.after.dataAction.armed = false ∨
      ∃ cmd text, e.input.task.handles e.before = some (cmd, text) ∧ cmd.Allowed e.before.identity ∧
        e.after.dataAction = cmd.arms ∧ .setDataAction cmd.arms ∈ e.effects) ∧
    ∀ d, .postToDisk d ∈ e.effects → e.input.task.action = .dataAccept ∧
      e.before.dataAction = d.action.from ∧ e.before.dataAction.armed := by
  obtain ⟨r, hr, hafter, heffects⟩ := takes_roll h
  rw [← hafter, ← heffects, Quiet, ← heffects]
  rcases rollSession_cases r hr with ⟨_, _, hdata, hstarts⟩ | ⟨deal, u, g, hline, hu, hudata, hg, _, hgdata, heff⟩
  · refine ⟨?_, hstarts⟩
    rcases hdata with ⟨hsame, hquiet⟩ | hoff
    · exact Or.inl ⟨hquiet, hsame⟩
    · exact Or.inr (Or.inl hoff)
  · have hidentity : (u.prepared deal).identity = e.before.identity :=
      Session.identity_of_core hu
    rcases handle_moves g hg with ⟨hsame, hnone⟩ | ⟨hallowed, harms, hmoves⟩
    · rw [List.filter_eq_nil_iff] at hnone
      refine ⟨Or.inl ⟨fun a ha => ?_, (hgdata.trans hsame).trans hudata⟩, fun d hd => ?_⟩
      · rw [heff] at ha
        simp only [List.mem_cons, reduceCtorEq, false_or] at ha
        exact hnone _ ha rfl
      · rw [heff] at hd
        simp only [List.mem_cons, reduceCtorEq, false_or] at hd
        exact absurd rfl (hnone _ hd)
    · rw [hidentity] at hallowed
      have hset : Effect.setDataAction (command deal).1.arms ∈ g.effects := by
        have := List.mem_singleton_self (Effect.setDataAction (command deal).1.arms)
        rw [← hmoves] at this
        exact (List.mem_filter.mp this).1
      refine ⟨Or.inr (Or.inr ⟨_, _, handles_of_line hline, hallowed, hgdata.trans harms, ?_⟩), fun d hd => ?_⟩
      · rw [heff]
        exact List.mem_cons_of_mem _ hset
      · rw [heff] at hd
        simp only [List.mem_cons, reduceCtorEq, false_or] at hd
        have hd : Effect.postToDisk d ∈ g.effects.filter Effect.moves := List.mem_filter.mpr ⟨hd, rfl⟩
        rw [hmoves] at hd
        exact nomatch List.mem_singleton.mp hd

/-- What is armed stays armed over a step, and what a step arms is authorised. -/
theorem armed_next {past : List SessionEdge} {e : SessionEdge} (h : (session env).Takes e)
    (hp : e.before.dataAction.armed → Armed past e.before.dataAction)
    (ha : e.after.dataAction.armed) : Armed (past ++ [e]) e.after.dataAction := by
  rcases (takes_moves h).1 with ⟨hquiet, hsame⟩ | hoff | ⟨cmd, text, hc, hallowed, harms, hset⟩
  · rw [hsame] at ha ⊢
    obtain ⟨pre, c, post, rfl, hset, hpost, hauth⟩ := hp ha
    refine ⟨pre, c, post ++ [e], by simp, hset, fun p hmem => ?_, hauth⟩
    rcases List.mem_append.mp hmem with hmem | hmem
    · exact hpost p hmem
    · rw [List.mem_singleton.mp hmem]
      exact hquiet
  · rw [hoff] at ha
    exact absurd ha (by decide)
  · rw [harms] at ha ⊢
    exact ⟨past, e, [], rfl, hset, fun _ hmem => (nomatch hmem),
      fun a hfrom harmed => authorised_of_allowed hc hallowed hfrom harmed⟩

/-- **Access control of disk work.** Every task a session posts to the disk threads
is posted by a data connection's task, and the last step before it that set the data
action handled a command that may start that task, while the rights for it were held. -/
theorem starts_authorised (env : Env) (address : Nat) (garbage : List Char) (t : SessionTask) (h : Handled)
    (hnew : acceptSession env.config address garbage t = .ok h) (inputs : List SessionInput) :
    ∀ now e rest, (session env).trace h.session inputs = now ++ e :: rest →
      ∀ d, .postToDisk d ∈ e.effects → e.input.task.action = .dataAccept ∧
        ∃ pre c post, now = pre ++ c :: post ∧ .setDataAction e.before.dataAction ∈ c.effects ∧
          (∀ p ∈ post, Quiet p) ∧ Authorised d.action c := by
  intro now e rest hrun d hd
  have hstart : h.session.dataAction = .waiting := (acceptSession_writes _ _ _ _ h hnew).2.1
  obtain ⟨htakes, hbefore, _⟩ := Machine.history (m := session env)
    (H := fun past s => s.dataAction.armed → Armed past s.dataAction) (fun _ => True) []
    (fun ha => by rw [hstart] at ha; exact absurd ha (by decide))
    (fun past e he _ hp ha => armed_next he hp ha) (fun _ _ => trivial) now e rest hrun
  obtain ⟨haction, hfrom, harmed⟩ := (takes_moves htakes).2 d hd
  obtain ⟨pre, c, post, hnow, hset, hpost, hauth⟩ := hbefore harmed
  exact ⟨haction, pre, c, post, hnow, hset, hpost, hauth d.action hfrom.symm (by rwa [← hfrom])⟩

/-- A logged in user lists the root. -/
def shareListing : List SessionInput :=
  shareLogin ++ [⟨.constant none, {fd := 7, action := .pasv, bufLen := 2024}⟩,
    .read (.constant none) 7 "LIST\r\n".toList, ⟨.constant none, {fd := 7, action := .dataAccept}⟩]

theorem starts_authorised_share :
    ∃ h now e d, acceptSession Env.shipped.config 0 [] (.accept 7 "10.0.0.9".toList) = .ok h ∧
      (session Env.shipped).trace h.session shareListing = now ++ [e] ∧ .postToDisk d ∈ e.effects ∧
      e.input.task.action = .dataAccept ∧
        ∃ pre c post, now = pre ++ c :: post ∧ .setDataAction e.before.dataAction ∈ c.effects ∧
          (∀ p ∈ post, Quiet p) ∧ Authorised d.action c := by
  refine ⟨_, [_, _, _, _], _, .ofPath 7 .indexStart "/home/chentianjian/data/".toList, rfl, rfl,
    by decide +kernel, ?_⟩
  exact starts_authorised Env.shipped 0 [] (.accept 7 "10.0.0.9".toList) _ rfl shareListing _ _ [] rfl _
    (by decide +kernel)

end
end HyperTransfer
