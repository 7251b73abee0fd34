import HyperTransfer.Session.Handover

/-! When a transfer starts.

The data connection's task starts what the last transfer command has armed. Come before
the command it starts nothing, and nothing remembers it (`never_commutes`). Come again
while a transfer is under way, it starts a second one where the data action is still, or
again, that of a transfer command (`one_transfer_iff`). -/
namespace HyperTransfer
open History

/-! ### Whichever side comes first -/

/-- What two tasks post to the disk threads when they are handled in this order, and the
data action they reach. -/
def outcome (env : Env) (s : Session) (i j : SessionInput) : Option (List DiskTask × DataAction) :=
  match (session env).trace s [i, j] with
  | [e, e'] => some (posted e ++ posted e', e'.after.dataAction)
  | _ => none

/-- The order makes no difference. -/
def Commutes (env : Env) (s : Session) (i j : SessionInput) : Prop :=
  (outcome env s i j).isSome = true ∧ outcome env s i j = outcome env s j i

instance (env : Env) (s : Session) (i j : SessionInput) : Decidable (Commutes env s i j) :=
  inferInstanceAs (Decidable (_ ∧ _))

/-- The task is a `LIST`, `STOR` or `RETR` that the session accepts. -/
def Asked (env : Env) (s : Session) (i : SessionInput) : Prop :=
  ∃ cmd text r, (cmd = .list ∨ cmd = .stor ∨ cmd = .retr) ∧ i.task.handles s = some (cmd, text) ∧
    rollSession env i.fs i.task s = .ok r ∧ .setDataAction cmd.arms ∈ r.effects

section
variable {env : Env} {s : Session} {i a : SessionInput} {e : SessionEdge}

/-- A task that hands a line on is a read. -/
theorem action_of_handles {t : SessionTask} {c : Command × List Char} (h : t.handles s = some c) :
    t.action = .read := by
  by_contra hread
  rw [SessionTask.handles, line_none hread] at h
  cases h

/-- Only the data connection's task posts anything. -/
theorem posted_nil (h : (session env).Takes e) (haction : e.input.task.action ≠ .dataAccept) : posted e = [] := by
  rw [List.eq_nil_iff_forall_not_mem]
  intro d hd
  exact haction ((takes_moves h).2 d (mem_posted.mp hd)).1

/-- A task that sets no data action leaves it. -/
theorem rollSession_unset {fs : FileSystem} {t : SessionTask} : Returns (rollSession env fs t s) fun h =>
    h.effects.any Effect.sets = false → h.session.dataAction = s.dataAction := by
  intro h hh hunset
  cases rollSession_comes env fs t s h hh with
  | unheard ht r hr => exact (catRecvCommand_writes t.buf r hr).2
  | heard ht r hr deal u hframe g hg =>
    obtain ⟨_, hdata, heffects⟩ := wait_writes g
    obtain ⟨k, hk, hsession, hkeffects⟩ := dispatch_writes deal g hg
    rw [heffects, hkeffects] at hunset
    have hprepared : (u.prepared deal).dataAction = s.dataAction :=
      (frame_writes _ hframe deal u rfl).2.trans (catRecvCommand_writes t.buf r hr).2
    rw [hdata, hsession]
    rcases handle_moves k hk with hreplies | ⟨_, harms⟩
    · exact hreplies.dataAction.trans hprepared
    · have hmem : Effect.setDataAction (command deal).1.arms ∈ k.effects.filter Effect.moves := by
        rw [harms.moves]
        exact List.mem_singleton_self _
      rw [List.any_cons, sets_of_mem (List.mem_filter.mp hmem).1, Bool.or_true] at hunset
      exact nomatch hunset
  | busy | storLoad | storStart | idle => rfl
  | announced | listLoad | retrLoad | transOk => exact nomatch hunset

/-- What a step makes of the data action: nothing, where it sets none; a task of the server
disarms it, a command arms it. -/
theorem sets_cases (h : (session env).Takes e) :
    (setsAction e = false ∧ e.after.dataAction = e.before.dataAction) ∨
      (setsAction e = true ∧ e.input.task.handles e.before = none ∧ e.after.dataAction.armed = false) ∨
      (setsAction e = true ∧ ∃ cmd text, e.input.task.handles e.before = some (cmd, text) ∧
        e.after.dataAction = cmd.arms ∧ cmd.arms.armed = true) := by
  obtain ⟨r, hr, hafter, heffects⟩ := takes_roll h
  cases hsets : setsAction e with
  | false =>
    refine Or.inl ⟨rfl, ?_⟩
    rw [← hafter]
    apply rollSession_unset r hr
    rw [heffects]
    exact hsets
  | true =>
    apply Or.inr
    rcases rollSession_cases r hr with ⟨hline, _, hdata, _⟩ | ⟨deal, u, g, hline, _, _, hg, _, hgdata, heff⟩
    · refine Or.inl ⟨rfl, by rw [SessionTask.handles, hline, Option.map_none], ?_⟩
      rcases hdata with ⟨_, hquiet⟩ | hoff
      · obtain ⟨x, hx, hset⟩ := List.any_eq_true.mp hsets
        rw [heffects] at hquiet
        cases x with
        | setDataAction a => exact absurd hx (hquiet a)
        | _ => cases hset
      · rw [← hafter]
        exact hoff
    · refine Or.inr ⟨rfl, _, _, handles_of_line hline, ?_⟩
      rw [hafter] at hgdata
      rcases handle_moves g hg with hreplies | ⟨hallowed, harms⟩
      · have hnone : setsAction e = false := by
          rw [setsAction, ← heffects, heff, List.any_cons, sets_none hreplies.moves]
          rfl
        rw [hsets] at hnone
        cases hnone
      · refine ⟨hgdata.trans harms.dataAction, ?_⟩
        generalize (command deal).1 = cmd at hallowed
        cases cmd with
        | list => rfl
        | stor => rfl
        | appe => rfl
        | retr => rfl
        | _ => cases hallowed

/-- A transfer command that is accepted posts nothing and leaves the session armed. -/
theorem asked_arms (h : Asked env s i) : ∃ e, (session env).Takes e ∧ e.before = s ∧ e.input = i ∧
    posted e = [] ∧ e.after.dataAction.armed = true := by
  obtain ⟨cmd, text, r, hcmd, hhandles, hr, hset⟩ := h
  have htakes : (session env).Takes ⟨s, i, r.session, r.effects⟩ := bind_eq_ok.mpr ⟨r, hr, rfl⟩
  refine ⟨_, htakes, rfl, rfl, posted_nil htakes ?_, ?_⟩
  · rw [action_of_handles hhandles]
    decide
  · rcases sets_cases htakes with ⟨hunset, _⟩ | ⟨_, hnone, _⟩ | ⟨_, cmd', _, _, hdata, harmed⟩
    · rw [setsAction, sets_of_mem hset] at hunset
      cases hunset
    · rw [hhandles] at hnone
      cases hnone
    · rw [hdata]
      exact harmed

/-- Nothing remembers a data connection that comes before the command. -/
theorem accept_forgotten (hpasv : s.dataAction = .pasvOk) (ha : a.task.action = .dataAccept) :
    (session env).step a s = .ok (s, []) := by
  refine bind_eq_ok.mpr ⟨{session := s}, ?_, rfl⟩
  unfold rollSession
  rw [ha]
  dsimp only
  rw [hpasv]

end

/-- **The transfer starts whichever side comes first**: never. A data connection that comes
before the command starts nothing, one that comes after it starts the transfer. -/
theorem never_commutes (env : Env) (s : Session) (a i : SessionInput) (hpasv : s.dataAction = .pasvOk)
    (ha : a.task.action = .dataAccept) (hi : Asked env s i) : ¬ Commutes env s a i := by
  intro hcommutes
  obtain ⟨hsome, hsame⟩ := hcommutes
  obtain ⟨e, htakes, hbefore, hinput, hnothing, harmed⟩ := asked_arms hi
  have hstep : (session env).step i s = .ok (e.after, e.effects) := by
    rw [← hbefore, ← hinput]
    exact htakes
  have hfirst : outcome env s a i = some ([], e.after.dataAction) := by
    have hposted : posted ⟨s, i, e.after, e.effects⟩ = [] := hnothing
    rw [outcome, Machine.trace_ok (accept_forgotten hpasv ha), Machine.trace_ok hstep, Machine.trace]
    dsimp only
    rw [hposted]
    rfl
  rw [hfirst, outcome, Machine.trace_ok hstep] at hsame
  cases haccept : (session env).step a e.after with
  | error f =>
    rw [Machine.trace_error haccept] at hsame
    cases hsame
  | ok r =>
    obtain ⟨t, es⟩ := r
    obtain ⟨d, hd, _⟩ := starts_armed (e := ⟨e.after, a, t, es⟩) haccept ha harmed
    rw [Machine.trace_ok haccept, Machine.trace] at hsame
    dsimp only at hsame
    rw [hd] at hsame
    injection hsame with hsame
    injection hsame with hposted _
    exact absurd hposted.symm (List.append_ne_nil_of_right_ne_nil _ (List.cons_ne_nil d []))

/-- The task of a data connection. -/
def dataConnection : SessionInput := ⟨.constant none, {fd := 7, action := .dataAccept}⟩

/-- An upload of a user that has asked for a port. -/
theorem never_commutes_upload :
    ∃ h, acceptSession Env.shipped.config 0 [] (.accept 7 "10.0.0.9".toList) = .ok h ∧
      ∃ s ∈ (session Env.shipped).states h.session sharePassive, s.logIn = true ∧
        ¬ Commutes Env.shipped s dataConnection (.read (.constant none) 7 "STOR up\r\n".toList) :=
  ⟨_, rfl, _, List.mem_of_getLast? rfl, rfl, never_commutes Env.shipped _ _ _ rfl rfl
    ⟨.stor, "up".toList, _, Or.inr (Or.inl rfl), rfl, rfl, by decide +kernel⟩⟩

/-- The same upload in both orders. -/
theorem upload_lost :
    ∃ h, acceptSession Env.shipped.config 0 [] (.accept 7 "10.0.0.9".toList) = .ok h ∧
      ∃ s ∈ (session Env.shipped).states h.session sharePassive,
        (s.logIn = true ∧ s.dataAction = .pasvOk) ∧
        (∃ d, outcome Env.shipped s (.read (.constant none) 7 "STOR up\r\n".toList) dataConnection = some ([d], .stor) ∧
          d.action = .storStart) ∧
        outcome Env.shipped s dataConnection (.read (.constant none) 7 "STOR up\r\n".toList) = some ([], .stor) ∧
        ¬ Commutes Env.shipped s dataConnection (.read (.constant none) 7 "STOR up\r\n".toList) :=
  ⟨_, rfl, _, List.mem_of_getLast? rfl, by decide +kernel, ⟨_, rfl, rfl⟩, by decide +kernel, by decide +kernel⟩

/-! ### One at a time -/

/-- What a step says of the transfer under way: a start begins one, a `TRANS_OK` ends it. -/
def carries (e : SessionEdge) : Option Bool :=
  if e.input.task.action = .transOk then some false
  else if startsTransfer e then some true
  else none

/-- A transfer has been started, and no `TRANS_OK` has been handled since. -/
def underWay (past : List SessionEdge) : Bool := (latest carries past).getD false

/-- A step starts one transfer at most, and none while one is under way. -/
def OneAtATime (now : List SessionEdge) (e : SessionEdge) : Prop :=
  (posted e).length ≤ 1 ∧ (underWay now = true → posted e = [])

/-- A data connection that comes while a transfer is under way finds that a transfer's start
or the server was the last to set the data action, and not a transfer command. -/
def Advanced (now : List SessionEdge) (e : SessionEdge) : Prop :=
  underWay now = true → e.input.task.action = .dataAccept → setBy now = none

instance (now : List SessionEdge) (e : SessionEdge) : Decidable (OneAtATime now e) :=
  inferInstanceAs (Decidable (_ ∧ (_ → _)))

instance (now : List SessionEdge) (e : SessionEdge) : Decidable (Advanced now e) :=
  inferInstanceAs (Decidable (_ → _ → _))

/-- The session is armed where a command was the last to set the data action. -/
def ArmedBy (past : List SessionEdge) (s : Session) : Prop := s.dataAction.armed = (setBy past).isSome

section
variable {env : Env} {past : List SessionEdge} {e : SessionEdge}

theorem armed_by_step (h : (session env).Takes e) (hpast : ArmedBy past e.before) : ArmedBy (past ++ [e]) e.after := by
  unfold ArmedBy setBy at *
  rw [latest_append]
  rcases sets_cases h with ⟨hsets, hsame⟩ | ⟨hsets, hnone, hoff⟩ | ⟨hsets, cmd, text, hhandles, harms, harmed⟩
  · rw [hsame, hpast, hsets]
    rfl
  · rw [hoff, hsets, hnone]
    rfl
  · rw [harms, harmed, hsets, hhandles]
    rfl

theorem one_step (h : (session env).Takes e) (hpast : ArmedBy past e.before) : OneAtATime past e ↔ Advanced past e := by
  constructor
  · intro hone hunder haction
    by_contra hset
    have harmed : e.before.dataAction.armed = true := by
      rw [hpast, Option.isSome_iff_ne_none]
      exact hset
    obtain ⟨d, hd, _⟩ := starts_armed h haction harmed
    rw [hone.2 hunder] at hd
    exact nomatch hd
  · intro hadvanced
    by_cases haction : e.input.task.action = .dataAccept
    · cases harmed : e.before.dataAction.armed with
      | true =>
        obtain ⟨d, hd, _⟩ := starts_armed h haction harmed
        refine ⟨by rw [hd]; rfl, fun hunder => ?_⟩
        rw [hpast, hadvanced hunder haction] at harmed
        exact nomatch harmed
      | false =>
        have hnothing : posted e = [] := by
          rw [List.eq_nil_iff_forall_not_mem]
          intro d hd
          rw [((takes_moves h).2 d (mem_posted.mp hd)).2.2] at harmed
          exact nomatch harmed
        exact ⟨by rw [hnothing]; exact Nat.zero_le _, fun _ => hnothing⟩
    · have hnothing := posted_nil h haction
      exact ⟨by rw [hnothing]; exact Nat.zero_le _, fun _ => hnothing⟩

end

/-- **One transfer at a time**, exactly when the data connections that come while a transfer
is under way find the data action set by something else than a transfer command. -/
theorem one_transfer_iff (env : Env) (address : Nat) (garbage : List Char) (t : SessionTask) (h : Handled)
    (hnew : acceptSession env.config address garbage t = .ok h) (inputs : List SessionInput) :
    Always OneAtATime ((session env).trace h.session inputs) ↔
      Always Advanced ((session env).trace h.session inputs) := by
  have hstart : ArmedBy [] h.session := by
    rw [ArmedBy, (acceptSession_writes _ _ _ _ h hnew).2.1]
    rfl
  exact always_iff inputs hstart (fun _ _ he hpast => armed_by_step he hpast) fun _ _ he hnow => one_step he hnow

/-- A transfer whose data listener takes two connections. -/
def connectTwice (fs : FileSystem) (command : List Char) : List SessionInput :=
  sharePassive ++ [.read fs 7 command, dataConnection, dataConnection]

theorem one_transfer_download :
    ∃ h, acceptSession Env.shipped.config 0 [] (.accept 7 "10.0.0.9".toList) = .ok h ∧
      Always OneAtATime ((session Env.shipped).trace h.session
        (connectTwice (.constant (some ⟨false, 42⟩)) "RETR kept\r\n".toList)) :=
  ⟨_, rfl, (one_transfer_iff Env.shipped 0 [] (.accept 7 "10.0.0.9".toList) _ rfl _).mpr (by decide +kernel)⟩

/-- The second connection of an upload starts the upload again. -/
theorem two_uploads_started :
    ∃ h, acceptSession Env.shipped.config 0 [] (.accept 7 "10.0.0.9".toList) = .ok h ∧
      ¬ Always OneAtATime ((session Env.shipped).trace h.session
        (connectTwice (.constant none) "STOR up\r\n".toList)) ∧
      ((session Env.shipped).trace h.session (connectTwice (.constant none) "STOR up\r\n".toList)).flatMap
          (fun e => (posted e).map DiskTask.action) =
        [.storStart, .storStart] :=
  ⟨_, rfl, by decide +kernel, by decide +kernel⟩

end HyperTransfer
