import HyperTransfer.Session.Transfers

/-! How many transfers a port is good for.

A `PASV` that gets its port is answered with 227 and leaves the data action
`DATA_PASV_OK`; a transfer command that is accepted takes it away again. `LIST`, `STOR` and
`RETR` look for it, `APPE` does not: the accepted transfers are as many as the ports at most
exactly while every `APPE` that is let through happens to find it (`passive_used_iff`). -/
namespace HyperTransfer
open CString History

/-- The reply to a `PASV` that has got its port. -/
def Effect.passive : Effect → Bool
  | .post buf _ => "227".toList.isPrefixOf buf
  | _ => false

/-- The step answers a `PASV` with 227. -/
def answersPasv (e : SessionEdge) : Bool := e.effects.any Effect.passive

/-- The step sets the data action to that of a transfer: a transfer command is accepted. -/
def acceptsTransfer (e : SessionEdge) : Bool := setsAction e && e.after.dataAction.armed

/-- A transfer is accepted on a port only, and there have been ports for all of them. -/
def PassiveUsed (now : List SessionEdge) (e : SessionEdge) : Prop :=
  (acceptsTransfer e = true → e.before.dataAction = .pasvOk) ∧
    (now ++ [e]).countP acceptsTransfer ≤ (now ++ [e]).countP answersPasv

/-- An `APPE` of a user that may upload finds a port. -/
def AppePassive (e : SessionEdge) : Prop :=
  (e.input.task.handles e.before).map Prod.fst = some .appe → e.before.logIn = true → e.before.uploadPer = true →
    e.before.dataAction = .pasvOk

instance (now : List SessionEdge) (e : SessionEdge) : Decidable (PassiveUsed now e) :=
  inferInstanceAs (Decidable ((_ → _) ∧ _))

instance (e : SessionEdge) : Decidable (AppePassive e) := inferInstanceAs (Decidable (_ → _ → _ → _))

/-- The ports that are answered for and not used up yet are no fewer than the one in hand. -/
def Ported (past : List SessionEdge) (s : Session) : Prop :=
  past.countP acceptsTransfer + (if s.dataAction = .pasvOk then 1 else 0) ≤ past.countP answersPasv

section
variable {env : Env} {fs : FileSystem} {s : Session} {t : SessionTask} {past : List SessionEdge} {e : SessionEdge}

/-! ### Who looks for the port -/

theorem comLIST_guarded : (comLIST s).Replies s ∨ s.dataAction = .pasvOk := by
  unfold comLIST
  split
  · exact Or.inl ⟨rfl, rfl⟩
  · split
    · exact Or.inl ⟨rfl, rfl⟩
    · rename_i hpasv
      exact Or.inr (not_not.mp hpasv)

theorem transfer_guarded {cmd : Command} (hcmd : cmd = .stor ∨ cmd = .retr) :
    Returns (cmd.handle env fs s) fun h => h.Replies s ∨ s.dataAction = .pasvOk := by
  have htransfers : cmd.Transfers := hcmd.imp_right Or.inr
  refine (transfer_comes htransfers).mono fun h hcomes => ?_
  by_cases hpass : cmd.Passes s
  · exact Or.inr (hpass.port hcmd)
  · cases hcomes with
    | refused => exact Or.inl ⟨rfl, rfl⟩
    | answered hpasses | stor hpasses | appe hpasses | retr hpasses => exact absurd hpasses hpass

/-- `APPE` asks for the right only. -/
theorem comAPPE_accepts (hlogin : s.logIn = true) (hupload : s.uploadPer = true) :
    Returns (Command.appe.handle env fs s) fun h => h.Arms .stor := by
  intro h hh
  cases transfer_comes (Or.inr (Or.inl rfl)) h hh with
  | refused hfails => exact absurd ⟨hlogin, hupload⟩ hfails
  | answered _ hcmd => exact absurd hcmd (by decide)
  | appe => exact ⟨rfl, rfl⟩

theorem handle_guarded {cmd : Command} (hcmd : cmd ≠ .appe) :
    Returns (cmd.handle env fs s) fun h => h.Replies s ∨ s.dataAction = .pasvOk := by
  cases cmd with
  | appe => exact absurd rfl hcmd
  | list => exact .ok comLIST_guarded
  | stor => exact transfer_guarded (Or.inl rfl)
  | retr => exact transfer_guarded (Or.inr rfl)
  | _ => exact handle_moves.mono fun _ h => Or.inl (h.resolve_right fun harms => nomatch harms.1)

/-! ### Steps -/

/-- Where no command has set the data action to `DATA_PASV_OK`, a `PASV` has been answered. -/
theorem pasv_answered (h : (session env).Takes e) (hnone : e.input.task.handles e.before = none)
    (hsets : setsAction e = true) (hafter : e.after.dataAction = .pasvOk) : answersPasv e = true := by
  obtain ⟨r, hr, hsession, heffects⟩ := takes_roll h
  rw [setsAction, ← heffects] at hsets
  rw [answersPasv, ← heffects]
  rw [← hsession] at hafter
  rw [SessionTask.handles, Option.map_eq_none_iff] at hnone
  cases rollSession_comes env _ _ _ r hr with
  | unheard => cases hsets
  | heard ht u hu deal v hframe =>
    rw [line_read ht hu hframe] at hnone
    cases hnone
  | announced ht text hpassive =>
    obtain ⟨rest, rfl⟩ := hpassive
    rfl
  | busy | storLoad | storStart | idle => cases hsets
  | listLoad | retrLoad | transOk => cases hafter

/-- A handler that only replies accepts nothing. -/
theorem accepts_moves {es : List Effect} {deal : List Char} (haccepts : acceptsTransfer e = true)
    (heffects : e.effects = .dispatch deal :: es) : es.filter Effect.moves ≠ [] := by
  intro hnone
  rw [acceptsTransfer, setsAction, heffects, List.any_cons, sets_none hnone] at haccepts
  cases haccepts

/-- What is accepted has found a port, where `APPE` has. -/
theorem accepts_guarded (h : (session env).Takes e) (happe : AppePassive e) (haccepts : acceptsTransfer e = true) :
    e.before.dataAction = .pasvOk := by
  obtain ⟨r, hr, hsession, heffects⟩ := takes_roll h
  rcases rollSession_cases r hr with ⟨_, _, hdata, _⟩ | ⟨deal, u, g, hline, hcore, hudata, hg, _, _, heff⟩
  · obtain ⟨hsets, harmed⟩ := Bool.and_eq_true_iff.mp haccepts
    rcases hdata with ⟨_, hquiet⟩ | hoff
    · obtain ⟨x, hx, hset⟩ := List.any_eq_true.mp hsets
      rw [← heffects] at hx
      cases x with
      | setDataAction a => exact absurd hx (hquiet a)
      | _ => exact nomatch hset
    · rw [hsession, harmed] at hoff
      exact nomatch hoff
  · have hmoves := accepts_moves haccepts (heffects.symm.trans heff)
    by_cases hcmd : (command deal).1 = .appe
    · obtain ⟨hallowed, _⟩ := (handle_moves g hg).resolve_left fun hreplies => hmoves hreplies.moves
      have hidentity : (u.prepared deal).identity = e.before.identity := Session.identity_of_core hcore
      rw [hcmd, hidentity] at hallowed
      exact happe (by rw [handles_of_line hline, Option.map_some, hcmd]) hallowed.1 hallowed.2
    · exact hudata.symm.trans ((handle_guarded hcmd g hg).resolve_left fun hreplies => hmoves hreplies.moves)

/-- An `APPE` that is let through is accepted. -/
theorem appe_accepted (h : (session env).Takes e) (hcmd : (e.input.task.handles e.before).map Prod.fst = some .appe)
    (hlogin : e.before.logIn = true) (hupload : e.before.uploadPer = true) : acceptsTransfer e = true := by
  obtain ⟨r, hr, hsession, heffects⟩ := takes_roll h
  rcases rollSession_cases r hr with ⟨hline, _⟩ | ⟨deal, u, g, hline, hcore, _, hg, _, hgdata, heff⟩
  · rw [SessionTask.handles, hline] at hcmd
    cases hcmd
  · rw [handles_of_line hline] at hcmd
    injection hcmd with hcmd
    have hidentity : (u.prepared deal).identity = e.before.identity := Session.identity_of_core hcore
    have hu : (u.prepared deal).logIn = true ∧ (u.prepared deal).uploadPer = true :=
      ⟨(congrArg Session.Identity.logIn hidentity).trans hlogin,
        (congrArg Session.Identity.uploadPer hidentity).trans hupload⟩
    dsimp only at hcmd
    rw [hcmd] at hg
    have harms := comAPPE_accepts hu.1 hu.2 g hg
    have hset : Effect.setDataAction .stor ∈ g.effects.filter Effect.moves := by
      rw [harms.moves]
      exact List.mem_singleton_self _
    rw [acceptsTransfer, ← hsession, hgdata, harms.dataAction, setsAction, ← heffects, heff, List.any_cons,
      sets_of_mem (List.mem_filter.mp hset).1, Bool.or_true]
    rfl

theorem ported_step (h : (session env).Takes e) (happe : AppePassive e) (hpast : Ported past e.before) :
    Ported (past ++ [e]) e.after := by
  unfold Ported at *
  rw [List.countP_append, List.countP_append, List.countP_singleton, List.countP_singleton]
  have hguarded := accepts_guarded h happe
  rcases sets_cases h with ⟨hsets, hsame⟩ | ⟨hsets, hnone, hoff⟩ | ⟨hsets, cmd, text, _, harms, harmed⟩
  · have haccepts : acceptsTransfer e = false := by
      rw [acceptsTransfer, hsets, Bool.false_and]
    rw [haccepts, hsame, if_neg Bool.false_ne_true]
    omega
  · have haccepts : acceptsTransfer e = false := by
      rw [acceptsTransfer, hoff, Bool.and_false]
    rw [haccepts, if_neg Bool.false_ne_true]
    by_cases hafter : e.after.dataAction = .pasvOk
    · rw [if_pos hafter, pasv_answered h hnone hsets hafter, if_pos rfl]
      omega
    · rw [if_neg hafter]
      omega
  · have haccepts : acceptsTransfer e = true := by
      rw [acceptsTransfer, hsets, harms, harmed, Bool.and_true]
    have hafter : e.after.dataAction ≠ .pasvOk := by
      intro hpasv
      rw [← harms, hpasv] at harmed
      exact nomatch harmed
    rw [if_pos (hguarded haccepts)] at hpast
    rw [haccepts, if_neg hafter, if_pos rfl]
    omega

end

/-- **A transfer uses up a port**, exactly when every `APPE` of a user that may upload finds
one. -/
theorem passive_used_iff (env : Env) (address : Nat) (garbage : List Char) (t : SessionTask) (h : Handled)
    (hnew : acceptSession env.config address garbage t = .ok h) (inputs : List SessionInput) :
    Always PassiveUsed ((session env).trace h.session inputs) ↔
      ∀ e ∈ (session env).trace h.session inputs, AppePassive e := by
  have hstart : Ported [] h.session := by
    rw [Ported, (acceptSession_writes _ _ _ _ h hnew).2.1]
    exact Nat.le_refl 0
  constructor
  · intro hused e he hcmd hlogin hupload
    obtain ⟨now, rest, hrun⟩ := List.append_of_mem he
    have htakes := (always_kept (H := fun _ _ => True) inputs trivial (fun _ _ _ _ => trivial) now e rest hrun).1
    exact (hused now e rest hrun).1 (appe_accepted htakes hcmd hlogin hupload)
  · intro happe now e rest hrun
    have hported := always_history (m := session env) (C := fun _ e => AppePassive e) [] hstart
      (fun _ _ he hC hpast => ported_step he hC hpast)
      (fun now e rest hrun => happe e (hrun ▸ List.mem_append_right now (List.mem_cons_self ..)))
    obtain ⟨htakes, hnow⟩ := hported now e rest hrun
    have hC : AppePassive e := happe e (hrun ▸ List.mem_append_right now (List.mem_cons_self ..))
    exact ⟨accepts_guarded htakes hC, Nat.le_trans (Nat.le_add_right _ _) (ported_step htakes hC hnow)⟩

/-- A download, and one more command while it is under way. -/
def downloadThen (command : List Char) : List SessionInput :=
  sharePassive ++ [.read (.constant (some ⟨false, 42⟩)) 7 "RETR kept\r\n".toList, dataConnection,
    .read (.constant none) 7 command]

theorem passive_used_download :
    ∃ h, acceptSession Env.shipped.config 0 [] (.accept 7 "10.0.0.9".toList) = .ok h ∧
      Always PassiveUsed ((session Env.shipped).trace h.session (downloadThen "STOR up\r\n".toList)) :=
  ⟨_, rfl, (passive_used_iff Env.shipped 0 [] (.accept 7 "10.0.0.9".toList) _ rfl _).mpr (by decide +kernel)⟩

/-- An `APPE` takes over the data connection of a download. -/
theorem appe_unported :
    ∃ h, acceptSession Env.shipped.config 0 [] (.accept 7 "10.0.0.9".toList) = .ok h ∧
      ¬ Always PassiveUsed ((session Env.shipped).trace h.session (downloadThen "APPE up\r\n".toList)) ∧
      ((session Env.shipped).trace h.session (downloadThen "APPE up\r\n".toList)).countP answersPasv = 1 ∧
      ((session Env.shipped).trace h.session (downloadThen "APPE up\r\n".toList)).countP acceptsTransfer = 2 :=
  ⟨_, rfl, by decide +kernel, by decide +kernel, by decide +kernel⟩

end HyperTransfer
