import HyperTransfer.Session.Writes

/-! Users, passwords and rights.

The identity of a session moves by `USER` and `PASS` alone (`Identity.Next`), and
`rollSession_next` says a task moves it so. Over that relation a right is held only
after a password of a record that grants it (`rights_need_password`), and
`rights_agree_iff` says when the rights held are those of the name the session
carries: a `USER` given after the login is what parts them. -/
namespace HyperTransfer
open CString

inductive Right where
  | upload | download | dele
deriving DecidableEq

def UserList.grants (u : UserList) : Right → Bool
  | .upload => u.uploadPer
  | .download => u.downloadPer
  | .dele => u.delePer

namespace Session.Identity

def holds (i : Identity) : Right → Bool
  | .upload => i.uploadPer
  | .download => i.downloadPer
  | .dele => i.delePer

/-- How a command, or a task without one, moves the identity. -/
inductive Next (users : List UserList) : Option (Command × List Char) → Identity → Identity → Prop where
  | none (i : Identity) : Next users none i i
  | other (cmd : Command) (text : List Char) (i : Identity) (h : cmd.login = false) :
      Next users (some (cmd, text)) i i
  | user (name : List Char) (i : Identity) : Next users (some (.user, name)) i (i.called users name)
  | guest (pass : List Char) (i : Identity) (h : i.Guest) :
      Next users (some (.pass, pass)) i {i with logIn := true}
  | admitted (pass : List Char) (i : Identity) (u : UserList) (h : i.Proves pass)
      (hu : i.userInfo = some u) : Next users (some (.pass, pass)) i (i.admitted u)
  | refused (pass : List Char) (i : Identity) (hg : ¬ i.Guest) (hp : ¬ i.Proves pass) :
      Next users (some (.pass, pass)) i i

end Session.Identity

open Session (Identity)

section
variable {env : Env}

/-- Every task moves the identity as its command says. -/
theorem rollSession_next (fs : FileSystem) (t : SessionTask) (s : Session) :
    Returns (rollSession env fs t s) fun h =>
      Identity.Next env.users (t.handles s) s.identity h.session.identity := by
  refine rollSession_cases.mono fun h hh => ?_
  rcases hh with ⟨hline, hcore, _⟩ | ⟨deal, u, g, hline, hu, _, hg, hcore, _, _⟩
  · have hi : h.session.identity = s.identity := Session.identity_of_core hcore
    rw [hi, SessionTask.handles, hline]
    exact .none _
  · have hi : h.session.identity = g.session.identity :=
      Session.identity_of_core hcore
    have hbefore : (u.prepared deal).identity = s.identity :=
      Session.identity_of_core hu
    rw [hi, handles_of_line hline, ← hbefore]
    generalize hcmd : (command deal).1 = cmd at hg ⊢
    cases hl : cmd.login with
    | false =>
      rw [handle_identity hl g hg]
      exact .other _ _ _ hl
    | true =>
      have huser : cmd = .user ∨ cmd = .pass := by simpa [Command.login] using hl
      rcases huser with rfl | rfl
      · rw [(comUSER_writes env.users g hg).2.2]
        exact .user _ _
      · rcases (comPASS_writes g hg).2.2 with ⟨hguest, he⟩ | ⟨hp, r, hr, he⟩ | ⟨hguest, hp, he⟩
        · rw [he]
          exact .guest _ _ hguest
        · rw [he]
          exact .admitted _ _ r hp hr
        · rw [he]
          exact .refused _ _ hguest hp

/-- A run's step, as far as the identity goes. -/
theorem takes_next {e : Edge SessionInput Session Effect} (h : (session env).Takes e) :
    Identity.Next env.users (e.input.task.handles e.before) e.before.identity e.after.identity := by
  obtain ⟨r, hr, hafter, _⟩ := takes_roll h
  rw [← hafter]
  exact rollSession_next e.input.fs e.input.task e.before r hr

/-! ### Rights need a password -/

/-- The step presents a password that some record granting the right has. -/
def Presents (users : List UserList) (right : Right) (e : Edge SessionInput Session Effect) : Prop :=
  ∃ pass r, e.input.task.handles e.before = some (.pass, pass) ∧ r ∈ users ∧ r.grants right ∧
    strncmp pass r.pass passLen

/-- What a session knows of its user is a record's. -/
def Session.Identity.Listed (users : List UserList) (i : Identity) : Prop :=
  ∀ u, i.userInfo = some u → u ∈ users ∧ i.password = strncpy passLen u.pass

theorem seekUser_mem {users : List UserList} {name : List Char} {u : UserList}
    (h : seekUser users name = some u) : u ∈ users := List.mem_of_find?_eq_some h

theorem called_holds (users : List UserList) (name : List Char) (i : Identity) :
    (i.called users name).holds = i.holds ∧ (i.called users name).logIn = i.logIn := by
  unfold Identity.called
  split
  · exact ⟨rfl, rfl⟩
  · split
    · exact ⟨rfl, rfl⟩
    · split <;> exact ⟨rfl, rfl⟩

theorem admitted_holds (u : UserList) (i : Identity) : (i.admitted u).holds = u.grants := by
  funext right
  cases right <;> rfl

theorem called_listed {users : List UserList} {i : Identity} (name : List Char) (h : i.Listed users) :
    (i.called users name).Listed users := by
  unfold Identity.called
  split
  · exact h
  · split
    · rename_i u hu
      intro r hr
      cases hr
      exact ⟨seekUser_mem hu, rfl⟩
    · split <;> exact h

theorem next_listed {users : List UserList} {c : Option (Command × List Char)} {i j : Identity}
    (hn : Identity.Next users c i j) (h : i.Listed users) : j.Listed users := by
  cases hn with
  | none => exact h
  | other => exact h
  | user name => exact called_listed name h
  | guest => exact h
  | admitted => exact h
  | refused => exact h

/-- The password a session compares with is the one of its record. -/
theorem proves_password {users : List UserList} {i : Identity} {u : UserList} {pass : List Char}
    (h : i.Listed users) (hp : i.Proves pass) (hu : i.userInfo = some u) :
    u ∈ users ∧ strncmp pass u.pass passLen := by
  obtain ⟨hmem, hpass⟩ := h u hu
  refine ⟨hmem, ?_⟩
  have hcmp := hp.2.2
  rw [hpass] at hcmp
  simpa only [strncmp, strncpy, List.take_take, Nat.min_self] using hcmp

/-- **No privilege without a password.** Whatever a session is sent, a right it
holds was opened by a `PASS` with the password of a record that grants it. -/
theorem rights_need_password (env : Env) (address : Nat) (garbage : List Char) (t : SessionTask) (h : Handled)
    (hnew : acceptSession env.config address garbage t = .ok h) (inputs : List SessionInput)
    (right : Right) :
    ∀ now e rest, (session env).trace h.session inputs = now ++ e :: rest →
      e.after.identity.holds right → ∃ p ∈ now ++ [e], Presents env.users right p := by
  intro now e rest hrun
  have hstart := (acceptSession_writes _ _ _ _ h hnew).2.2.1
  have hfirst : h.session.identity.Listed env.users ∧
      (h.session.identity.holds right → ∃ p ∈ [], Presents env.users right p) := by
    rw [hstart]
    refine ⟨fun u hu => (nomatch hu), fun hr => ?_⟩
    cases right <;> exact nomatch hr
  refine fun hr => (Machine.history (m := session env)
    (H := fun past s => s.identity.Listed env.users ∧
      (s.identity.holds right → ∃ p ∈ past, Presents env.users right p))
    (fun _ => True) [] hfirst ?_ (fun _ _ => trivial) now e rest hrun).2.2.2 hr
  intro past e he _ hbefore
  obtain ⟨hlisted, hpast⟩ := hbefore
  have hn := takes_next he
  refine ⟨next_listed hn hlisted, fun hr => ?_⟩
  have hold (hb : e.before.identity.holds right) : ∃ p ∈ past ++ [e], Presents env.users right p := by
    obtain ⟨p, hp, hpresents⟩ := hpast hb
    exact ⟨p, List.mem_append_left _ hp, hpresents⟩
  generalize hc : e.input.task.handles e.before = c at hn
  generalize e.after.identity = j at hn hr
  generalize hi : e.before.identity = i at hn hold hlisted
  cases hn with
  | none => exact hold hr
  | other => exact hold hr
  | user name => exact hold (by rwa [(called_holds _ name i).1] at hr)
  | guest => exact hold (by cases right <;> exact hr)
  | admitted pass _ u hp hu =>
    rw [admitted_holds] at hr
    obtain ⟨hmem, hpass⟩ := proves_password hlisted hp hu
    exact ⟨e, List.mem_append_right _ (List.mem_singleton_self e), pass, u, hc, hmem, hr, hpass⟩
  | refused => exact hold hr

theorem rights_need_password_share :
    ∃ h now e, acceptSession Env.shipped.config 0 [] (.accept 7 "10.0.0.9".toList) = .ok h ∧
      (session Env.shipped).trace h.session shareLogin = now ++ [e] ∧
      ∃ p ∈ now ++ [e], Presents Env.shipped.users .dele p := by
  refine ⟨_, [_], _, rfl, rfl, ?_⟩
  exact rights_need_password Env.shipped 0 [] (.accept 7 "10.0.0.9".toList) _ rfl shareLogin .dele _ _ []
    rfl (by decide +kernel)

/-! ### Rights and names -/

instance (f g : Right → Bool) : Decidable (f = g) :=
  decidable_of_iff (f .upload = g .upload ∧ f .download = g .download ∧ f .dele = g .dele)
    ⟨fun ⟨hu, hd, he⟩ => funext fun right => by cases right <;> assumption, fun h => by simp [h]⟩

/-- The rights are those of the record of that name, or none for the anonymous user. -/
def Entitled (users : List UserList) (name : List Char) (rights : Right → Bool) : Prop :=
  (∃ r ∈ users, r.user = name ∧ r.grants = rights) ∨
    (strncasecmp name "Anonymous".toList userLen ∧ rights = fun _ => false)

instance (users : List UserList) (name : List Char) (rights : Right → Bool) :
    Decidable (Entitled users name rights) := inferInstanceAs (Decidable (_ ∨ _))

/-- Logged in, the session holds the rights of its current name. -/
def Session.Identity.Agrees (users : List UserList) (i : Identity) : Prop :=
  i.logIn → Entitled users i.username i.holds

instance (users : List UserList) (i : Identity) : Decidable (i.Agrees users) :=
  inferInstanceAs (Decidable (_ → _))

/-- A command that keeps name and rights together: a `USER` given while logged in
names someone with exactly the rights held, and a password accepted under the name
`BGIShare`, which looks no record up, is that of a record with the rights of that name. -/
def Session.Identity.Consistent (users : List UserList) (i : Identity) :
    Option (Command × List Char) → Prop
  | some (.user, name) => i.logIn →
    if strncasecmp name "BGIShare".toList commandSize then Entitled users "BGIShare".toList i.holds
    else
      match seekUser users name with
      | some u => Entitled users u.user i.holds
      | none => strncasecmp name "Anonymous".toList commandSize → i.holds = fun _ => false
  | some (.pass, pass) => i.Proves pass → i.username = "BGIShare".toList →
    ∀ u, i.userInfo = some u → Entitled users "BGIShare".toList u.grants
  | _ => True

/-- Where the name and the rights of a session come from. -/
structure Session.Identity.Known (users : List UserList) (i : Identity) : Prop where
  listed : i.Listed users
  named : ∀ u, i.userInfo = some u →
    i.username = u.user ∨ i.username = "Anonymous".toList ∨ i.username = "BGIShare".toList
  out : i.logIn = false → i.holds = fun _ => false

theorem strncpy_user (u : UserList) : strncpy userLen u.user = u.user :=
  strncpy_of_le (Nat.le_of_lt u.user_lt)

theorem next_known {users : List UserList} {c : Option (Command × List Char)} {i j : Identity}
    (hn : Identity.Next users c i j) (h : i.Known users) : j.Known users := by
  refine ⟨next_listed hn h.listed, ?_, ?_⟩
  · cases hn with
    | none => exact h.named
    | other => exact h.named
    | user name =>
      unfold Identity.called
      split
      · exact fun u _ => Or.inr (Or.inr rfl)
      · split
        · rename_i u _
          intro r hr
          cases hr
          exact Or.inl (strncpy_user u)
        · split
          · exact fun u _ => Or.inr (Or.inl rfl)
          · exact h.named
    | guest => exact h.named
    | admitted => exact h.named
    | refused => exact h.named
  · cases hn with
    | none => exact h.out
    | other => exact h.out
    | user name =>
      rw [(called_holds users name i).1, (called_holds users name i).2]
      exact h.out
    | guest => exact fun hl => nomatch hl
    | admitted => exact fun hl => nomatch hl
    | refused => exact h.out

/-- A name no record starts with, ignoring case, is no record's name. -/
theorem seekUser_none {users : List UserList} {name : List Char} (h : seekUser users name = none)
    {r : UserList} (hr : r ∈ users) : r.user.map Char.toLower ≠ name.map Char.toLower := by
  intro he
  have hnone := List.find?_eq_none.mp h r hr
  apply hnone
  have hlen : r.user.length = name.length := by
    have := congrArg List.length he
    simpa only [List.length_map] using this
  rw [strncasecmp, List.take_length, ← hlen, List.take_length, he, beq_self_eq_true]

/-- Comparing whole arrays compares the texts, ignoring case. -/
theorem strncasecmp_whole {a b : List Char} {n : Nat} (ha : a.length ≤ n) (hb : b.length ≤ n) :
    strncasecmp a b n = true ↔ a.map Char.toLower = b.map Char.toLower := by
  rw [strncasecmp, List.take_of_length_le ha, List.take_of_length_le hb, beq_iff_eq]

/-- `USER` keeps name and rights together exactly when it is consistent. -/
theorem called_agrees {users : List UserList} {name : List Char} {i : Identity}
    (hname : name.length ≤ commandSize) (h : i.Agrees users) :
    (i.called users name).Agrees users ↔ i.Consistent users (some (.user, name)) := by
  obtain ⟨hholds, hlogin⟩ := called_holds users name i
  unfold Identity.Agrees
  rw [hholds, hlogin]
  unfold Identity.called Identity.Consistent
  by_cases hb : strncasecmp name "BGIShare".toList commandSize
  · simp only [hb, if_true]
  · simp only [hb, Bool.false_eq_true, if_false]
    cases hu : seekUser users name with
    | some u => simp only [strncpy_user]
    | none =>
      by_cases ha : strncasecmp name "Anonymous".toList commandSize
      · have hall : name.map Char.toLower = "Anonymous".toList.map Char.toLower :=
          (strncasecmp_whole hname (by decide)).mp ha
        simp only [ha, if_true, true_implies]
        refine imp_congr_right fun _ => ⟨?_, fun hr => Or.inr ⟨by decide, hr⟩⟩
        intro hentitled
        rcases hentitled with ⟨r, hr, hruser, _⟩ | ⟨_, hr⟩
        · exact absurd (by rw [hruser, hall]) (seekUser_none hu hr)
        · exact hr
      · simp only [ha, Bool.false_eq_true, if_false, false_implies, implies_true, iff_true]
        exact h

/-- One step keeps name and rights together exactly when its command is consistent. -/
theorem next_agrees {users : List UserList} {c : Option (Command × List Char)} {i j : Identity}
    (hn : Identity.Next users c i j) (hc : ∀ cmd text, c = some (cmd, text) → text.length ≤ commandSize)
    (hk : i.Known users) (h : i.Agrees users) : j.Agrees users ↔ i.Consistent users c := by
  cases hn with
  | none => exact iff_of_true h trivial
  | other cmd text _ hcmd =>
    apply iff_of_true h
    cases cmd with
    | user => exact absurd hcmd (by decide)
    | pass => exact absurd hcmd (by decide)
    | _ => trivial
  | user name => exact called_agrees (hc _ _ rfl) h
  | guest pass _ hg =>
    refine iff_of_true (fun _ => ?_) fun hp => absurd hg hp.1
    cases hl : i.logIn with
    | true => exact h hl
    | false => exact Or.inr ⟨hg, hk.out hl⟩
  | admitted pass _ u hp hu =>
    have hafter : (i.admitted u).Agrees users ↔ Entitled users i.username u.grants := by
      unfold Identity.Agrees
      rw [admitted_holds]
      exact ⟨fun hall => hall rfl, fun he _ => he⟩
    rw [hafter]
    rcases hk.named u hu with hname | hname | hname
    · have hself : Entitled users i.username u.grants := Or.inl ⟨u, (hk.listed u hu).1, hname.symm, rfl⟩
      apply iff_of_true hself
      intro _ hb v hv
      rw [hu] at hv
      cases hv
      rwa [hb] at hself
    · exact absurd (by rw [Identity.Guest, hname]; decide) hp.1
    · rw [hname]
      refine ⟨?_, fun hall => hall hp hname u hu⟩
      intro he _ _ v hv
      rw [hu] at hv
      cases hv
      exact he
  | refused pass _ hg hp => exact iff_of_true h fun hpass => absurd hpass hp

theorem handles_length {t : SessionTask} {s : Session} {cmd : Command} {text : List Char}
    (h : t.handles s = some (cmd, text)) : text.length ≤ commandSize := by
  unfold SessionTask.handles at h
  obtain ⟨⟨deal, u⟩, _, he⟩ := Option.map_eq_some_iff.mp h
  cases he
  exact strncpy_length_le _ _

/-- **Identity and rights.** In every state of a session the rights held are those of
its current name, exactly as long as every command it handles is consistent. -/
theorem rights_agree_iff (env : Env) (address : Nat) (garbage : List Char) (t : SessionTask) (h : Handled)
    (hnew : acceptSession env.config address garbage t = .ok h) (inputs : List SessionInput) :
    (∀ s ∈ (session env).states h.session inputs, s.identity.Agrees env.users) ↔
      ∀ e ∈ (session env).trace h.session inputs,
        e.before.identity.Consistent env.users (e.input.task.handles e.before) := by
  have hstart := (acceptSession_writes _ _ _ _ h hnew).2.2.1
  have hknown : h.session.identity.Known env.users := by
    rw [hstart]
    refine ⟨fun u hu => (nomatch hu), fun u hu => (nomatch hu), fun _ => ?_⟩
    funext right
    cases right <;> rfl
  have hagrees : h.session.identity.Agrees env.users := by
    rw [hstart]
    exact fun hl => nomatch hl
  have hall : ∀ s ∈ (session env).states h.session inputs, s.identity.Known env.users :=
    Machine.invariant_states (P := fun s : Session => s.identity.Known env.users) (fun _ => True) hknown
      (fun e he _ hk => next_known (takes_next he) hk) (fun _ _ => trivial)
  have hboth : (∀ s ∈ (session env).states h.session inputs,
      s.identity.Known env.users ∧ s.identity.Agrees env.users) ↔
      ∀ e ∈ (session env).trace h.session inputs,
        e.before.identity.Consistent env.users (e.input.task.handles e.before) :=
    Machine.invariant_iff ⟨hknown, hagrees⟩ fun e he ⟨hk, ha⟩ => by
      have hn := takes_next he
      rw [← next_agrees hn (fun _ _ hc => handles_length hc) hk ha]
      exact ⟨fun hi => hi.2, fun hi => ⟨next_known hn hk, hi⟩⟩
  rw [← hboth]
  exact ⟨fun ha s hs => ⟨hall s hs, ha s hs⟩, fun ha s hs => (ha s hs).2⟩

theorem rights_agree_share :
    ∃ h, acceptSession Env.shipped.config 0 [] (.accept 7 "10.0.0.9".toList) = .ok h ∧
      ((∀ s ∈ (session Env.shipped).states h.session shareLogin, s.identity.Agrees Env.shipped.users) ↔
        ∀ e ∈ (session Env.shipped).trace h.session shareLogin,
          e.before.identity.Consistent Env.shipped.users (e.input.task.handles e.before)) :=
  ⟨_, rfl, rights_agree_iff Env.shipped 0 [] (.accept 7 "10.0.0.9".toList) _ rfl shareLogin⟩

/-- Logged in as `share`, a client says `USER test1` and keeps the rights of `share`. -/
theorem rights_disagree_renamed :
    ∃ h, acceptSession Env.shipped.config 0 [] (.accept 7 "10.0.0.9".toList) = .ok h ∧
      ∃ s ∈ (session Env.shipped).states h.session
          (shareLogin ++ [.read (.constant none) 7 "USER test1\r\n".toList]),
        s.logIn ∧ s.username = "test1".toList ∧ ¬ s.identity.Agrees Env.shipped.users :=
  ⟨_, rfl, by decide +kernel⟩

end
end HyperTransfer
