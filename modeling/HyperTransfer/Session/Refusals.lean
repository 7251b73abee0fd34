import HyperTransfer.Session.Writes

/-! What a refused command leaves behind.

The handlers answer a command with a reply; a reply of the 400s or the 500s refuses it. A
refused command leaves who the client is, where it is and what it is about to transfer as they
were. Two do not: a `USER` for the anonymous user, whom no record of the list goes with, is
named before it is refused, and a `CWD` without an argument has gone to the root directory
(`refused_kept_iff`). -/
namespace HyperTransfer
open CString

/-- The code of a reply is in the 400s or the 500s. -/
def refusal (buf : List Char) : Bool := buf.head? = some '4' || buf.head? = some '5'

/-- A refusal is posted. -/
def Effect.refuses : Effect → Bool
  | .post buf _ => refusal buf
  | _ => false

def Handled.refuses (h : Handled) : Bool := h.effects.any Effect.refuses

/-- Who the client is, where it is, and the transfer it is about to make. -/
def Session.standing (s : Session) : Session.Identity × List Char × List Char × DataAction × Int :=
  (s.identity, s.rootPath, s.curPath, s.dataAction, s.restSize)

/-- A refused command has left the session as it stood. -/
def Handled.Stands (s : Session) (h : Handled) : Prop := h.refuses = true → h.session.standing = s.standing

/-- The commands that change the session and are refused. -/
def Session.Spoiled (users : List UserList) (s : Session) : Command → Prop
  | .user =>
    (¬ s.cmpProcessingCommand "BGIShare".toList ∧ seekUser users s.processingCommand = none) ∧
      s.cmpProcessingCommand "Anonymous".toList ∧ s.username ≠ "Anonymous".toList
  | .cwd => s.processingCommand = [] ∧ s.curPath ≠ strncpy pathSize s.rootPath
  | .cdup => s.processingCommand = [] ∧ s.curPath ≠ strncpy pathSize s.rootPath
  | _ => False

/-- What is left of `USER` once the anonymous user has been named. -/
def Session.userNamed (users : List UserList) (t : Session) : Except Fault Handled :=
  if t.cmpProcessingCommand "BGIShare".toList then
    .ok ((t.setUsername "BGIShare".toList).answer "331 User name okay, need password.\r\n".toList)
  else
    match seekUser users t.processingCommand with
    | some u => do
      let s ← ((t.setUserInfo u).setUsername u.user).setPassword
      return s.answer (← compose ["331 Password required for ".toList, s.processingCommand, "\r\n".toList])
    | none => .ok (t.answer "530 Not logged in.\r\n".toList)

section
variable {users : List UserList} {fs : FileSystem} {s t : Session} {h : Handled} {text : List Char}

theorem stands_kept (hkept : h.session.standing = s.standing) : h.Stands s := fun _ => hkept

theorem stands_granted (hgranted : h.refuses = false) : h.Stands s :=
  fun hrefuses => nomatch hgranted.symm.trans hrefuses

theorem refusal_strncpy (n : Nat) (text : List Char) : refusal (strncpy (n + 1) text) = refusal text := by
  rw [refusal, refusal, strncpy, List.head?_take, if_neg (Nat.succ_ne_zero n)]

/-- A reply put together is granted where its first part is. -/
theorem composed_granted {first : List Char} {parts : List (List Char)} (hfirst : ∀ rest, refusal (first ++ rest) = false) :
    Returns (compose (first :: parts)) fun text => ∀ t : Session, (t.answer text).refuses = false := by
  intro text htext t
  obtain ⟨rfl, _⟩ := (concat_eq_ok (by decide)).mp htext
  show (refusal (strncpy (1460 + 1) (first :: parts).flatten) || false) = false
  rw [refusal_strncpy, List.flatten_cons, hfirst, Bool.or_false]

/-! ### Handlers -/

/-- `USER` refuses what no record goes with. -/
theorem userNamed_refuses : Returns (t.userNamed users) fun h =>
    (h.refuses = true ↔ ¬ t.cmpProcessingCommand "BGIShare".toList ∧ seekUser users t.processingCommand = none) ∧
      (h.refuses = true → h.session.standing = t.standing) := by
  have hgrants {h : Handled} (hgranted : h.refuses = false) {P : Prop} (hP : ¬ P) :
      (h.refuses = true ↔ P) ∧ (h.refuses = true → h.session.standing = t.standing) := by
    rw [hgranted]
    exact ⟨iff_of_false Bool.false_ne_true hP, fun h => nomatch h⟩
  unfold Session.userNamed
  split
  · rename_i hb
    exact .ok (hgrants rfl fun hnot => hnot.1 hb)
  · rename_i hb
    split
    · rename_i u hseek
      exact .ok_bind (.bind (composed_granted fun _ => rfl) fun text htext =>
        .ok (hgrants (htext _) fun hnone => nomatch hseek.symm.trans hnone.2))
    · rename_i hseek
      exact .ok ⟨iff_of_true rfl ⟨hb, hseek⟩, fun _ => rfl⟩

/-- The anonymous user is named first. -/
theorem comUSER_named (users : List UserList) (s : Session) : ∃ t : Session, comUSER users s = t.userNamed users ∧
    t.processingCommand = s.processingCommand ∧
      (t.standing = s.standing ↔ ¬ (s.cmpProcessingCommand "Anonymous".toList ∧ s.username ≠ "Anonymous".toList)) := by
  refine ⟨if s.cmpProcessingCommand "Anonymous".toList then
    (s.setUsername "Anonymous".toList).setRetCommand "331 User name okay, need password.\r\n".toList else s, rfl, ?_, ?_⟩
  · split <;> rfl
  · split
    · rename_i ha
      simp only [ha, true_and, not_not]
      constructor
      · intro hsame
        exact (congrArg (fun p => p.1.username) hsame).symm
      · intro husername
        have hname : strncpy userLen "Anonymous".toList = s.username := husername.symm
        show (({s.identity with username := strncpy userLen "Anonymous".toList} : Session.Identity), _) = _
        rw [hname]
        rfl
    · rename_i ha
      exact iff_of_true rfl fun hboth => ha hboth.1

/-- The anonymous user is named before `USER` looks for a record. -/
theorem comUSER_stands : Returns (comUSER users s) fun h => h.Stands s ↔ ¬ s.Spoiled users .user := by
  obtain ⟨t, hnamed, hcommand, hstanding⟩ := comUSER_named users s
  rw [hnamed]
  refine userNamed_refuses.mono fun h hh => ?_
  obtain ⟨hrefused, hkept⟩ := hh
  unfold Session.cmpProcessingCommand at hrefused
  rw [hcommand] at hrefused
  unfold Handled.Stands Session.Spoiled
  rw [not_and, ← hstanding]
  constructor
  · intro h hnone
    have hr := hrefused.mpr hnone
    exact (hkept hr).symm.trans (h hr)
  · intro h hr
    exact (hkept hr).trans (h (hrefused.mp hr))

theorem comPASS_stands : Returns (comPASS s) fun h => h.Stands s := by
  unfold comPASS
  split
  · exact .ok (stands_granted rfl)
  · split
    · split
      · exact .bind_any fun t => .bind (composed_granted fun _ => rfl) fun text htext =>
          .ok (stands_granted (htext t))
      · exact .ok (stands_kept rfl)
    · exact .ok (stands_kept rfl)

theorem comREST_stands : Returns (comREST s) fun h => h.Stands s := by
  unfold comREST
  split
  · exact .bind (composed_granted fun _ => rfl) fun text htext => .ok (stands_granted (htext _))
  · exact .ok (stands_granted rfl)

/-- `CWD` goes to the root before it refuses an empty argument. -/
theorem comCWD_stands : Returns (comCWD fs s) fun h =>
    h.Stands s ↔ ¬ (s.processingCommand = [] ∧ s.curPath ≠ strncpy pathSize s.rootPath) := by
  refine (comCWD_comes fs s).mono fun h hcomes => ?_
  have hblank {arg : List Char} (htext : s.processingCommand = ' ' :: arg) : s.processingCommand ≠ [] :=
    fun hnil => nomatch hnil.symm.trans htext
  cases hcomes with
  | empty hnil =>
    rw [and_iff_right hnil, not_not]
    constructor
    · intro h
      exact (congrArg (fun p => p.2.2.1) (h rfl)).symm
    · intro hroot _
      have hroot : strncpy pathSize s.rootPath = s.curPath := hroot.symm
      show (s.identity, s.rootPath, strncpy pathSize s.rootPath, _) = _
      rw [hroot]
      rfl
  | unknown _ hsome => exact iff_of_true (stands_kept rfl) fun hnone => hsome hnone.1
  | rejected _ htext => exact iff_of_true (stands_kept rfl) fun hnone => hblank htext hnone.1
  | answered _ htext => exact iff_of_true (stands_kept rfl) fun hnone => hblank htext hnone.1
  | entered _ htext _ _ _ _ _ _ _ path _ t _ _ text hreply =>
    have hgranted := composed_granted (fun _ => rfl) text hreply (t.setCurPath path)
    exact iff_of_true (stands_granted hgranted) fun hnone => hblank htext hnone.1

theorem transfer_stands {env : Env} {cmd : Command} (hcmd : cmd.Transfers) :
    Returns (cmd.handle env fs s) fun h => h.Stands s := by
  intro h hh
  cases transfer_comes hcmd h hh with
  | refused => exact stands_kept rfl
  | answered => exact stands_kept rfl
  | stor => exact stands_granted rfl
  | appe => exact stands_granted rfl
  | retr => exact stands_granted rfl

theorem comSIZE_stands : Returns (comSIZE fs s) fun h => h.Stands s := by
  unfold comSIZE
  refine .bind_any fun cur => .bind_any fun path => .bind_any fun name => ?_
  split
  · split
    · exact .bind_any fun _ => .bind_any fun _ => .ok (stands_kept rfl)
    · exact .bind_any fun _ => .ok (stands_kept rfl)
  · exact .bind_any fun _ => .bind_any fun _ => .ok (stands_kept rfl)

theorem comPWD_stands : Returns (comPWD s) fun h => h.Stands s := by
  unfold comPWD
  split
  · exact .bind_any fun _ => .bind_any fun _ => .bind_any fun _ => .ok (stands_kept rfl)
  · exact .ok (stands_kept rfl)

theorem comTYPE_stands : (comTYPE s).Stands s := by
  unfold comTYPE
  split
  · exact stands_kept rfl
  · split <;> exact stands_kept rfl

theorem comPASV_stands : (comPASV s).Stands s := by
  unfold comPASV
  split <;> exact stands_kept rfl

theorem comLIST_stands : (comLIST s).Stands s := by
  unfold comLIST
  split
  · exact stands_kept rfl
  · split
    · exact stands_kept rfl
    · exact stands_granted rfl

/-! ### Command lines -/

theorem handle_stands (env : Env) (cmd : Command) :
    Returns (cmd.handle env fs s) fun h => h.Stands s ↔ ¬ s.Spoiled env.users cmd := by
  cases cmd with
  | user => exact comUSER_stands
  | pass => exact comPASS_stands.mono fun _ h => iff_of_true h id
  | type => exact .ok (iff_of_true comTYPE_stands id)
  | cwd => exact comCWD_stands
  | cdup => exact comCWD_stands
  | pwd => exact comPWD_stands.mono fun _ h => iff_of_true h id
  | appe => exact (transfer_stands (Or.inr (Or.inl rfl))).mono fun _ h => iff_of_true h id
  | size => exact comSIZE_stands.mono fun _ h => iff_of_true h id
  | rest => exact comREST_stands.mono fun _ h => iff_of_true h id
  | pasv => exact .ok (iff_of_true comPASV_stands id)
  | list => exact .ok (iff_of_true comLIST_stands id)
  | stor => exact (transfer_stands (Or.inl rfl)).mono fun _ h => iff_of_true h id
  | retr => exact (transfer_stands (Or.inr (Or.inr rfl))).mono fun _ h => iff_of_true h id
  | syst => exact .ok (iff_of_true (stands_kept rfl) id)
  | feat => exact .ok (iff_of_true (stands_kept rfl) id)
  | bad => exact .ok (iff_of_true (stands_kept rfl) id)

theorem comUSER_unknown {users : List UserList} (hb : ¬ s.cmpProcessingCommand "BGIShare".toList)
    (hseek : seekUser users s.processingCommand = none) : ∃ g, comUSER users s = .ok g := by
  obtain ⟨t, hnamed, hcommand, _⟩ := comUSER_named users s
  rw [hnamed]
  unfold Session.cmpProcessingCommand at hb
  rw [← hcommand] at hb hseek
  unfold Session.userNamed Session.cmpProcessingCommand
  rw [if_neg hb, hseek]
  exact ⟨_, rfl⟩

theorem comCWD_empty (hempty : s.processingCommand = []) : ∃ g, comCWD fs s = .ok g := by
  unfold comCWD
  have hcmp : s.cmpProcessingCommand [] := by
    rw [Session.cmpProcessingCommand, hempty]
    rfl
  rw [if_pos hcmp]
  exact ⟨_, rfl⟩

/-- The commands that spoil a session do return. -/
theorem spoiled_returns {env : Env} {cmd : Command} (fs : FileSystem) (h : s.Spoiled env.users cmd) :
    ∃ g, cmd.handle env fs s = .ok g := by
  cases cmd with
  | user => exact comUSER_unknown h.1.1 h.1.2
  | cwd => exact comCWD_empty h.1
  | cdup => exact comCWD_empty h.1
  | _ => exact nomatch h

end

/-- **A refused command changes nothing**, exactly where it is not `USER` for the anonymous
user without a record, nor `CWD` without an argument away from the root. -/
theorem refused_kept_iff (env : Env) (fs : FileSystem) (deal : List Char) (s : Session) :
    Returns (dispatch env fs deal s) (fun h => h.Stands s) ↔ ¬ (s.prepared deal).Spoiled env.users (command deal).1 := by
  have hdispatch {g : Handled} (hg : (command deal).1.handle env fs (s.prepared deal) = .ok g) :
      ∃ h, dispatch env fs deal s = .ok h ∧ (h.Stands s ↔ g.Stands (s.prepared deal)) :=
    ⟨_, bind_eq_ok.mpr ⟨g, hg, rfl⟩, Iff.rfl⟩
  constructor
  · intro hreturns hspoiled
    obtain ⟨g, hg⟩ := spoiled_returns fs hspoiled
    obtain ⟨h, hh, hsame⟩ := hdispatch hg
    exact (handle_stands env _ g hg).mp (hsame.mp (hreturns h hh)) hspoiled
  · intro hclean h hh
    obtain ⟨g, hg, hr⟩ := bind_eq_ok.mp hh
    cases hr
    exact (handle_stands env _ g hg).mpr hclean

/-- The anonymous user is refused on a new connection, and has its name all the same. -/
theorem anonymous_refused :
    ∃ h, acceptSession Env.shipped.config 0 [] (.accept 7 "10.0.0.9".toList) = .ok h ∧
      (∃ r, dispatch Env.shipped (.constant none) "USER Anonymous".toList h.session = .ok r ∧
        r.refuses = true ∧ h.session.username = [] ∧ r.session.username = "Anonymous".toList) ∧
      ¬ Returns (dispatch Env.shipped (.constant none) "USER Anonymous".toList h.session)
        (fun r => r.Stands h.session) := by
  refine ⟨_, rfl, ⟨_, rfl, by decide +kernel, rfl, rfl⟩, fun h => ?_⟩
  have hkept := h _ rfl (by decide +kernel)
  exact absurd (congrArg (fun p => p.1.username) hkept) (by decide +kernel)

end HyperTransfer
