import HyperTransfer.Session.Outcomes

/-! What handling a task may write.

The fields that outlive a command fall into parts: the link the session serves, the
identity and rights of its user, and its place in the directory tree. Each handler
is read once here and summed up by the parts it leaves alone; the invariants of the
later modules follow from these summaries. -/
namespace HyperTransfer
open CString

namespace Session

/-- The session with everything put aside that any command may write. -/
def held (s : Session) : Session :=
  {s with
    action := .waiting, dataAction := .waiting, retCommand := [], retCommandLen := 0
    processingCommand := [], fileName := [], fileLen := 0, restSize := 0}

/-- The user put aside as well. -/
def anonymous (s : Session) : Session :=
  {s.held with
    username := [], password := [], logIn := false, userInfo := none
    uploadPer := false, downloadPer := false, delePer := false}

/-- The place put aside as well. -/
def displaced (s : Session) : Session := {s.held with rootPath := [], curPath := []}

/-- The receive buffer put aside as well: what taking in a line leaves alone. -/
def core (s : Session) : Session := {s.held with recvCommand := [], recvCommandLen := 0}

/-- The receive buffer. -/
def buffer (s : Session) : List Char × Nat := (s.recvCommand, s.recvCommandLen)

/-- The object and the connection it serves. -/
def link (s : Session) : Nat × Fd := (s.address, s.fd)

/-- The root and the current directory. -/
def place (s : Session) : List Char × Int × List Char := (s.rootPath, s.rootPathLen, s.curPath)

/-- Who the client is and what it may do. -/
structure Identity where
  username : List Char
  password : List Char
  logIn : Bool
  userInfo : Option UserList
  uploadPer : Bool
  downloadPer : Bool
  delePer : Bool
deriving DecidableEq

def identity (s : Session) : Identity :=
  {username := s.username, password := s.password, logIn := s.logIn, userInfo := s.userInfo
   uploadPer := s.uploadPer, downloadPer := s.downloadPer, delePer := s.delePer}

namespace Identity

/-- A `USER` command, as far as the identity goes. -/
def called (users : List UserList) (name : List Char) (i : Identity) : Identity :=
  if strncasecmp name "BGIShare".toList commandSize then {i with username := "BGIShare".toList}
  else
    match seekUser users name with
    | some u =>
      {i with
        userInfo := some u, username := strncpy userLen u.user
        password := strncpy passLen u.pass}
    | none =>
      if strncasecmp name "Anonymous".toList commandSize then {i with username := "Anonymous".toList}
      else i

/-- A `PASS` command is accepted without a look at the password. -/
def Guest (i : Identity) : Prop := strncasecmp i.username "Anonymous".toList userLen

/-- A `PASS` command is accepted for its password. -/
def Proves (pass : List Char) (i : Identity) : Prop :=
  ¬ i.Guest ∧ strncasecmp i.username [] userLen = false ∧ strncmp pass i.password passLen

/-- What an accepted password makes of the identity. -/
def admitted (u : UserList) (i : Identity) : Identity :=
  {i with logIn := true, uploadPer := u.uploadPer, downloadPer := u.downloadPer, delePer := u.delePer}

end Identity

theorem anonymous_of_held {s t : Session} (h : s.held = t.held) : s.anonymous = t.anonymous := by
  simp only [anonymous, h]

theorem displaced_of_held {s t : Session} (h : s.held = t.held) : s.displaced = t.displaced := by
  simp only [displaced, h]

/-- A part that only reads what `f` keeps is the same where `f` is. -/
theorem part_eq {A : Type} (f : Session → Session) (part : Session → A) (hf : ∀ s, part (f s) = part s)
    {s t : Session} (h : f s = f t) : part s = part t := by
  rw [← hf s, h, hf t]

theorem link_of_core {s t : Session} (h : s.core = t.core) : s.link = t.link :=
  part_eq core link (fun _ => rfl) h

theorem identity_of_core {s t : Session} (h : s.core = t.core) : s.identity = t.identity :=
  part_eq core identity (fun _ => rfl) h

theorem place_of_core {s t : Session} (h : s.core = t.core) : s.place = t.place :=
  part_eq core place (fun _ => rfl) h

end Session

/-- Whether an effect is more than a reply, a look at the file system or a call for a
port: it dispatches a line, sets the data action or reaches the disk threads. -/
def Effect.moves : Effect → Bool
  | .dispatch _ => true
  | .setDataAction _ => true
  | .postToDisk _ => true
  | _ => false

namespace Handled

/-- The handler only replies, as far as transfers go. -/
structure Replies (s : Session) (h : Handled) : Prop where
  dataAction : h.session.dataAction = s.dataAction
  moves : h.effects.filter Effect.moves = []

/-- The handler sets the data action to `a`, and nothing else concerns transfers. -/
structure Arms (a : DataAction) (h : Handled) : Prop where
  dataAction : h.session.dataAction = a
  moves : h.effects.filter Effect.moves = [.setDataAction a]

end Handled

/-! ### Commands that only reply -/

section
variable {fs : FileSystem} {s : Session}

/-- A reply: a part of the session is left alone, and no effect moves anything. -/
theorem replied {A : Type} (part : Session → A) {h : Handled}
    (hh : (part h.session, h.session.dataAction, h.effects.filter Effect.moves) = (part s, s.dataAction, [])) :
    part h.session = part s ∧ h.Replies s := by
  injection hh with hpart hh
  injection hh with hdata hmoves
  exact ⟨hpart, hdata, hmoves⟩

/-- A command that could do more replies after all. -/
theorem refused {h : Handled} {P : Prop} (hh : (h.session.held, h.session.dataAction, h.effects.filter Effect.moves) =
    (s.held, s.dataAction, [])) : h.session.held = s.held ∧ (h.Replies s ∨ P) :=
  ⟨(replied Session.held hh).1, Or.inl (replied Session.held hh).2⟩

theorem comTYPE_writes : (comTYPE s).session.held = s.held ∧ (comTYPE s).Replies s := by
  unfold comTYPE
  split
  · exact replied Session.held rfl
  · split <;> exact replied Session.held rfl

theorem comPWD_writes : Returns (comPWD s) fun h => h.session.held = s.held ∧ h.Replies s := by
  unfold comPWD
  split
  · exact .bind_any fun _ => .bind_any fun _ => .bind_any fun _ => .ok (replied Session.held rfl)
  · exact .ok (replied Session.held rfl)

theorem comSIZE_writes : Returns (comSIZE fs s) fun h => h.session.held = s.held ∧ h.Replies s := by
  unfold comSIZE
  refine .bind_any fun cur => .bind_any fun path => .bind_any fun name => ?_
  split
  · split
    · exact .bind_any fun _ => .bind_any fun _ => .ok (replied Session.held rfl)
    · exact .bind_any fun _ => .ok (replied Session.held rfl)
  · exact .bind_any fun _ => .bind_any fun _ => .ok (replied Session.held rfl)

theorem comREST_writes : Returns (comREST s) fun h => h.session.held = s.held ∧ h.Replies s := by
  unfold comREST
  split
  · exact .bind_any fun _ => .ok (replied Session.held rfl)
  · exact .ok (replied Session.held rfl)

theorem comPASV_writes : (comPASV s).session.held = s.held ∧ (comPASV s).Replies s := by
  unfold comPASV
  split <;> exact replied Session.held rfl

/-! ### Commands about the user or the directory -/

theorem comUSER_writes (users : List UserList) :
    Returns (comUSER users s) fun h => h.session.anonymous = s.anonymous ∧ h.Replies s ∧
      h.session.identity = s.identity.called users s.processingCommand := by
  unfold comUSER Session.Identity.called Session.cmpProcessingCommand
  by_cases hb : strncasecmp s.processingCommand "BGIShare".toList commandSize
  · by_cases ha : strncasecmp s.processingCommand "Anonymous".toList commandSize <;>
      simp only [ha, hb, if_true, if_false, Bool.false_eq_true, Session.setUsername,
        Session.setRetCommand] <;>
      exact .ok ⟨rfl, ⟨rfl, rfl⟩, rfl⟩
  · by_cases ha : strncasecmp s.processingCommand "Anonymous".toList commandSize <;>
      simp only [ha, hb, if_true, if_false, Bool.false_eq_true, Session.setUsername,
        Session.setRetCommand] <;>
      cases seekUser users s.processingCommand with
      | none => exact .ok ⟨rfl, ⟨rfl, rfl⟩, rfl⟩
      | some u => exact .ok_bind (.bind_any fun _ => .ok ⟨rfl, ⟨rfl, rfl⟩, rfl⟩)

theorem setPermission_writes :
    Returns s.setPermission fun t => ∃ u, s.userInfo = some u ∧
      t = {s with uploadPer := u.uploadPer, downloadPer := u.downloadPer, delePer := u.delePer} := by
  unfold Session.setPermission
  split
  · rename_i u hu
    exact .ok ⟨u, hu, rfl⟩
  · exact .error _

theorem comPASS_writes :
    Returns (comPASS s) fun h => h.session.anonymous = s.anonymous ∧ h.Replies s ∧
      ((s.identity.Guest ∧ h.session.identity = {s.identity with logIn := true}) ∨
        (s.identity.Proves s.processingCommand ∧
          ∃ u, s.userInfo = some u ∧ h.session.identity = s.identity.admitted u) ∨
        (¬ s.identity.Guest ∧ ¬ s.identity.Proves s.processingCommand ∧
          h.session.identity = s.identity)) := by
  unfold comPASS
  by_cases hg : s.cmpUsername "Anonymous".toList
  · rw [if_pos hg]
    exact .ok ⟨rfl, ⟨rfl, rfl⟩, Or.inl ⟨hg, rfl⟩⟩
  · rw [if_neg hg]
    split
    · rename_i hn
      rw [Bool.not_eq_true'] at hn
      split
      · rename_i hp
        refine .bind setPermission_writes fun t ht => .bind_any fun _ => .ok ?_
        obtain ⟨u, hu, rfl⟩ := ht
        exact ⟨rfl, ⟨rfl, rfl⟩, Or.inr (Or.inl ⟨⟨hg, hn, hp⟩, u, hu, rfl⟩)⟩
      · rename_i hp
        exact .ok ⟨rfl, ⟨rfl, rfl⟩, Or.inr (Or.inr ⟨hg, fun h => hp h.2.2, rfl⟩)⟩
    · rename_i hn
      rw [Bool.not_eq_true'] at hn
      exact .ok ⟨rfl, ⟨rfl, rfl⟩, Or.inr (Or.inr ⟨hg, fun h => hn h.2.1, rfl⟩)⟩

theorem comCWD_writes :
    Returns (comCWD fs s) fun h => h.session.displaced = s.displaced ∧ h.Replies s := by
  intro h hh
  cases comCWD_comes fs s h hh with
  | entered _ _ _ a _ _ _ _ _ path _ t ht =>
    have hsame : t.displaced = s.displaced ∧ t.dataAction = s.dataAction := by
      rw [ht]
      split <;> exact ⟨rfl, rfl⟩
    exact ⟨hsame.1, hsame.2, rfl⟩
  | _ => exact replied Session.displaced rfl

/-! ### Commands that start a transfer -/

theorem comLIST_writes :
    (comLIST s).session.held = s.held ∧
      ((comLIST s).Replies s ∨ (s.logIn ∧ (comLIST s).Arms .list)) := by
  unfold comLIST
  split
  · exact refused rfl
  · rename_i hl
    split
    · exact refused rfl
    · exact ⟨rfl, Or.inr ⟨by simpa using hl, rfl, rfl⟩⟩

end

/-! ### All handlers -/

/-- The data action a command may arm the session with. -/
def Command.arms : Command → DataAction
  | .list => .list
  | .stor => .stor
  | .appe => .stor
  | .retr => .retr
  | _ => .waiting

/-- The right a command that arms the session needs. -/
def Command.Allowed (i : Session.Identity) : Command → Prop
  | .list => i.logIn
  | .stor => i.logIn ∧ i.uploadPer
  | .appe => i.logIn ∧ i.uploadPer
  | .retr => i.logIn ∧ i.downloadPer
  | _ => False

section
variable {env : Env} {fs : FileSystem} {s : Session} {cmd : Command}

/-- A transfer command answers, or has the right it needs and sets its data action. -/
theorem transfer_writes (hcmd : cmd.Transfers) : Returns (cmd.handle env fs s) fun h =>
    h.session.held = s.held ∧ (h.Replies s ∨ (cmd.Allowed s.identity ∧ h.Arms cmd.arms)) := by
  intro h hh
  cases transfer_comes hcmd h hh with
  | refused => exact refused rfl
  | answered => exact refused rfl
  | stor hpass =>
    obtain ⟨hl, _, hu⟩ := hpass
    exact ⟨rfl, Or.inr ⟨⟨hl, hu⟩, rfl, rfl⟩⟩
  | appe hpass => exact ⟨rfl, Or.inr ⟨hpass, rfl, rfl⟩⟩
  | retr hpass =>
    obtain ⟨hl, _, hp⟩ := hpass
    exact ⟨rfl, Or.inr ⟨⟨hl, hp⟩, rfl, rfl⟩⟩

theorem handle_moves : Returns (cmd.handle env fs s) fun h =>
    h.Replies s ∨ (cmd.Allowed s.identity ∧ h.Arms cmd.arms) := by
  cases cmd with
  | user => exact (comUSER_writes env.users).mono fun _ h => Or.inl h.2.1
  | pass => exact comPASS_writes.mono fun _ h => Or.inl h.2.1
  | type => exact .ok (Or.inl comTYPE_writes.2)
  | cwd => exact comCWD_writes.mono fun _ h => Or.inl h.2
  | cdup => exact comCWD_writes.mono fun _ h => Or.inl h.2
  | pwd => exact comPWD_writes.mono fun _ h => Or.inl h.2
  | appe => exact (transfer_writes (Or.inr (Or.inl rfl))).mono fun _ h => h.2
  | size => exact comSIZE_writes.mono fun _ h => Or.inl h.2
  | rest => exact comREST_writes.mono fun _ h => Or.inl h.2
  | pasv => exact .ok (Or.inl comPASV_writes.2)
  | list => exact .ok comLIST_writes.2
  | stor => exact (transfer_writes (Or.inl rfl)).mono fun _ h => h.2
  | retr => exact (transfer_writes (Or.inr (Or.inr rfl))).mono fun _ h => h.2
  | syst => exact .ok (Or.inl ⟨rfl, rfl⟩)
  | feat => exact .ok (Or.inl ⟨rfl, rfl⟩)
  | bad => exact .ok (Or.inl ⟨rfl, rfl⟩)

/-- Whether a command is about the user. -/
def Command.login (cmd : Command) : Bool := cmd = .user || cmd = .pass

/-- Whether a command is about the directory. -/
def Command.moving (cmd : Command) : Bool := cmd = .cwd || cmd = .cdup

theorem handle_held (hl : cmd.login = false) (hm : cmd.moving = false) :
    Returns (cmd.handle env fs s) fun h => h.session.held = s.held := by
  cases cmd with
  | user => exact absurd hl (by decide)
  | pass => exact absurd hl (by decide)
  | cwd => exact absurd hm (by decide)
  | cdup => exact absurd hm (by decide)
  | type => exact .ok comTYPE_writes.1
  | pwd => exact comPWD_writes.mono fun _ h => h.1
  | appe => exact (transfer_writes (Or.inr (Or.inl rfl))).mono fun _ h => h.1
  | size => exact comSIZE_writes.mono fun _ h => h.1
  | rest => exact comREST_writes.mono fun _ h => h.1
  | pasv => exact .ok comPASV_writes.1
  | list => exact .ok comLIST_writes.1
  | stor => exact (transfer_writes (Or.inl rfl)).mono fun _ h => h.1
  | retr => exact (transfer_writes (Or.inr (Or.inr rfl))).mono fun _ h => h.1
  | syst => exact .ok rfl
  | feat => exact .ok rfl
  | bad => exact .ok rfl

theorem handle_displaced (hl : cmd.login = false) :
    Returns (cmd.handle env fs s) fun h => h.session.displaced = s.displaced := by
  cases hm : cmd.moving with
  | false => exact (handle_held hl hm).mono fun _ h => Session.displaced_of_held h
  | true =>
    have hcmd : cmd = .cwd ∨ cmd = .cdup := by simpa [Command.moving] using hm
    rcases hcmd with rfl | rfl <;> exact comCWD_writes.mono fun _ h => h.1

theorem handle_anonymous (hm : cmd.moving = false) :
    Returns (cmd.handle env fs s) fun h => h.session.anonymous = s.anonymous := by
  cases hl : cmd.login with
  | false => exact (handle_held hl hm).mono fun _ h => Session.anonymous_of_held h
  | true =>
    have hcmd : cmd = .user ∨ cmd = .pass := by simpa [Command.login] using hl
    rcases hcmd with rfl | rfl
    · exact (comUSER_writes env.users).mono fun _ h => h.1
    · exact comPASS_writes.mono fun _ h => h.1

/-- Only `USER` and `PASS` write the identity. -/
theorem handle_identity (hl : cmd.login = false) :
    Returns (cmd.handle env fs s) fun h => h.session.identity = s.identity :=
  (handle_displaced hl).mono fun _ h => Session.part_eq Session.displaced Session.identity (fun _ => rfl) h

/-- Only `CWD` and `CDUP` write the place. -/
theorem handle_place (hm : cmd.moving = false) :
    Returns (cmd.handle env fs s) fun h => h.session.place = s.place :=
  (handle_anonymous hm).mono fun _ h => Session.part_eq Session.anonymous Session.place (fun _ => rfl) h

/-- No command touches the link or the receive buffer. -/
theorem handle_link :
    Returns (cmd.handle env fs s) fun h => h.session.link = s.link ∧ h.session.buffer = s.buffer := by
  cases hl : cmd.login with
  | false =>
    exact (handle_displaced hl).mono fun _ h =>
      ⟨Session.part_eq Session.displaced Session.link (fun _ => rfl) h,
        Session.part_eq Session.displaced Session.buffer (fun _ => rfl) h⟩
  | true =>
    have hm : cmd.moving = false := by
      have hcmd : cmd = .user ∨ cmd = .pass := by simpa [Command.login] using hl
      rcases hcmd with rfl | rfl <;> rfl
    exact (handle_anonymous hm).mono fun _ h =>
      ⟨Session.part_eq Session.anonymous Session.link (fun _ => rfl) h,
        Session.part_eq Session.anonymous Session.buffer (fun _ => rfl) h⟩

end

/-! ### Steps -/

/-- The line a task makes the session handle, and the session with the line taken
out of its receive buffer. -/
def SessionTask.line (t : SessionTask) (s : Session) : Option (List Char × Session) :=
  match t.action with
  | .read =>
    match (do frame (← (s.setAction (.task .read)).catRecvCommand t.buf)) with
    | .ok p => p
    | .error _ => none
  | _ => none

/-- The command a task makes the session handle, with its argument. -/
def SessionTask.handles (t : SessionTask) (s : Session) : Option (Command × List Char) :=
  (t.line s).map fun (deal, _) => ((command deal).1, strncpy commandSize (command deal).2)

/-- The session as a command's handler finds it. -/
def Session.prepared (s : Session) (deal : List Char) : Session :=
  (s.setProcessingCommand deal).setProcessingCommand (command deal).2

section
variable {env : Env} {fs : FileSystem} {s : Session} {t : SessionTask}

theorem handles_of_line {deal : List Char} {u : Session} (h : t.line s = some (deal, u)) :
    t.handles s = some ((command deal).1, (u.prepared deal).processingCommand) := by
  rw [SessionTask.handles, h]
  rfl

theorem dispatch_writes (deal : List Char) :
    Returns (dispatch env fs deal s) fun h => ∃ g, (command deal).1.handle env fs (s.prepared deal) = .ok g ∧
      h.session = g.session ∧ h.effects = .dispatch deal :: g.effects := by
  intro h hh
  obtain ⟨g, hg, hr⟩ := bind_eq_ok.mp hh
  cases hr
  exact ⟨g, hg, rfl, rfl⟩

theorem catRecvCommand_writes (buf : List Char) :
    Returns (s.catRecvCommand buf) fun r => r.core = s.core ∧ r.dataAction = s.dataAction :=
  .bind_any fun _ => .ok ⟨rfl, rfl⟩

theorem frame_writes : Returns (frame s) fun r =>
    ∀ deal u, r = some (deal, u) → u.core = s.core ∧ u.dataAction = s.dataAction := by
  unfold frame
  split
  · exact .error _
  · dsimp only
    split
    · exact .ok fun _ _ h => nomatch h
    · split
      · refine .ok fun deal u h => ?_
        cases h
        exact ⟨rfl, rfl⟩
      · split
        · refine .ok fun deal u h => ?_
          cases h
          exact ⟨rfl, rfl⟩
        · exact .error _

/-- The data action a start task of the disk threads goes with. -/
def DiskTaskAction.from : DiskTaskAction → DataAction
  | .indexStart => .list
  | .storStart => .stor
  | .retrStart => .retr
  | _ => .waiting

/-- What a task other than a command line does about transfers: it leaves the data
action or disarms it, and it posts what the data action asks for. -/
structure Handled.Loads (t : SessionTask) (s : Session) (h : Handled) : Prop where
  dataAction : (h.session.dataAction = s.dataAction ∧ ∀ a, .setDataAction a ∉ h.effects) ∨
    h.session.dataAction.armed = false
  starts : ∀ d, .postToDisk d ∈ h.effects → t.action = .dataAccept ∧ s.dataAction = d.action.from ∧
    s.dataAction.armed = true

/-- A data connection starts the transfer it was armed for. -/
theorem loads_of_post {h : Handled} (d : DiskTask) (ht : t.action = .dataAccept) (hs : s.dataAction = d.action.from)
    (harmed : d.action.from.armed = true)
    (hdata : (h.session.dataAction = s.dataAction ∧ ∀ a, .setDataAction a ∉ h.effects) ∨
      h.session.dataAction.armed = false)
    (hposts : ∀ d', .postToDisk d' ∈ h.effects → d' = d) : h.Loads t s := by
  refine ⟨hdata, fun d' hd => ?_⟩
  obtain rfl := hposts d' hd
  exact ⟨ht, hs, by rw [hs]; exact harmed⟩

theorem loads_of_reply {h : Handled} (hd : h.session.dataAction = s.dataAction)
    (he : h.effects.filter Effect.moves = []) : h.Loads t s := by
  rw [List.filter_eq_nil_iff] at he
  exact ⟨Or.inl ⟨hd, fun a ha => he _ ha rfl⟩, fun d ha => absurd rfl (he _ ha)⟩

/-- Reads alone hand lines on. -/
theorem line_none (ht : t.action ≠ .read) : t.line s = none := by
  unfold SessionTask.line
  split
  · exact absurd ‹_› ht
  · rfl

theorem line_read {r : Session} (ht : t.action = .read) (hr : (s.setAction (.task .read)).catRecvCommand t.buf = .ok r)
    {p : Option (List Char × Session)} (hp : frame r = .ok p) : t.line s = p := by
  have hboth : (do frame (← (s.setAction (.task .read)).catRecvCommand t.buf)) = .ok p :=
    bind_eq_ok.mpr ⟨r, hr, hp⟩
  simp only [SessionTask.line, ht, hboth]

theorem wait_writes (h : Handled) : h.wait.session.core = h.session.core ∧
    h.wait.session.dataAction = h.session.dataAction ∧ h.wait.effects = h.effects := by
  unfold Handled.wait
  split <;> exact ⟨rfl, rfl, rfl⟩

/-- What a task does to a session: either it hands no line to a command, or it is a
read and the line's command does the rest. -/
theorem rollSession_cases : Returns (rollSession env fs t s) fun h =>
    (t.line s = none ∧ h.session.core = s.core ∧ h.Loads t s) ∨
    ∃ deal u g, t.line s = some (deal, u) ∧ u.core = s.core ∧ u.dataAction = s.dataAction ∧
      (command deal).1.handle env fs (u.prepared deal) = .ok g ∧
      h.session.core = g.session.core ∧ h.session.dataAction = g.session.dataAction ∧
      h.effects = .dispatch deal :: g.effects := by
  intro h hh
  cases rollSession_comes env fs t s h hh with
  | unheard ht r hr hframe =>
    obtain ⟨hcore, hdata⟩ := catRecvCommand_writes t.buf r hr
    exact Or.inl ⟨line_read ht hr hframe, hcore, loads_of_reply hdata rfl⟩
  | heard ht r hr deal u hframe g hg =>
    obtain ⟨hwcore, hwdata, hweff⟩ := wait_writes g
    obtain ⟨hrcore, hrdata⟩ := catRecvCommand_writes t.buf r hr
    obtain ⟨hucore, hudata⟩ := frame_writes _ hframe deal u rfl
    obtain ⟨k, hk, hsession, heffects⟩ := dispatch_writes deal g hg
    rw [hsession] at hwcore hwdata
    exact Or.inr ⟨deal, u, k, line_read ht hr hframe, hucore.trans hrcore, hudata.trans hrdata, hk, hwcore, hwdata,
      hweff.trans heffects⟩
  | announced ht => exact Or.inl ⟨line_none (by simp [ht]), rfl, Or.inr rfl, by simp [Session.post]⟩
  | busy ht => exact Or.inl ⟨line_none (by simp [ht]), rfl, loads_of_reply rfl rfl⟩
  | listLoad ht hs _ path =>
    refine Or.inl ⟨line_none (by simp [ht]), rfl, ?_⟩
    exact loads_of_post (.ofPath s.fd .indexStart path) ht hs rfl (Or.inr rfl) (by simp [Session.post])
  | storLoad ht hs =>
    refine Or.inl ⟨line_none (by simp [ht]), rfl, ?_⟩
    exact loads_of_post (.ofPath s.fd .storStart s.fileName s.restSize) ht hs rfl (Or.inl ⟨rfl, by simp⟩) (by simp)
  | retrLoad ht hs =>
    refine Or.inl ⟨line_none (by simp [ht]), rfl, ?_⟩
    exact loads_of_post (.ofPath s.fd .retrStart s.fileName s.restSize) ht hs rfl (Or.inr rfl) (by simp [Session.post])
  | storStart ht => exact Or.inl ⟨line_none (by simp [ht]), rfl, loads_of_reply rfl rfl⟩
  | transOk ht =>
    refine Or.inl ⟨line_none (by simp [ht]), rfl, Or.inr rfl, ?_⟩
    simp [runTransferOk, Session.postTransferOk]
  | idle ht => exact Or.inl ⟨line_none ht, rfl, loads_of_reply rfl rfl⟩

end

/-- A step of a session is a task rolled. -/
theorem takes_roll {env : Env} {e : Edge SessionInput Session Effect} (h : (session env).Takes e) :
    ∃ r, rollSession env e.input.fs e.input.task e.before = .ok r ∧ r.session = e.after ∧
      r.effects = e.effects := by
  obtain ⟨r, hr, he⟩ := bind_eq_ok.mp h
  injection he with he
  injection he with hafter heffects
  exact ⟨r, hr, hafter, heffects⟩

/-! ### A session's beginning -/

theorem setServerIp_writes (cfg : Config) (s : Session) :
    Returns (s.setServerIp cfg) fun r => r.link = s.link ∧ r.dataAction = s.dataAction ∧
      r.identity = s.identity ∧ r.place = s.place := by
  unfold Session.setServerIp
  dsimp only
  split
  · exact .ok ⟨rfl, rfl, rfl, rfl⟩
  · split
    · exact .ok ⟨rfl, rfl, rfl, rfl⟩
    · split
      · refine .bind_any fun a => ?_
        split <;> exact .ok ⟨rfl, rfl, rfl, rfl⟩
      · exact .ok ⟨rfl, rfl, rfl, rfl⟩

/-- A new session serves the connection of its accept, knows no user, holds no right
and is in the root. -/
theorem acceptSession_writes (cfg : Config) (address : Nat) (garbage : List Char) (t : SessionTask) :
    Returns (acceptSession cfg address garbage t) fun h =>
      h.session.link = (address, t.fd) ∧ h.session.dataAction = .waiting ∧
      h.session.identity = {username := [], password := garbage, logIn := false, userInfo := none
                            uploadPer := false, downloadPer := false, delePer := false} ∧
      h.session.place = (cfg.initPath, (cfg.initPath.length : Int) - 1, cfg.initPath) ∧
      cfg.initPath.length < pathSize := by
  intro h hh
  obtain ⟨s, hs, hh⟩ := bind_eq_ok.mp hh
  obtain ⟨g, hg, hh⟩ := bind_eq_ok.mp hh
  obtain ⟨r, hr, hg⟩ := bind_eq_ok.mp hg
  obtain ⟨root, hroot, hs⟩ := bind_eq_ok.mp hs
  cases hh
  cases hg
  cases hs
  obtain ⟨hlink, hdata, hidentity, hplace⟩ := setServerIp_writes cfg _ r hr
  obtain ⟨rfl, hlen⟩ := cstr_strncpy.mp hroot
  have hcur : strncpy pathSize cfg.initPath = cfg.initPath := strncpy_of_le (Nat.le_of_lt hlen)
  refine ⟨hlink, hdata, hidentity, hplace.trans ?_, hlen⟩
  simp only [Session.place, hcur]

end HyperTransfer
