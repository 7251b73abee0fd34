import HyperTransfer.Session.Machine

/-! What the commands that resolve a path, and the tasks, can come to.

`STOR` and `RETR` check the login, the data port and the right, `APPE` the login and the right;
behind the checks the path is resolved, put in the file name and looked up. `CWD` checks
nothing but its argument. `transfer_comes`, `comCWD_comes` and `rollSession_comes` say all that
can be left behind, and the summaries of the later modules are read off them. -/
namespace HyperTransfer
open CString

/-! ### Transfers -/

/-- The transfer commands. -/
def Command.Transfers (cmd : Command) : Prop := cmd = .stor ∨ cmd = .appe ∨ cmd = .retr

/-- What a transfer command checks before it looks at its argument. -/
def Command.Passes (s : Session) : Command → Prop
  | .stor => s.logIn ∧ s.dataAction = .pasvOk ∧ s.uploadPer
  | .appe => s.logIn ∧ s.uploadPer
  | .retr => s.logIn ∧ s.dataAction = .pasvOk ∧ s.downloadPer
  | _ => False

/-- The offset an `APPE` asks for: the end of the file. -/
def appeOffset (fs : FileSystem) (path : List Char) : Int :=
  match fs.stat path with
  | some info => info.size
  | none => 0

/-- All that a transfer command can come to. -/
inductive Command.Comes (fs : FileSystem) (s : Session) : Command → Handled → Prop where
  /-- A check has failed: nothing is looked up. -/
  | refused {cmd : Command} (hfails : ¬ cmd.Passes s) (text : List Char) (ret : Int) :
      Comes fs s cmd (s.answer text ret)
  /-- What `stat` has shown is not what the command needs. -/
  | answered {cmd : Command} (hpass : cmd.Passes s) (hcmd : cmd = .stor ∨ cmd = .retr) (a : APath) (jump : List Char)
      (hpath : transferPath s = .ok (a, jump)) (text : List Char) :
      Comes fs s cmd (((s.setFileName a.path).answer text (-1)).after [.stat a.path])
  | stor (hpass : Command.Passes s .stor) (a : APath) (jump : List Char) (hpath : transferPath s = .ok (a, jump))
      (hstat : fs.stat a.path = none) :
      Comes fs s .stor {
        session := (s.setFileName a.path).setDataAction .stor
        effects := [.stat a.path, .setDataAction .stor] }
  | appe (hpass : Command.Passes s .appe) (a : APath) (jump : List Char) (hpath : transferPath s = .ok (a, jump)) :
      Comes fs s .appe {
        session := ((s.setFileName a.path).setRestSize (appeOffset fs a.path)).setDataAction .stor
        effects := [.stat a.path, .setDataAction .stor] }
  | retr (hpass : Command.Passes s .retr) (a : APath) (jump : List Char) (hpath : transferPath s = .ok (a, jump))
      (info : FileInfo) (hstat : fs.stat a.path = some info) (hlong : s.restSize ≤ info.size) :
      Comes fs s .retr {
        session := ((s.setFileName a.path).setFileLen info.size).setDataAction .retr
        effects := [.stat a.path, .setDataAction .retr] }

section
variable {env : Env} {fs : FileSystem} {s : Session} {cmd : Command}

theorem Command.Passes.transfers (hpass : cmd.Passes s) : cmd.Transfers := by
  cases cmd with
  | stor => exact Or.inl rfl
  | appe => exact Or.inr (Or.inl rfl)
  | retr => exact Or.inr (Or.inr rfl)
  | _ => exact hpass.elim

/-- `STOR` and `RETR` use up an announced port. -/
theorem Command.Passes.port (hpass : cmd.Passes s) (hcmd : cmd = .stor ∨ cmd = .retr) : s.dataAction = .pasvOk := by
  rcases hcmd with rfl | rfl <;> exact hpass.2.1

/-- A check that fails is answered with one short line, whatever the argument. -/
theorem transfer_refused (hcmd : cmd.Transfers) (hfails : ¬ cmd.Passes s) :
    ∃ text ret, text.length < commandSize ∧ Session.crlf <:+ text ∧
      ∀ env fs, cmd.handle env fs s = .ok (s.answer text ret) := by
  by_cases hl : s.logIn = true
  · rcases hcmd with rfl | rfl | rfl
    · by_cases hd : s.dataAction = .pasvOk
      · have hu : s.uploadPer = false := Bool.eq_false_iff.mpr fun hu => hfails ⟨hl, hd, hu⟩
        refine ⟨"550 Cannot STOR. No permission.\r\n".toList, -1, by decide, by decide, fun env fs => ?_⟩
        simp [Command.handle, comSTOR, hl, hd, hu]
      · refine ⟨"425 Can't open data connection.\r\n".toList, -1, by decide, by decide, fun env fs => ?_⟩
        simp [Command.handle, comSTOR, hl, hd]
    · have hu : s.uploadPer = false := Bool.eq_false_iff.mpr fun hu => hfails ⟨hl, hu⟩
      refine ⟨"550 Cannot APPE. No permission.\r\n".toList, 0, by decide, by decide, fun env fs => ?_⟩
      simp [Command.handle, comAPPE, hl, hu]
    · by_cases hd : s.dataAction = .pasvOk
      · have hp : s.downloadPer = false := Bool.eq_false_iff.mpr fun hp => hfails ⟨hl, hd, hp⟩
        refine ⟨"550 Cannot RETR. No permission.\r\n".toList, -1, by decide, by decide, fun env fs => ?_⟩
        simp [Command.handle, comRETR, hl, hd, hp]
      · refine ⟨"425 Can't open data connection.\r\n".toList, -1, by decide, by decide, fun env fs => ?_⟩
        simp [Command.handle, comRETR, hl, hd]
  · rcases hcmd with rfl | rfl | rfl
    · refine ⟨"530 Not logged in.\r\n".toList, -1, by decide, by decide, fun env fs => ?_⟩
      simp [Command.handle, comSTOR, hl]
    · refine ⟨"530 Not logged in.\r\n".toList, 0, by decide, by decide, fun env fs => ?_⟩
      simp [Command.handle, comAPPE, hl]
    · refine ⟨"530 Not logged in.\r\n".toList, -1, by decide, by decide, fun env fs => ?_⟩
      simp [Command.handle, comRETR, hl]

/-- Each branch of a transfer command is one of `Comes`. -/
theorem transfer_comes (hcmd : cmd.Transfers) : Returns (cmd.handle env fs s) fun h => cmd.Comes fs s h := by
  by_cases hpass : cmd.Passes s
  · intro h hh
    rcases hcmd with rfl | rfl | rfl
    · have ⟨hl, hd, hu⟩ := hpass
      simp only [Command.handle, comSTOR, hl, hd, hu, Bool.not_true, Bool.false_eq_true, if_false, ne_eq, not_true] at hh
      obtain ⟨⟨a, jump⟩, ha, hh⟩ := bind_eq_ok.mp hh
      dsimp only at hh
      split at hh
      · obtain ⟨text, _, hh⟩ := bind_eq_ok.mp hh
        cases hh
        exact .answered hpass (Or.inl rfl) a jump ha text
      · rename_i hstat
        cases hh
        exact .stor hpass a jump ha hstat
    · have ⟨hl, hu⟩ := hpass
      simp only [Command.handle, comAPPE, hl, hu, Bool.not_true, Bool.false_eq_true, if_false] at hh
      obtain ⟨⟨a, jump⟩, ha, hh⟩ := bind_eq_ok.mp hh
      have hcomes : Command.Comes fs s .appe _ := .appe hpass a jump ha
      unfold appeOffset at hcomes
      cases hstat : fs.stat a.path with
      | none =>
        simp only [hstat] at hh hcomes
        cases hh
        exact hcomes
      | some info =>
        simp only [hstat] at hh hcomes
        cases hh
        exact hcomes
    · have ⟨hl, hd, hp⟩ := hpass
      simp only [Command.handle, comRETR, hl, hd, hp, Bool.not_true, Bool.false_eq_true, if_false, ne_eq, not_true] at hh
      obtain ⟨⟨a, jump⟩, ha, hh⟩ := bind_eq_ok.mp hh
      dsimp only at hh
      split at hh
      · rename_i info hstat
        split at hh
        · obtain ⟨text, _, hh⟩ := bind_eq_ok.mp hh
          cases hh
          exact .answered hpass (Or.inr rfl) a jump ha text
        · split at hh
          · obtain ⟨name, _, hh⟩ := bind_eq_ok.mp hh
            obtain ⟨text, _, hh⟩ := bind_eq_ok.mp hh
            cases hh
            exact .answered hpass (Or.inr rfl) a jump ha text
          · rename_i hlong
            have hlong : ¬ (s.restSize ≠ 0 ∧ (info.size : Int) < s.restSize) := hlong
            cases hh
            exact .retr hpass a jump ha info hstat (by omega)
      · obtain ⟨name, _, hh⟩ := bind_eq_ok.mp hh
        obtain ⟨text, _, hh⟩ := bind_eq_ok.mp hh
        cases hh
        exact .answered hpass (Or.inr rfl) a jump ha text
  · obtain ⟨text, ret, _, _, htext⟩ := transfer_refused hcmd hpass
    rw [htext env fs]
    exact .ok (.refused hpass text ret)

end

/-! ### The current directory -/

/-- What `change_path` is called with ends in its arrays. -/
structure Session.Copies (s : Session) (arg : List Char) : Prop where
  root : s.rootPath.length < pathSize
  cur : s.curPath.length < pathSize
  argument : arg.length < pathSize

/-- All that a change of directory can come to. -/
inductive Session.Changes (fs : FileSystem) (s : Session) : Handled → Prop where
  /-- Without an argument the session goes to the root, and is refused. -/
  | empty (hnil : s.processingCommand = []) :
      Changes fs s ((s.setCurPath s.rootPath).answer "504 Command not implemented for the specified argument.\r\n".toList)
  /-- No blank stands in front of the argument. -/
  | unknown (hnot : ¬ s.cmpProcessingCommand " ".toList 1) (hsome : s.processingCommand ≠ []) :
      Changes fs s (s.answer "500 Unknown command.\r\n".toList)
  | rejected (arg : List Char) (htext : s.processingCommand = ' ' :: arg) (hcopies : s.Copies arg)
      (ha : changePath s.rootPath s.curPath arg = .ok none) (text : List Char) : Changes fs s (s.answer text)
  /-- What `lstat` has shown is no directory inside the root. -/
  | answered (arg : List Char) (htext : s.processingCommand = ' ' :: arg) (hcopies : s.Copies arg) (a : APath)
      (ha : changePath s.rootPath s.curPath arg = .ok (some a)) (text : List Char) :
      Changes fs s ((s.answer text).after [.lstat a.path])
  | entered (arg : List Char) (htext : s.processingCommand = ' ' :: arg) (hcopies : s.Copies arg) (a : APath)
      (ha : changePath s.rootPath s.curPath arg = .ok (some a)) (info : FileInfo) (hinfo : fs.lstat a.path = some info)
      (hdir : info.isDir) (hguard : s.rootPath <:+: a.path) (path : List Char) (hpath : addSlash a.path = .ok path)
      (t : Session) (ht : t = if a.buffer = .root then {s with rootPath := path} else s) (r text : List Char)
      (hreply : compose ["250 CWD command successful. \"".toList, r, "\" is current directory.\r\n".toList] = .ok text) :
      Changes fs s (((t.setCurPath path).answer text).after [.lstat a.path])

/-- Each branch of `com_CWD` is one of `Changes`. -/
theorem comCWD_comes (fs : FileSystem) (s : Session) : Returns (comCWD fs s) fun h => s.Changes fs h := by
  unfold comCWD
  split
  · rename_i htext
    exact .ok (.empty (strncasecmp_empty htext))
  · rename_i hsome
    split
    · rename_i htext
      obtain ⟨arg, harg⟩ := strncasecmp_blank htext
      intro h hh
      obtain ⟨jump, hjump, hh⟩ := bind_eq_ok.mp hh
      rw [harg] at hjump
      obtain ⟨cur, hcur, hh⟩ := bind_eq_ok.mp hh
      obtain ⟨root, hroot, hh⟩ := bind_eq_ok.mp hh
      obtain ⟨rfl, hjumplen⟩ := cstr_strncpy.mp hjump
      obtain ⟨rfl, hcurlen⟩ := cstr_eq_ok.mp hcur
      obtain ⟨rfl, hrootlen⟩ := cstr_eq_ok.mp hroot
      obtain ⟨o, ho, hh⟩ := bind_eq_ok.mp hh
      have hcopies : s.Copies jump := ⟨hrootlen, hcurlen, hjumplen⟩
      cases o with
      | none =>
        obtain ⟨text, _, hh⟩ := bind_eq_ok.mp hh
        cases hh
        exact .rejected jump harg hcopies ho text
      | some a =>
        cases hinfo : fs.lstat a.path with
        | none =>
          simp only [hinfo] at hh
          obtain ⟨text, _, hh⟩ := bind_eq_ok.mp hh
          cases hh
          exact .answered jump harg hcopies a ho text
        | some info =>
          simp only [hinfo] at hh
          split at hh
          · obtain ⟨text, _, hh⟩ := bind_eq_ok.mp hh
            cases hh
            exact .answered jump harg hcopies a ho text
          · rename_i hguard
            have hguard : s.rootPath <:+: a.path := by
              rw [← strstr_isSome_iff, Option.isSome_iff_ne_none]
              simpa using hguard
            split at hh
            · rename_i hdir
              obtain ⟨path, hpath, hh⟩ := bind_eq_ok.mp hh
              obtain ⟨r, _, hh⟩ := bind_eq_ok.mp hh
              obtain ⟨text, hreply, hh⟩ := bind_eq_ok.mp hh
              cases hh
              exact .entered jump harg hcopies a ho info hinfo hdir hguard path hpath _ rfl r text hreply
            · obtain ⟨r, _, hh⟩ := bind_eq_ok.mp hh
              obtain ⟨text, _, hh⟩ := bind_eq_ok.mp hh
              cases hh
              exact .answered jump harg hcopies a ho text
    · rename_i hblank
      refine .ok (.unknown hblank fun hnil => hsome ?_)
      rw [Session.cmpProcessingCommand, hnil]
      rfl

/-! ### Tasks -/

/-- A data action that a data connection starts a transfer for. -/
def DataAction.armed : DataAction → Bool
  | .list => true
  | .stor => true
  | .retr => true
  | _ => false

/-- All that a task can come to. -/
inductive Session.Rolls (env : Env) (fs : FileSystem) (t : SessionTask) (s : Session) : Handled → Prop where
  /-- A read that completes no line. -/
  | unheard (ht : t.action = .read) (r : Session) (hr : (s.setAction (.task .read)).catRecvCommand t.buf = .ok r)
      (hframe : frame r = .ok none) : Rolls env fs t s {ret := -1, session := r}
  /-- A read that completes a line. -/
  | heard (ht : t.action = .read) (r : Session) (hr : (s.setAction (.task .read)).catRecvCommand t.buf = .ok r)
      (deal : List Char) (u : Session) (hframe : frame r = .ok (some (deal, u))) (g : Handled)
      (hg : dispatch env fs deal u = .ok g) : Rolls env fs t s g.wait
  | announced (ht : t.action = .pasv) (text : List Char) (hpassive : "227 ".toList <+: text) :
      Rolls env fs t s {
        ret := 0
        session := ((s.setRetCommand text).setAction .waiting).setDataAction .pasvOk
        effects := [(s.setRetCommand text).post, .setDataAction .pasvOk] }
  | busy (ht : t.action = .pasv) (text : List Char) : Rolls env fs t s (s.answer text (-1))
  | listLoad (ht : t.action = .dataAccept) (hs : s.dataAction = .list) (text path : List Char) :
      Rolls env fs t s {
        session := (s.setRetCommand text).setDataAction .indexDownload
        effects := [.setDataAction .indexDownload, (s.setRetCommand text).post,
          .postToDisk (.ofPath s.fd .indexStart path)] }
  | storLoad (ht : t.action = .dataAccept) (hs : s.dataAction = .stor) (hname : s.fileName.length < pathSize) :
      Rolls env fs t s {
        session := s
        effects := [.postToDisk (.ofPath s.fd .storStart s.fileName s.restSize)] }
  | retrLoad (ht : t.action = .dataAccept) (hs : s.dataAction = .retr) (hname : s.fileName.length < pathSize)
      (text : List Char) :
      Rolls env fs t s {
        session := (s.setRetCommand text).setDataAction .fileDownload
        effects := [.setDataAction .fileDownload, (s.setRetCommand text).post,
          .postToDisk (.ofPath s.fd .retrStart s.fileName s.restSize)] }
  | storStart (ht : t.action = .storStart) (text : List Char) : Rolls env fs t s (s.answer text)
  | transOk (ht : t.action = .transOk) : Rolls env fs t s (runTransferOk s)
  /-- A task the session has nothing to do for. -/
  | idle (ht : t.action ≠ .read) (hs : t.action = .dataAccept → s.dataAction.armed = false) (ret : Int) :
      Rolls env fs t s {ret := ret, session := s}

/-- Each branch of `roll_state_machine` is one of `Rolls`. -/
theorem rollSession_comes (env : Env) (fs : FileSystem) (t : SessionTask) (s : Session) :
    Returns (rollSession env fs t s) fun h => s.Rolls env fs t h := by
  unfold rollSession
  intro h hh
  cases ht : t.action with
  | read =>
    rw [ht] at hh
    obtain ⟨r, hr, hh⟩ := bind_eq_ok.mp hh
    obtain ⟨g, hg, hh⟩ := bind_eq_ok.mp hh
    obtain ⟨p, hp, hg⟩ := bind_eq_ok.mp hg
    cases hh
    cases p with
    | none =>
      cases hg
      exact .unheard ht r hr hp
    | some p => exact .heard ht r hr p.1 p.2 hp g hg
  | pasv =>
    rw [ht] at hh
    obtain ⟨g, hg, hh⟩ := bind_eq_ok.mp hh
    unfold runPasv at hg
    split at hg
    · obtain ⟨ip, _, hg⟩ := bind_eq_ok.mp hg
      obtain ⟨text, htext, hg⟩ := bind_eq_ok.mp hg
      cases hg
      cases hh
      obtain ⟨rfl, _⟩ := (concat_eq_ok (by decide)).mp htext
      exact .announced ht _ ⟨_, rfl⟩
    · cases hg
      cases hh
      exact .busy ht _
  | dataAccept =>
    rw [ht] at hh
    have hname {name : List Char} (hn : s.getFileName = .ok name) :
        name = s.fileName ∧ s.fileName.length < pathSize := cstr_eq_ok.mp hn
    cases hs : s.dataAction with
    | list =>
      simp only [hs] at hh
      obtain ⟨ip, _, hh⟩ := bind_eq_ok.mp hh
      obtain ⟨text, _, hh⟩ := bind_eq_ok.mp hh
      obtain ⟨path, _, hh⟩ := bind_eq_ok.mp hh
      cases hh
      exact .listLoad ht hs text path
    | stor =>
      simp only [hs] at hh
      obtain ⟨name, hn, hh⟩ := bind_eq_ok.mp hh
      obtain ⟨rfl, hfits⟩ := hname hn
      cases hh
      exact .storLoad ht hs hfits
    | retr =>
      simp only [hs] at hh
      obtain ⟨ip, _, hh⟩ := bind_eq_ok.mp hh
      obtain ⟨rel, _, hh⟩ := bind_eq_ok.mp hh
      obtain ⟨text, _, hh⟩ := bind_eq_ok.mp hh
      obtain ⟨name, hn, hh⟩ := bind_eq_ok.mp hh
      obtain ⟨rfl, hfits⟩ := hname hn
      cases hh
      exact .retrLoad ht hs hfits text
    | _ =>
      simp only [hs] at hh
      cases hh
      exact .idle (by rw [ht]; decide) (fun _ => by rw [hs]; rfl) 0
  | storStart =>
    rw [ht] at hh
    obtain ⟨ip, _, hh⟩ := bind_eq_ok.mp hh
    obtain ⟨text, _, hh⟩ := bind_eq_ok.mp hh
    cases hh
    exact .storStart ht text
  | transOk =>
    rw [ht] at hh
    cases hh
    exact .transOk ht
  | _ =>
    rw [ht] at hh
    cases hh
    exact .idle (by simp [ht]) (fun haccept => by simp [ht] at haccept) (-1)

end HyperTransfer
