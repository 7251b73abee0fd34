import HyperTransfer.Session.Confinement

/-! The callers of `change_path`: `com_CWD` for itself and for `CDUP`, and the three
transfer commands once their own checks are passed.

An argument is rejected for its first name after the leading `../` and `./` alone, so a
hidden file is (`changePath_none_iff`). `com_CWD` answers it with a refusal; the transfer
commands have no check and hand the null pointer on (`rejected_refused_iff`). -/
namespace HyperTransfer
open CString

/-- Copy the argument and the current directory and call `change_path`. -/
def Session.resolve (s : Session) (arg : List Char) : Except Fault (Option APath) := do
  let jump ← cstr pathSize (strncpy pathSize arg)
  let cur ← s.getCurPath
  let root ← s.getRootPath
  changePath root cur jump

/-- The command gets as far as calling `change_path`, with this argument. -/
def Command.Resolves (s : Session) (arg : List Char) (cmd : Command) : Prop :=
  if cmd.moving then s.processingCommand = ' ' :: arg else cmd.Passes s ∧ s.processingCommand = arg

instance (s : Session) : (cmd : Command) → Decidable (cmd.Passes s)
  | .stor | .retr => inferInstanceAs (Decidable (_ ∧ _ ∧ _))
  | .appe => inferInstanceAs (Decidable (_ ∧ _))
  | .user | .pass | .type | .cwd | .cdup | .pwd | .size | .rest | .pasv | .list | .syst | .feat | .bad =>
    inferInstanceAs (Decidable False)

instance (s : Session) (arg : List Char) (cmd : Command) : Decidable (cmd.Resolves s arg) :=
  inferInstanceAs (Decidable (if cmd.moving then s.processingCommand = ' ' :: arg
    else cmd.Passes s ∧ s.processingCommand = arg))

/-- An argument whose first name after the leading `../` and `./` starts with a dot and is
none of those `change_path` gives a meaning. -/
def Rejected : List Char → Prop
  | '.' :: '.' :: '.' :: '.' :: _ => False
  | ['.', '.', '.'] => False
  | '.' :: '.' :: '/' :: rest => Rejected rest
  | ['.', '.'] => False
  | '.' :: '/' :: rest => Rejected rest
  | '.' :: _ => True
  | _ => False

/-- The path given to `stat` or `lstat`. -/
def Effect.lookup? : Effect → Option (List Char)
  | .stat path => some path
  | .lstat path => some path
  | _ => none

/-- The answer of `com_CWD` to it. -/
def rejection (arg : List Char) : List Char :=
  ["550 CWD failed. \"".toList, arg, "\" : no such file or directory.\r\n".toList].flatten

/-- A single reply with the code 550: nothing was looked up, no data action set, and the
file name and the current directory are as before. -/
structure Handled.Refuses (s : Session) (h : Handled) : Prop where
  reply : ∃ text, "550 ".toList <+: text ∧ h.effects = [.post text text.length]
  dataAction : h.session.dataAction = s.dataAction
  fileName : h.session.fileName = s.fileName
  curPath : h.session.curPath = s.curPath

section
variable {env : Env} {fs : FileSystem} {s : Session} {arg : List Char} {cmd : Command} {h : Handled}

theorem nested_none (x : Except Fault (Option APath)) :
    (do return (← x).map APath.nested : Except Fault (Option APath)) = .ok none ↔ x = .ok none := by
  constructor
  · intro h
    obtain ⟨o, ho, h⟩ := bind_eq_ok.mp h
    cases o with
    | none => exact ho
    | some a => exact nomatch h
  · intro h
    rw [h]
    rfl

theorem strncat_some (dst src : List Char) (b : PathBuffer) :
    (do return some ⟨← strncat pathSize dst src pathSize, b⟩ : Except Fault (Option APath)) ≠ .ok none := by
  intro h
  obtain ⟨p, _, h⟩ := bind_eq_ok.mp h
  exact nomatch h

/-- The rejected arguments are those `change_path` returns the null pointer for. -/
theorem changePath_none_iff (root cur arg : List Char) : changePath root cur arg = .ok none ↔ Rejected arg := by
  fun_induction changePath root cur arg with
  | case4 cur rest => exact iff_of_false (strncat_some _ _ _) (by simp [Rejected])
  | case7 cur tail hdot hnil =>
    apply iff_of_true rfl
    rw [Rejected] <;> intros <;> simp_all
  | case8 cur rest ih =>
    rw [Rejected]
    exact (nested_none _).trans ih
  | case10 cur tail =>
    apply iff_of_true rfl
    rw [Rejected] <;> intros <;> simp_all
  | case11 cur rest ih =>
    rw [Rejected]
    exact (nested_none _).trans ih
  | case12 cur tail =>
    apply iff_of_true rfl
    rw [Rejected] <;> intros <;> simp_all
  | case13 cur cwd =>
    apply iff_of_false (strncat_some _ _ _)
    rw [Rejected] <;> intros <;> simp_all
  | _ =>
    apply iff_of_false
    · intro h
      cases h
    · simp [Rejected]

theorem resolve_eq_ok {o : Option APath} :
    s.resolve arg = .ok o ↔ s.Copies arg ∧ changePath s.rootPath s.curPath arg = .ok o := by
  constructor
  · intro h
    obtain ⟨jump, hjump, h⟩ := bind_eq_ok.mp h
    obtain ⟨cur, hcur, h⟩ := bind_eq_ok.mp h
    obtain ⟨root, hroot, h⟩ := bind_eq_ok.mp h
    obtain ⟨rfl, hjumplen⟩ := cstr_strncpy.mp hjump
    obtain ⟨rfl, hcurlen⟩ := cstr_eq_ok.mp hcur
    obtain ⟨rfl, hrootlen⟩ := cstr_eq_ok.mp hroot
    exact ⟨⟨hrootlen, hcurlen, hjumplen⟩, h⟩
  · intro h
    obtain ⟨⟨hroot, hcur, harg⟩, h⟩ := h
    exact bind_eq_ok.mpr ⟨_, cstr_strncpy.mpr ⟨rfl, harg⟩, bind_eq_ok.mpr ⟨_, cstr_of_lt hcur,
      bind_eq_ok.mpr ⟨_, cstr_of_lt hroot, h⟩⟩⟩

/-! ### What the callers make of the result -/

/-- `com_CWD` moves nowhere, or to the directory it has looked up, with its slash. -/
inductive Moves (fs : FileSystem) (s : Session) : Option APath → List Char → Prop where
  | stay (o : Option APath) : Moves fs s o s.curPath
  | enter (a : APath) (info : FileInfo) (path : List Char) (hinfo : fs.lstat a.path = some info)
      (hdir : info.isDir) (hguard : s.rootPath <:+: a.path) (hpath : addSlash a.path = .ok path) :
      Moves fs s (some a) (strncpy pathSize path)

theorem cmpProcessingCommand_blank (htext : s.processingCommand = ' ' :: arg) :
    s.cmpProcessingCommand [] = false ∧ s.cmpProcessingCommand " ".toList 1 = true := by
  unfold Session.cmpProcessingCommand
  rw [htext]
  exact ⟨rfl, rfl⟩

theorem comCWD_resolves (htext : s.processingCommand = ' ' :: arg) : Returns (comCWD fs s) fun h =>
    ∃ o, s.resolve arg = .ok o ∧ h.effects.filterMap Effect.lookup? = o.toList.map APath.path ∧
      Moves fs s o h.session.curPath := by
  refine (comCWD_comes fs s).mono fun h hcomes => ?_
  have hargument {arg' : List Char} (htext' : s.processingCommand = ' ' :: arg') : arg' = arg :=
    List.tail_eq_of_cons_eq (htext'.symm.trans htext)
  cases hcomes with
  | empty hnil => exact nomatch hnil.symm.trans htext
  | unknown hnot => exact absurd (cmpProcessingCommand_blank htext).2 hnot
  | rejected _ htext' hcopies ha =>
    obtain rfl := hargument htext'
    exact ⟨none, resolve_eq_ok.mpr ⟨hcopies, ha⟩, rfl, .stay none⟩
  | answered _ htext' hcopies a ha =>
    obtain rfl := hargument htext'
    exact ⟨some a, resolve_eq_ok.mpr ⟨hcopies, ha⟩, rfl, .stay (some a)⟩
  | entered _ htext' hcopies a ha info hinfo hdir hguard path hpath t ht =>
    obtain rfl := hargument htext'
    exact ⟨some a, resolve_eq_ok.mpr ⟨hcopies, ha⟩, rfl, .enter a info path hinfo hdir hguard hpath⟩

theorem rejection_length (harg : arg.length < pathSize) : (rejection arg).length < commandSize := by
  have hlen : arg.length < 1024 := harg
  have hfront : "550 CWD failed. \"".toList.length = 17 := by decide
  have hback : "\" : no such file or directory.\r\n".toList.length = 32 := by decide
  unfold rejection
  simp only [List.flatten_cons, List.flatten_nil, List.append_nil, List.length_append]
  rw [hfront, hback]
  show _ < 1461
  omega

/-- A rejected argument is answered, as far as it fits its array. -/
theorem comCWD_none (htext : s.processingCommand = ' ' :: arg) (hnone : s.resolve arg = .ok none) :
    comCWD fs s = .ok (s.answer (rejection arg)) := by
  obtain ⟨hempty, hblank⟩ := cmpProcessingCommand_blank htext
  obtain ⟨⟨hroot, hcur, harg⟩, hnone⟩ := resolve_eq_ok.mp hnone
  unfold comCWD
  rw [if_neg (ne_true_of_eq_false hempty), if_pos hblank]
  have hjump : cstr pathSize (strncpy pathSize (s.processingCommand.drop 1)) = .ok arg := by
    rw [htext]
    exact cstr_strncpy.mpr ⟨rfl, harg⟩
  have hfits : compose ["550 CWD failed. \"".toList, arg, "\" : no such file or directory.\r\n".toList] =
      .ok (rejection arg) :=
    (concat_eq_ok (by decide)).mpr ⟨rfl, rejection_length harg⟩
  exact bind_eq_ok.mpr ⟨_, hjump, bind_eq_ok.mpr ⟨_, cstr_of_lt hcur, bind_eq_ok.mpr ⟨_, cstr_of_lt hroot,
    bind_eq_ok.mpr ⟨_, hnone, bind_eq_ok.mpr ⟨_, hfits, rfl⟩⟩⟩⟩⟩

/-- A transfer command past its checks stores the path it looks up, accepted or not. -/
theorem transfer_resolves (hpass : cmd.Passes s) : Returns (cmd.handle env fs s) fun h =>
    ∃ a, s.resolve s.processingCommand = .ok (some a) ∧ h.effects.filterMap Effect.lookup? = [a.path] ∧
      h.session.fileName = strncpy pathSize a.path ∧ h.session.curPath = s.curPath := by
  have hresolve {a : APath} {jump : List Char} (h : transferPath s = .ok (a, jump)) :
      s.resolve s.processingCommand = .ok (some a) := by
    obtain ⟨⟨hroot, hcur, harg⟩, ha, _⟩ := transferPath_eq_ok.mp h
    exact resolve_eq_ok.mpr ⟨⟨hroot, hcur, harg⟩, ha⟩
  intro h hh
  cases transfer_comes hpass.transfers h hh with
  | refused hfails => exact absurd hpass hfails
  | answered _ _ a jump hpath => exact ⟨a, hresolve hpath, rfl, rfl, rfl⟩
  | stor _ a jump hpath | appe _ a jump hpath | retr _ a jump hpath => exact ⟨a, hresolve hpath, rfl, rfl, rfl⟩

/-- A handler that gets as far has had its strings end in their arrays. -/
theorem handle_copies (hcmd : cmd.Resolves s arg) : Returns (cmd.handle env fs s) fun _ => s.Copies arg := by
  intro h hh
  unfold Command.Resolves at hcmd
  split at hcmd
  · rename_i hm
    have hcwd : cmd = .cwd ∨ cmd = .cdup := by simpa [Command.moving] using hm
    have hh : comCWD fs s = .ok h := by
      rcases hcwd with rfl | rfl <;> exact hh
    obtain ⟨o, ho, _⟩ := comCWD_resolves hcmd h hh
    exact (resolve_eq_ok.mp ho).1
  · obtain ⟨hpass, rfl⟩ := hcmd
    obtain ⟨a, ha, _⟩ := transfer_resolves hpass h hh
    exact (resolve_eq_ok.mp ha).1

/-- **Rejected paths.** A command that `change_path` returns the null pointer to refuses it,
exactly when it is a change of directory whose strings end in their arrays. -/
theorem rejected_refused_iff (env : Env) (fs : FileSystem) (cmd : Command) (s : Session) (arg : List Char)
    (hcmd : cmd.Resolves s arg) (hnone : changePath s.rootPath s.curPath arg = .ok none) :
    (∃ h, cmd.handle env fs s = .ok h ∧ h.Refuses s) ↔ cmd.moving ∧ s.Copies arg := by
  constructor
  · intro h
    obtain ⟨h, hh, _⟩ := h
    refine ⟨?_, handle_copies hcmd h hh⟩
    cases hm : cmd.moving with
    | true => rfl
    | false =>
      -- past its checks a transfer command needs a path
      rw [Command.Resolves, if_neg (ne_true_of_eq_false hm)] at hcmd
      obtain ⟨hpass, rfl⟩ := hcmd
      obtain ⟨a, ha, _⟩ := transfer_resolves hpass h hh
      have hsome := (resolve_eq_ok.mp ha).2
      rw [hnone] at hsome
      exact nomatch hsome
  · intro h
    obtain ⟨hm, hcopies⟩ := h
    rw [Command.Resolves, if_pos hm] at hcmd
    have hanswer : comCWD fs s = .ok (s.answer (rejection arg)) :=
      comCWD_none hcmd (resolve_eq_ok.mpr ⟨hcopies, hnone⟩)
    have hcwd : cmd = .cwd ∨ cmd = .cdup := by simpa [Command.moving] using hm
    have hposted : (s.answer (rejection arg)).effects = [.post (rejection arg) (rejection arg).length] := by
      show [Effect.post (strncpy commandSize (rejection arg)) (strncpy commandSize (rejection arg)).length] = _
      rw [strncpy_of_le (Nat.le_of_lt (rejection_length hcopies.argument))]
    have hrefuses : (s.answer (rejection arg)).Refuses s :=
      ⟨⟨_, ⟨_, rfl⟩, hposted⟩, rfl, rfl, rfl⟩
    rcases hcwd with rfl | rfl
    · exact ⟨_, hanswer, hrefuses⟩
    · exact ⟨_, hanswer, hrefuses⟩

/-- A hidden directory. -/
theorem rejected_refused_hidden :
    ∃ h, acceptSession Env.shipped.config 0 [] (.accept 7 "10.0.0.9".toList) = .ok h ∧
      ∃ g, Command.cwd.handle Env.shipped (.constant none)
          {h.session with processingCommand := " ./../.ssh".toList} = .ok g ∧
        g.Refuses {h.session with processingCommand := " ./../.ssh".toList} :=
  ⟨_, rfl, (rejected_refused_iff Env.shipped (.constant none) .cwd _ "./../.ssh".toList (by decide) rfl).mpr
    ⟨rfl, by decide, by decide, by decide⟩⟩

/-- A hidden file: the upload reaches `set_file_name` with the null pointer. -/
theorem rejected_not_refused_hidden :
    ∃ h, acceptSession Env.shipped.config 0 [] (.accept 7 "10.0.0.9".toList) = .ok h ∧
      ∃ s ∈ (session Env.shipped).states h.session
          (shareLogin ++ [⟨.constant none, {fd := 7, action := .pasv, bufLen := 2024}⟩]),
        Command.stor.Resolves (s.prepared "STOR .profile".toList) ".profile".toList ∧
          changePath s.rootPath s.curPath ".profile".toList = .ok none ∧
          Command.stor.handle Env.shipped (.constant none) (s.prepared "STOR .profile".toList) =
            .error .nullPointer :=
  ⟨_, rfl, by decide +kernel⟩

end
end HyperTransfer
