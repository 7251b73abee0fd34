import HyperTransfer.Session.Fitting
import HyperTransfer.Session.Oracle

/-! Whether a reply fits.

Each handler puts its reply together in an array of `COMMANDSIZE`, every `strncat` bounded by
the whole of it. A path or a name leaves room enough; the argument of `REST` is quoted as
it came, and the path of `SIZE` is composed there before it is stored. `replies_fit_iff`
says when a handler gets through without an overrun of any array: after one the text of
the reply is anything. -/
namespace HyperTransfer
open CString

/-- A handler: of a command, or of an event of the data connection. -/
inductive Handler where
  | command (cmd : Command)
  | pasv (port : Int)
  | listLoad | storLoad | storStart | retrLoad | transferOk
deriving DecidableEq

def Handler.run (env : Env) (fs : FileSystem) (s : Session) : Handler → Except Fault Handled
  | .command cmd => cmd.handle env fs s
  | .pasv port => runPasv env.config s port
  | .listLoad => runListLoad s
  | .storLoad => runStorLoad s
  | .storStart => runStorStart s
  | .retrLoad => runRetrLoad s
  | .transferOk => .ok (runTransferOk s)

/-- Every reply posted is a whole line with its true length. -/
def Handled.Whole (h : Handled) : Prop :=
  ∀ e ∈ h.effects, ∀ buf len, e.reply? = some (buf, len) →
    len = buf.length ∧ buf.length < commandSize ∧ Session.crlf <:+ buf

/-- What the types of the fields hold: a user name of the size of its array, a `long`. -/
structure Session.Typed (s : Session) : Prop where
  username : s.username.length ≤ userLen
  fileLen : -2 ^ 63 ≤ s.fileLen ∧ s.fileLen < 2 ^ 63

/-- What `stat` and `lstat` can say: a size is a `long`, and nothing has an empty path. -/
structure FileSystem.Typed (fs : FileSystem) : Prop where
  size : ∀ path info, fs.stat path = some info → info.size < 2 ^ 63
  empty : fs.lstat [] = none

/-- A path may be entered: a root is there to be left out of the reply, and the slash fits. -/
def Enters (root path : List Char) : Prop :=
  path ≠ [] → root <:+: path → root ≠ [] ∧ (path.getLast? = some '/' ∨ path.length + 1 < pathSize)

/-- What a handler takes for granted. -/
def Session.Room (s : Session) (cfg : Config) : Handler → Prop
  | .command .pwd => s.logIn → 0 ≤ s.rootPathLen
  | .command .size => (s.curPath ++ s.processingCommand).length < pathSize ∧ 0 ≤ s.rootPathLen
  | .command .rest => ∀ arg, s.processingCommand = ' ' :: arg → 18 + arg.length + 43 < commandSize
  | .command .cwd | .command .cdup => ∀ arg, s.processingCommand = ' ' :: arg →
    s.Resolved arg ∧ Leads (Enters s.rootPath) s.rootPath s.curPath arg
  | .command .stor => Command.Passes s .stor → s.Resolved s.processingCommand
  | .command .appe => Command.Passes s .appe → s.Resolved s.processingCommand
  -- the reply to a file that is not there leaves out the root
  | .command .retr => Command.Passes s .retr → s.Resolved s.processingCommand ∧
    Leads (fun _ => 0 ≤ s.rootPathLen) s.rootPath s.curPath s.processingCommand
  | .pasv port => cfg.startPort < port ∧ port < cfg.endPort → s.serverIp.length < ipLen
  | .listLoad | .storStart => s.serverIp.length < ipLen
  | .retrLoad => s.serverIp.length < ipLen ∧ 0 ≤ s.rootPathLen
  | _ => True

/-! ### Replies -/

section
variable {env : Env} {fs : FileSystem} {s : Session} {parts : List (List Char)} {front middle back text : List Char}

/-- A text that ends a line and leaves room for the terminator is posted whole. -/
theorem posted_whole {h : Handled} (hposted : h.effects.filterMap Effect.reply? =
    [(strncpy commandSize text, (strncpy commandSize text).length)]) (hlen : text.length < commandSize)
    (hend : Session.crlf <:+ text) : h.Whole := by
  intro e he buf len hreply
  have hmem : (buf, len) ∈ h.effects.filterMap Effect.reply? := List.mem_filterMap.mpr ⟨e, he, hreply⟩
  rw [hposted, strncpy_of_le (Nat.le_of_lt hlen), List.mem_singleton] at hmem
  cases hmem
  exact ⟨rfl, hlen, hend⟩

theorem answer_whole (ret : Int) (hlen : text.length < commandSize) (hend : Session.crlf <:+ text) :
    (s.answer text ret).Whole :=
  posted_whole rfl hlen hend

theorem after_whole {h : Handled} {es : List Effect} (hes : ∀ e ∈ es, e.reply? = none) (hh : h.Whole) :
    (h.after es).Whole := by
  intro e he buf len hreply
  rcases List.mem_append.mp he with he | he
  · rw [hes e he] at hreply
    exact nomatch hreply
  · exact hh e he buf len hreply

theorem flatten_end (back : List Char) (hlast : parts.getLast? = some back) (hend : Session.crlf <:+ back) :
    Session.crlf <:+ parts.flatten := by
  obtain ⟨rest, rfl⟩ := List.getLast?_eq_some_iff.mp hlast
  rw [List.flatten_concat]
  exact hend.trans (List.suffix_append ..)

theorem quote_length : [front, middle, back].flatten.length = front.length + middle.length + back.length := by
  simp only [List.flatten_cons, List.flatten_nil, List.append_nil, List.length_append, Nat.add_assoc]

/-- A text between two fixed ones. -/
theorem inBounds_quote {Q : List Char → Prop} :
    InBounds Q (compose [front, middle, back]) ↔ front.length + middle.length + back.length < commandSize ∧
      Q [front, middle, back].flatten := by
  rw [compose, inBounds_concat (by decide), quote_length]

/-- A path or a name always fits between them. -/
theorem quote_line (hmiddle : middle.length < pathSize) (hfixed : front.length + back.length ≤ 437)
    (hend : Session.crlf <:+ back) :
    InBounds (fun text => text.length < commandSize ∧ Session.crlf <:+ text) (compose [front, middle, back]) := by
  have hlen : front.length + middle.length + back.length < commandSize := by
    have hpath : middle.length < 1024 := hmiddle
    show _ < 1461
    omega
  rw [inBounds_quote, quote_length]
  exact ⟨hlen, hlen, flatten_end back rfl hend⟩

theorem quote_fits (ret : Int) (hmiddle : middle.length < pathSize) (hfixed : front.length + back.length ≤ 437)
    (hend : Session.crlf <:+ back) :
    InBounds (fun text => (s.answer text ret).Whole) (compose [front, middle, back]) :=
  (quote_line hmiddle hfixed hend).mono fun _ h => answer_whole ret h.1 h.2

/-- The same behind what the handler has looked up. -/
theorem quote_after (ret : Int) {es : List Effect} (hes : ∀ e ∈ es, e.reply? = none)
    (hmiddle : middle.length < pathSize) (hfixed : front.length + back.length ≤ 437)
    (hend : Session.crlf <:+ back) :
    InBounds (fun text => ((s.answer text ret).after es).Whole) (compose [front, middle, back]) :=
  (quote_fits ret hmiddle hfixed hend).mono fun _ => after_whole hes

/-- What is left of a path is no longer than it. -/
theorem drop_fits {path : List Char} (h : path.length < pathSize) (k : Nat) : (path.drop k).length < pathSize :=
  Nat.lt_of_le_of_lt (List.drop_suffix ..).length_le h

theorem stat_silent (path : List Char) : ∀ e ∈ [Effect.stat path], e.reply? = none :=
  List.forall_mem_singleton.mpr rfl

theorem typed_nothing : (FileSystem.constant none).Typed := ⟨fun _ _ h => (nomatch h), rfl⟩

/-- What posts no reply. -/
theorem armed_whole {h : Handled} (hnone : h.effects.filterMap Effect.reply? = []) : h.Whole := by
  intro e he buf len hreply
  rw [List.filterMap_eq_nil_iff] at hnone
  rw [hnone e he] at hreply
  exact nomatch hreply

/-! ### Commands -/

theorem seekUser_length {users : List UserList} {user : List Char} {u : UserList}
    (h : seekUser users user = some u) : user.length < userLen := by
  have hfind : users.find? (fun r => strncasecmp user r.user user.length) = some u := h
  have hsame := List.find?_some hfind
  have hlen := congrArg List.length (beq_iff_eq.mp hsame)
  rw [List.length_map, List.length_map, List.length_take, List.length_take] at hlen
  have := u.user_lt
  omega

theorem comUSER_bounds (users : List UserList) (s : Session) : InBounds Handled.Whole (comUSER users s) := by
  have hknown : "331 User name okay, need password.\r\n".toList.length < commandSize ∧
      Session.crlf <:+ "331 User name okay, need password.\r\n".toList := by decide
  unfold comUSER
  dsimp only
  generalize (if s.cmpProcessingCommand "Anonymous".toList then
      (s.setUsername "Anonymous".toList).setRetCommand "331 User name okay, need password.\r\n".toList
    else s) = t
  split
  · exact answer_whole 0 hknown.1 hknown.2
  · split
    · rename_i u hu
      have hlen : t.processingCommand.length < pathSize := Nat.lt_trans (seekUser_length hu) (by decide)
      exact .ok_bind ((inBounds_bind _ _).mpr (quote_fits 0 hlen (by decide) (by decide)))
    · exact answer_whole 0 (by decide) (by decide)

theorem comPASS_bounds (hs : s.Typed) : InBounds Handled.Whole (comPASS s) := by
  have hname : s.username.length < pathSize := Nat.lt_of_le_of_lt hs.username (by decide)
  unfold comPASS
  split
  · exact answer_whole 0 (by decide) (by decide)
  · split
    · split
      · cases hu : s.userInfo with
        | none =>
          simp only [Session.setPermission, Session.setLogin, hu]
          exact rfl
        | some u =>
          simp only [Session.setPermission, Session.setLogin, hu]
          exact .ok_bind ((inBounds_bind _ _).mpr (quote_fits 0 hname (by decide) (by decide)))
      · exact answer_whole 0 (by decide) (by decide)
    · exact answer_whole 0 (by decide) (by decide)

theorem comTYPE_bounds (s : Session) : (comTYPE s).Whole := by
  unfold comTYPE
  split
  · exact answer_whole 0 (by decide) (by decide)
  · split <;> exact answer_whole 0 (by decide) (by decide)

theorem comSYST_bounds (unameOk : Bool) (s : Session) : (comSYST unameOk s).Whole := by
  unfold comSYST
  split <;> exact answer_whole 0 (by decide) (by decide)

theorem comPASV_bounds (s : Session) : (comPASV s).Whole := by
  unfold comPASV
  split
  · exact answer_whole _ (by decide) (by decide)
  · exact armed_whole rfl

theorem comLIST_bounds (s : Session) : (comLIST s).Whole := by
  unfold comLIST
  split
  · exact answer_whole _ (by decide) (by decide)
  · split
    · exact answer_whole _ (by decide) (by decide)
    · exact armed_whole rfl

theorem comPWD_bounds (hcur : s.curPath.length < pathSize) :
    InBounds Handled.Whole (comPWD s) ↔ (s.logIn → 0 ≤ s.rootPathLen) := by
  unfold comPWD
  split
  · rename_i hl
    rw [forall_prop_of_true hl]
    simp only [Session.getCurPath, inBounds_bind, inBounds_cstr, inBounds_advance, and_iff_right hcur]
    exact and_iff_left (quote_fits 0 (drop_fits hcur _) (by decide) (by decide))
  · rename_i hl
    exact iff_of_true (answer_whole 0 (by decide) (by decide)) fun h => absurd h hl

theorem comREST_bounds (s : Session) : InBounds Handled.Whole (comREST s) ↔
    ∀ arg, s.processingCommand = ' ' :: arg → 18 + arg.length + 43 < commandSize := by
  unfold comREST
  split
  · rename_i hblank
    obtain ⟨arg, harg⟩ := strncasecmp_blank hblank
    have htexts : "350 Restarting at ".toList.length = 18 ∧
        ". Send STOR or RETR to initiate transfer.\r\n".toList.length = 43 := by decide
    have honly : (∀ a, s.processingCommand = ' ' :: a → 18 + a.length + 43 < commandSize) ↔
        18 + arg.length + 43 < commandSize := by
      constructor
      · intro h
        exact h arg harg
      · intro h a ha
        rw [harg] at ha
        rwa [← List.tail_eq_of_cons_eq ha]
    dsimp only
    rw [honly, inBounds_bind, inBounds_quote, htexts.1, htexts.2, harg]
    refine and_iff_left_of_imp fun hlen => answer_whole 0 ?_
      (flatten_end ". Send STOR or RETR to initiate transfer.\r\n".toList rfl (by decide))
    rwa [quote_length, htexts.1, htexts.2]
  · rename_i hblank
    refine iff_of_true (answer_whole 0 (by decide) (by decide)) fun arg harg => absurd ?_ hblank
    exact (cmpProcessingCommand_blank harg).2

theorem inBounds_path {Q : List Char → Prop} :
    InBounds Q (compose [front, back]) ↔ (front ++ back).length < commandSize ∧ Q (front ++ back) := by
  rw [compose, inBounds_concat (by decide)]
  simp only [List.flatten_cons, List.flatten_nil, List.append_nil]

theorem inBounds_fileName {Q : List Char → Prop} {path : List Char} :
    InBounds Q (s.setFileName path).getFileName ↔ path.length < pathSize ∧ Q path := inBounds_strncpy

theorem inBounds_relativeName {Q : List Char → Prop} {path : List Char} :
    InBounds Q (s.setFileName path).getRelativeName ↔
      path.length < pathSize ∧ 0 ≤ s.rootPathLen ∧ Q (path.drop s.rootPathLen.toNat) := by
  rw [Session.getRelativeName, inBounds_bind, inBounds_fileName, inBounds_advance]
  exact Iff.rfl

/-- `SIZE` quotes a name of which the root is left out, on some file system at least. -/
theorem comSIZE_bounds (hcur : s.curPath.length < pathSize) :
    (∀ fs : FileSystem, fs.Typed → InBounds Handled.Whole (comSIZE fs s)) ↔
      (s.curPath ++ s.processingCommand).length < pathSize ∧ 0 ≤ s.rootPathLen := by
  constructor
  · intro h
    have hnone := h _ typed_nothing
    unfold comSIZE at hnone
    simp only [Session.getCurPath, inBounds_bind, inBounds_cstr, inBounds_path, inBounds_fileName] at hnone
    obtain ⟨_, _, hpath, hreply⟩ := hnone
    exact ⟨hpath, (inBounds_relativeName.mp ((inBounds_bind _ _).mp hreply)).2.1⟩
  · intro h fs hfs
    obtain ⟨hpath, hroot⟩ := h
    unfold comSIZE
    simp only [Session.getCurPath, inBounds_bind, inBounds_cstr, inBounds_path, inBounds_fileName]
    refine ⟨hcur, Nat.lt_trans hpath (by decide), hpath, ?_⟩
    split
    · rename_i info hinfo
      split
      · simp only [inBounds_bind, inBounds_relativeName]
        exact ⟨hpath, hroot, quote_after 0 (stat_silent _) (drop_fits hpath _) (by decide) (by decide)⟩
      · have hsize := hfs.size _ _ hinfo
        have hdigits : (decimal info.size).length < pathSize :=
          Nat.lt_of_le_of_lt (decimal_length (by omega) (by omega)) (by decide)
        exact (inBounds_bind _ _).mpr (quote_after 0 (stat_silent _) hdigits (by decide) (by decide))
    · simp only [inBounds_bind, inBounds_relativeName]
      exact ⟨hpath, hroot, quote_after 0 (stat_silent _) (drop_fits hpath _) (by decide) (by decide)⟩

theorem transferPath_lengths {a : APath} {jump : List Char} (h : transferPath s = .ok (a, jump)) :
    a.path.length < pathSize ∧ jump.length < pathSize := by
  obtain ⟨⟨hroot, hcur, harg⟩, ha, rfl⟩ := transferPath_eq_ok.mp h
  have hpath := changePath_length hroot hcur ha
  refine ⟨hpath, ?_⟩
  unfold APath.argument
  split
  · exact hpath
  · exact harg

/-- A check that fails is answered with one whole line. -/
theorem refused_bounds {cmd : Command} (hcmd : cmd.Transfers) (hfails : ¬ cmd.Passes s) :
    InBounds Handled.Whole (cmd.handle env fs s) := by
  obtain ⟨text, ret, hlen, hend, htext⟩ := transfer_refused hcmd hfails
  rw [htext env fs]
  exact answer_whole ret hlen hend

theorem comSTOR_bounds (env : Env) (fs : FileSystem) : InBounds Handled.Whole (Command.stor.handle env fs s) ↔
    (Command.Passes s .stor → s.Resolved s.processingCommand) := by
  by_cases hpass : Command.Passes s .stor
  · have ⟨hl, hd, hu⟩ := hpass
    rw [forall_prop_of_true hpass]
    simp only [Command.handle, comSTOR, hl, hd, hu, Bool.not_true, Bool.false_eq_true, if_false, ne_eq, not_true]
    rw [inBounds_bind, inBounds_transferPath]
    apply and_iff_left
    intro a jump ha
    dsimp only
    split
    · exact (inBounds_bind _ _).mpr
        (quote_after _ (stat_silent _) (transferPath_lengths ha).1 (by decide) (by decide))
    · exact armed_whole rfl
  · exact iff_of_true (refused_bounds (Or.inl rfl) hpass) fun h => absurd h hpass

theorem comAPPE_bounds (env : Env) (fs : FileSystem) : InBounds Handled.Whole (Command.appe.handle env fs s) ↔
    (Command.Passes s .appe → s.Resolved s.processingCommand) := by
  by_cases hpass : Command.Passes s .appe
  · have ⟨hl, hu⟩ := hpass
    rw [forall_prop_of_true hpass]
    simp only [Command.handle, comAPPE, hl, hu, Bool.not_true, Bool.false_eq_true, if_false]
    rw [inBounds_bind, inBounds_transferPath]
    exact and_iff_left fun a jump ha => armed_whole rfl
  · exact iff_of_true (refused_bounds (Or.inr (Or.inl rfl)) hpass) fun h => absurd h hpass

theorem comRETR_bounds (env : Env) :
    (∀ fs : FileSystem, fs.Typed → InBounds Handled.Whole (Command.retr.handle env fs s)) ↔ (Command.Passes s .retr →
      s.Resolved s.processingCommand ∧ Leads (fun _ => 0 ≤ s.rootPathLen) s.rootPath s.curPath s.processingCommand) := by
  by_cases hpass : Command.Passes s .retr
  · have ⟨hl, hd, hp⟩ := hpass
    rw [forall_prop_of_true hpass]
    have hleads (hres : s.Resolved s.processingCommand) :
        (∀ a, changePath s.rootPath s.curPath s.processingCommand = .ok (some a) → 0 ≤ s.rootPathLen) ↔
          Leads (fun _ => 0 ≤ s.rootPathLen) s.rootPath s.curPath s.processingCommand := by
      rw [changePath_leads (P := fun _ => 0 ≤ s.rootPathLen) _ _ _ hres.1.root hres.1.cur, leads_imp hres.2]
    simp only [Command.handle, comRETR, hl, hd, hp, Bool.not_true, Bool.false_eq_true, if_false, ne_eq, not_true,
      inBounds_bind, inBounds_transferPath]
    constructor
    · intro h
      obtain ⟨hres, hreply⟩ := h _ typed_nothing
      refine ⟨hres, (hleads hres).mp fun a ha => ?_⟩
      have hpath : transferPath s = .ok (a, a.argument s.processingCommand) :=
        transferPath_eq_ok.mpr ⟨⟨hres.1.root, hres.1.cur, hres.1.argument⟩, ha, rfl⟩
      exact (inBounds_relativeName.mp ((inBounds_bind _ _).mp (hreply a _ hpath))).2.1
    · intro h fs _
      obtain ⟨hres, hroot⟩ := h
      refine ⟨hres, fun a jump hpath => ?_⟩
      have hroot : 0 ≤ s.rootPathLen := (hleads hres).mpr hroot a (transferPath_eq_ok.mp hpath).2.1
      obtain ⟨hlen, hjump⟩ := transferPath_lengths hpath
      split
      · split
        · exact (inBounds_bind _ _).mpr (quote_after _ (stat_silent _) hjump (by decide) (by decide))
        · split
          · simp only [inBounds_bind, inBounds_relativeName]
            exact ⟨hlen, hroot, quote_after _ (stat_silent _) (drop_fits hlen _) (by decide) (by decide)⟩
          · exact armed_whole rfl
      · simp only [inBounds_bind, inBounds_relativeName]
        exact ⟨hlen, hroot, quote_after _ (stat_silent _) (drop_fits hlen _) (by decide) (by decide)⟩
  · exact iff_of_true (fun fs _ => refused_bounds (Or.inr (Or.inr rfl)) hpass) fun h => absurd h hpass

theorem addSlash_fault (path : List Char) : addSlash path ≠ .error .nullPointer := by
  intro h
  unfold addSlash advance at h
  split at h
  · change (if strncmp (path.drop ((path.length : Int) - 1).toNat) "/".toList 1 then Except.ok path
      else strncat pathSize path "/".toList commandSize) = _ at h
    split at h
    · exact nomatch h
    · unfold strncat cstr at h
      split at h <;> exact nomatch h
  · exact nomatch h

theorem addSlash_ne_nil {path q : List Char} (h : addSlash path = .ok q) : path ≠ [] ∧ q ≠ [] := by
  have hpath : path ≠ [] := by
    intro hnil
    rw [hnil] at h
    exact nomatch h
  rcases addSlash_cases h with rfl | ⟨rfl, _⟩
  · exact ⟨hpath, hpath⟩
  · exact ⟨hpath, List.append_ne_nil_of_right_ne_nil _ (List.cons_ne_nil _ _)⟩

/-- What a change of directory comes to once its strings are in bounds. -/
theorem inBounds_comCWD {arg : List Char} (fs : FileSystem) (htext : s.processingCommand = ' ' :: arg) :
    InBounds Handled.Whole (comCWD fs s) ↔ s.Resolved arg ∧
      ∀ a info, changePath s.rootPath s.curPath arg = .ok (some a) → fs.lstat a.path = some info → info.isDir →
        s.rootPath <:+: a.path → s.rootPath ≠ [] ∧ ∃ path, addSlash a.path = .ok path := by
  obtain ⟨hempty, hblank⟩ := cmpProcessingCommand_blank htext
  have hdrop : s.processingCommand.drop 1 = arg := by
    rw [htext]
    rfl
  have hguarded {path : List Char} (hguard : s.rootPath <:+: path) : ¬ (strstr path s.rootPath).isNone = true := by
    rw [Option.isNone_iff_eq_none, ← Option.not_isSome_iff_eq_none, strstr_isSome_iff]
    exact not_not_intro hguard
  unfold comCWD
  rw [if_neg (ne_true_of_eq_false hempty), if_pos hblank, hdrop, inBounds_bind, inBounds_strncpy]
  simp only [Session.getCurPath, Session.getRootPath, inBounds_bind, inBounds_cstr,
    inBounds_iff (changePath_fault _ _ _)]
  constructor
  · intro h
    obtain ⟨harg, hcur, hroot, o, ho, hreply⟩ := h
    refine ⟨⟨⟨hroot, hcur, harg⟩, (changePath_ok_iff _ _ _ hroot hcur).mp ⟨o, ho⟩⟩, ?_⟩
    intro a info ha hinfo hdir hguard
    rw [ho] at ha
    cases ha
    simp only [hinfo, if_neg (hguarded hguard), if_pos hdir] at hreply
    rw [inBounds_bind, inBounds_iff (addSlash_fault _)] at hreply
    obtain ⟨path, hpath, hreply⟩ := hreply
    refine ⟨?_, path, hpath⟩
    by_cases hb : a.buffer = .root
    · rw [← changePath_root ho hb]
      exact (addSlash_ne_nil hpath).1
    · rw [if_neg hb, inBounds_bind, inBounds_advance] at hreply
      have hpos : 0 ≤ (s.rootPath.length : Int) - 1 := hreply.1
      exact List.length_pos_iff.mp (by omega)
  · intro h
    obtain ⟨⟨⟨hroot, hcur, harg⟩, hleads⟩, henter⟩ := h
    obtain ⟨o, ho⟩ := (changePath_ok_iff _ _ _ hroot hcur).mpr hleads
    refine ⟨harg, hcur, hroot, o, ho, ?_⟩
    have hsilent (path : List Char) : ∀ e ∈ [Effect.lstat path], e.reply? = none := List.forall_mem_singleton.mpr rfl
    cases o with
    | none => exact (inBounds_bind _ _).mpr (quote_fits 0 harg (by decide) (by decide))
    | some a =>
      have hlen := changePath_length hroot hcur ho
      have hjump : (a.argument arg).length < pathSize := by
        unfold APath.argument
        split
        · exact hlen
        · exact harg
      cases hinfo : fs.lstat a.path with
      | none =>
        simp only [hinfo]
        exact (inBounds_bind _ _).mpr (quote_after 0 (hsilent _) hjump (by decide) (by decide))
      | some info =>
        simp only [hinfo]
        split
        · exact (inBounds_bind _ _).mpr (quote_after 0 (hsilent _) hjump (by decide) (by decide))
        · rename_i hguard
          have hguard : s.rootPath <:+: a.path := by
            rw [← strstr_isSome_iff, Option.isSome_iff_ne_none]
            simpa using hguard
          split
          · rename_i hdir
            obtain ⟨hne, path, hpath⟩ := henter a info ho hinfo hdir hguard
            have hfits : path.length < pathSize := by
              rcases addSlash_cases hpath with rfl | ⟨rfl, hfits⟩
              · exact hlen
              · exact hfits
            refine (inBounds_bind _ _).mpr ((inBounds_iff (addSlash_fault _)).mpr ⟨path, hpath, ?_⟩)
            rw [inBounds_bind, inBounds_advance, inBounds_bind]
            refine ⟨?_, quote_after 0 (hsilent _) (drop_fits hfits _) (by decide) (by decide)⟩
            by_cases hb : a.buffer = .root
            · rw [if_pos hb]
              have hpos := List.length_pos_iff.mpr (addSlash_ne_nil hpath).2
              show 0 ≤ (path.length : Int) - 1
              omega
            · rw [if_neg hb]
              have hpos := List.length_pos_iff.mpr hne
              show 0 ≤ (s.rootPath.length : Int) - 1
              omega
          · rw [inBounds_bind, inBounds_advance, inBounds_bind]
            exact ⟨Int.natCast_nonneg _, quote_after 0 (hsilent _) (drop_fits hlen _) (by decide) (by decide)⟩

theorem comCWD_bounds : (∀ fs : FileSystem, fs.Typed → InBounds Handled.Whole (comCWD fs s)) ↔
    ∀ arg, s.processingCommand = ' ' :: arg →
      s.Resolved arg ∧ Leads (Enters s.rootPath) s.rootPath s.curPath arg := by
  by_cases hblank : ∃ arg, s.processingCommand = ' ' :: arg
  · obtain ⟨arg, htext⟩ := hblank
    have hsystems (path : List Char) : (∀ fs : FileSystem, fs.Typed → ∀ info, fs.lstat path = some info → info.isDir →
        s.rootPath <:+: path → s.rootPath ≠ [] ∧ ∃ q, addSlash path = .ok q) ↔ Enters s.rootPath path := by
      constructor
      · intro h hne hguard
        have hthere := h ⟨fun _ => none, fun p => if p = [] then none else some ⟨true, 0⟩⟩
          ⟨fun _ _ h => (nomatch h), rfl⟩ ⟨true, 0⟩ (if_neg hne) rfl hguard
        exact ⟨hthere.1, (addSlash_ok_iff hne).mp hthere.2⟩
      · intro h fs hfs info hinfo _ hguard
        have hne : path ≠ [] := by
          intro hnil
          rw [hnil, hfs.empty] at hinfo
          exact nomatch hinfo
        exact ⟨(h hne hguard).1, (addSlash_ok_iff hne).mpr (h hne hguard).2⟩
    have hleads (hres : s.Resolved arg) :
        (∀ a, changePath s.rootPath s.curPath arg = .ok (some a) → Enters s.rootPath a.path) ↔
          Leads (Enters s.rootPath) s.rootPath s.curPath arg := by
      rw [changePath_leads _ _ _ hres.1.root hres.1.cur, leads_imp hres.2]
    simp only [inBounds_comCWD _ htext]
    constructor
    · intro h arg' htext'
      obtain rfl : arg = arg' := List.tail_eq_of_cons_eq (htext.symm.trans htext')
      have hres := (h _ typed_nothing).1
      refine ⟨hres, (hleads hres).mp fun a ha => (hsystems _).mp fun fs hfs info => ?_⟩
      exact (h fs hfs).2 a info ha
    · intro h fs hfs
      obtain ⟨hres, henters⟩ := h arg htext
      exact ⟨hres, fun a info ha => (hsystems _).mpr ((hleads hres).mpr henters a ha) fs hfs info⟩
  · refine iff_of_true (fun fs _ => ?_) fun arg htext => absurd ⟨arg, htext⟩ hblank
    unfold comCWD
    split
    · exact answer_whole 0 (by decide) (by decide)
    · split
      · rename_i htext
        exact absurd (strncasecmp_blank htext) hblank
      · exact answer_whole 0 (by decide) (by decide)

/-! ### Events -/

theorem runPasv_bounds (cfg : Config) (port : Int) : InBounds Handled.Whole (runPasv cfg s port) ↔
    (cfg.startPort < port ∧ port < cfg.endPort → s.serverIp.length < ipLen) := by
  unfold runPasv
  split
  · rename_i hport
    rw [forall_prop_of_true hport]
    simp only [Session.getServerIp, inBounds_bind, inBounds_cstr]
    apply and_iff_left_of_imp
    intro hip
    have hip : s.serverIp.length < 16 := hip
    have hpart : portPartLen = 4 := rfl
    have htexts : "227 Entering Passive Mode (".toList.length = 27 ∧ ",".toList.length = 1 ∧
        ").\r\n".toList.length = 4 := by decide
    have hlen : ["227 Entering Passive Mode (".toList, s.serverIp.map (fun c => if c != '.' then c else ',') ++ [','],
        (decimal (port >>> (8 : Nat))).take (portPartLen - 1), ",".toList, (decimal (port % 256)).take (portPartLen - 1),
        ").\r\n".toList].flatten.length < commandSize := by
      simp only [List.flatten_cons, List.flatten_nil, List.append_nil, List.length_append, List.length_map,
        List.length_take, List.length_singleton, htexts]
      show _ < 1461
      omega
    rw [compose, inBounds_concat (by decide)]
    exact ⟨hlen, answer_whole _ hlen (flatten_end ").\r\n".toList rfl (by decide))⟩
  · rename_i hport
    exact iff_of_true (answer_whole _ (by decide) (by decide)) fun h => absurd h hport

theorem runListLoad_bounds (hcur : s.curPath.length < pathSize) :
    InBounds Handled.Whole (runListLoad s) ↔ s.serverIp.length < ipLen := by
  unfold runListLoad
  simp only [Session.getServerIp, inBounds_bind, inBounds_cstr]
  apply and_iff_left_of_imp
  intro hip
  refine (quote_line (Nat.lt_trans hip (by decide)) (by decide) (by decide)).mono fun text h => ?_
  exact inBounds_cstr.mpr ⟨hcur, posted_whole rfl h.1 h.2⟩

theorem runStorLoad_bounds (hname : s.fileName.length < pathSize) : InBounds Handled.Whole (runStorLoad s) := by
  rw [runStorLoad, inBounds_bind, Session.getFileName, inBounds_cstr]
  exact ⟨hname, armed_whole rfl⟩

theorem runStorStart_bounds : InBounds Handled.Whole (runStorStart s) ↔ s.serverIp.length < ipLen := by
  unfold runStorStart
  simp only [Session.getServerIp, inBounds_bind, inBounds_cstr]
  apply and_iff_left_of_imp
  intro hip
  exact quote_fits 0 (Nat.lt_trans hip (by decide)) (by decide) (by decide)

theorem runRetrLoad_bounds (hname : s.fileName.length < pathSize) (hs : s.Typed) :
    InBounds Handled.Whole (runRetrLoad s) ↔ s.serverIp.length < ipLen ∧ 0 ≤ s.rootPathLen := by
  unfold runRetrLoad
  simp only [Session.getServerIp, Session.getRelativeName, Session.getFileName, inBounds_bind, inBounds_cstr,
    inBounds_advance, and_iff_right hname]
  rw [and_congr_right_iff]
  intro hip
  apply and_iff_left
  have hip : s.serverIp.length < 16 := hip
  have hrest : (s.fileName.drop s.rootPathLen.toNat).length < 1024 := drop_fits hname _
  have hdigits : (decimal s.fileLen).length ≤ 20 := decimal_length hs.fileLen.1 hs.fileLen.2
  have htexts : "150 Data connection accepted from ".toList.length = 34 ∧
      ";transfer starting for".toList.length = 22 ∧ " (".toList.length = 2 ∧
      " bytes)\r\n".toList.length = 9 := by decide
  have hlen : ["150 Data connection accepted from ".toList, s.serverIp, ";transfer starting for".toList,
      s.fileName.drop s.rootPathLen.toNat, " (".toList, decimal s.fileLen, " bytes)\r\n".toList].flatten.length <
        commandSize := by
    simp only [List.flatten_cons, List.flatten_nil, List.append_nil, List.length_append, htexts]
    show _ < 1461
    omega
  rw [compose, inBounds_concat (by decide)]
  exact ⟨hlen, hname, posted_whole rfl hlen (flatten_end " bytes)\r\n".toList rfl (by decide))⟩

theorem runTransferOk_bounds (s : Session) : (runTransferOk s).Whole :=
  posted_whole rfl (by decide) (by decide)

/-- What does not depend on the file system. -/
theorem forall_typed {P : Prop} : (∀ fs : FileSystem, fs.Typed → P) ↔ P := by
  constructor
  · intro h
    exact h _ typed_nothing
  · intro h _ _
    exact h

/-- **Replies fit.** On every file system a handler gets through with every array in bounds and
posts whole lines of their true length, or stops at a null pointer before it composes
anything, exactly when it has the room it takes for granted. -/
theorem replies_fit_iff (env : Env) (hd : Handler) (s : Session) (hs : s.Typed)
    (hcur : s.curPath.length < pathSize) (hname : s.fileName.length < pathSize) :
    (∀ fs : FileSystem, fs.Typed → InBounds Handled.Whole (hd.run env fs s)) ↔ s.Room env.config hd := by
  cases hd with
  | command cmd =>
    cases cmd with
    | user => exact iff_of_true (fun _ _ => comUSER_bounds _ _) trivial
    | pass => exact iff_of_true (fun _ _ => comPASS_bounds hs) trivial
    | type => exact iff_of_true (fun _ _ => comTYPE_bounds s) trivial
    | cwd => exact comCWD_bounds
    | cdup => exact comCWD_bounds
    | pwd => exact forall_typed.trans (comPWD_bounds hcur)
    | appe => exact (forall₂_congr fun fs _ => comAPPE_bounds env fs).trans forall_typed
    | size => exact comSIZE_bounds hcur
    | rest => exact forall_typed.trans (comREST_bounds s)
    | pasv => exact iff_of_true (fun _ _ => comPASV_bounds s) trivial
    | list => exact iff_of_true (fun _ _ => comLIST_bounds s) trivial
    | stor => exact (forall₂_congr fun fs _ => comSTOR_bounds env fs).trans forall_typed
    | retr => exact comRETR_bounds env
    | syst => exact iff_of_true (fun _ _ => comSYST_bounds _ s) trivial
    | feat => exact iff_of_true (fun _ _ => answer_whole 0 (by decide) (by decide)) trivial
    | bad => exact iff_of_true (fun _ _ => answer_whole 0 (by decide) (by decide)) trivial
  | pasv port => exact forall_typed.trans (runPasv_bounds env.config port)
  | listLoad => exact forall_typed.trans (runListLoad_bounds hcur)
  | storLoad => exact iff_of_true (fun _ _ => runStorLoad_bounds hname) trivial
  | storStart => exact forall_typed.trans runStorStart_bounds
  | retrLoad => exact forall_typed.trans (runRetrLoad_bounds hname hs)
  | transferOk => exact iff_of_true (fun _ _ => runTransferOk_bounds s) trivial

/-- A short offset. -/
theorem replies_fit_offset :
    ∃ h, acceptSession Env.shipped.config 0 [] (.accept 7 "10.0.0.9".toList) = .ok h ∧
      ∀ fs : FileSystem, fs.Typed → InBounds Handled.Whole (Handler.run Env.shipped fs
        {h.session with processingCommand := " 100".toList} (.command .rest)) := by
  refine ⟨_, rfl, (replies_fit_iff Env.shipped (.command .rest) _ ⟨by decide, by decide⟩ (by decide) (by decide)).mpr ?_⟩
  intro arg harg
  obtain rfl : "100".toList = arg := List.tail_eq_of_cons_eq (show ' ' :: "100".toList = ' ' :: arg from harg)
  decide

/-- An argument of a line that fits does not fit its reply, before the login. -/
theorem replies_not_fit_offset :
    ∃ h, acceptSession Env.shipped.config 0 [] (.accept 7 "10.0.0.9".toList) = .ok h ∧
      ("REST".toList ++ ' ' :: List.replicate 1400 '1').length < commandSize ∧
      h.session.curPath.length < pathSize ∧ h.session.fileName.length < pathSize ∧ h.session.logIn = false ∧
      Handler.run Env.shipped (.constant none) {h.session with processingCommand := ' ' :: List.replicate 1400 '1'}
        (.command .rest) = .error .overrun :=
  ⟨_, rfl, by decide +kernel⟩

end
end HyperTransfer
