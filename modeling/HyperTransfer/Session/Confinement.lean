import HyperTransfer.Lib.Lexical
import HyperTransfer.Session.Writes

/-! Confinement to the root.

The current directory is a text that starts with the root's. `com_CDUP` cuts it at a
slash and the guard of `com_CWD` refuses what no longer holds the root's text, so it
stays below the root as long as no argument climbs out by a `..` of its own
(`directory_confined`): the guard reads the text before any `..` in it is resolved.
The transfer commands resolve an argument the same way and have no guard at all;
`transfer_confined_iff` says which arguments they then keep inside: one whose path does not
fit its array, or is gone with the array it was put together in, is not among them. -/
namespace HyperTransfer
open CString Lexical

/-- A root that ends in its slash. -/
def Slashed (root : List Char) : Prop := ∃ r, root = r ++ ['/']

/-- At or under the root by its text. -/
abbrev Under (root path : List Char) : Prop := Below '/' '.' root path

/-! ### Cutting below the root -/

theorem under_cut {root path : List Char} (h : Under root path ∨ path.length < root.length) :
    Under root (comCDUP path) ∨ (comCDUP path).length < root.length := by
  rcases h with h | h
  · rcases comCDUP_cases path with hsame | ⟨a, b, hpath, hcut⟩
    · rw [hsame]
      exact Or.inl h
    · rw [hcut]
      by_cases hlen : (a ++ ['/']).length < root.length
      · exact Or.inr hlen
      · rw [hpath] at h
        exact Or.inl (below_front h (Nat.le_of_not_lt hlen))
  · exact Or.inr (Nat.lt_of_le_of_lt (comCDUP_length path) h)

/-! ### Where the commands put the current directory -/

theorem addSlash_slashed {path : List Char} (h : Slashed path) : addSlash path = .ok path := by
  obtain ⟨r, rfl⟩ := h
  have hlast : advance (r ++ ['/']) ((r ++ ['/']).length - 1) = .ok ['/'] := by
    simp [advance]
  rw [addSlash, hlast]
  rfl

theorem addSlash_cases {path q : List Char} (h : addSlash path = .ok q) :
    q = path ∨ (q = path ++ ['/'] ∧ q.length < pathSize) := by
  obtain ⟨last, _, h⟩ := bind_eq_ok.mp h
  split at h
  · cases h
    exact Or.inl rfl
  · unfold strncat at h
    obtain ⟨hq, hlen⟩ := cstr_eq_ok.mp h
    rw [hq]
    exact Or.inr ⟨rfl, hlen⟩

/-- The place after `com_CWD`: where it was, the root, or what an accepted argument
leads to. -/
inductive Goes (s : Session) : List Char × Int × List Char → Prop where
  | stay : Goes s s.place
  | root (h : s.processingCommand = []) : Goes s (s.rootPath, s.rootPathLen, strncpy pathSize s.rootPath)
  | jump (arg path : List Char) (a : APath) (htext : s.processingCommand = ' ' :: arg)
      (hroot : s.rootPath.length < pathSize) (hcur : s.curPath.length < pathSize)
      (ha : changePath s.rootPath s.curPath arg = .ok (some a)) (hguard : s.rootPath <:+: a.path)
      (hpath : addSlash a.path = .ok path) :
      Goes s (if a.buffer = .root then path else s.rootPath, s.rootPathLen, strncpy pathSize path)

theorem comCWD_goes (fs : FileSystem) (s : Session) :
    Returns (comCWD fs s) fun h => Goes s h.session.place := by
  intro h hh
  cases comCWD_comes fs s h hh with
  | empty hnil => exact .root hnil
  | entered arg htext hcopies a ha _ _ _ hguard path hpath t ht =>
    have hgoes := Goes.jump arg path a htext hcopies.root hcopies.cur ha hguard hpath
    rw [ht]
    by_cases hb : a.buffer = .root
    · rw [if_pos hb] at hgoes ⊢
      exact hgoes
    · rw [if_neg hb] at hgoes ⊢
      exact hgoes
  | _ => exact .stay

/-! ### The current directory over a run -/

/-- The root is the configured one and the current directory is under it. -/
def Kept (root : List Char) (s : Session) : Prop := s.rootPath = root ∧ Under root s.curPath

/-- An argument of `CWD` that does not climb out: if the text it leads to holds the
root's text anywhere, it starts with it and no `..` behind it goes above it. -/
def Unclimbing (root cur arg : List Char) : Prop :=
  Leads (fun p => p.length < pathSize → root <:+: p → Under root p) root cur arg

/-- The argument of `CDUP` never climbs out. -/
theorem unclimbing_up {root cur : List Char} (h : Under root cur) : Unclimbing root cur "..".toList := by
  show (comCDUP cur).length < pathSize → root <:+: comCDUP cur → Under root (comCDUP cur)
  intro _ hinfix
  rcases under_cut (Or.inl h) with h | h
  · exact h
  · exact absurd hinfix.length_le (Nat.not_le_of_lt h)

theorem goes_kept {root : List Char} {s : Session} {place : List Char × Int × List Char} (hroot : Slashed root)
    (hlen : root.length < pathSize) (hs : Kept root s)
    (harg : ∀ arg, s.processingCommand = ' ' :: arg → Unclimbing root s.curPath arg) (h : Goes s place) :
    place.1 = root ∧ Under root place.2.2 := by
  obtain ⟨hsroot, hcur⟩ := hs
  cases h with
  | stay => exact ⟨hsroot, hcur⟩
  | root =>
    refine ⟨hsroot, ?_⟩
    rw [hsroot]
    show Under root (strncpy pathSize root)
    rw [strncpy_of_le (Nat.le_of_lt hlen)]
    exact below_root root
  | jump arg path a htext hrootlen hcurlen ha hguard hpath =>
    rw [hsroot] at ha hguard
    have hunder : Under root a.path :=
      (changePath_leads (P := fun p => root <:+: p → Under root p) root s.curPath arg hlen hcurlen).mpr
        (harg arg htext) a ha hguard
    have hafter : Under root path ∧ path.length < pathSize := by
      rcases addSlash_cases hpath with hsame | ⟨hslash, hfits⟩
      · rw [hsame]
        exact ⟨hunder, changePath_length hlen hcurlen ha⟩
      · refine ⟨?_, hfits⟩
        rw [hslash]
        exact below_slash hunder
    constructor
    · show (if a.buffer = .root then path else s.rootPath) = root
      split
      · rename_i hb
        rw [changePath_root ha hb, addSlash_slashed hroot] at hpath
        exact (Except.ok.inj hpath).symm
      · exact hsroot
    · show Under root (strncpy pathSize path)
      rw [strncpy_of_le (Nat.le_of_lt hafter.2)]
      exact hafter.1

/-- A place with the same root and current directory is kept as well. -/
theorem kept_place {root : List Char} {s t : Session} (hs : Kept root s) (h : t.place = s.place) : Kept root t := by
  have hp : t.rootPath = s.rootPath := congrArg (fun p => p.1) h
  have hc : t.curPath = s.curPath := congrArg (fun p => p.2.2) h
  rw [Kept, hp, hc]
  exact hs

/-- A step moves a session by the handler of `CWD` alone, which is that of `CDUP` as well. -/
theorem next_place {env : Env} {e : Edge SessionInput Session Effect} (h : (session env).Takes e) :
    e.after.place = e.before.place ∨ ∃ cmd u g, cmd.moving = true ∧
      e.input.task.handles e.before = some (cmd, u.processingCommand) ∧ u.place = e.before.place ∧
      comCWD e.input.fs u = .ok g ∧ g.session.place = e.after.place := by
  obtain ⟨r, hr, hafter, _⟩ := takes_roll h
  rw [← hafter]
  rcases rollSession_cases r hr with ⟨_, hcore, _⟩ | ⟨deal, u, g, hline, hu, _, hg, hcore, _, _⟩
  · exact Or.inl (Session.place_of_core hcore)
  · have hbefore : (u.prepared deal).place = e.before.place := Session.place_of_core hu
    have hplace := Session.place_of_core hcore
    cases hm : (command deal).1.moving with
    | false => exact Or.inl (hplace.trans ((handle_place hm g hg).trans hbefore))
    | true =>
      have hcmd : (command deal).1 = .cwd ∨ (command deal).1 = .cdup := by
        simpa [Command.moving] using hm
      have hcomes : comCWD e.input.fs (u.prepared deal) = .ok g := by
        rcases hcmd with hcmd | hcmd
        · rw [hcmd] at hg
          exact hg
        · rw [hcmd] at hg
          exact hg
      exact Or.inr ⟨_, _, g, hm, handles_of_line hline, hbefore, hcomes, hplace.symm⟩

/-- `CDUP` brings an argument of its own. -/
theorem handles_cdup {t : SessionTask} {s : Session} {text : List Char} (h : t.handles s = some (.cdup, text)) :
    text = " ..".toList := by
  obtain ⟨⟨deal, u⟩, _, hdeal⟩ := Option.map_eq_some_iff.mp h
  have hcmd : (command deal).1 = .cdup := congrArg Prod.fst hdeal
  have htext : strncpy commandSize (command deal).2 = text := congrArg Prod.snd hdeal
  rw [← htext, command_cdup hcmd]
  rfl

theorem kept_next {env : Env} {root : List Char} {e : Edge SessionInput Session Effect} (hroot : Slashed root)
    (hlen : root.length < pathSize) (h : (session env).Takes e)
    (harg : ∀ arg, e.input.task.handles e.before = some (.cwd, ' ' :: arg) → Unclimbing root e.before.curPath arg)
    (hs : Kept root e.before) : Kept root e.after := by
  rcases next_place h with hplace | ⟨cmd, u, g, hm, hhandles, hbefore, hg, hplace⟩
  · exact kept_place hs hplace
  · have hkept : Kept root u := kept_place hs hbefore
    have hcur : u.curPath = e.before.curPath := congrArg (fun p => p.2.2) hbefore
    refine kept_place (s := g.session) ?_ hplace.symm
    refine goes_kept hroot hlen hkept (fun arg htext => ?_) (comCWD_goes _ _ g hg)
    rw [htext] at hhandles
    have hcmd : cmd = .cwd ∨ cmd = .cdup := by simpa [Command.moving] using hm
    rcases hcmd with rfl | rfl
    · rw [hcur]
      exact harg arg hhandles
    · have harg : arg = "..".toList := List.tail_eq_of_cons_eq (handles_cdup hhandles)
      rw [harg]
      exact unclimbing_up hkept.2

/-- A client goes down and up again. -/
def downAndUp : List SessionInput :=
  [.read (.constant (some ⟨true, 0⟩)) 7 "CWD pub\r\n".toList, .read (.constant (some ⟨true, 0⟩)) 7 "CDUP\r\n".toList]

/-- `change_path` gets through with its strings in bounds. -/
def Session.Resolved (s : Session) (arg : List Char) : Prop :=
  s.Copies arg ∧ Leads (fun p => p.length < pathSize) s.rootPath s.curPath arg

/-- The file name left behind is inside the root, and so is the path the disk threads
are handed for it. -/
def FileInside (root : List Char) (s : Session) : Prop :=
  Inside '/' '.' root s.fileName ∧
    ∀ g d, (runStorLoad s = .ok g ∨ runRetrLoad s = .ok g) → .postToDisk d ∈ g.effects →
      Inside '/' '.' root d.curPath

section
variable {fs : FileSystem} {s : Session}

theorem transferPath_eq_ok {a : APath} {jump : List Char} : transferPath s = .ok (a, jump) ↔
    s.Copies s.processingCommand ∧ changePath s.rootPath s.curPath s.processingCommand = .ok (some a) ∧
      jump = a.argument s.processingCommand := by
  constructor
  · intro h
    obtain ⟨arg, harg, h⟩ := bind_eq_ok.mp h
    obtain ⟨cur, hcur, h⟩ := bind_eq_ok.mp h
    obtain ⟨root, hroot, h⟩ := bind_eq_ok.mp h
    obtain ⟨rfl, harglen⟩ := cstr_strncpy.mp harg
    obtain ⟨rfl, hcurlen⟩ := cstr_eq_ok.mp hcur
    obtain ⟨rfl, hrootlen⟩ := cstr_eq_ok.mp hroot
    obtain ⟨o, ho, h⟩ := bind_eq_ok.mp h
    cases o with
    | none => exact nomatch h
    | some a' =>
      cases h
      exact ⟨⟨hrootlen, hcurlen, harglen⟩, ho, rfl⟩
  · intro h
    obtain ⟨⟨hroot, hcur, harg⟩, ha, rfl⟩ := h
    exact bind_eq_ok.mpr ⟨_, cstr_strncpy.mpr ⟨rfl, harg⟩, bind_eq_ok.mpr ⟨_, cstr_of_lt hcur,
      bind_eq_ok.mpr ⟨_, cstr_of_lt hroot, bind_eq_ok.mpr ⟨_, ha, rfl⟩⟩⟩⟩

/-- Once its strings are in bounds a transfer is what it makes of the path. -/
theorem inBounds_transferPath {Q : APath × List Char → Prop} : InBounds Q (transferPath s) ↔
    s.Resolved s.processingCommand ∧ ∀ a jump, transferPath s = .ok (a, jump) → Q (a, jump) := by
  have hsteps : InBounds Q (transferPath s) ↔ s.Copies s.processingCommand ∧
      ∃ o, changePath s.rootPath s.curPath s.processingCommand = .ok o ∧
        ∀ a, o = some a → Q (a, a.argument s.processingCommand) := by
    rw [transferPath, inBounds_bind, inBounds_strncpy]
    simp only [Session.getCurPath, Session.getRootPath, inBounds_bind, inBounds_cstr,
      inBounds_iff (changePath_fault _ _ _)]
    constructor
    · intro h
      obtain ⟨harg, hcur, hroot, o, ho, hQ⟩ := h
      refine ⟨⟨hroot, hcur, harg⟩, o, ho, ?_⟩
      rintro a rfl
      exact hQ
    · intro h
      obtain ⟨⟨hroot, hcur, harg⟩, o, ho, hQ⟩ := h
      refine ⟨harg, hcur, hroot, o, ho, ?_⟩
      cases o with
      | none => exact rfl
      | some a => exact hQ a rfl
  rw [hsteps, Session.Resolved, and_assoc, and_congr_right_iff]
  intro hcopies
  rw [← changePath_ok_iff _ _ _ hcopies.root hcopies.cur]
  constructor
  · intro h
    obtain ⟨o, ho, hQ⟩ := h
    refine ⟨⟨o, ho⟩, fun a jump hpath => ?_⟩
    obtain ⟨_, ha, rfl⟩ := transferPath_eq_ok.mp hpath
    rw [ho] at ha
    exact hQ a (Except.ok.inj ha)
  · intro h
    obtain ⟨⟨o, ho⟩, hQ⟩ := h
    refine ⟨o, ho, ?_⟩
    rintro a rfl
    exact hQ a _ (transferPath_eq_ok.mpr ⟨⟨hcopies.root, hcopies.cur, hcopies.argument⟩, ho, rfl⟩)

/-- On a suitable file system a resolved argument is accepted. -/
theorem handle_accepts (env : Env) {cmd : Command} {a : APath} {jump : List Char} (hpasses : cmd.Passes s)
    (ha : transferPath s = .ok (a, jump)) : ∃ fs h, cmd.handle env fs s = .ok h ∧
      .setDataAction cmd.arms ∈ h.effects ∧ h.session.fileName = strncpy pathSize a.path := by
  cases cmd with
  | stor =>
    obtain ⟨hl, hd, hu⟩ := hpasses
    have hstor : Command.stor.handle env (.constant none) s = .ok {
        session := (s.setFileName a.path).setDataAction .stor
        effects := [.stat a.path, .setDataAction .stor] } := by
      simp only [Command.handle, comSTOR, hl, hd, hu, ha, Bool.not_true, Bool.false_eq_true, if_false, ne_eq, not_true]
      rfl
    exact ⟨_, _, hstor, List.mem_cons_of_mem _ (List.mem_singleton_self _), rfl⟩
  | appe =>
    obtain ⟨hl, hu⟩ := hpasses
    have happe : Command.appe.handle env (.constant none) s = .ok {
        session := ((s.setFileName a.path).setRestSize 0).setDataAction .stor
        effects := [.stat a.path, .setDataAction .stor] } := by
      simp only [Command.handle, comAPPE, hl, hu, ha, Bool.not_true, Bool.false_eq_true, if_false]
      rfl
    exact ⟨_, _, happe, List.mem_cons_of_mem _ (List.mem_singleton_self _), rfl⟩
  | retr =>
    obtain ⟨hl, hd, hu⟩ := hpasses
    -- a regular file at least as long as the offset
    have hlong : ¬ (s.restSize ≠ 0 ∧ (s.restSize.toNat : Int) < s.restSize) := by
      omega
    have hretr : Command.retr.handle env (.constant (some ⟨false, s.restSize.toNat⟩)) s = .ok {
        session := ((s.setFileName a.path).setFileLen s.restSize.toNat).setDataAction .retr
        effects := [.stat a.path, .setDataAction .retr] } := by
      simp only [Command.handle, comRETR, hl, hd, hu, ha, Bool.not_true, Bool.false_eq_true, if_false, ne_eq, not_true]
      show (if s.restSize ≠ 0 ∧ (s.restSize.toNat : Int) < s.restSize then _ else _) = _
      rw [if_neg hlong]
      rfl
    exact ⟨_, _, hretr, List.mem_cons_of_mem _ (List.mem_singleton_self _), rfl⟩
  | _ => exact hpasses.elim

/-- What the disk threads are handed for an upload or a download is the file name. -/
theorem load_names {g : Handled} {d : DiskTask} (h : runStorLoad s = .ok g ∨ runRetrLoad s = .ok g)
    (hd : .postToDisk d ∈ g.effects) : d.curPath = s.fileName := by
  have hname {name : List Char} (hn : s.getFileName = .ok name) : strncpy pathSize name = s.fileName := by
    obtain ⟨hn, hlen⟩ := cstr_eq_ok.mp hn
    rw [hn, strncpy_of_le (Nat.le_of_lt hlen)]
  rcases h with h | h
  · obtain ⟨name, hn, h⟩ := bind_eq_ok.mp h
    cases h
    simp only [List.mem_cons, Effect.postToDisk.injEq, List.not_mem_nil, or_false] at hd
    rw [hd]
    exact hname hn
  · obtain ⟨ip, _, h⟩ := bind_eq_ok.mp h
    obtain ⟨relative, _, h⟩ := bind_eq_ok.mp h
    obtain ⟨text, _, h⟩ := bind_eq_ok.mp h
    obtain ⟨name, hn, h⟩ := bind_eq_ok.mp h
    cases h
    simp only [List.mem_cons, reduceCtorEq, Effect.postToDisk.injEq, List.not_mem_nil, or_false, false_or,
      Session.post] at hd
    rw [hd]
    exact hname hn

/-- What a transfer command that arms the session has checked and left behind. -/
theorem handle_arms {env : Env} {cmd : Command} (hcmd : cmd.Transfers) :
    Returns (cmd.handle env fs s) fun h => .setDataAction cmd.arms ∈ h.effects →
      cmd.Passes s ∧ ∃ a jump, transferPath s = .ok (a, jump) ∧ h.session.fileName = strncpy pathSize a.path := by
  intro h hh harms
  cases transfer_comes hcmd h hh with
  | refused => simp [Session.answer, Session.post] at harms
  | answered => simp [Session.answer, Session.post, Handled.after] at harms
  | stor hpass a jump hpath | appe hpass a jump hpath | retr hpass a jump hpath =>
    exact ⟨hpass, a, jump, hpath, rfl⟩

/-- A transfer command overruns no array for its path, which is in an array that is still there
when it is used, and the file it is accepted for is inside the root, whatever is on the disk. -/
structure Session.Confined (s : Session) (env : Env) (cmd : Command) : Prop where
  resolves : cmd.Passes s → InBounds (fun p => p.1.buffer ≠ .temp) (transferPath s)
  inside : ∀ fs h, cmd.handle env fs s = .ok h → .setDataAction cmd.arms ∈ h.effects → FileInside s.rootPath h.session

/-- The path of a transfer is in an array that is still there, unless the argument dangles. -/
theorem transferPath_live : InBounds (fun p => p.1.buffer ≠ .temp) (transferPath s) ↔
    s.Resolved s.processingCommand ∧ dangles s.processingCommand = false := by
  rw [inBounds_transferPath, and_congr_right_iff]
  intro hres
  obtain ⟨hcopies, hfits⟩ := hres
  obtain ⟨o, ho⟩ := (changePath_ok_iff _ _ _ hcopies.root hcopies.cur).mpr hfits
  rw [← Bool.not_eq_true, ← (changePath_buffer ho).2]
  constructor
  · intro hlive htemp
    obtain ⟨a, rfl, hbuffer⟩ := Option.map_eq_some_iff.mp htemp
    exact hlive a _ (transferPath_eq_ok.mpr ⟨hcopies, ho, rfl⟩) hbuffer
  · intro hlive a jump hpath hbuffer
    obtain ⟨_, ha, _⟩ := transferPath_eq_ok.mp hpath
    rw [ho] at ha
    cases ha
    exact hlive (congrArg some hbuffer)

/-- **Transfer confinement.** An upload or a download keeps to the root, exactly when the command
fails its own checks, or the strings of its path and the path itself end in their arrays, the
argument does not dangle, and what it leads to is inside the root. -/
theorem transfer_confined_iff (env : Env) (cmd : Command) (hcmd : cmd = .stor ∨ cmd = .appe ∨ cmd = .retr)
    (s : Session) :
    s.Confined env cmd ↔
      (cmd.Passes s → (s.Resolved s.processingCommand ∧ dangles s.processingCommand = false) ∧
        Leads (Inside '/' '.' s.rootPath) s.rootPath s.curPath s.processingCommand) := by
  have hinside {a : APath} (hcopies : s.Copies s.processingCommand)
      (ha : changePath s.rootPath s.curPath s.processingCommand = .ok (some a)) :
      strncpy pathSize a.path = a.path :=
    strncpy_of_le (Nat.le_of_lt (changePath_length hcopies.root hcopies.cur ha))
  constructor
  · intro hall hpasses
    have hres := transferPath_live.mp (hall.resolves hpasses)
    have hcopies := hres.1.1
    refine ⟨hres, (leads_imp hres.1.2).mp ?_⟩
    refine (changePath_leads (P := Inside '/' '.' s.rootPath) _ _ _ hcopies.root hcopies.cur).mp fun a ha => ?_
    obtain ⟨fs, h, hh, harms, hname⟩ :=
      handle_accepts env hpasses (transferPath_eq_ok.mpr ⟨hcopies, ha, rfl⟩)
    have hfile := (hall.inside fs h hh harms).1
    rwa [hname, hinside hcopies ha] at hfile
  · intro hleads
    refine ⟨fun hpasses => transferPath_live.mpr (hleads hpasses).1, fun fs h hh harms => ?_⟩
    obtain ⟨hpasses, a, jump, ha, hname⟩ := handle_arms hcmd h hh harms
    obtain ⟨⟨⟨hcopies, hfits⟩, _⟩, hleads⟩ := hleads hpasses
    obtain ⟨_, ha, _⟩ := transferPath_eq_ok.mp ha
    have hfile : Inside '/' '.' s.rootPath h.session.fileName := by
      rw [hname, hinside hcopies ha]
      exact (changePath_leads (P := Inside '/' '.' s.rootPath) _ _ _ hcopies.root hcopies.cur).mpr
        ((leads_imp hfits).mpr hleads) a ha
    refine ⟨hfile, fun g d hg hd => ?_⟩
    rw [load_names hg hd]
    exact hfile

theorem transfer_confined_file :
    ∃ h, acceptSession Env.shipped.config 0 [] (.accept 7 "10.0.0.9".toList) = .ok h ∧
      Session.Confined {h.session with
        logIn := true, downloadPer := true, dataAction := .pasvOk
        processingCommand := "file".toList } Env.shipped .retr := by
  refine ⟨_, rfl, (transfer_confined_iff Env.shipped .retr (Or.inr (Or.inr rfl)) _).mpr fun _ => ⟨⟨⟨?_, ?_⟩, ?_⟩, ?_⟩⟩
  · exact ⟨by decide, by decide, by decide⟩
  · exact show "/home/chentianjian/data/file".toList.length < pathSize by decide
  · decide
  · exact show Inside '/' '.' "/home/chentianjian/data/".toList "/home/chentianjian/data/file".toList by decide

/-- No guard at all: a download of `/etc/passwd` is accepted. -/
theorem transfer_left_dots :
    ∃ h, acceptSession Env.shipped.config 0 [] (.accept 7 "10.0.0.9".toList) = .ok h ∧
      ∃ e ∈ (session Env.shipped).trace h.session
          (shareLogin ++ [⟨.constant none, {fd := 7, action := .pasv, bufLen := 2024}⟩,
            .read (.constant (some ⟨false, 0⟩)) 7 "RETR pub/../../../../etc/passwd\r\n".toList]),
        Inside '/' '.' Env.shipped.config.initPath e.before.curPath ∧ .setDataAction .retr ∈ e.effects ∧
          normalize '/' '.' e.after.fileName = ["etc".toList, "passwd".toList] ∧
          ¬ Inside '/' '.' Env.shipped.config.initPath e.after.fileName :=
  ⟨_, rfl, by decide +kernel⟩

end
end HyperTransfer
