import HyperTransfer.Session.Composing
import HyperTransfer.Session.Meaning
import HyperTransfer.Session.Naming

/-! What `PWD` prints, and where `CWD` goes with it.

`PWD` cuts the current directory at a length taken from the root, and `CWD` puts the root in front
of what it is given, but for `/../`, which names the parent. An absolute path leads back exactly
when the current directory begins with the root's text and is not the root's `../`
(`roundTrips_iff`). `CWD` can leave such places: its guard finds the root anywhere in a path, and it
takes `/..` for a name. A run whose steps do neither stays where the paths lead back
(`pwd_cwd_inverse`). -/
namespace HyperTransfer
open CString

/-- What `PWD` prints between the quotes. -/
def Session.printed (s : Session) : List Char := s.curPath.drop s.rootPathLen.toNat

/-- A directory is there. -/
def FileSystem.IsDirectory (fs : FileSystem) (path : List Char) : Prop :=
  ∃ info, fs.lstat path = some info ∧ info.isDir

/-- `PWD` prints a path, and `CWD` with it is accepted and stays in the current directory, as long
as that exists. -/
def Session.RoundTrips (s : Session) : Prop :=
  comPWD s = .ok (s.answer ("257 \"".toList ++ s.printed ++ "\" is current directory.\r\n".toList)) ∧
    ∀ fs : FileSystem, fs.IsDirectory s.curPath →
      ∃ h, comCWD fs {s with processingCommand := ' ' :: s.printed} = .ok h ∧ h.session.curPath = s.curPath ∧
        Replied "250".toList h.effects

/-- A path that the root is put in front of and not read in another way. -/
def Rooted (root path : List Char) : Prop := root <+: path ∧ (root = ['/'] ∨ path ≠ root ++ "../".toList)

/-- Where an argument leads, if `CWD` goes there, the root is in front. -/
def LeadsRooted (fs : FileSystem) (root cur arg : List Char) : Prop :=
  Leads (fun path => path.length < pathSize → root <:+: path → fs.IsDirectory path →
    Rooted root path ∧ Rooted root (path ++ ['/'])) root cur arg

/-- What holds of the paths of every session. -/
structure Session.Placed (root : List Char) (s : Session) : Prop where
  rootPath : s.rootPath = root
  rootPathLen : s.rootPathLen = (root.length : Int) - 1
  slashed : Slashed s.curPath
  fits : s.curPath.length < pathSize

section
variable {fs : FileSystem} {s : Session} {root arg path base rest : List Char} {a : APath} {info : FileInfo}

/-! ### Printing -/

theorem comPWD_prints (hl : s.logIn = true) (hlen : 0 ≤ s.rootPathLen) (hfits : s.curPath.length < pathSize) :
    comPWD s = .ok (s.answer ("257 \"".toList ++ s.printed ++ "\" is current directory.\r\n".toList)) := by
  have hshort : s.printed.length < pathSize := drop_fits hfits _
  have hcompose : compose ["257 \"".toList, s.printed, "\" is current directory.\r\n".toList] =
      .ok ("257 \"".toList ++ s.printed ++ "\" is current directory.\r\n".toList) := by
    refine (concat_eq_ok (by decide)).mpr ⟨?_, ?_⟩
    · rw [List.flatten_cons, List.flatten_cons, List.flatten_singleton, List.append_assoc]
    · have hpath : s.printed.length < 1024 := hshort
      rw [quote_length]
      show 5 + s.printed.length + 25 < 1461
      omega
  unfold comPWD
  rw [if_pos hl, Session.getCurPath, cstr_of_lt hfits]
  dsimp only [bind, Except.bind]
  rw [advance, if_pos hlen]
  dsimp only
  rw [show s.curPath.drop s.rootPathLen.toNat = s.printed from rfl, hcompose]
  rfl

/-! ### Going there -/

theorem replied_after {h : Handled} (path code : List Char) :
    Replied code (h.after [.lstat path]).effects ↔ Replied code h.effects := by
  constructor
  · intro hreplied
    obtain ⟨buf, len, hmem, hcode⟩ := hreplied
    rcases List.mem_cons.mp hmem with heq | hmem
    · exact nomatch heq
    · exact ⟨buf, len, hmem, hcode⟩
  · intro hreplied
    obtain ⟨buf, len, hmem, hcode⟩ := hreplied
    exact ⟨buf, len, List.mem_cons_of_mem _ hmem, hcode⟩

/-- `CWD` with the path of a directory: the guard decides. -/
theorem comCWD_there (htext : s.processingCommand = ' ' :: arg) (hcopies : s.Copies arg)
    (ha : changePath s.rootPath s.curPath arg = .ok (some a)) (hinfo : fs.lstat a.path = some info)
    (hdir : info.isDir = true) :
    comCWD fs s =
      if (strstr a.path s.rootPath).isNone then
        (fun text => (s.answer text).after [.lstat a.path]) <$>
          compose ["550 CWD failed. \"".toList, a.argument arg, "\" : Permission denied.\r\n".toList]
      else do
        let path ← addSlash a.path
        let t : Session := if a.buffer = .root then {s with rootPath := path} else s
        let r ← advance path (t.rootPath.length - 1)
        let text ← compose ["250 CWD command successful. \"".toList, r, "\" is current directory.\r\n".toList]
        return ((t.setCurPath path).answer text).after [.lstat a.path] := by
  obtain ⟨hempty, hblank⟩ := cmpProcessingCommand_blank htext
  have hdrop : s.processingCommand.drop 1 = arg := by
    rw [htext]
    rfl
  unfold comCWD
  rw [if_neg (ne_true_of_eq_false hempty), if_pos hblank, hdrop, cstr_strncpy.mpr ⟨rfl, hcopies.argument⟩,
    Session.getCurPath, Session.getRootPath, cstr_of_lt hcopies.cur, cstr_of_lt hcopies.root]
  dsimp only [bind, Except.bind]
  rw [ha]
  dsimp only
  rw [hinfo]
  dsimp only
  rw [if_pos hdir]
  rfl

theorem comCWD_denied (htext : s.processingCommand = ' ' :: arg) (hcopies : s.Copies arg)
    (ha : changePath s.rootPath s.curPath arg = .ok (some a)) (hinfo : fs.lstat a.path = some info)
    (hdir : info.isDir = true) (hguard : ¬ s.rootPath <:+: a.path) {h : Handled} (hh : comCWD fs s = .ok h) :
    ¬ Replied "250".toList h.effects := by
  rw [← strstr_isSome_iff, Option.not_isSome_iff_eq_none, ← Option.isNone_iff_eq_none] at hguard
  rw [comCWD_there htext hcopies ha hinfo hdir, if_pos hguard] at hh
  obtain ⟨text, hcompose, hh⟩ := bind_eq_ok.mp hh
  obtain ⟨rfl, _⟩ := (concat_eq_ok (by decide)).mp hcompose
  cases hh
  rw [replied_after, replied_answer _ 0 (by decide)]
  intro hcode
  exact nomatch (List.cons_prefix_cons.mp hcode).1

theorem comCWD_entered (htext : s.processingCommand = ' ' :: arg) (hcopies : s.Copies arg)
    (ha : changePath s.rootPath s.curPath arg = .ok (some a)) (hinfo : fs.lstat a.path = some info)
    (hdir : info.isDir = true) (hguard : s.rootPath <:+: a.path) (hne : s.rootPath ≠ [])
    (hpath : addSlash a.path = .ok path) (hfits : path.length < pathSize) :
    ∃ h, comCWD fs s = .ok h ∧ h.session.curPath = path ∧ Replied "250".toList h.effects := by
  generalize ht : (if a.buffer = .root then {s with rootPath := path} else s) = t
  have hpos : 0 ≤ (t.rootPath.length : Int) - 1 := by
    have hroot : t.rootPath ≠ [] := by
      rw [← ht]
      split
      · exact (addSlash_ne_nil hpath).2
      · exact hne
    have := List.length_pos_iff.mpr hroot
    omega
  generalize hr : path.drop ((t.rootPath.length : Int) - 1).toNat = r
  have hshort : r.length < 1024 := hr ▸ drop_fits hfits _
  have hcompose : compose ["250 CWD command successful. \"".toList, r, "\" is current directory.\r\n".toList] =
      .ok ["250 CWD command successful. \"".toList, r, "\" is current directory.\r\n".toList].flatten := by
    refine (concat_eq_ok (by decide)).mpr ⟨rfl, ?_⟩
    rw [quote_length]
    show 29 + r.length + 25 < 1461
    omega
  have hopen : ¬ (strstr a.path s.rootPath).isNone = true := by
    rw [Option.isNone_iff_eq_none, ← Option.not_isSome_iff_eq_none, strstr_isSome_iff]
    exact not_not_intro hguard
  rw [comCWD_there htext hcopies ha hinfo hdir, if_neg hopen, hpath]
  dsimp only [bind, Except.bind]
  rw [ht, advance, if_pos hpos, hr]
  dsimp only
  rw [hcompose]
  refine ⟨_, rfl, strncpy_of_le hfits.le, ?_⟩
  rw [replied_after, replied_answer _ 0 (by decide)]
  exact ⟨_, rfl⟩

/-! ### What is printed leads back -/

theorem slashed_ne_nil (h : Slashed path) : path ≠ [] := by
  obtain ⟨r, rfl⟩ := h
  exact List.append_ne_nil_of_right_ne_nil _ (List.cons_ne_nil _ _)

/-- Where an absolute argument leads. -/
theorem changePath_absolute (root cur rest : List Char) : changePath root cur ('/' :: rest) =
    if rest = [] then .ok (some ⟨root, .root⟩)
    else if rest = "../".toList then .ok (some ⟨comCDUP cur, .cur⟩)
    else do return some ⟨← strncat pathSize root rest pathSize, .cwd⟩ := by
  split
  · rename_i h
    rw [h]
    rfl
  · rename_i hnil
    split
    · rename_i h
      rw [h]
      rfl
    · rename_i hup
      rw [changePath]
      · exact hnil
      · exact hup

/-- The current directory where `PWD` cuts it. -/
theorem Session.Placed.cut (hs : s.Placed root) (hprinted : s.printed = '/' :: rest) (hroot : Slashed root) :
    ∃ base, s.curPath = base ++ '/' :: rest ∧ base.length + 1 = root.length := by
  have hpos := List.length_pos_iff.mpr (slashed_ne_nil hroot)
  have hcut : s.rootPathLen.toNat = root.length - 1 := by
    rw [hs.rootPathLen]
    omega
  rw [Session.printed, hcut] at hprinted
  have hlong : root.length - 1 < s.curPath.length := by
    by_contra hshort
    rw [List.drop_of_length_le (by omega)] at hprinted
    exact nomatch hprinted
  refine ⟨s.curPath.take (root.length - 1), ?_, ?_⟩
  · rw [← hprinted, List.take_append_drop]
  · rw [List.length_take]
    omega

/-- The root is in front of a path exactly if it is the path up to the slash where it is cut. -/
theorem rooted_cut (hlen : base.length + 1 = root.length) :
    root <+: base ++ '/' :: rest ↔ root = base ++ ['/'] := by
  have hsplit : base ++ '/' :: rest = (base ++ ['/']) ++ rest := by
    rw [List.append_assoc, List.singleton_append]
  rw [hsplit]
  constructor
  · intro h
    have hfront := List.prefix_of_prefix_length_le h (List.prefix_append ..) (by simp; omega)
    exact hfront.eq_of_length (by simp; omega)
  · intro h
    rw [h]
    exact List.prefix_append ..

/-- What is left of a path that ends in a slash ends in it. -/
theorem slashed_rest (h : Slashed (path ++ rest)) (hne : rest ≠ []) (front : List Char) :
    Slashed (front ++ rest) := by
  obtain ⟨r, hr⟩ := h
  have hend : ['/'] <:+ rest := by
    apply List.suffix_of_suffix_length_le ⟨r, hr.symm⟩ (List.suffix_append path rest)
    exact List.length_pos_iff.mpr hne
  obtain ⟨m, rfl⟩ := hend
  exact ⟨front ++ m, (List.append_assoc ..).symm⟩

theorem rooted_self (root : List Char) : Rooted root root := by
  refine ⟨List.prefix_refl root, Or.inr ?_⟩
  intro h
  exact absurd (congrArg List.length h) (by simp)

/-- The parent of a path that ends in `../`, unless there is no slash before that one. -/
theorem comCDUP_up (hpath : path = base ++ '/' :: rest) (hup : rest = "../".toList) :
    comCDUP path = if base = [] then path else base ++ ['/'] := by
  rw [hpath, hup]
  have hlast := comCDUP_last (d := base) (c := "..".toList) (by decide)
  rw [show base ++ '/' :: "../".toList = base ++ '/' :: ("..".toList ++ ['/']) from rfl, hlast]
  split
  · rename_i h
    rw [h]
    rfl
  · rfl

theorem everywhere_directory (path : List Char) : (FileSystem.constant (some ⟨true, 0⟩)).IsDirectory path :=
  ⟨⟨true, 0⟩, rfl, rfl⟩

/-- Where `CWD` goes with the path in hand. -/
theorem cwd_printed (hs : s.Placed root) (hroot : Slashed root) (hlen : root.length < pathSize)
    (hfs : fs.IsDirectory a.path) (ha : changePath root s.curPath s.printed = .ok (some a)) (hslash : Slashed a.path)
    (hfits : a.path.length < pathSize) :
    (root <:+: a.path → ∃ h, comCWD fs {s with processingCommand := ' ' :: s.printed} = .ok h ∧
        h.session.curPath = a.path ∧ Replied "250".toList h.effects) ∧
      (¬ root <:+: a.path → ∀ h, comCWD fs {s with processingCommand := ' ' :: s.printed} = .ok h →
        ¬ Replied "250".toList h.effects) := by
  obtain ⟨info, hinfo, hdir⟩ := hfs
  have hcopies : Session.Copies {s with processingCommand := ' ' :: s.printed} s.printed :=
    ⟨hs.rootPath.symm ▸ hlen, hs.fits, drop_fits hs.fits _⟩
  rw [← hs.rootPath] at ha hroot ⊢
  constructor
  · intro hguard
    exact comCWD_entered rfl hcopies ha hinfo hdir hguard (slashed_ne_nil hroot) (addSlash_slashed hslash) hfits
  · intro hguard h hh
    exact comCWD_denied rfl hcopies ha hinfo hdir hguard hh

/-- An absolute path leads back exactly when it is rooted. -/
theorem roundTrips_iff (hs : s.Placed root) (hl : s.logIn = true) (hroot : Slashed root) (hlen : root.length < pathSize)
    (hprinted : s.printed = '/' :: rest) : s.RoundTrips ↔ Rooted root s.curPath := by
  obtain ⟨base, hcur, hbase⟩ := hs.cut hprinted hroot
  have habsolute := changePath_absolute root s.curPath rest
  have hsplit : s.curPath = base ++ ['/'] ++ rest := by
    rw [hcur, List.append_assoc, List.singleton_append]
  constructor
  · intro h
    obtain ⟨g, hg, hsame, hreplied⟩ := h.2 _ (everywhere_directory _)
    -- wherever the path leads, the session has gone there
    have hgone {a : APath} (ha : changePath root s.curPath s.printed = .ok (some a)) (hslash : Slashed a.path)
        (hfits : a.path.length < pathSize) : root <:+: a.path ∧ a.path = s.curPath := by
      obtain ⟨hopen, hshut⟩ := cwd_printed hs hroot hlen (everywhere_directory a.path) ha hslash hfits
      by_cases hguard : root <:+: a.path
      · obtain ⟨g', hg', hpath, _⟩ := hopen hguard
        cases hg.symm.trans hg'
        exact ⟨hguard, hpath.symm.trans hsame⟩
      · exact absurd hreplied (hshut hguard g hg)
    rw [hprinted, habsolute] at hgone
    by_cases hnil : rest = []
    · rw [if_pos hnil] at hgone
      rw [← (hgone rfl hroot hlen).2]
      exact rooted_self root
    · rw [if_neg hnil] at hgone
      by_cases hup : rest = "../".toList
      · rw [if_pos hup] at hgone
        have hparent := comCDUP_up hcur hup
        by_cases hnone : base = []
        · have hslash : root = base ++ ['/'] := by
            obtain ⟨r, rfl⟩ := hroot
            rw [hnone, List.length_append] at hbase
            rw [hnone, List.length_eq_zero_iff.mp (show r.length = 0 by simpa using hbase)]
          refine ⟨?_, Or.inl (by rw [hslash, hnone]; rfl)⟩
          rw [hcur]
          exact (rooted_cut hbase).mpr hslash
        · rw [if_neg hnone] at hparent
          have hshort : (comCDUP s.curPath).length < pathSize := Nat.lt_of_le_of_lt (comCDUP_length _) hs.fits
          have hsame := (hgone rfl ⟨base, hparent⟩ hshort).2
          -- the parent is shorter
          have hlength := congrArg List.length (hparent.symm.trans hsame)
          rw [hsplit, hup] at hlength
          exact absurd hlength (by simp)
      · rw [if_neg hup] at hgone
        by_cases hfits : (root ++ rest).length < pathSize
        · rw [strncat_eq_ok.mpr ⟨rfl, hfits⟩] at hgone
          have hsame := (hgone rfl (slashed_rest (hsplit ▸ hs.slashed) hnil root) hfits).2
          refine ⟨⟨rest, hsame⟩, Or.inr ?_⟩
          intro hdots
          exact hup (List.append_cancel_left (hsame.trans hdots))
        · obtain ⟨o, ho, _⟩ := comCWD_resolves rfl g hg
          have ho := (resolve_eq_ok.mp ho).2
          change changePath s.rootPath s.curPath s.printed = _ at ho
          rw [hs.rootPath, hprinted, habsolute, if_neg hnil, if_neg hup] at ho
          obtain ⟨_, hcat, _⟩ := bind_eq_ok.mp ho
          exact absurd (strncat_eq_ok.mp hcat).2 hfits
  · intro h
    obtain ⟨hfront, hparent⟩ := h
    have hbase : root = base ++ ['/'] := (rooted_cut hbase).mp (hcur ▸ hfront)
    obtain ⟨a, ha, hpath⟩ : ∃ a, changePath root s.curPath s.printed = .ok (some a) ∧ a.path = s.curPath := by
      rw [hprinted, habsolute]
      by_cases hnil : rest = []
      · rw [if_pos hnil]
        refine ⟨_, rfl, ?_⟩
        rw [hsplit, hnil, List.append_nil]
        exact hbase
      · rw [if_neg hnil]
        by_cases hup : rest = "../".toList
        · rw [if_pos hup]
          refine ⟨_, rfl, ?_⟩
          have hdots : s.curPath = root ++ "../".toList := by
            rw [hsplit, hup, hbase]
          have hslash := hparent.resolve_right (not_not_intro hdots)
          have hnone : base = [] := by
            rw [hbase] at hslash
            exact List.append_cancel_right (show base ++ ['/'] = [] ++ ['/'] from hslash)
          show comCDUP s.curPath = s.curPath
          rw [comCDUP_up hcur hup, if_pos hnone]
        · rw [if_neg hup]
          have hwhole : root ++ rest = s.curPath := by
            rw [hbase, hsplit]
          rw [strncat_eq_ok.mpr ⟨hwhole.symm, hwhole ▸ hs.fits⟩]
          exact ⟨_, rfl, rfl⟩
    have hpwd : 0 ≤ s.rootPathLen := by
      have := List.length_pos_iff.mpr (slashed_ne_nil hroot)
      rw [hs.rootPathLen]
      omega
    refine ⟨comPWD_prints hl hpwd hs.fits, ?_⟩
    intro fs hfs
    rw [← hpath] at hfs
    obtain ⟨hopen, _⟩ := cwd_printed hs hroot hlen hfs ha (hpath.symm ▸ hs.slashed) (hpath.symm ▸ hs.fits)
    obtain ⟨h, hh, hsame, hreplied⟩ := hopen (hpath.symm ▸ hfront.isInfix)
    exact ⟨h, hh, hsame.trans hpath, hreplied⟩

/-! ### Runs -/

/-- The slash that `CWD` puts behind a path. -/
theorem addSlash_ends {q : List Char} (h : addSlash q = .ok path) : Slashed path := by
  obtain ⟨hne, _⟩ := addSlash_ne_nil h
  rw [addSlash_eq hne] at h
  split at h
  · rename_i hlast
    cases h
    exact ⟨path.dropLast, by rw [← hlast, List.dropLast_concat_getLast hne]⟩
  · obtain ⟨rfl, _⟩ := cstr_eq_ok.mp h
    exact ⟨q, rfl⟩

theorem placed_of {t : Session} (hpath : t.rootPath = root) (hlen : t.rootPathLen = (root.length : Int) - 1)
    (hcur : t.curPath = path) (hslash : Slashed path) (hfits : path.length < pathSize) : t.Placed root :=
  ⟨hpath, hlen, hcur ▸ hslash, hcur ▸ hfits⟩

theorem placed_place {t : Session} (hs : s.Placed root) (h : t.place = s.place) : t.Placed root := by
  have hpath : t.rootPath = s.rootPath := congrArg (fun p => p.1) h
  have hlen : t.rootPathLen = s.rootPathLen := congrArg (fun p => p.2.1) h
  have hcur : t.curPath = s.curPath := congrArg (fun p => p.2.2) h
  exact ⟨hpath.trans hs.rootPath, hlen.trans hs.rootPathLen, hcur ▸ hs.slashed, hcur ▸ hs.fits⟩

/-- `CWD` leaves a session in a directory, and in front of it the root where its argument leads so. -/
theorem comCWD_placed (hs : s.Placed root) (hroot : Slashed root) (hlen : root.length < pathSize) :
    Returns (comCWD fs s) fun h => h.session.Placed root ∧
      (Rooted root s.curPath → (∀ arg, s.processingCommand = ' ' :: arg → LeadsRooted fs root s.curPath arg) →
        Rooted root h.session.curPath) := by
  intro h hh
  cases comCWD_comes fs s h hh with
  | empty hnil =>
    have hcur : strncpy pathSize s.rootPath = root := by
      rw [hs.rootPath, strncpy_of_le hlen.le]
    refine ⟨placed_of hs.rootPath hs.rootPathLen hcur hroot hlen, fun _ _ => ?_⟩
    show Rooted root (strncpy pathSize s.rootPath)
    rw [hcur]
    exact rooted_self root
  | entered arg htext hcopies a ha info hinfo hdir hguard path hpath t ht =>
    rw [hs.rootPath] at ha hguard
    have hcases := addSlash_cases hpath
    have hfits : path.length < pathSize := by
      rcases hcases with rfl | ⟨_, hfits⟩
      · exact changePath_length hlen hcopies.cur ha
      · exact hfits
    have hcur : strncpy pathSize path = path := strncpy_of_le hfits.le
    have hroots : t.rootPath = root := by
      rw [ht]
      split
      · rename_i hb
        rw [changePath_root ha hb, addSlash_slashed hroot] at hpath
        exact (Except.ok.inj hpath).symm
      · exact hs.rootPath
    have hrootLen : t.rootPathLen = s.rootPathLen := by
      rw [ht]
      split <;> rfl
    refine ⟨placed_of hroots (hrootLen.trans hs.rootPathLen) hcur (addSlash_ends hpath) hfits, fun _ hargs => ?_⟩
    show Rooted root (strncpy pathSize path)
    rw [hcur]
    have hleads := (changePath_leads (P := fun p => root <:+: p → fs.IsDirectory p →
      Rooted root p ∧ Rooted root (p ++ ['/'])) root s.curPath arg hlen hcopies.cur).mpr (hargs arg htext)
    obtain ⟨hplain, hended⟩ := hleads a ha hguard ⟨info, hinfo, hdir⟩
    rcases hcases with rfl | ⟨rfl, _⟩
    · exact hplain
    · exact hended
  | _ => exact ⟨placed_place hs rfl, fun hcur _ => hcur⟩

theorem placed_next {env : Env} {e : Edge SessionInput Session Effect} (h : (session env).Takes e)
    (hs : e.before.Placed root) (hroot : Slashed root) (hlen : root.length < pathSize) :
    e.after.Placed root ∧
      ((∀ cmd arg, cmd.moving = true → e.input.task.handles e.before = some (cmd, ' ' :: arg) →
          LeadsRooted e.input.fs root e.before.curPath arg) →
        Rooted root e.before.curPath → Rooted root e.after.curPath) := by
  rcases next_place h with hplace | ⟨cmd, u, g, hm, hhandles, hbefore, hg, hplace⟩
  · refine ⟨placed_place hs hplace, fun _ hcur => ?_⟩
    rw [show e.after.curPath = e.before.curPath from congrArg (fun p => p.2.2) hplace]
    exact hcur
  · have hcur : u.curPath = e.before.curPath := congrArg (fun p => p.2.2) hbefore
    obtain ⟨hplaced, hrooted⟩ := comCWD_placed (placed_place hs hbefore) hroot hlen g hg
    refine ⟨placed_place hplaced hplace.symm, fun hargs hold => ?_⟩
    rw [show e.after.curPath = g.session.curPath from congrArg (fun p => p.2.2) hplace.symm]
    apply hrooted
    · rw [hcur]
      exact hold
    · intro arg htext
      rw [hcur]
      exact hargs cmd arg hm (htext ▸ hhandles)

/-- A rooted path is printed from its slash on. -/
theorem printed_absolute (hs : s.Placed root) (hroot : Slashed root) (h : Rooted root s.curPath) :
    ∃ rest, s.printed = '/' :: rest := by
  obtain ⟨r, rfl⟩ := hroot
  obtain ⟨rest, hrest⟩ := h.1
  have hcut : s.rootPathLen.toNat = r.length := by
    rw [hs.rootPathLen, List.length_append, List.length_singleton]
    omega
  refine ⟨rest, ?_⟩
  rw [Session.printed, hcut, ← hrest, List.append_assoc, List.drop_left]
  rfl

end

/-- A user logs in and changes the directory. -/
def shareMoves (arg : List Char) : List SessionInput :=
  shareLogin ++ [.read (.constant (some ⟨true, 0⟩)) 7 ("CWD ".toList ++ arg ++ Session.crlf)]

/-- A session of the shipped server that does not come back. -/
theorem not_roundTrips (cur : List Char) {rest : List Char} {states : List Session}
    (hs : ∃ s ∈ states, s.logIn = true ∧ s.rootPath = Env.shipped.config.initPath ∧ s.rootPathLen = 23 ∧
      s.curPath = cur)
    (hslash : Slashed cur) (hfits : cur.length < pathSize) (hprinted : cur.drop 23 = '/' :: rest)
    (hnot : ¬ Rooted Env.shipped.config.initPath cur) :
    ∃ s ∈ states, s.logIn = true ∧ s.printed = '/' :: rest ∧ ¬ s.RoundTrips := by
  obtain ⟨s, hmem, hl, hroot, hlen, rfl⟩ := hs
  have hprinted : s.printed = '/' :: rest := by
    rw [Session.printed, hlen]
    exact hprinted
  refine ⟨s, hmem, hl, hprinted, ?_⟩
  have hends : Slashed Env.shipped.config.initPath := ⟨"/home/chentianjian/data".toList, rfl⟩
  rw [roundTrips_iff ⟨hroot, hlen, hslash, hfits⟩ hl hends (by decide) hprinted]
  exact hnot

end HyperTransfer
