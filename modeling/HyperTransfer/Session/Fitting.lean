import HyperTransfer.Session.Arguments

/-! Whether the strings a path is made of fit.

The bound given to each `strncpy` and `strncat` is the size of the array, not what is left
of it: an argument longer than the array is copied without its end, and one that is not
still overruns it behind the root or the current directory, by a slash if by nothing else.
And the array a path is put together in may be gone before it is used. `paths_fit_iff` says
which arguments are safe. -/
namespace HyperTransfer
open CString

/-- A path fits, and where a change of directory may enter it so does the slash it is given. -/
def Fits (cmd : Command) (root path : List Char) : Prop :=
  path.length < pathSize ∧
    (cmd.moving → root <:+: path → path.getLast? = some '/' ∨ path.length + 1 < pathSize)

/-- The path stored is the one that was looked up, but for its slash. -/
def Handled.Stores (s : Session) (cmd : Command) (h : Handled) : Prop :=
  if cmd.moving then
    h.session.curPath = s.curPath ∨ ∃ path, h.effects.filterMap Effect.lookup? = [path] ∧
      (h.session.curPath = path ∨ h.session.curPath = path ++ ['/'])
  else h.effects.filterMap Effect.lookup? = [h.session.fileName]

/-- Every string that is built on the way ends in its array, on every file system, and the path
is in one that is still there when it is looked up and stored. No file system has an empty
path. -/
structure Session.PathsFit (s : Session) (env : Env) (cmd : Command) (arg : List Char) : Prop where
  built : ∃ o, s.resolve arg = .ok o
  live : ∀ a, s.resolve arg = .ok (some a) → a.buffer ≠ .temp
  slash : ∀ a, s.resolve arg = .ok (some a) → cmd.moving → ∀ (fs : FileSystem) (info : FileInfo),
    fs.lstat [] = none → fs.lstat a.path = some info → info.isDir → s.rootPath <:+: a.path →
      ∃ path, addSlash a.path = .ok path
  stored : ∀ fs h, cmd.handle env fs s = .ok h → h.Stores s cmd

section
variable {env : Env} {s : Session} {cmd : Command} {arg : List Char}

theorem addSlash_eq {path : List Char} (hne : path ≠ []) : addSlash path =
    if path.getLast hne = '/' then .ok path else strncat pathSize path "/".toList commandSize := by
  have hlast : advance path (path.length - 1) = .ok [path.getLast hne] := by
    have hpos := List.length_pos_iff.mpr hne
    have hnat : ((path.length : Int) - 1).toNat = path.length - 1 := by omega
    rw [advance, if_pos (by omega), hnat, List.drop_length_sub_one hne]
  have hslash : strncmp [path.getLast hne] "/".toList 1 = true ↔ path.getLast hne = '/' := by
    simp [strncmp]
  rw [addSlash, hlast]
  show (if strncmp [path.getLast hne] "/".toList 1 then Except.ok path
    else strncat pathSize path "/".toList commandSize) = _
  simp only [hslash]

/-- The slash fits, or is there. -/
theorem addSlash_ok_iff {path : List Char} (hne : path ≠ []) :
    (∃ q, addSlash path = .ok q) ↔ path.getLast? = some '/' ∨ path.length + 1 < pathSize := by
  rw [addSlash_eq hne, List.getLast?_eq_some_getLast hne, Option.some.injEq]
  split
  · rename_i hslash
    exact iff_of_true ⟨path, rfl⟩ (Or.inl hslash)
  · rename_i hslash
    rw [or_iff_right hslash]
    constructor
    · intro h
      obtain ⟨q, hq⟩ := h
      have hlen := (cstr_eq_ok.mp hq).2
      rwa [List.length_append] at hlen
    · intro h
      refine ⟨_, cstr_of_lt ?_⟩
      rwa [List.length_append]

/-- Some file system has a directory there. -/
theorem slash_iff (root path : List Char) :
    (∀ (fs : FileSystem) (info : FileInfo), fs.lstat [] = none → fs.lstat path = some info → info.isDir →
      root <:+: path → ∃ q, addSlash path = .ok q) ↔
    (root <:+: path → path.getLast? = some '/' ∨ path.length + 1 < pathSize) := by
  by_cases hne : path = []
  · rw [hne]
    refine iff_of_true (fun fs info hnone hinfo => ?_) fun _ => Or.inr (by decide)
    rw [hnone] at hinfo
    exact nomatch hinfo
  · rw [← addSlash_ok_iff hne]
    constructor
    · intro h hroot
      exact h ⟨fun _ => none, fun p => if p = [] then none else some ⟨true, 0⟩⟩ ⟨true, 0⟩ rfl (if_neg hne) rfl hroot
    · intro h fs info _ _ _ hroot
      exact h hroot

/-- A handler that returns has stored what it looked up. -/
theorem handle_stores (hcmd : cmd.Resolves s arg) (fs : FileSystem) :
    Returns (cmd.handle env fs s) fun h => h.Stores s cmd := by
  intro h hh
  unfold Handled.Stores
  unfold Command.Resolves at hcmd
  split
  · rename_i hm
    rw [if_pos hm] at hcmd
    have hcwd : cmd = .cwd ∨ cmd = .cdup := by simpa [Command.moving] using hm
    have hh : comCWD fs s = .ok h := by
      rcases hcwd with rfl | rfl <;> exact hh
    obtain ⟨o, ho, hlooked, hmoves⟩ := comCWD_resolves hcmd h hh
    obtain ⟨⟨hroot, hcur, _⟩, ho⟩ := resolve_eq_ok.mp ho
    generalize h.session.curPath = after at hmoves ⊢
    cases hmoves with
    | stay => exact Or.inl rfl
    | enter a info path hinfo hdir hguard hpath =>
      refine Or.inr ⟨a.path, hlooked, ?_⟩
      have hlen := changePath_length hroot hcur ho
      rcases addSlash_cases hpath with rfl | ⟨rfl, hfits⟩
      · exact Or.inl (strncpy_of_le (Nat.le_of_lt hlen))
      · exact Or.inr (strncpy_of_le (Nat.le_of_lt hfits))
  · rename_i hm
    rw [if_neg hm] at hcmd
    obtain ⟨hpass, rfl⟩ := hcmd
    obtain ⟨a, ha, hlooked, hname, _⟩ := transfer_resolves hpass h hh
    obtain ⟨⟨hroot, hcur, _⟩, ha⟩ := resolve_eq_ok.mp ha
    rw [hlooked, hname, strncpy_of_le (Nat.le_of_lt (changePath_length hroot hcur ha))]

/-- **Paths fit.** Every string a command builds from its argument ends in its array, and the
path stored is the one looked up, exactly when the argument fits and so does the text it leads
to, and the argument does not dangle. -/
theorem paths_fit_iff (env : Env) (cmd : Command) (s : Session) (arg : List Char) (hcmd : cmd.Resolves s arg)
    (hroot : s.rootPath.length < pathSize) (hcur : s.curPath.length < pathSize) :
    s.PathsFit env cmd arg ↔
      arg.length < pathSize ∧ dangles arg = false ∧ Leads (Fits cmd s.rootPath) s.rootPath s.curPath arg := by
  have hparts : Leads (Fits cmd s.rootPath) s.rootPath s.curPath arg ↔
      Leads (fun p => p.length < pathSize) s.rootPath s.curPath arg ∧
        Leads (fun p => cmd.moving → s.rootPath <:+: p → p.getLast? = some '/' ∨ p.length + 1 < pathSize)
          s.rootPath s.curPath arg := leads_and
  have hbuilt : (∃ o, s.resolve arg = .ok o) ↔
      arg.length < pathSize ∧ Leads (fun p => p.length < pathSize) s.rootPath s.curPath arg := by
    rw [← changePath_ok_iff _ _ _ hroot hcur]
    simp only [resolve_eq_ok]
    constructor
    · intro h
      obtain ⟨o, hcopies, ho⟩ := h
      exact ⟨hcopies.argument, o, ho⟩
    · intro h
      obtain ⟨harg, o, ho⟩ := h
      exact ⟨o, ⟨hroot, hcur, harg⟩, ho⟩
  have hslash (harg : arg.length < pathSize)
      (hlen : Leads (fun p => p.length < pathSize) s.rootPath s.curPath arg) :
      (∀ a, s.resolve arg = .ok (some a) → cmd.moving → ∀ (fs : FileSystem) (info : FileInfo),
        fs.lstat [] = none → fs.lstat a.path = some info → info.isDir → s.rootPath <:+: a.path →
          ∃ path, addSlash a.path = .ok path) ↔
        Leads (fun p => cmd.moving → s.rootPath <:+: p → p.getLast? = some '/' ∨ p.length + 1 < pathSize)
          s.rootPath s.curPath arg := by
    simp only [resolve_eq_ok, and_iff_right (Session.Copies.mk hroot hcur harg), slash_iff]
    rw [changePath_leads (P := fun p => cmd.moving → s.rootPath <:+: p →
      p.getLast? = some '/' ∨ p.length + 1 < pathSize) _ _ _ hroot hcur, leads_imp hlen]
  have hlive {o : Option APath} (ho : s.resolve arg = .ok o) :
      (∀ a, s.resolve arg = .ok (some a) → a.buffer ≠ .temp) ↔ dangles arg = false := by
    rw [← Bool.not_eq_true, ← (changePath_buffer (resolve_eq_ok.mp ho).2).2, ho]
    cases o with
    | none => simp
    | some a => simp
  rw [hparts]
  constructor
  · intro h
    obtain ⟨o, ho⟩ := h.built
    obtain ⟨harg, hlen⟩ := hbuilt.mp h.built
    exact ⟨harg, (hlive ho).mp h.live, hlen, (hslash harg hlen).mp h.slash⟩
  · intro h
    obtain ⟨harg, hstays, hlen, hslashes⟩ := h
    obtain ⟨o, ho⟩ := hbuilt.mpr ⟨harg, hlen⟩
    exact ⟨⟨o, ho⟩, (hlive ho).mpr hstays, (hslash harg hlen).mpr hslashes, handle_stores hcmd⟩

theorem paths_fit_pub :
    ∃ h, acceptSession Env.shipped.config 0 [] (.accept 7 "10.0.0.9".toList) = .ok h ∧
      Session.PathsFit {h.session with processingCommand := " pub".toList} Env.shipped .cwd "pub".toList :=
  ⟨_, rfl, (paths_fit_iff Env.shipped .cwd _ "pub".toList (by decide) (by decide) (by decide)).mpr
    ⟨by decide, by decide, show Fits .cwd "/home/chentianjian/data/".toList "/home/chentianjian/data/pub".toList from
      ⟨by decide, fun _ _ => Or.inr (by decide)⟩⟩⟩

/-- An argument that fits its own array overruns the one it is put behind. -/
theorem paths_not_fit_long :
    ∃ h, acceptSession Env.shipped.config 0 [] (.accept 7 "10.0.0.9".toList) = .ok h ∧
      Command.cwd.Resolves {h.session with processingCommand := ' ' :: List.replicate 1000 'a'}
        (List.replicate 1000 'a') ∧
      h.session.rootPath.length < pathSize ∧ h.session.curPath.length < pathSize ∧
      (List.replicate 1000 'a').length < commandSize ∧
      Session.resolve {h.session with processingCommand := ' ' :: List.replicate 1000 'a'}
        (List.replicate 1000 'a') = .error .overrun :=
  ⟨_, rfl, by decide +kernel⟩

end
end HyperTransfer
