import HyperTransfer.Session.Confinement

/-! What an argument means.

`change_path` cuts the current directory's text for each `../` in front and puts the rest
of the argument behind. A cut takes the last component whatever it is, and never the first
one (`cut_directory`): `changePath_means_iff` says for which current directories and
arguments the path returned is still the one the client wrote. -/
namespace HyperTransfer
open CString Lexical

/-- The path an argument stands for. -/
def meant (root cur arg : List Char) : List Char := if ['/'] <+: arg then root ++ arg else cur ++ arg

/-- What so many calls of `com_CDUP` leave of a directory: the first component stays. -/
def kept (cs : List (List Char)) (k : Nat) : List (List Char) := cs.take (max 1 (cs.length - k))

/-- So many cuts go up as many levels: each takes a name, and none is spent on the first
component. Where the rest of the argument climbs on to the top, the difference is lost. -/
def Cuts (cs : List (List Char)) (k climbs : Nat) : Prop :=
  (k < cs.length ∧ ∀ c ∈ cs.drop (cs.length - k), Plain '.' c) ∨ (walk '.' [] (kept cs k)).length ≤ climbs

/-- How far a text climbs above its start. -/
def climbs (text : List Char) : Nat := (course '.' (text.splitOn '/')).1

/-- The condition on the argument left after `k` segments `../` of a relative one. -/
def Lands (root : List Char) (cs : List (List Char)) : Nat → List Char → Prop
  | k, '.' :: '.' :: '/' :: rest => Lands root cs (k + 1) rest
  | k, '.' :: '/' :: rest => Lands root cs k rest
  | k, ['.', '.'] => Cuts cs (k + 1) 0
  | _, '.' :: _ => True
  | k, ['/', '.', '.', '/'] => Cuts cs (k + 1) 0
  -- an absolute rest goes behind the root
  | k, '/' :: rest => (normalize '/' '.' root).rdrop (climbs rest) = (walk '.' [] cs).rdrop (k + climbs rest)
  | k, rest => Cuts cs k (climbs rest)

/-- The arguments that are resolved to what they mean. The absolute one `/../` cuts the
current directory instead of the root. -/
def Means (root cur : List Char) : List Char → Prop
  | ['/', '.', '.', '/'] =>
    walk '.' [] (kept (components '/' cur) 1) = (normalize '/' '.' root).dropLast
  | '/' :: _ => True
  | arg => Lands root (components '/' cur) 0 arg

/-! ### Cutting a directory -/

/-- The scan passes what is not a slash. -/
theorem scan_pass {path : List Char} {i k : Nat} (hle : i ≤ k) (h : ∀ j, i < j → j ≤ k → path[j]? ≠ some '/') :
    comCDUP.scan path k = comCDUP.scan path i := by
  induction k, hle using Nat.le_induction with
  | base => rfl
  | succ k hle ih =>
    rw [comCDUP.scan, if_neg (h (k + 1) (Nat.lt_succ_of_le hle) (Nat.le_refl _))]
    exact ih fun j hij hjk => h j hij (Nat.le_succ_of_le hjk)

/-- The last component goes, if there is a slash before it that is not the first character. -/
theorem comCDUP_last {d c : List Char} (hc : '/' ∉ c) :
    comCDUP (d ++ '/' :: (c ++ ['/'])) = if d = [] then '/' :: (c ++ ['/']) else d ++ ['/'] := by
  have hlen : (d ++ '/' :: (c ++ ['/'])).length = d.length + c.length + 2 := by
    simp only [List.length_append, List.length_cons, List.length_nil]
    omega
  have hne : d ++ '/' :: (c ++ ['/']) ≠ ['/'] := by
    intro h
    rw [h, List.length_singleton] at hlen
    omega
  have hpass : comCDUP.scan (d ++ '/' :: (c ++ ['/'])) (d.length + c.length) =
      comCDUP.scan (d ++ '/' :: (c ++ ['/'])) d.length := by
    refine scan_pass (Nat.le_add_right _ _) fun j hij hjk h => hc ?_
    obtain ⟨i, rfl⟩ := Nat.exists_eq_add_of_lt hij
    rw [List.getElem?_append_right (Nat.le_of_lt hij), Nat.add_assoc, Nat.add_sub_cancel_left,
      List.getElem?_cons_succ, List.getElem?_append_left (by omega)] at h
    exact List.mem_of_getElem? h
  rw [comCDUP, if_neg hne, hlen, Nat.add_sub_cancel, hpass]
  cases d with
  | nil => rfl
  | cons x d =>
    have hslash : ((x :: d) ++ '/' :: (c ++ ['/']))[d.length + 1]? = some '/' := by
      rw [List.cons_append, List.getElem?_cons_succ, List.getElem?_append_right (Nat.le_refl _), Nat.sub_self]
      rfl
    rw [List.length_cons, comCDUP.scan, if_pos hslash, if_neg (List.cons_ne_nil _ _)]
    show ((x :: d) ++ '/' :: (c ++ ['/'])).take ((x :: d).length + 1) = _
    rw [List.take_length_add_append]
    rfl

theorem comCDUP_directory {cs : List (List Char)} (hcs : ∀ c ∈ cs, '/' ∉ c) :
    comCDUP (directory '/' cs) = directory '/' (if cs.length ≤ 1 then cs else cs.dropLast) := by
  induction cs using List.reverseRecOn with
  | nil => rfl
  | append_singleton rest c _ =>
    have hc : '/' ∉ c := hcs c (List.mem_append_right _ (List.mem_singleton_self c))
    obtain ⟨d, hd⟩ := directory_end '/' rest
    rw [directory_snoc, hd, List.append_assoc, List.singleton_append, comCDUP_last hc, List.dropLast_concat]
    cases rest with
    | nil =>
      have hnil : [] = d := List.append_cancel_right (show [] ++ ['/'] = d ++ ['/'] from hd)
      rw [if_pos hnil.symm, if_pos (by simp)]
      simp [directory]
    | cons first rest =>
      have hd' : d ≠ [] := by
        intro h
        have hlen := congrArg List.length hd
        rw [h, directory, List.flatMap_cons] at hlen
        simp only [List.length_cons, List.length_append, List.length_nil] at hlen
        omega
      rw [if_neg hd', if_neg (by simp), hd]

theorem kept_mem {cs : List (List Char)} {k : Nat} {c : List Char} (h : c ∈ kept cs k) : c ∈ cs :=
  List.mem_of_mem_take h

/-- One more cut. -/
theorem comCDUP_kept {cs : List (List Char)} (hcs : ∀ c ∈ cs, '/' ∉ c) (k : Nat) :
    comCDUP (directory '/' (kept cs k)) = directory '/' (kept cs (k + 1)) := by
  rw [comCDUP_directory fun c hc => hcs c (kept_mem hc)]
  congr 1
  unfold kept
  rw [List.length_take]
  split
  · congr 1
    omega
  · rw [dropLast_eq_rdrop, List.rdrop, List.length_take, List.take_take]
    congr 1
    omega

/-- So many calls, from any directory. -/
theorem comCDUP_times {path : List Char} (habs : ['/'] <+: path) (hdir : Slashed path) (k : Nat) :
    comCDUP^[k] path = directory '/' (kept (components '/' path) k) := by
  obtain ⟨r, hr⟩ := habs
  obtain ⟨hpath, hslash⟩ := directory_components ⟨r, hr.symm⟩ hdir
  induction k with
  | zero =>
    have hall : kept (components '/' path) 0 = components '/' path := List.take_of_length_le (by omega)
    rw [hall, hpath]
    rfl
  | succ k ih => rw [Function.iterate_succ_apply', ih, comCDUP_kept hslash]

/-- **Parents.** From a directory below the top, `k` calls of `com_CDUP` take the last `k`
components away exactly when one is left: the first stays, and no number of calls leads to
the top, where a call has no effect. -/
theorem comCDUP_parents_iff (path : List Char) (habs : ['/'] <+: path) (hdir : Slashed path)
    (hne : components '/' path ≠ []) :
    (∀ k, comCDUP^[k] path = directory '/' ((components '/' path).rdrop k) ↔ k < (components '/' path).length) ∧
      (∀ k, comCDUP^[k] path ≠ ['/']) ∧ comCDUP ['/'] = ['/'] := by
  have hpos : 0 < (components '/' path).length := List.length_pos_iff.mpr hne
  have hlevel (k : Nat) : comCDUP^[k] path ≠ ['/'] := by
    intro htop
    rw [comCDUP_times habs hdir] at htop
    obtain ⟨c, rest, hkept⟩ : ∃ c rest, kept (components '/' path) k = c :: rest := by
      apply List.exists_cons_of_length_pos
      rw [kept, List.length_take]
      omega
    rw [hkept] at htop
    simp [directory] at htop
  refine ⟨fun k => ⟨fun h => ?_, fun hk => ?_⟩, hlevel, rfl⟩
  · by_contra hk
    apply hlevel k
    rw [h, List.rdrop, Nat.sub_eq_zero_of_le (Nat.le_of_not_lt hk)]
    rfl
  · rw [comCDUP_times habs hdir]
    unfold kept List.rdrop
    congr 2
    omega

/-- Three levels down there are two cuts. -/
theorem comCDUP_parents_shipped : comCDUP^[2] "/srv/ftp/pub/".toList = "/srv/".toList :=
  ((comCDUP_parents_iff "/srv/ftp/pub/".toList (by decide) ⟨"/srv/ftp/pub".toList, rfl⟩ (by decide)).1 2).mpr (by decide)

/-- The parent of a directory at the top is the directory. -/
theorem comCDUP_no_parent : ['/'] <+: "/srv/".toList ∧ Slashed "/srv/".toList ∧
    components '/' "/srv/".toList = ["srv".toList] ∧
    comCDUP "/srv/".toList ≠ directory '/' (components '/' "/srv/".toList).dropLast ∧
    comCDUP^[(components '/' "/srv/".toList).length] "/srv/".toList ≠ ['/'] :=
  ⟨by decide, ⟨"/srv".toList, rfl⟩, by decide, by decide, by decide⟩

/-- The condition on cuts is about where the rest of the walk starts. -/
theorem cuts_iff (cs : List (List Char)) (k climbs : Nat) :
    (walk '.' [] (kept cs k)).rdrop climbs = ((walk '.' [] cs).rdrop k).rdrop climbs ↔ Cuts cs k climbs := by
  rw [rdrop_rdrop]
  have hnone {l : List (List Char)} {n : Nat} : l.rdrop n = [] ↔ l.length ≤ n := by
    rw [List.rdrop, List.take_eq_nil_iff, ← List.length_eq_zero_iff]
    omega
  by_cases hk : k < cs.length
  · have hkept : kept cs k = cs.take (cs.length - k) := by
      unfold kept
      congr 1
      omega
    have hlen : (cs.drop (cs.length - k)).length = k := by
      rw [List.length_drop]
      omega
    have hback : (walk '.' (walk '.' [] (kept cs k)) (cs.drop (cs.length - k))).rdrop
          ((cs.drop (cs.length - k)).length + climbs) = (walk '.' [] (kept cs k)).rdrop climbs ↔ _ :=
      walk_back (walk '.' [] (kept cs k)) (cs.drop (cs.length - k)) climbs
    rw [hlen, hkept, ← walk_append, List.take_append_drop] at hback
    rw [Cuts, hkept, eq_comm, hback, and_iff_right hk]
  · have hall : (walk '.' [] cs).length ≤ k + climbs :=
      Nat.le_trans (walk_nil_length cs) (Nat.le_trans (Nat.le_of_not_lt hk) (Nat.le_add_right _ _))
    rw [hnone.mpr hall, hnone, Cuts, or_iff_right fun h => hk h.1]

/-! ### Resolving and walking -/

section
variable {root : List Char} {cs : List (List Char)} {k : Nat}

/-- A text that starts with three dots has a component that does. -/
theorem dots_component (rest : List Char) :
    ∃ c ∈ ('.' :: '.' :: '.' :: rest).splitOn '/', "...".toList <+: c := by
  obtain ⟨head, tail, hsplit⟩ := List.exists_cons_of_ne_nil (List.splitOn_ne_nil '/' rest)
  refine ⟨'.' :: '.' :: '.' :: head, ?_, ⟨head, rfl⟩⟩
  simp only [List.splitOn_cons_eq_if_modifyHead, hsplit]
  exact List.mem_cons_self ..

/-- The rest of an argument behind a cut directory. -/
theorem normalize_kept (hcs : ∀ c ∈ cs, '/' ∉ c) (rest : List Char) :
    normalize '/' '.' (directory '/' (kept cs k) ++ rest) = walk '.' ((walk '.' [] cs).rdrop k) (rest.splitOn '/') ↔
      Cuts cs k (climbs rest) := by
  rw [normalize_directory fun c hc => hcs c (kept_mem hc), walk_agree]
  exact cuts_iff cs k (climbs rest)

theorem splitOn_up (rest : List Char) : ('.' :: '.' :: '/' :: rest).splitOn '/' = ['.', '.'] :: rest.splitOn '/' :=
  splitOn_cut ['.', '.'] rest

theorem splitOn_stay (rest : List Char) : ('.' :: '/' :: rest).splitOn '/' = ['.'] :: rest.splitOn '/' :=
  splitOn_cut ['.'] rest

theorem splitOn_slash (rest : List Char) : ('/' :: rest).splitOn '/' = [] :: rest.splitOn '/' := splitOn_cut [] rest

/-- A last step up. -/
theorem normalize_parent (hcs : ∀ c ∈ cs, '/' ∉ c) (k : Nat) :
    normalize '/' '.' (comCDUP (directory '/' (kept cs k))) =
    ((walk '.' [] cs).rdrop k).dropLast ↔ Cuts cs (k + 1) 0 := by
  have hcuts := normalize_kept (k := k + 1) hcs []
  rw [List.append_nil, List.splitOn_nil, walk_nil_component] at hcuts
  rw [comCDUP_kept hcs, dropLast_eq_rdrop, rdrop_rdrop]
  exact hcuts

/-- What is left of an argument after `k` segments `../` is resolved as it is meant. -/
theorem leads_lands (hroot : Slashed root) (hcs : ∀ c ∈ cs, '/' ∉ c) (k : Nat) (arg : List Char)
    (hdots : ∀ c ∈ arg.splitOn '/', ¬ "...".toList <+: c) :
    Leads (fun p => normalize '/' '.' p = walk '.' ((walk '.' [] cs).rdrop k) (arg.splitOn '/')) root
      (directory '/' (kept cs k)) arg ↔ Lands root cs k arg := by
  fun_induction Lands root cs k arg with
  | case1 k rest ih =>
    rw [splitOn_up] at hdots ⊢
    have hup : walk '.' ((walk '.' [] cs).rdrop k) (['.', '.'] :: rest.splitOn '/') =
        walk '.' ((walk '.' [] cs).rdrop (k + 1)) (rest.splitOn '/') := by
      rw [← rdrop_rdrop, ← dropLast_eq_rdrop]
      rfl
    rw [Leads, comCDUP_kept hcs, hup]
    exact ih fun c hc => hdots c (List.mem_cons_of_mem _ hc)
  | case2 k rest ih =>
    rw [splitOn_stay] at hdots ⊢
    rw [Leads]
    exact ih fun c hc => hdots c (List.mem_cons_of_mem _ hc)
  | case3 k =>
    rw [Leads]
    exact normalize_parent hcs k
  | case4 k tail hup hstay hparent =>
    refine iff_of_true ?_ trivial
    have hthree (rest : List Char) : tail ≠ '.' :: '.' :: rest := by
      intro h
      obtain ⟨c, hc, hprefix⟩ := dots_component rest
      rw [h] at hdots
      exact hdots c hc hprefix
    rw [Leads] <;> intros <;> simp_all
  | case5 k =>
    rw [Leads]
    exact normalize_parent hcs k
  | case6 k rest hrest =>
    rw [splitOn_slash, Leads, normalize_append hroot]
    · rw [← rdrop_rdrop]
      exact walk_agree _ _ _
    · exact hrest
  | case7 k rest hup hstay hparent hdot hcut hslash =>
    rw [Leads]
    · exact normalize_kept hcs rest
    all_goals first | assumption | exact hdot _ | exact fun _ => hdot _

/-- **Meaning.** A path `change_path` returns is the one the argument stands for, exactly
when the argument satisfies `Means`. -/
theorem changePath_means_iff (root cur arg : List Char) (hroot : Slashed root) (habs : ['/'] <+: cur)
    (hcur : Slashed cur) (hdots : ∀ c ∈ arg.splitOn '/', ¬ "...".toList <+: c) (hrootlen : root.length < pathSize)
    (hcurlen : cur.length < pathSize) (hfits : Leads (fun p => p.length < pathSize) root cur arg) :
    (∀ a, changePath root cur arg = .ok (some a) →
      normalize '/' '.' a.path = normalize '/' '.' (meant root cur arg)) ↔ Means root cur arg := by
  rw [changePath_leads (P := fun p => normalize '/' '.' p = normalize '/' '.' (meant root cur arg)) root cur arg
    hrootlen hcurlen, leads_imp hfits]
  obtain ⟨r, hr⟩ := habs
  obtain ⟨hcs, hslash⟩ := directory_components ⟨r, hr.symm⟩ hcur
  have hkept : directory '/' (kept (components '/' cur) 0) = cur := by
    have hall : kept (components '/' cur) 0 = components '/' cur := List.take_of_length_le (by omega)
    rw [hall, hcs]
  fun_cases Means root cur arg with
  | case1 =>
    have hcut : normalize '/' '.' (comCDUP cur) = walk '.' [] (kept (components '/' cur) 1) := by
      have hone := comCDUP_kept hslash 0
      rw [hkept] at hone
      rw [hone, ← List.append_nil (directory '/' _), normalize_directory fun c hc => hslash c (kept_mem hc)]
      exact walk_nil_component _
    have hmeant : normalize '/' '.' (meant root cur ['/', '.', '.', '/']) = (normalize '/' '.' root).dropLast :=
      normalize_append hroot ['/', '.', '.', '/']
    rw [Leads, hcut, hmeant]
  | case2 rest hne =>
    have hmeant : normalize '/' '.' (meant root cur ('/' :: rest)) = normalize '/' '.' (root ++ rest) := by
      have hleft : normalize '/' '.' (root ++ '/' :: rest) = walk '.' (normalize '/' '.' root) ([] :: rest.splitOn '/') := by
        rw [normalize_append hroot, splitOn_slash]
      have hright : normalize '/' '.' (root ++ rest) = walk '.' (normalize '/' '.' root) (rest.splitOn '/') :=
        normalize_append hroot rest
      rw [hright]
      exact hleft
    rw [Leads, hmeant]
    · exact iff_of_true rfl trivial
    · exact hne
  | case3 arg hne hrel =>
    have hmeant : normalize '/' '.' (meant root cur arg) =
        walk '.' ((walk '.' [] (components '/' cur)).rdrop 0) (arg.splitOn '/') := by
      have hno : ¬ ['/'] <+: arg := by
        intro h
        obtain ⟨rest, hrest⟩ := h
        exact hrel rest hrest.symm
      rw [meant, if_neg hno, List.rdrop_zero, ← normalize_directory hslash, hcs]
    have hlands := leads_lands hroot hslash 0 arg hdots
    rw [hkept] at hlands
    rw [hmeant]
    exact hlands

/-- Up from a directory and down into its sibling. -/
theorem changePath_means_sibling :
    changePath "/srv/ftp/".toList "/srv/ftp/pub/".toList "../new/x".toList =
        .ok (some ⟨"/srv/ftp/new/x".toList, .cur⟩) ∧
      normalize '/' '.' "/srv/ftp/new/x".toList =
        normalize '/' '.' (meant "/srv/ftp/".toList "/srv/ftp/pub/".toList "../new/x".toList) := by
  have hpath : changePath "/srv/ftp/".toList "/srv/ftp/pub/".toList "../new/x".toList =
      .ok (some ⟨"/srv/ftp/new/x".toList, .cur⟩) := by decide +kernel
  refine ⟨hpath, ?_⟩
  exact (changePath_means_iff "/srv/ftp/".toList "/srv/ftp/pub/".toList "../new/x".toList ⟨"/srv/ftp".toList, rfl⟩
    (by decide) ⟨"/srv/ftp/pub".toList, rfl⟩ (by decide) (by decide) (by decide)
    (show ("/srv/ftp/".toList ++ "new/x".toList).length < pathSize by decide)).mpr
      (Or.inl ⟨by decide, by decide⟩) _ hpath

/-- The first component is never cut: a new client, three levels below the top, does not
get there. -/
theorem changePath_not_means_top :
    Slashed Env.shipped.config.initPath ∧ ['/'] <+: Env.shipped.config.initPath ∧
      (∀ c ∈ "../../../x".toList.splitOn '/', ¬ "...".toList <+: c) ∧
      changePath Env.shipped.config.initPath Env.shipped.config.initPath "../../../x".toList =
        .ok (some ⟨"/home/x".toList, .cur⟩) ∧
      normalize '/' '.' "/home/x".toList ≠
        normalize '/' '.' (meant Env.shipped.config.initPath Env.shipped.config.initPath "../../../x".toList) :=
  ⟨⟨"/home/chentianjian/data".toList, rfl⟩, by decide, by decide, by decide +kernel, by decide⟩

end

end HyperTransfer
