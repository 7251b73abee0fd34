import Mathlib.Data.List.DropRight
import Mathlib.Data.List.Infix

/-! Lexical path normal forms.

A path over any alphabet with a separator and a dot is its components; walking
them from a place skips empty and single-dot components, drops the last name at a
double dot (at the top it stays), and appends every other name. The normal form of
a path is where the walk from the top ends. `rise` follows the walk by depth only
and fails when it climbs above its start: a walk that does not fail stays below
every place it is started from (`walk_of_rise`). `course` sums a walk up: wherever it
starts, it drops the same number of names and appends the same ones (`walk_course`). -/
namespace HyperTransfer.Lexical
variable {α : Type} [DecidableEq α] (sep dot : α)

/-- One component of a walk. -/
def follow (place : List (List α)) (c : List α) : List (List α) :=
  if c = [] ∨ c = [dot] then place else if c = [dot, dot] then place.dropLast else place ++ [c]

def walk (place components : List (List α)) : List (List α) := components.foldl (follow dot) place

def normalize (path : List α) : List (List α) := walk dot [] (path.splitOn sep)

/-- The path's normal form has the root's components as a prefix. -/
def Inside (root path : List α) : Prop := normalize sep dot root <+: normalize sep dot path

instance (root path : List α) : Decidable (Inside sep dot root path) :=
  inferInstanceAs (Decidable (_ <+: _))

/-- The depth a walk reaches from depth `d`, unless it climbs above its start. -/
def rise : Nat → List (List α) → Option Nat
  | d, [] => some d
  | d, c :: rest =>
    if c = [] ∨ c = [dot] then rise d rest
    else if c = [dot, dot] then if d = 0 then none else rise (d - 1) rest
    else rise (d + 1) rest

/-- A path that extends the root's text by a walk that never climbs above it. -/
def Below (root path : List α) : Prop :=
  ∃ rel, path = root ++ rel ∧ (rise dot 0 (rel.splitOn sep)).isSome

instance (root path : List α) : Decidable (Below sep dot root path) :=
  decidable_of_iff (root <+: path ∧ (rise dot 0 ((path.drop root.length).splitOn sep)).isSome) <| by
    constructor
    · intro h
      obtain ⟨⟨rel, hrel⟩, hrise⟩ := h
      rw [← hrel, List.drop_left] at hrise
      exact ⟨rel, hrel.symm, hrise⟩
    · intro h
      obtain ⟨rel, hrel, hrise⟩ := h
      rw [hrel, List.drop_left]
      exact ⟨List.prefix_append .., hrise⟩

variable {sep dot}

theorem walk_append (place a b : List (List α)) :
    walk dot place (a ++ b) = walk dot (walk dot place a) b :=
  List.foldl_append ..

theorem walk_nil_component (place : List (List α)) : walk dot place [[]] = place := by
  simp [walk, follow]

theorem rise_append (a b : List (List α)) (d : Nat) :
    rise dot d (a ++ b) = (rise dot d a).bind fun e => rise dot e b := by
  induction a generalizing d with
  | nil => rfl
  | cons c rest ih =>
    simp only [List.cons_append, rise, ih]
    split
    · rfl
    · split
      · split <;> rfl
      · rfl

theorem rise_nil_component (d : Nat) : rise dot d [[]] = some d := by simp [rise]

/-- A walk that does not climb above its start leaves what lies above in place. -/
theorem walk_of_rise {d e : Nat} {cs : List (List α)} (h : rise dot d cs = some e)
    (base place : List (List α)) (hp : place.length = d) :
    ∃ place', walk dot (base ++ place) cs = base ++ place' ∧ place'.length = e := by
  induction cs generalizing d place with
  | nil =>
    simp only [rise, Option.some.injEq] at h
    exact ⟨place, rfl, hp.trans h⟩
  | cons c rest ih =>
    simp only [rise] at h
    show ∃ place', walk dot (follow dot (base ++ place) c) rest = _ ∧ _
    unfold follow
    split at h
    · rename_i hc
      rw [if_pos hc]
      exact ih h place hp
    · rename_i hc
      rw [if_neg hc]
      split at h
      · rename_i hup
        rw [if_pos hup]
        split at h
        · exact nomatch h
        · rename_i hd
          have hne : place ≠ [] := fun he => hd (by rw [← hp, he]; rfl)
          rw [List.dropLast_append_of_ne_nil hne]
          exact ih h place.dropLast (by rw [List.length_dropLast, hp])
      · rename_i hup
        rw [if_neg hup, List.append_assoc]
        exact ih h (place ++ [c]) (by simp [hp])

/-! ### Text -/

/-- Components of a path cut at a separator. -/
theorem splitOn_cut (a b : List α) :
    (a ++ [sep] ++ b).splitOn sep = a.splitOn sep ++ b.splitOn sep := by
  rw [List.append_assoc, List.singleton_append, List.splitOn_append_cons_self]

theorem splitOn_end (a : List α) : (a ++ [sep]).splitOn sep = a.splitOn sep ++ [[]] := by
  rw [List.splitOn_append_cons_self, List.splitOn_nil]

/-- A root that ends in a separator, followed by more text. -/
theorem normalize_append {root : List α} (hroot : ∃ r, root = r ++ [sep]) (rel : List α) :
    normalize sep dot (root ++ rel) = walk dot (normalize sep dot root) (rel.splitOn sep) := by
  obtain ⟨r, rfl⟩ := hroot
  have hr : normalize sep dot (r ++ [sep]) = walk dot [] (r.splitOn sep) := by
    rw [normalize, splitOn_end, walk_append, walk_nil_component]
  rw [hr, normalize, splitOn_cut, walk_append]

/-- A path below the root lies inside it. -/
theorem Below.inside {root path : List α} (hroot : ∃ r, root = r ++ [sep])
    (h : Below sep dot root path) : Inside sep dot root path := by
  obtain ⟨rel, rfl, hrise⟩ := h
  obtain ⟨e, he⟩ := Option.isSome_iff_exists.mp hrise
  obtain ⟨place, hwalk, _⟩ := walk_of_rise he (normalize sep dot root) [] rfl
  rw [Inside, normalize_append hroot, ← List.append_nil (normalize sep dot root), hwalk]
  simp

theorem below_root (root : List α) : Below sep dot root root :=
  ⟨[], (List.append_nil root).symm, by simp [rise]⟩

/-- Cutting a path at one of its separators below the root keeps it below the root. -/
theorem below_cut {root a b : List α} (h : Below sep dot root (root ++ (a ++ [sep] ++ b))) :
    Below sep dot root (root ++ (a ++ [sep])) := by
  obtain ⟨rel, he, hrise⟩ := h
  refine ⟨a ++ [sep], rfl, ?_⟩
  rw [← List.append_cancel_left he, splitOn_cut, rise_append] at hrise
  rw [splitOn_end, rise_append]
  cases hd : rise dot 0 (a.splitOn sep) with
  | none => simp [hd] at hrise
  | some d => simp [rise_nil_component]

/-- So does cutting it anywhere at a separator, as long as the root's text is left. -/
theorem below_front {root a b : List α} (h : Below sep dot root (a ++ [sep] ++ b))
    (hlen : root.length ≤ (a ++ [sep]).length) : Below sep dot root (a ++ [sep]) := by
  have hprefix : root <+: a ++ [sep] := by
    obtain ⟨rel, hrel, _⟩ := h
    have hpath : root <+: a ++ [sep] ++ b := ⟨rel, hrel.symm⟩
    exact List.prefix_of_prefix_length_le hpath (List.prefix_append ..) hlen
  obtain ⟨rel, hrel⟩ := hprefix
  cases hend : rel.getLast? with
  | none =>
    rw [List.getLast?_eq_none_iff.mp hend, List.append_nil] at hrel
    rw [← hrel]
    exact below_root root
  | some x =>
    obtain ⟨c, hc⟩ := List.getLast?_eq_some_iff.mp hend
    have hlast := congrArg List.getLast? hrel
    rw [hc, ← List.append_assoc, List.getLast?_concat, List.getLast?_concat, Option.some.injEq] at hlast
    rw [hlast] at hc
    rw [← hrel, hc, List.append_assoc] at h
    rw [← hrel, hc]
    exact below_cut h

/-- A separator put at the end changes nothing. -/
theorem below_slash {root path : List α} (h : Below sep dot root path) :
    Below sep dot root (path ++ [sep]) := by
  obtain ⟨rel, rfl, hrise⟩ := h
  refine ⟨rel ++ [sep], List.append_assoc .., ?_⟩
  obtain ⟨e, he⟩ := Option.isSome_iff_exists.mp hrise
  rw [splitOn_end, rise_append, he]
  simp [rise_nil_component]

/-! ### The course of a walk -/

section
variable (dot)

/-- One component of a walk that has climbed so many levels above its start and has put names
below the place it came to. -/
def climb (state : Nat × List (List α)) (c : List α) : Nat × List (List α) :=
  if c = [] ∨ c = [dot] then state
  else if c = [dot, dot] then if state.2 = [] then (state.1 + 1, []) else (state.1, state.2.dropLast)
  else (state.1, state.2 ++ [c])

/-- How far a walk climbs above its start, and the names it puts below the place it comes to. -/
def course (components : List (List α)) : Nat × List (List α) := components.foldl (climb dot) (0, [])

/-- A component that is a name. -/
def Plain (c : List α) : Prop := c ≠ [] ∧ c ≠ [dot] ∧ c ≠ [dot, dot]

instance (c : List α) : Decidable (Plain dot c) := inferInstanceAs (Decidable (_ ∧ _))

end

theorem rdrop_rdrop {B : Type} (l : List B) (a b : Nat) : (l.rdrop a).rdrop b = l.rdrop (a + b) := by
  unfold List.rdrop
  rw [List.take_take, List.length_take]
  congr 1
  omega

theorem dropLast_eq_rdrop {B : Type} (l : List B) : l.dropLast = l.rdrop 1 := List.dropLast_eq_take

theorem rdrop_append {B : Type} (place names : List B) {n : Nat} (h : names.length ≤ n) :
    (place ++ names).rdrop n = place.rdrop (n - names.length) := by
  unfold List.rdrop
  rw [List.length_append, List.take_append_of_le_length (by omega)]
  congr 1
  omega

theorem rdrop_eq_iff {B : Type} (l : List B) (a b : Nat) : l.rdrop (a + b) = l.rdrop b ↔ a = 0 ∨ l.length ≤ b := by
  constructor
  · intro h
    have hlen := congrArg List.length h
    simp only [List.rdrop, List.length_take] at hlen
    omega
  · intro h
    unfold List.rdrop
    congr 1
    omega

/-- Wherever it starts, a walk drops as many names as it climbs, and appends its own. -/
theorem walk_course (place components : List (List α)) :
    walk dot place components = place.rdrop (course dot components).1 ++ (course dot components).2 := by
  have hstate (state : Nat × List (List α)) : walk dot (place.rdrop state.1 ++ state.2) components =
      place.rdrop (components.foldl (climb dot) state).1 ++ (components.foldl (climb dot) state).2 := by
    induction components generalizing state with
    | nil => rfl
    | cons c rest ih =>
      have hone : follow dot (place.rdrop state.1 ++ state.2) c =
          place.rdrop (climb dot state c).1 ++ (climb dot state c).2 := by
        unfold follow climb
        split
        · rfl
        · split
          · split
            · rename_i hnone
              rw [hnone, List.append_nil, List.append_nil, dropLast_eq_rdrop, rdrop_rdrop]
            · rename_i hsome
              exact List.dropLast_append_of_ne_nil hsome
          · exact List.append_assoc ..
      rw [List.foldl_cons, ← ih, ← hone]
      rfl
  have hstart := hstate (0, [])
  rwa [List.rdrop_zero, List.append_nil] at hstart

/-- Two places a walk takes to the same one. -/
theorem walk_agree (p q components : List (List α)) : walk dot p components = walk dot q components ↔
    p.rdrop (course dot components).1 = q.rdrop (course dot components).1 := by
  rw [walk_course, walk_course q, List.append_left_inj]

theorem course_snoc (components : List (List α)) (c : List α) :
    course dot (components ++ [c]) = climb dot (course dot components) c := List.foldl_append ..

/-- A walk puts no more names than it has components, and as many only when each is a name. -/
theorem course_length (components : List (List α)) :
    (course dot components).2.length ≤ components.length ∧
      ((course dot components).1 = 0 ∧ (course dot components).2.length = components.length ↔
        ∀ c ∈ components, Plain dot c) := by
  induction components using List.reverseRecOn with
  | nil => exact ⟨Nat.le_refl _, iff_of_true ⟨rfl, rfl⟩ fun _ h => nomatch h⟩
  | append_singleton rest c ih =>
    obtain ⟨hle, hplain⟩ := ih
    rw [course_snoc, List.length_append, List.length_singleton]
    have hlast (h : ¬ Plain dot c) : ¬ ∀ x ∈ rest ++ [c], Plain dot x :=
      fun hall => h (hall c (List.mem_append_right _ (List.mem_singleton_self c)))
    unfold climb
    split
    · rename_i hskip
      refine ⟨by omega, iff_of_false (by omega) (hlast fun h => ?_)⟩
      exact hskip.elim h.1 h.2.1
    · rename_i hskip
      split
      · rename_i hup
        have hnot := hlast fun h => h.2.2 hup
        split
        · exact ⟨Nat.zero_le _, iff_of_false (fun h => nomatch h.1) hnot⟩
        · refine ⟨?_, iff_of_false (fun h => ?_) hnot⟩
          · rw [List.length_dropLast]
            omega
          · have := h.2
            rw [List.length_dropLast] at this
            omega
      · rename_i hup
        have hc : Plain dot c := ⟨fun h => hskip (Or.inl h), fun h => hskip (Or.inr h), hup⟩
        rw [List.length_append, List.length_singleton, Nat.add_right_cancel_iff, hplain]
        refine ⟨Nat.add_le_add_right hle 1, fun h x hx => ?_, fun h x hx => h x (List.mem_append_left _ hx)⟩
        rcases List.mem_append.mp hx with hx | hx
        · exact h x hx
        · rw [List.mem_singleton.mp hx]
          exact hc

theorem walk_nil_length (components : List (List α)) : (walk dot [] components).length ≤ components.length := by
  rw [walk_course, List.rdrop_nil, List.nil_append]
  exact (course_length components).1

/-- Going up as often as a walk has components leads back to its start, and `n` levels above it,
exactly when each component is a name or the top is reached anyway. -/
theorem walk_back (base components : List (List α)) (n : Nat) :
    (walk dot base components).rdrop (components.length + n) = base.rdrop n ↔
      (∀ c ∈ components, Plain dot c) ∨ base.length ≤ n := by
  obtain ⟨hle, hplain⟩ : (course dot components).2.length ≤ components.length ∧ _ := course_length components
  have hup : (course dot components).1 + (components.length + n - (course dot components).2.length) =
      ((course dot components).1 + (components.length - (course dot components).2.length)) + n := by omega
  rw [walk_course, rdrop_append _ _ (by omega), rdrop_rdrop, hup, rdrop_eq_iff, ← hplain]
  apply or_congr_left
  omega

/-! ### Directories -/

section
variable (sep)

/-- The text of a directory: each component with its separator. -/
def directory (cs : List (List α)) : List α := sep :: cs.flatMap (· ++ [sep])

/-- The components between the first and the last separator of a text. -/
def components (path : List α) : List (List α) := (path.splitOn sep).tail.dropLast

end

theorem directory_snoc {B : Type} (sep : B) (cs : List (List B)) (c : List B) :
    directory sep (cs ++ [c]) = directory sep cs ++ (c ++ [sep]) := by
  simp [directory]

theorem directory_end {B : Type} (sep : B) (cs : List (List B)) : ∃ r, directory sep cs = r ++ [sep] := by
  induction cs using List.reverseRecOn with
  | nil => exact ⟨[], rfl⟩
  | append_singleton rest c _ => exact ⟨directory sep rest ++ c, by rw [directory_snoc, List.append_assoc]⟩

/-- A split text, with its separators put back. -/
theorem flatMap_splitOn (path : List α) : (path.splitOn sep).flatMap (· ++ [sep]) = path ++ [sep] := by
  induction path with
  | nil => rfl
  | cons x rest ih =>
    rw [List.splitOn_cons_eq_if_modifyHead]
    split
    · rename_i hx
      rw [List.flatMap_cons, ih, beq_iff_eq.mp hx]
      rfl
    · obtain ⟨head, tail, hsplit⟩ := List.exists_cons_of_ne_nil (List.splitOn_ne_nil sep rest)
      rw [hsplit, List.flatMap_cons] at ih
      rw [hsplit, List.modifyHead_cons, List.flatMap_cons, List.cons_append, List.cons_append, List.cons_append, ih]

theorem not_mem_of_mem_splitOn {path c : List α} (h : c ∈ path.splitOn sep) : sep ∉ c := by
  induction path generalizing c with
  | nil =>
    rw [List.splitOn_nil, List.mem_singleton] at h
    rw [h]
    exact List.not_mem_nil
  | cons x rest ih =>
    obtain ⟨head, tail, hsplit⟩ := List.exists_cons_of_ne_nil (List.splitOn_ne_nil sep rest)
    rw [List.splitOn_cons_eq_if_modifyHead, hsplit] at h
    rw [hsplit] at ih
    split at h
    · rcases List.mem_cons.mp h with rfl | h
      · exact List.not_mem_nil
      · exact ih h
    · rename_i hx
      rw [List.modifyHead_cons] at h
      rcases List.mem_cons.mp h with rfl | h
      · rw [List.mem_cons, not_or]
        exact ⟨fun he => hx (beq_iff_eq.mpr he.symm), ih (List.mem_cons_self ..)⟩
      · exact ih (List.mem_cons_of_mem _ h)

/-- A text from separator to separator is a directory. -/
theorem directory_components {path : List α} (hstart : ∃ r, path = sep :: r) (hend : ∃ r, path = r ++ [sep]) :
    directory sep (components sep path) = path ∧ ∀ c ∈ components sep path, sep ∉ c := by
  obtain ⟨r, rfl⟩ := hstart
  obtain ⟨r', hend⟩ := hend
  cases r' with
  | nil =>
    rw [hend]
    simp [components, directory, List.splitOn_cons_eq_if_modifyHead]
  | cons x middle =>
    rw [List.cons_append, List.cons.injEq] at hend
    obtain ⟨rfl, rfl⟩ := hend
    have hparts : components sep (sep :: (middle ++ [sep])) = middle.splitOn sep := by
      unfold components
      rw [List.splitOn_cons_eq_if_modifyHead, if_pos (beq_self_eq_true sep), splitOn_end, List.tail_cons,
        List.dropLast_concat]
    rw [hparts]
    refine ⟨?_, fun c hc => not_mem_of_mem_splitOn hc⟩
    rw [directory, flatMap_splitOn]

/-- From a directory, more text is a walk from where its components lead. -/
theorem normalize_directory {cs : List (List α)} (hcs : ∀ c ∈ cs, sep ∉ c) (rel : List α) :
    normalize sep dot (directory sep cs ++ rel) = walk dot (walk dot [] cs) (rel.splitOn sep) := by
  have hsplit : ∃ d, directory sep cs = d ++ [sep] ∧ d.splitOn sep = [] :: cs := by
    induction cs using List.reverseRecOn with
    | nil => exact ⟨[], rfl, rfl⟩
    | append_singleton rest c ih =>
      obtain ⟨d, hd, hparts⟩ := ih fun c hc => hcs c (List.mem_append_left _ hc)
      refine ⟨d ++ [sep] ++ c, ?_, ?_⟩
      · rw [directory_snoc, hd, List.append_assoc (d ++ [sep])]
      · rw [splitOn_cut, hparts, List.splitOn_eq_singleton (hcs c (List.mem_append_right _ (List.mem_singleton_self c)))]
        rfl
  obtain ⟨d, hd, hparts⟩ := hsplit
  rw [normalize, hd, splitOn_cut, walk_append, hparts]
  rfl

example : normalize '/' '.' "/srv/ftp/./x//../pub/".toList = ["srv".toList, "ftp".toList, "pub".toList] := by
  decide

end HyperTransfer.Lexical
