import HyperTransfer.Lib.Machine
import HyperTransfer.Common

/-! Path arguments: `com_CDUP` and `change_path`.

All strings are in arrays of `PATHSIZE`. The result is the text at the pointer
`change_path` returns and the array it points into: the session's root path, the
caller's copy of the current directory, the argument, or a local array of a call
that has returned. There the pointer dangles, and the text is the one at the return:
`dangles` says for which arguments, and what is said of the path itself asks for
their absence. -/
namespace HyperTransfer
open CString

/-- The scan of `com_CDUP` from index `i` down to 1. -/
def comCDUP.scan (path : List Char) : Nat → List Char
  | 0 => path
  | i + 1 => if path[i + 1]? = some '/' then path.take (i + 2) else scan path i

/-- `com_CDUP`: cut after the last slash before the final character. -/
def comCDUP (path : List Char) : List Char :=
  if path = ['/'] then path else comCDUP.scan path (path.length - 2)

/-- The array a result points into. That of `temp` is gone with the call it was local to. -/
inductive PathBuffer where
  | root | cur | cwd | temp
deriving DecidableEq

structure APath where
  path : List Char
  buffer : PathBuffer
deriving DecidableEq

/-- A result of a nested call: its argument is a local array of this one, which ends with it. -/
def APath.nested (a : APath) : APath := {a with buffer := if a.buffer = .cwd then .temp else a.buffer}

/-- The argument array after the call: an absolute path is written back into it. -/
def APath.argument (a : APath) (cwd : List Char) : List Char := if a.buffer = .cwd then a.path else cwd

/-- `change_path(cur_path, cwd, root)`; `none` is the null pointer. -/
def changePath (root : List Char) : List Char → List Char → Except Fault (Option APath)
  | _, ['/'] => .ok (some ⟨root, .root⟩)
  | cur, [] => .ok (some ⟨cur, .cur⟩)
  | cur, ['/', '.', '.', '/'] => .ok (some ⟨comCDUP cur, .cur⟩)
  | _, '/' :: rest => do return some ⟨← strncat pathSize root rest pathSize, .cwd⟩
  | _, '.' :: '.' :: '.' :: '.' :: _ => .ok (some ⟨root, .root⟩)
  | cur, ['.', '.', '.'] => .ok (some ⟨comCDUP (comCDUP cur), .cur⟩)
  | _, '.' :: '.' :: '.' :: _ => .ok none
  | cur, '.' :: '.' :: '/' :: rest => do return (← changePath root (comCDUP cur) rest).map APath.nested
  | cur, ['.', '.'] => .ok (some ⟨comCDUP cur, .cur⟩)
  | _, '.' :: '.' :: _ => .ok none
  | cur, '.' :: '/' :: rest => do return (← changePath root cur rest).map APath.nested
  | _, '.' :: _ => .ok none
  | cur, cwd => do return some ⟨← strncat pathSize cur cwd pathSize, .cur⟩

/-! ### Cutting -/

theorem comCDUP_scan (path : List Char) (i : Nat) :
    comCDUP.scan path i = path ∨ ∃ k ≤ i, path[k]? = some '/' ∧ comCDUP.scan path i = path.take (k + 1) := by
  induction i with
  | zero => exact Or.inl rfl
  | succ i ih =>
    unfold comCDUP.scan
    split
    · rename_i h
      exact Or.inr ⟨i + 1, Nat.le_refl _, h, rfl⟩
    · rcases ih with h | ⟨k, hk, hslash, h⟩
      · exact Or.inl h
      · exact Or.inr ⟨k, Nat.le_succ_of_le hk, hslash, h⟩

/-- `com_CDUP` leaves a path alone or cuts it after one of its slashes. -/
theorem comCDUP_cases (path : List Char) :
    comCDUP path = path ∨ ∃ a b, path = a ++ ['/'] ++ b ∧ comCDUP path = a ++ ['/'] := by
  unfold comCDUP
  split
  · exact Or.inl rfl
  · rcases comCDUP_scan path (path.length - 2) with h | ⟨k, _, hslash, h⟩
    · exact Or.inl h
    · obtain ⟨hk, hget⟩ := List.getElem?_eq_some_iff.mp hslash
      have htake : path.take (k + 1) = path.take k ++ ['/'] := by
        rw [← hget, List.take_append_getElem]
      refine Or.inr ⟨path.take k, path.drop (k + 1), ?_, h.trans htake⟩
      rw [← htake, List.take_append_drop]

theorem comCDUP_length (path : List Char) : (comCDUP path).length ≤ path.length := by
  rcases comCDUP_cases path with h | ⟨a, b, hpath, h⟩
  · rw [h]
  · rw [h, hpath]
    simp

/-! ### Where the result is -/

/-- An absolute argument, which is written back into its array. -/
def writtenBack : List Char → Bool
  | ['/'] => false
  | ['/', '.', '.', '/'] => false
  | '/' :: _ => true
  | _ => false

/-- An absolute path behind `../` or `./`: it is written back into an array of the call that
took these away. -/
def dangles : List Char → Bool
  | '.' :: '.' :: '/' :: rest => writtenBack rest || dangles rest
  | '.' :: '/' :: rest => writtenBack rest || dangles rest
  | _ => false

theorem nested_buffer (o : Option APath) : (o.map APath.nested).map APath.buffer ≠ some .cwd ∧
    ((o.map APath.nested).map APath.buffer = some .temp ↔
      o.map APath.buffer = some .cwd ∨ o.map APath.buffer = some .temp) := by
  cases o with
  | none => simp
  | some a =>
    obtain ⟨path, b⟩ := a
    cases b <;> simp [APath.nested]

/-- The argument tells which array the result is in. -/
theorem changePath_buffer {root cur arg : List Char} {o : Option APath} (h : changePath root cur arg = .ok o) :
    (o.map APath.buffer = some .cwd ↔ writtenBack arg = true) ∧
      (o.map APath.buffer = some .temp ↔ dangles arg = true) := by
  have hnested {rest : List Char} {o' : Option APath}
      (ih : (o'.map APath.buffer = some .cwd ↔ writtenBack rest = true) ∧
        (o'.map APath.buffer = some .temp ↔ dangles rest = true)) :
      ((o'.map APath.nested).map APath.buffer = some .cwd ↔ False) ∧
        ((o'.map APath.nested).map APath.buffer = some .temp ↔ (writtenBack rest || dangles rest) = true) := by
    obtain ⟨hnot, htemp⟩ := nested_buffer o'
    rw [htemp, ih.1, ih.2, Bool.or_eq_true]
    exact ⟨iff_false_intro hnot, Iff.rfl⟩
  fun_induction changePath root cur arg generalizing o with
  | case4 cur rest =>
    obtain ⟨p, _, h⟩ := bind_eq_ok.mp h
    cases h
    simp [writtenBack, dangles]
  | case8 cur rest ih =>
    obtain ⟨o', ho', h⟩ := bind_eq_ok.mp h
    cases h
    simpa [writtenBack, dangles] using hnested (ih ho')
  | case10 cur tail =>
    have hdangles : dangles ('.' :: '.' :: tail) = false := by
      rw [dangles] <;> intros <;> simp_all
    cases h
    simp [writtenBack, hdangles]
  | case11 cur rest ih =>
    obtain ⟨o', ho', h⟩ := bind_eq_ok.mp h
    cases h
    simpa [writtenBack, dangles] using hnested (ih ho')
  | case12 cur tail =>
    have hdangles : dangles ('.' :: tail) = false := by
      rw [dangles] <;> intros <;> simp_all
    cases h
    simp [writtenBack, hdangles]
  | case13 cur cwd =>
    obtain ⟨p, _, h⟩ := bind_eq_ok.mp h
    cases h
    simp [writtenBack, dangles]
  | _ =>
    cases h
    simp [writtenBack, dangles]

/-! ### Where an argument leads -/

/-- `P` holds of the text an argument stands for: each `../` in front cuts the current
directory, an absolute argument is put behind the root, any other behind the current
directory. Arguments that start with a dot otherwise name a parent, the root or nothing. -/
def Leads (P : List Char → Prop) (root : List Char) : List Char → List Char → Prop
  | cur, '.' :: '.' :: '/' :: rest => Leads P root (comCDUP cur) rest
  | cur, '.' :: '/' :: rest => Leads P root cur rest
  | cur, ['.', '.'] => P (comCDUP cur)
  | cur, ['.', '.', '.'] => P (comCDUP (comCDUP cur))
  | _, '.' :: '.' :: '.' :: '.' :: _ => P root
  | _, '.' :: _ => True
  | cur, ['/', '.', '.', '/'] => P (comCDUP cur)
  | _, '/' :: rest => P (root ++ rest)
  | cur, rest => P (cur ++ rest)

section
variable {P : List Char → Prop}

theorem yields_nothing : ∀ a, (.ok none : Except Fault (Option APath)) = .ok (some a) → P a.path :=
  fun _ h => nomatch h

theorem yields_strncat (dst src : List Char) (b : PathBuffer) :
    (∀ a, (do return some ⟨← strncat pathSize dst src pathSize, b⟩ : Except Fault (Option APath)) =
      .ok (some a) → P a.path) ↔ ((dst ++ src).length < pathSize → P (dst ++ src)) := by
  constructor
  · intro h hlen
    exact h ⟨dst ++ src, b⟩ (bind_eq_ok.mpr ⟨_, strncat_eq_ok.mpr ⟨rfl, hlen⟩, rfl⟩)
  · intro h a ha
    obtain ⟨p, hp, ha⟩ := bind_eq_ok.mp ha
    obtain ⟨rfl, hlen⟩ := strncat_eq_ok.mp hp
    cases ha
    exact h hlen

theorem yields_nested (x : Except Fault (Option APath)) :
    (∀ a, (do return (← x).map APath.nested : Except Fault (Option APath)) = .ok (some a) → P a.path) ↔
      ∀ a, x = .ok (some a) → P a.path := by
  constructor
  · intro h a ha
    exact h a.nested (bind_eq_ok.mpr ⟨_, ha, rfl⟩)
  · intro h a ha
    obtain ⟨o, ho, ha⟩ := bind_eq_ok.mp ha
    cases o with
    | none => exact nomatch ha
    | some a' =>
      cases ha
      exact h a' ho

/-- What `change_path` returns satisfies `P` exactly when the argument leads there. -/
theorem changePath_leads (root cur arg : List Char) (hroot : root.length < pathSize)
    (hcur : cur.length < pathSize) :
    (∀ a, changePath root cur arg = .ok (some a) → P a.path) ↔
      Leads (fun p => p.length < pathSize → P p) root cur arg := by
  have hcut (p : List Char) (hp : p.length < pathSize) : (comCDUP p).length < pathSize :=
    Nat.lt_of_le_of_lt (comCDUP_length p) hp
  fun_induction changePath root cur arg with
  | case1 cur => simp [Leads, hroot]
  | case2 cur => simp [Leads, hcur]
  | case3 cur => simp [Leads, hcut _ hcur]
  | case4 cur rest =>
    rw [yields_strncat]
    simp [Leads]
  | case5 cur tail => simp [Leads, hroot]
  | case6 cur => simp [Leads, hcut _ (hcut _ hcur)]
  | case7 cur tail hdot hnil =>
    apply iff_of_true yields_nothing
    rw [Leads] <;> intros <;> simp_all
  | case8 cur rest ih =>
    rw [Leads]
    exact (yields_nested _).trans (ih (hcut _ hcur))
  | case9 cur => simp [Leads, hcut _ hcur]
  | case10 cur tail =>
    apply iff_of_true yields_nothing
    rw [Leads] <;> intros <;> simp_all
  | case11 cur rest ih =>
    rw [Leads]
    exact (yields_nested _).trans (ih hcur)
  | case12 cur tail =>
    apply iff_of_true yields_nothing
    simp [Leads]
  | case13 cur cwd =>
    rw [yields_strncat]
    simp [Leads]

theorem leads_of_forall (h : ∀ p, P p) (root cur arg : List Char) : Leads P root cur arg := by
  fun_induction Leads P root cur arg with
  | case1 cur rest ih => exact ih
  | case2 cur rest ih => exact ih
  | case6 => trivial
  | _ => exact h _

/-- What an argument is known to lead to need not be assumed of it. -/
theorem leads_imp {Q : List Char → Prop} {root cur arg : List Char} (h : Leads Q root cur arg) :
    Leads (fun p => Q p → P p) root cur arg ↔ Leads P root cur arg := by
  fun_induction Leads Q root cur arg with
  | case1 cur rest ih =>
    rw [Leads, Leads]
    exact ih h
  | case2 cur rest ih =>
    rw [Leads, Leads]
    exact ih h
  | case6 cur tail =>
    rw [Leads, Leads] <;> assumption
  | case9 cur rest =>
    rw [Leads, Leads] <;> first | assumption | exact forall_prop_of_true h
  | _ => simp [Leads, h]

theorem leads_and {Q : List Char → Prop} {root cur arg : List Char} :
    Leads (fun p => P p ∧ Q p) root cur arg ↔ Leads P root cur arg ∧ Leads Q root cur arg := by
  fun_induction Leads P root cur arg with
  | case1 cur rest ih =>
    rw [Leads, Leads]
    exact ih
  | case2 cur rest ih =>
    rw [Leads, Leads]
    exact ih
  | case6 cur tail =>
    rw [Leads, Leads, true_and] <;> assumption
  | case9 cur rest =>
    rw [Leads, Leads] <;> assumption
  | _ => simp [Leads]

/-- Nothing `change_path` builds overruns its array exactly when the text the argument leads
to fits. -/
theorem changePath_ok_iff (root cur arg : List Char) (hroot : root.length < pathSize)
    (hcur : cur.length < pathSize) :
    (∃ o, changePath root cur arg = .ok o) ↔ Leads (fun p => p.length < pathSize) root cur arg := by
  have hcut (p : List Char) (hp : p.length < pathSize) : (comCDUP p).length < pathSize :=
    Nat.lt_of_le_of_lt (comCDUP_length p) hp
  have hstrncat (dst src : List Char) (b : PathBuffer) :
      (∃ o, (do return some ⟨← strncat pathSize dst src pathSize, b⟩ : Except Fault (Option APath)) = .ok o) ↔
        (dst ++ src).length < pathSize := by
    constructor
    · intro h
      obtain ⟨o, ho⟩ := h
      obtain ⟨p, hp, _⟩ := bind_eq_ok.mp ho
      exact (strncat_eq_ok.mp hp).2
    · intro h
      exact ⟨_, bind_eq_ok.mpr ⟨_, strncat_eq_ok.mpr ⟨rfl, h⟩, rfl⟩⟩
  have hnested (x : Except Fault (Option APath)) :
      (∃ o, (do return (← x).map APath.nested : Except Fault (Option APath)) = .ok o) ↔ ∃ o, x = .ok o := by
    constructor
    · intro h
      obtain ⟨o, ho⟩ := h
      obtain ⟨o', ho', _⟩ := bind_eq_ok.mp ho
      exact ⟨o', ho'⟩
    · intro h
      obtain ⟨o, ho⟩ := h
      exact ⟨_, bind_eq_ok.mpr ⟨o, ho, rfl⟩⟩
  fun_induction changePath root cur arg with
  | case1 cur => simp [Leads, hroot]
  | case2 cur => simp [Leads, hcur]
  | case3 cur => simp [Leads, hcut _ hcur]
  | case4 cur rest =>
    rw [hstrncat]
    simp [Leads]
  | case5 cur tail => simp [Leads, hroot]
  | case6 cur => simp [Leads, hcut _ (hcut _ hcur)]
  | case7 cur tail hdot hnil =>
    refine iff_of_true ⟨_, rfl⟩ ?_
    rw [Leads] <;> intros <;> simp_all
  | case8 cur rest ih =>
    rw [Leads]
    exact (hnested _).trans (ih (hcut _ hcur))
  | case9 cur => simp [Leads, hcut _ hcur]
  | case10 cur tail =>
    refine iff_of_true ⟨_, rfl⟩ ?_
    rw [Leads] <;> intros <;> simp_all
  | case11 cur rest ih =>
    rw [Leads]
    exact (hnested _).trans (ih hcur)
  | case12 cur tail =>
    refine iff_of_true ⟨_, rfl⟩ ?_
    simp [Leads]
  | case13 cur cwd =>
    rw [hstrncat]
    simp [Leads]

/-- It passes no null pointer on. -/
theorem changePath_fault (root cur arg : List Char) : changePath root cur arg ≠ .error .nullPointer := by
  have hstrncat (dst src : List Char) (b : PathBuffer) :
      (do return some ⟨← strncat pathSize dst src pathSize, b⟩ : Except Fault (Option APath)) ≠
        .error .nullPointer := by
    unfold strncat cstr
    split <;> exact fun h => nomatch h
  have hnested {x : Except Fault (Option APath)} (hx : x ≠ .error .nullPointer) :
      (do return (← x).map APath.nested : Except Fault (Option APath)) ≠ .error .nullPointer := by
    cases x with
    | ok o => exact fun h => nomatch h
    | error f => exact hx
  fun_induction changePath root cur arg with
  | case4 cur rest => exact hstrncat _ _ _
  | case8 cur rest ih => exact hnested ih
  | case11 cur rest ih => exact hnested ih
  | case13 cur cwd => exact hstrncat _ _ _
  | _ => exact fun h => nomatch h

/-- What is returned fits in its array. -/
theorem changePath_length {root cur arg : List Char} {a : APath} (hroot : root.length < pathSize)
    (hcur : cur.length < pathSize) (h : changePath root cur arg = .ok (some a)) : a.path.length < pathSize :=
  (changePath_leads root cur arg hroot hcur).mpr (leads_of_forall (fun _ hlen => hlen) ..) a h

theorem nested_root {a : APath} (h : a.nested.buffer = .root) : a.buffer = .root := by
  unfold APath.nested at h
  split at h
  · exact nomatch h
  · exact h

/-- The root's own array is returned for the root alone. -/
theorem changePath_root {root cur arg : List Char} {a : APath} (h : changePath root cur arg = .ok (some a))
    (hb : a.buffer = .root) : a.path = root := by
  fun_induction changePath root cur arg generalizing a with
  | case1 => cases h; rfl
  | case5 => cases h; rfl
  | case4 =>
    obtain ⟨p, _, h⟩ := bind_eq_ok.mp h
    cases h
    exact nomatch hb
  | case13 =>
    obtain ⟨p, _, h⟩ := bind_eq_ok.mp h
    cases h
    exact nomatch hb
  | case8 cur rest ih =>
    obtain ⟨o, ho, h⟩ := bind_eq_ok.mp h
    cases o with
    | none => exact nomatch h
    | some a' =>
      cases h
      show a'.path = root
      exact ih ho (nested_root hb)
  | case11 cur rest ih =>
    obtain ⟨o, ho, h⟩ := bind_eq_ok.mp h
    cases o with
    | none => exact nomatch h
    | some a' =>
      cases h
      show a'.path = root
      exact ih ho (nested_root hb)
  | _ => cases h <;> exact nomatch hb

end
end HyperTransfer
