import HyperTransfer.Common
import HyperTransfer.Lib.Loops
import HyperTransfer.Lib.Machine

/-! The user list, as the server loads it.

The constructor of `user_manager` reads the file into one array, copies what is left of it into
another for every field, cuts that at the separator and goes on behind it; the loop stops where
nothing is left. Every field takes its separator from what is left, so a file that is not made of
whole lines is read past its end (`userlist_ends_iff`). A file written line by line is read back,
but behind the loops the record of its last line is freed (`userlist_loses_last`). -/
namespace HyperTransfer
open CString

/-! ### Arrays of bytes -/

/-- `memset(array, 0, n)`. -/
def memset (array : List Char) (n : Nat) : Except Fault (List Char) :=
  if n ≤ array.length then .ok (List.replicate n '\x00' ++ array.drop n) else .error .overrun

/-- `strncpy(array, src, n)`. A negative count is more than any array has. -/
def strncpyInto (array src : List Char) (n : Int) : Except Fault (List Char) :=
  if 0 ≤ n ∧ n ≤ array.length ∧ ('\x00' ∈ src.take n.toNat ∨ n ≤ src.length) then
    let text := terminated (src.take n.toNat)
    .ok (text ++ List.replicate (n.toNat - text.length) '\x00' ++ array.drop n.toNat)
  else .error .overrun

/-- A character that does not end a token. -/
def tokenChar (delims : List Char) (c : Char) : Bool := !delims.contains c && c != '\x00'

/-- The first `strtok(array, delims)`. -/
def strtokInto (array delims : List Char) : Except Fault (List Char) :=
  let mid := array.dropWhile delims.contains
  match mid.dropWhile (tokenChar delims) with
  | [] => .error .overrun
  | _ :: rest => .ok (array.takeWhile delims.contains ++ mid.takeWhile (tokenChar delims) ++ '\x00' :: rest)

def strlen (array : List Char) : Except Fault Nat :=
  if '\x00' ∈ array then .ok (terminated array).length else .error .overrun

/-! ### The constructor -/

/-- `_userlist`: the bytes in front of the first NUL of each array, if it has one. -/
structure UserRecord where
  user : List Char := []
  pass : List Char := []
  uploadPer : Bool := false
  downloadPer : Bool := false
  delePer : Bool := false
deriving DecidableEq

inductive UserField where
  | user | pass | upload | download | dele
deriving DecidableEq

/-- Where the constructor is. -/
inductive LoadPoint where
  | reading
  | field (f : UserField)
  | loaded
deriving DecidableEq

/-- The stream, the arrays and the counters of the constructor. -/
structure UserLoading where
  file : List Char
  eof : Bool := false
  userlistBuf : List Char := []
  temp : List Char
  sum : Nat := 0
  readLen : Int := 0
  userList : UserRecord := {}
  userMap : List UserRecord := []
  point : LoadPoint := .reading

namespace UserLoading

/-- The file is open, and `temp` holds what was there. -/
def opened (content : List Char) (heap : Fin fileBufSize → Char) : UserLoading :=
  {file := content, temp := List.ofFn heap}

/-- The outer loop: `read` sets the end of the file where it gets less than it asks for. -/
def read (s : UserLoading) : UserLoading :=
  if s.eof then {s with point := .loaded}
  else
    let got := s.file.take fileBufSize
    {s with
      file := s.file.drop fileBufSize
      eof := got.length < fileBufSize
      userlistBuf := got ++ List.replicate (fileBufSize - got.length) '\x00'
      readLen := got.length
      point := .field .user }

/-- A field is copied, cut and passed over. -/
def field (delims : List Char) (s : UserLoading) : Except Fault (List Char × UserLoading) := do
  let temp ← memset s.temp 1024
  let temp ← strncpyInto temp (s.userlistBuf.drop s.sum) s.readLen
  let temp ← strtokInto temp delims
  let len ← strlen temp
  return (temp.take len, {s with temp := temp, sum := s.sum + (len + 1), readLen := s.readLen - (len + 1)})

/-- What becomes of a field. Every record has an address of its own, so that each is inserted. -/
def store (s : UserLoading) (temp : List Char) : UserField → Except Fault UserLoading
  | .user => do
    if temp.length ≤ userLen then
      return {s with userList := {user := temp}, point := .field .pass}
    else throw .overrun
  | .pass => do
    if temp.length ≤ passLen then
      return {s with userList := {s.userList with pass := temp}, point := .field .upload}
    else throw .overrun
  | .upload =>
    return {s with
      userList := {s.userList with uploadPer := strncasecmp temp "true".toList 4}
      point := .field .download }
  | .download =>
    return {s with
      userList := {s.userList with downloadPer := strncasecmp temp "true".toList 4}
      point := .field .dele }
  | .dele =>
    let userList := {s.userList with delePer := strncasecmp temp "true".toList 4}
    return {s with
      userList := userList
      userMap := s.userMap ++ [userList]
      point := if s.readLen ≠ 0 then .field .user else .reading }

end UserLoading

def UserField.delims : UserField → List Char
  | .dele => ['\n']
  | _ => [' ']

/-- `delete user_list`, behind the loops: the record inserted last is freed. The map keeps the
pointer to it, `none` here. -/
def UserLoading.deleteUserList (s : UserLoading) : List (Option UserRecord) :=
  (s.userMap.map some).modifyLast fun _ => none

/-- The loops of the constructor. What becomes of the map behind them is `deleteUserList`. -/
def userManager : Routine UserLoading Fault where
  step s :=
    match s.point with
    | .reading => .ok s.read
    | .field f => do
      let (temp, s) ← s.field f.delims
      s.store temp f
    | .loaded => .ok s
  done s := s.point = .loaded

/-! ### Fields -/

/-- A field and what ends it: separators, a token without one, and a separator. A NUL ends it as
well, and there the token may be missing. -/
def FieldText (delims t : List Char) : Prop :=
  ∃ lead token c, t = lead ++ token ++ [c] ∧ (∀ x ∈ lead, delims.contains x) ∧
    (∀ x ∈ token, tokenChar delims x) ∧ (delims.contains c ∧ token ≠ [] ∨ c = '\x00')

section
variable {array array' delims t rest x : List Char}

theorem tokenChar_iff {c : Char} : tokenChar delims c ↔ delims.contains c = false ∧ c ≠ '\x00' := by
  rw [tokenChar, Bool.and_eq_true, Bool.not_eq_true', bne_iff_ne]

theorem FieldText.length_pos (h : FieldText delims t) : 0 < t.length := by
  obtain ⟨lead, token, c, rfl, _⟩ := h
  rw [List.length_append]
  exact Nat.succ_pos _

/-- In front of its end a field has no NUL. -/
theorem FieldText.not_mem (hdelims : delims.contains '\x00' = false) (h : FieldText delims t) :
    '\x00' ∉ t.dropLast := by
  obtain ⟨lead, token, c, rfl, hlead, htoken, _⟩ := h
  rw [List.dropLast_concat, List.mem_append, not_or]
  constructor
  · intro hmem
    exact nomatch hdelims.symm.trans (hlead _ hmem)
  · intro hmem
    exact (tokenChar_iff.mp (htoken _ hmem)).2 rfl

theorem strtokInto_append (hdelims : delims.contains '\x00' = false) (ht : FieldText delims t) :
    strtokInto (t ++ x) delims = .ok (t.dropLast ++ '\x00' :: x) := by
  obtain ⟨lead, token, c, rfl, hlead, htoken, hc⟩ := ht
  have hend : ¬ tokenChar delims c = true := by
    rw [tokenChar_iff]
    intro h
    obtain hc | hc := hc
    · exact nomatch h.1.symm.trans hc.1
    · exact h.2 hc
  -- without a token the field ends where its separators do
  have hstops : (token ++ c :: x).head?.any delims.contains = false := by
    cases token with
    | cons y more =>
      exact (tokenChar_iff.mp (htoken y (List.mem_cons_self ..))).1
    | nil =>
      obtain hc | rfl := hc
      · exact absurd rfl hc.2
      · exact hdelims
  have hmid : (token ++ c :: x).dropWhile delims.contains = token ++ c :: x ∧
      (token ++ c :: x).takeWhile delims.contains = [] := by
    cases hall : token ++ c :: x with
    | nil => exact ⟨rfl, rfl⟩
    | cons y more =>
      rw [hall] at hstops
      have hy : ¬ delims.contains y = true := by
        rw [show delims.contains y = false from hstops]
        exact Bool.false_ne_true
      exact ⟨List.dropWhile_cons_of_neg hy, List.takeWhile_cons_of_neg hy⟩
  have hshape : lead ++ token ++ [c] ++ x = lead ++ (token ++ c :: x) := by
    simp only [List.append_assoc, List.singleton_append]
  unfold strtokInto
  dsimp only
  rw [hshape, List.dropWhile_append_of_pos hlead, List.takeWhile_append_of_pos hlead, hmid.1, hmid.2,
    List.dropWhile_append_of_pos htoken, List.takeWhile_append_of_pos htoken,
    List.dropWhile_cons_of_neg hend, List.takeWhile_cons_of_neg hend, List.dropLast_concat, List.append_nil,
    List.append_nil]

theorem strtokInto_cases (h : strtokInto array delims = .ok array') :
    ∃ t x, array = t ++ x ∧ FieldText delims t ∧ array' = t.dropLast ++ '\x00' :: x := by
  unfold strtokInto at h
  dsimp only at h
  generalize hmid : array.dropWhile delims.contains = mid at h
  split at h
  · exact nomatch h
  · rename_i c x hx
    cases h
    have harray : array = array.takeWhile delims.contains ++ mid := by rw [← hmid, List.takeWhile_append_dropWhile]
    have hsplit := List.takeWhile_append_dropWhile (p := tokenChar delims) (l := mid)
    rw [hx] at hsplit
    have hc := List.head?_dropWhile_not (tokenChar delims) mid
    rw [hx] at hc
    have hend : delims.contains c ∨ c = '\x00' := by
      have hc : tokenChar delims c = false := hc
      rw [tokenChar, Bool.and_eq_false_iff, Bool.not_eq_false', bne_eq_false_iff_eq] at hc
      exact hc
    refine ⟨array.takeWhile delims.contains ++ mid.takeWhile (tokenChar delims) ++ [c], x, ?_, ?_, ?_⟩
    · rw [List.append_assoc, List.append_assoc, List.singleton_append, hsplit]
      exact harray
    · refine ⟨_, _, c, rfl, fun y hy => List.mem_takeWhile_imp hy, fun y hy => List.mem_takeWhile_imp hy, ?_⟩
      obtain hc | hc := hend
      · refine Or.inl ⟨hc, fun hnone => ?_⟩
        have hfirst := List.head?_dropWhile_not delims.contains array
        rw [hmid, ← hsplit, hnone] at hfirst
        exact nomatch hc.symm.trans hfirst
      · exact Or.inr hc
    · rw [List.dropLast_concat]

theorem strlen_append (h : '\x00' ∉ t) : strlen (t ++ '\x00' :: x) = .ok t.length := by
  rw [strlen, if_pos (List.mem_append_right t (List.mem_cons_self ..)), terminated, List.takeWhile_append_of_pos]
  · rw [List.takeWhile_cons_of_neg (by decide), List.append_nil]
  · intro c hc
    exact bne_iff_ne.mpr fun hzero => h (hzero ▸ hc)

/-! ### Copies -/

/-- What an array holds after a copy of `rest`. -/
def copied (rest x : List Char) : List Char :=
  terminated rest ++ List.replicate (rest.length - (terminated rest).length) '\x00' ++ x

/-- Up to the first NUL the copy is what was copied. -/
theorem prefix_copied (ht : '\x00' ∉ t.dropLast) (hlen : t.length ≤ rest.length) :
    t <+: copied rest x ↔ t <+: rest := by
  have hcut : '\x00' ∉ terminated rest := by
    intro hmem
    exact nomatch List.mem_takeWhile_imp hmem
  have hrest := List.takeWhile_append_dropWhile (p := (· != '\x00')) (l := rest)
  cases hm : rest.dropWhile (· != '\x00') with
  | nil =>
    rw [hm, List.append_nil] at hrest
    have hwhole : copied rest x = rest ++ x := by
      rw [copied, show terminated rest = rest from hrest, Nat.sub_self, List.replicate_zero, List.append_nil]
    rw [hwhole]
    constructor
    · intro h
      exact List.prefix_of_prefix_length_le h (List.prefix_append ..) hlen
    · intro h
      exact h.trans (List.prefix_append ..)
  | cons c m =>
    have hc : c = '\x00' := by
      have h := List.head?_dropWhile_not (· != '\x00') rest
      rw [hm] at h
      exact bne_eq_false_iff_eq.mp h
    subst hc
    rw [hm] at hrest
    have hpad : rest.length - (terminated rest).length = m.length + 1 := by
      have h := congrArg List.length hrest
      rw [List.length_append, List.length_cons] at h
      show rest.length - (rest.takeWhile _).length = _
      omega
    have hcopied : copied rest x = (terminated rest ++ ['\x00']) ++ (List.replicate m.length '\x00' ++ x) := by
      rw [copied, hpad, List.replicate_succ]
      simp only [List.append_assoc, List.cons_append, List.nil_append]
    have hwhole : rest = (terminated rest ++ ['\x00']) ++ m := by
      rw [List.append_assoc]
      exact hrest.symm
    -- a text with no NUL in front of its end goes no further than the first one
    have hshort {y : List Char} (h : t <+: (terminated rest ++ ['\x00']) ++ y) : t <+: terminated rest ++ ['\x00'] := by
      apply List.prefix_of_prefix_length_le h (List.prefix_append ..)
      by_contra hlong
      have hback := List.prefix_of_prefix_length_le (List.prefix_append ..) h (Nat.le_of_not_le hlong)
      apply ht
      have hdrop : terminated rest ++ ['\x00'] <+: t.dropLast := by
        apply List.prefix_of_prefix_length_le hback (List.dropLast_prefix t)
        rw [List.length_dropLast]
        omega
      exact hdrop.subset (List.mem_append_right _ (List.mem_singleton_self _))
    rw [hcopied]
    constructor
    · intro h
      rw [hwhole]
      exact (hshort h).trans (List.prefix_append ..)
    · intro h
      rw [hwhole] at h
      exact (hshort h).trans (List.prefix_append ..)

theorem strncpyInto_rest {n : Nat} (hroom : rest.length ≤ array.length) :
    strncpyInto array (rest ++ List.replicate n '\x00') rest.length = .ok (copied rest (array.drop rest.length)) := by
  rw [strncpyInto, Int.toNat_natCast, List.take_left, if_pos]
  · rfl
  · refine ⟨Int.natCast_nonneg _, Int.ofNat_le.mpr hroom, Or.inr ?_⟩
    rw [List.length_append]
    omega

theorem copied_length : (copied rest x).length = rest.length + x.length := by
  have hle : (terminated rest).length ≤ rest.length := (List.takeWhile_prefix _).length_le
  rw [copied, List.length_append, List.length_append, List.length_replicate]
  omega

end

namespace UserLoading

/-- What is left of the file is `rest`, and it stands in the array. -/
structure Reads (content : List Char) (s : UserLoading) (rest : List Char) : Prop where
  file : s.file = []
  temp : s.temp.length = fileBufSize
  buf : ∃ n, s.userlistBuf.drop s.sum = rest ++ List.replicate n '\x00'
  sum : s.sum + rest.length = content.length
  readLen : s.readLen = rest.length

/-- Behind a field of `n` characters. -/
def past (s : UserLoading) (temp : List Char) (n : Nat) : UserLoading :=
  {s with temp := temp, sum := s.sum + n, readLen := s.readLen - n}

variable {content delims t r rest token : List Char} {s s' : UserLoading}

/-- The array that a field is cut in. -/
theorem field_eq (delims : List Char) (hlen : content.length ≤ fileBufSize) (h : s.Reads content rest) :
    ∃ x, rest.length + x.length = fileBufSize ∧
      s.field delims = (do
        let temp ← strtokInto (copied rest x) delims
        let len ← strlen temp
        return (temp.take len, s.past temp (len + 1))) := by
  obtain ⟨n, hbuf⟩ := h.buf
  have hsum := h.sum
  have hsize : fileBufSize = 1048576 := rfl
  generalize hzeroed : List.replicate 1024 '\x00' ++ s.temp.drop 1024 = zeroed
  have hroom : zeroed.length = fileBufSize := by
    rw [← hzeroed, List.length_append, List.length_replicate, List.length_drop, h.temp, hsize]
  refine ⟨zeroed.drop rest.length, ?_, ?_⟩
  · rw [List.length_drop]
    omega
  · have hclears : memset s.temp 1024 = .ok zeroed := by
      rw [memset, if_pos (by rw [h.temp, hsize]; omega), hzeroed]
    unfold field
    rw [hclears]
    dsimp only [bind, Except.bind]
    rw [hbuf, h.readLen, strncpyInto_rest (by omega), ← h.readLen]
    rfl

theorem Reads.past (h : s.Reads content (t ++ r)) {temp : List Char} (htemp : temp.length = fileBufSize) :
    (s.past temp t.length).Reads content r := by
  obtain ⟨n, hbuf⟩ := h.buf
  have hsum := h.sum
  have hread := h.readLen
  rw [List.length_append] at hsum hread
  refine ⟨h.file, htemp, ⟨n, ?_⟩, ?_, ?_⟩
  · show s.userlistBuf.drop (s.sum + t.length) = _
    rw [← List.drop_drop, hbuf, List.append_assoc, List.drop_left]
  · show s.sum + t.length + r.length = _
    omega
  · show s.readLen - t.length = _
    omega

/-- A field in front is read, and what is behind it is left. -/
theorem field_text (hlen : content.length ≤ fileBufSize) (hdelims : delims.contains '\x00' = false)
    (ht : FieldText delims t) (h : s.Reads content (t ++ r)) :
    ∃ temp, temp.length = fileBufSize ∧ s.field delims = .ok (t.dropLast, s.past temp t.length) := by
  obtain ⟨x, hx, hfield⟩ := field_eq delims hlen h
  have hno := ht.not_mem hdelims
  have hpos := ht.length_pos
  have hfront : t <+: copied (t ++ r) x := by
    rw [prefix_copied hno]
    · exact List.prefix_append ..
    · rw [List.length_append]
      omega
  obtain ⟨y, hy⟩ := hfront
  have hwidth := congrArg List.length hy
  rw [List.length_append, copied_length, hx] at hwidth
  refine ⟨t.dropLast ++ '\x00' :: y, ?_, ?_⟩
  · rw [List.length_append, List.length_cons, List.length_dropLast]
    omega
  · rw [hfield, ← hy, strtokInto_append hdelims ht]
    dsimp only [bind, Except.bind]
    rw [strlen_append hno]
    dsimp only
    rw [List.take_left, List.length_dropLast, Nat.sub_add_cancel hpos]
    rfl

/-- Where something sensible is left behind a field, it was one. -/
theorem field_cases (hlen : content.length ≤ fileBufSize) (hdelims : delims.contains '\x00' = false)
    (h : s.Reads content rest) (hfield : s.field delims = .ok (token, s')) (hleft : 0 ≤ s'.readLen) :
    ∃ t r temp, rest = t ++ r ∧ FieldText delims t ∧ temp.length = fileBufSize ∧ token = t.dropLast ∧
      s' = s.past temp t.length := by
  obtain ⟨x, hx, heq⟩ := field_eq delims hlen h
  rw [heq] at hfield
  obtain ⟨temp, htemp, hfield⟩ := bind_eq_ok.mp hfield
  obtain ⟨t, y, hy, ht, rfl⟩ := strtokInto_cases htemp
  have hno := ht.not_mem hdelims
  have hpos := ht.length_pos
  rw [strlen_append hno] at hfield
  cases hfield
  rw [List.length_dropLast, Nat.sub_add_cancel hpos] at hleft
  have hread : s.readLen - t.length ≥ 0 := hleft
  have hfront : t <+: rest := by
    rw [← prefix_copied (x := x) hno]
    · exact ⟨y, hy.symm⟩
    · have := h.readLen
      omega
  obtain ⟨r, hr⟩ := hfront
  have hwidth := congrArg List.length hy
  rw [List.length_append, copied_length, hx] at hwidth
  refine ⟨t, r, t.dropLast ++ '\x00' :: y, hr.symm, ht, ?_, ?_, ?_⟩
  · rw [List.length_append, List.length_cons, List.length_dropLast]
    omega
  · rw [List.take_left]
  · rw [List.length_dropLast, Nat.sub_add_cancel hpos]

end UserLoading

end HyperTransfer
