import Mathlib.Algebra.Group.Int.Defs
import Mathlib.Algebra.Group.Nat.Defs
import Mathlib.Data.List.Infix
import Mathlib.Data.List.TakeWhile

/-! C strings in fixed arrays.

A `char` array is modelled by the bytes before its first NUL. An array of `n`
characters holds a terminated string exactly when that list is shorter than `n`;
reading an array that is not terminated, or writing past its end, is undefined
and ends the computation with a `Fault`. The functions below are those of
`string.h` and `stdio.h` on such lists. -/
namespace HyperTransfer.CString

/-- Undefined behaviour. -/
inductive Fault where
  | nullPointer
  | overrun
deriving DecidableEq, Repr

/-- The string of a byte array: what comes before its first NUL. -/
def terminated (bytes : List Char) : List Char := bytes.takeWhile (· != '\x00')

/-- Read an array of `n` characters as a string. -/
def cstr (n : Nat) (array : List Char) : Except Fault (List Char) :=
  if array.length < n then .ok array else .error .overrun

/-- `strncpy(dst, src, n)` into an array of `n` characters. -/
def strncpy (n : Nat) (src : List Char) : List Char := src.take n

/-- `strncat(dst, src, k)` onto an array of `n` characters. -/
def strncat (n : Nat) (dst src : List Char) (k : Nat) : Except Fault (List Char) :=
  cstr n (dst ++ src.take k)

/-- Build a string in an array of `n` characters by appending the parts in order,
each `strncat` bounded by `n` as well. -/
def concat (n : Nat) (parts : List (List Char)) : Except Fault (List Char) :=
  parts.foldlM (fun dst src => strncat n dst src n) []

/-- `strncmp(a, b, n) == 0`. -/
def strncmp (a b : List Char) (n : Nat) : Bool := a.take n == b.take n

/-- `strncasecmp(a, b, n) == 0`. -/
def strncasecmp (a b : List Char) (n : Nat) : Bool :=
  (a.take n).map Char.toLower == (b.take n).map Char.toLower

/-- What a buffer reads as from its start after one `strtok` on it: delimiters in
front stay, and the first delimiter after the first token becomes the terminator. -/
def strtok (s delims : List Char) : List Char :=
  s.takeWhile delims.contains ++
    (s.dropWhile delims.contains).takeWhile (fun c => !delims.contains c)

/-- `strstr(s, pattern)`: the tail of `s` that starts at the first occurrence. -/
def strstr (s pattern : List Char) : Option (List Char) := s.tails.find? pattern.isPrefixOf

/-- `s + k` for a pointer into the array that holds `s`, zero padded after it. -/
def advance (s : List Char) (k : Int) : Except Fault (List Char) :=
  if 0 ≤ k then .ok (s.drop k.toNat) else .error .overrun

/-- What `sprintf("%ld")` writes. -/
def decimal (n : Int) : List Char :=
  if n < 0 then '-' :: Nat.toDigits 10 n.natAbs else Nat.toDigits 10 n.natAbs

/-- The number spelled by the digits in front, if there is one. -/
def digits (s : List Char) : Option Nat :=
  match s.takeWhile Char.isDigit with
  | [] => none
  | ds => some (ds.foldl (fun a c => a * 10 + (c.toNat - '0'.toNat)) 0)

/-- `isspace`. -/
def isSpace (c : Char) : Bool := [' ', '\t', '\n', '\x0b', '\x0c', '\r'].contains c

/-- What `sscanf("%ld")` stores, if anything: blanks, a sign and at least one
digit, the value kept inside the range of a 64-bit `long`. -/
def scanLong (s : List Char) : Option Int :=
  match s.dropWhile isSpace with
  | '-' :: rest => (digits rest).map fun n => max (-n) (-2 ^ 63)
  | '+' :: rest => (digits rest).map fun n => min n (2 ^ 63 - 1)
  | rest => (digits rest).map fun n => min n (2 ^ 63 - 1)

/-- A 64-bit `long` passed through an `int`. -/
def toInt (n : Int) : Int := n.bmod (2 ^ 32)

/-- An `int` keeps what fits. -/
theorem toInt_of_lt {n : Int} (h : 0 ≤ n) (hlt : n < 2 ^ 31) : toInt n = n := by
  unfold toInt
  rw [Int.bmod_eq_of_le] <;> omega

theorem toInt_toInt (n : Int) : toInt (toInt n) = toInt n := Int.bmod_bmod

/-! ### Comparing -/

/-- Lower case makes no blank. -/
theorem toLower_eq_blank {c : Char} (h : c.toLower = ' ') : c = ' ' := by
  unfold Char.toLower at h
  split at h
  · rename_i hupper
    have hval : c.val + 32 = 32 := congrArg Char.val h
    have hlow : 65 ≤ c.val.toNat := UInt32.le_iff_toNat_le.mp hupper.1
    have hhigh : c.val.toNat ≤ 90 := UInt32.le_iff_toNat_le.mp hupper.2
    have hnat := congrArg UInt32.toNat hval
    rw [UInt32.toNat_add] at hnat
    simp only [UInt32.reduceToNat] at hnat
    omega
  · exact h

/-- A text whose first character compares equal to a blank. -/
theorem strncasecmp_blank {text : List Char} (h : strncasecmp text [' '] 1) : ∃ rest, text = ' ' :: rest := by
  cases text with
  | nil => exact nomatch h
  | cons c rest =>
    have hc : c.toLower = ' ' := by simpa [strncasecmp] using h
    exact ⟨rest, by rw [toLower_eq_blank hc]⟩

/-- Only the empty text compares equal to it over a positive length. -/
theorem strncasecmp_empty {text : List Char} {n : Nat} (h : strncasecmp text [] (n + 1)) : text = [] := by
  cases text with
  | nil => rfl
  | cons c rest => exact nomatch h

/-! ### Arrays -/

theorem cstr_eq_ok {n : Nat} {a t : List Char} : cstr n a = .ok t ↔ t = a ∧ a.length < n := by
  unfold cstr
  split
  · rename_i h
    simp [h, eq_comm]
  · rename_i h
    simp [h]

theorem cstr_of_lt {n : Nat} {a : List Char} (h : a.length < n) : cstr n a = .ok a :=
  cstr_eq_ok.mpr ⟨rfl, h⟩

theorem strncpy_of_le {n : Nat} {src : List Char} (h : src.length ≤ n) : strncpy n src = src :=
  List.take_of_length_le h

theorem strncpy_length_le (n : Nat) (src : List Char) : (strncpy n src).length ≤ n :=
  List.length_take_le n src

theorem cstr_strncpy {n : Nat} {src t : List Char} :
    cstr n (strncpy n src) = .ok t ↔ t = src ∧ src.length < n := by
  rw [cstr_eq_ok]
  constructor
  · intro ht
    obtain ⟨rfl, h⟩ := ht
    have hlt : src.length < n := by
      simp only [strncpy, List.length_take] at h
      omega
    exact ⟨strncpy_of_le (Nat.le_of_lt hlt), hlt⟩
  · intro ht
    obtain ⟨rfl, h⟩ := ht
    rw [strncpy_of_le (Nat.le_of_lt h)]
    exact ⟨rfl, h⟩

theorem strncat_eq_ok {n : Nat} {dst src t : List Char} :
    strncat n dst src n = .ok t ↔ t = dst ++ src ∧ (dst ++ src).length < n := by
  unfold strncat
  rw [cstr_eq_ok]
  constructor
  · intro ht
    obtain ⟨rfl, h⟩ := ht
    have hlen : src.length ≤ n := by
      simp only [List.length_append, List.length_take] at h
      omega
    rw [List.take_of_length_le hlen] at h ⊢
    exact ⟨rfl, h⟩
  · intro ht
    obtain ⟨rfl, h⟩ := ht
    have hlen : src.length ≤ n := by
      simp only [List.length_append] at h
      omega
    rw [List.take_of_length_le hlen]
    exact ⟨rfl, h⟩

private theorem foldlM_strncat {n : Nat} (parts : List (List Char)) (dst t : List Char)
    (hd : dst.length < n) :
    parts.foldlM (fun dst src => strncat n dst src n) dst = .ok t ↔
      t = dst ++ parts.flatten ∧ (dst ++ parts.flatten).length < n := by
  induction parts generalizing dst with
  | nil =>
    rw [List.foldlM_nil, List.flatten_nil, List.append_nil]
    refine ⟨fun h => ?_, fun h => by rw [h.1]; rfl⟩
    injection h with h
    exact ⟨h.symm, hd⟩
  | cons p rest ih =>
    rw [List.foldlM_cons, List.flatten_cons, ← List.append_assoc]
    cases hs : strncat n dst p n with
    | error f =>
      refine ⟨fun h => (nomatch h), fun ⟨_, hlen⟩ => ?_⟩
      have hp : (dst ++ p).length < n := by
        simp only [List.length_append] at hlen ⊢
        omega
      rw [strncat_eq_ok.mpr ⟨rfl, hp⟩] at hs
      exact nomatch hs
    | ok d =>
      obtain ⟨rfl, hp⟩ := strncat_eq_ok.mp hs
      exact ih _ hp

/-- A composed string is its parts, and it fits. -/
theorem concat_eq_ok {n : Nat} {parts : List (List Char)} {t : List Char} (hn : 0 < n) :
    concat n parts = .ok t ↔ t = parts.flatten ∧ parts.flatten.length < n := by
  simpa [concat] using foldlM_strncat parts [] t hn

/-! ### Staying in bounds -/

/-- The computation overruns no array, and what it returns satisfies `Q`. -/
def InBounds {A : Type} (Q : A → Prop) : Except Fault A → Prop
  | .ok a => Q a
  | .error f => f = .nullPointer

section
variable {A B : Type} {P Q : A → Prop} {R : List Char → Prop}

theorem inBounds_bind (x : Except Fault B) (f : B → Except Fault A) :
    InBounds Q (x >>= f) ↔ InBounds (fun b => InBounds Q (f b)) x := by
  cases x <;> rfl

theorem InBounds.ok_bind {b : B} {f : B → Except Fault A} (h : InBounds Q (f b)) :
    InBounds Q (Except.ok b >>= f) := h

theorem InBounds.mono {x : Except Fault A} (h : InBounds P x) (hPQ : ∀ a, P a → Q a) : InBounds Q x := by
  cases x with
  | error f => exact h
  | ok a => exact hPQ a h

/-- A computation that only overruns has to return. -/
theorem inBounds_iff {x : Except Fault A} (hx : x ≠ .error .nullPointer) :
    InBounds Q x ↔ ∃ a, x = .ok a ∧ Q a := by
  cases x with
  | ok a =>
    constructor
    · intro h
      exact ⟨a, rfl, h⟩
    · intro h
      obtain ⟨b, hb, h⟩ := h
      cases hb
      exact h
  | error f =>
    refine iff_of_false (fun h => hx ?_) fun h => nomatch h.choose_spec.1
    rw [show f = .nullPointer from h]

theorem inBounds_cstr {n : Nat} {a : List Char} : InBounds R (cstr n a) ↔ a.length < n ∧ R a := by
  unfold cstr
  split
  · rename_i h
    exact (and_iff_right h).symm
  · rename_i h
    exact iff_of_false (fun h => nomatch h) fun hlen => h hlen.1

theorem inBounds_strncpy {n : Nat} {src : List Char} :
    InBounds R (cstr n (strncpy n src)) ↔ src.length < n ∧ R src := by
  have hx : cstr n (strncpy n src) ≠ .error .nullPointer := by
    unfold cstr
    split <;> exact fun h => nomatch h
  rw [inBounds_iff hx]
  constructor
  · intro h
    obtain ⟨t, ht, hR⟩ := h
    obtain ⟨rfl, hlen⟩ := cstr_strncpy.mp ht
    exact ⟨hlen, hR⟩
  · intro h
    exact ⟨src, cstr_strncpy.mpr ⟨rfl, h.1⟩, h.2⟩

theorem inBounds_advance {s : List Char} {k : Int} :
    InBounds R (advance s k) ↔ 0 ≤ k ∧ R (s.drop k.toNat) := by
  unfold advance
  split
  · rename_i h
    exact (and_iff_right h).symm
  · rename_i h
    exact iff_of_false (fun h => nomatch h) fun hk => h hk.1

theorem inBounds_concat {n : Nat} {parts : List (List Char)} (hn : 0 < n) :
    InBounds R (concat n parts) ↔ parts.flatten.length < n ∧ R parts.flatten := by
  have hfold (dst : List Char) :
      parts.foldlM (fun dst src => strncat n dst src n) dst ≠ .error .nullPointer := by
    induction parts generalizing dst with
    | nil => exact fun h => nomatch h
    | cons p rest ih =>
      rw [List.foldlM_cons]
      cases hs : strncat n dst p n with
      | ok d => exact ih d
      | error f =>
        intro h
        have hf : f = .nullPointer := Except.error.inj h
        unfold strncat cstr at hs
        split at hs
        · exact nomatch hs
        · cases hs
          exact nomatch hf
  rw [inBounds_iff (x := concat n parts) (hfold [])]
  constructor
  · intro h
    obtain ⟨t, ht, hR⟩ := h
    obtain ⟨rfl, hlen⟩ := (concat_eq_ok hn).mp ht
    exact ⟨hlen, hR⟩
  · intro h
    exact ⟨_, (concat_eq_ok hn).mpr ⟨rfl, h.1⟩, h.2⟩

end

/-- The characters a `long` is written with. -/
theorem decimal_length {n : Int} (hlow : -2 ^ 63 ≤ n) (hhigh : n < 2 ^ 63) : (decimal n).length ≤ 20 := by
  have hdigits : (Nat.toDigits 10 n.natAbs).length ≤ 19 :=
    (Nat.length_toDigits_le_iff (by decide) (by decide)).mpr (by omega)
  unfold decimal
  split
  · rw [List.length_cons]
    omega
  · omega

theorem decimal_natCast (n : Nat) : decimal n = Nat.toDigits 10 n := by
  rw [decimal, if_neg (Int.not_lt.mpr (Int.natCast_nonneg n)), Int.natAbs_natCast]

/-- How many digits a number has that is not negative. -/
theorem decimal_natCast_length {n digits : Nat} (h : 0 < digits) :
    (decimal n).length ≤ digits ↔ n < 10 ^ digits := by
  rw [decimal_natCast]
  exact Nat.length_toDigits_le_iff (by decide) h

/-! ### Searching -/

/-- A search succeeds exactly on an occurrence. -/
theorem strstr_isSome_iff {s pattern : List Char} : (strstr s pattern).isSome ↔ pattern <:+: s := by
  simp only [strstr, List.find?_isSome, List.mem_tails, List.isPrefixOf_iff_prefix]
  constructor
  · intro ht
    obtain ⟨t, hsuffix, hprefix⟩ := ht
    exact hprefix.isInfix.trans hsuffix.isInfix
  · intro hs
    obtain ⟨a, b, rfl⟩ := hs
    exact ⟨pattern ++ b, ⟨a, by simp⟩, List.prefix_append ..⟩

/-- Past a run free of the pattern's first character the search starts at the pattern. -/
theorem strstr_append {c : Char} {pattern a b : List Char} (ha : c ∉ a) :
    strstr (a ++ (c :: pattern) ++ b) (c :: pattern) = some ((c :: pattern) ++ b) := by
  unfold strstr
  induction a with
  | nil => simp
  | cons x rest ih =>
    have hx : c ≠ x := fun h => ha (h ▸ List.mem_cons_self ..)
    simpa [List.find?_cons, hx] using ih (fun h => ha (List.mem_cons_of_mem _ h))

/-! ### Tokens -/

/-- Delimiters, and then one token. -/
def OneToken (delims t : List Char) : Prop :=
  ∃ lead token, t = lead ++ token ∧ (∀ c ∈ lead, delims.contains c) ∧ token ≠ [] ∧
    ∀ c ∈ token, delims.contains c = false

/-- In front of a delimiter, or of the end, `strtok` finds the token. -/
theorem strtok_append {delims t b : List Char} (ht : OneToken delims t) (hb : ∀ c ∈ b.head?, delims.contains c) :
    strtok (t ++ b) delims = t := by
  obtain ⟨lead, token, rfl, hlead, hne, htoken⟩ := ht
  obtain ⟨c, rest, rfl⟩ := List.exists_cons_of_ne_nil hne
  have hc : ¬ delims.contains c = true := by
    rw [htoken c (List.mem_cons_self ..)]
    exact Bool.false_ne_true
  have hfront : (lead ++ (c :: rest ++ b)).takeWhile delims.contains = lead := by
    rw [List.takeWhile_append_of_pos hlead, List.cons_append, List.takeWhile_cons_of_neg hc, List.append_nil]
  have hback : (lead ++ (c :: rest ++ b)).dropWhile delims.contains = c :: rest ++ b := by
    rw [List.dropWhile_append_of_pos hlead, List.cons_append, List.dropWhile_cons_of_neg hc]
  have hend : b.takeWhile (fun c => !delims.contains c) = [] := by
    cases b with
    | nil => rfl
    | cons d b => exact List.takeWhile_cons_of_neg (by simp only [hb d rfl, Bool.not_true, Bool.false_eq_true, not_false_iff])
  rw [strtok, List.append_assoc, hfront, hback, List.takeWhile_append_of_pos, hend, List.append_nil]
  intro x hx
  rw [htoken x hx]
  rfl

/-- Where `strtok` cuts a text there is a token before the cut and a delimiter behind it. -/
theorem strtok_cases (s delims : List Char) : strtok s delims = s ∨
    OneToken delims (strtok s delims) ∧ ∃ d rest, delims.contains d ∧ s = strtok s delims ++ d :: rest := by
  generalize hmid : s.dropWhile delims.contains = mid
  have hs : s = s.takeWhile delims.contains ++ mid := by rw [← hmid, List.takeWhile_append_dropWhile]
  have hcut : s = strtok s delims ++ mid.dropWhile (fun c => !delims.contains c) := by
    rw [strtok, hmid, List.append_assoc, List.takeWhile_append_dropWhile, ← hs]
  cases hrest : mid.dropWhile (fun c => !delims.contains c) with
  | nil =>
    rw [hrest, List.append_nil] at hcut
    exact Or.inl hcut.symm
  | cons d rest =>
    have hd : delims.contains d := by
      have h := List.head?_dropWhile_not (fun c => !delims.contains c) mid
      rw [hrest] at h
      simpa using h
    refine Or.inr ⟨⟨_, _, rfl, fun c hc => List.mem_takeWhile_imp hc, ?_, ?_⟩, d, rest, hd, ?_⟩
    · rw [hmid]
      cases mid with
      | nil => exact nomatch hrest
      | cons m mid =>
        have hm : delims.contains m = false := by
          have h := List.head?_dropWhile_not delims.contains s
          rw [hmid] at h
          exact h
        rw [List.takeWhile_cons_of_pos (by rw [hm]; rfl)]
        exact List.cons_ne_nil _ _
    · intro c hc
      simpa using List.mem_takeWhile_imp hc
    · rw [hrest] at hcut
      exact hcut

end HyperTransfer.CString
