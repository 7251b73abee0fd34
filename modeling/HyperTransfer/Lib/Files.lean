import Mathlib.Data.List.Infix
import Mathlib.Logic.Function.Basic

/-! Files and the descriptors open on them.

A description is a path and a position; a descriptor is a number for one. What a call
of the operating system gives is left to its outcome where the system has a choice: a
failure, the number of a new descriptor, or how many bytes are moved. A descriptor
number comes back once it is closed, so a number alone does not tell a file
(`Files.Describes`). -/
namespace HyperTransfer

/-- What a descriptor is open on. -/
structure Description (P : Type) where
  path : P
  pos : Nat
deriving DecidableEq

structure Files (P B : Type) where
  content : P → Option (List B)
  opened : Nat → Option (Description P)

namespace Files
variable {P B : Type}

/-- No file at all. -/
def empty : Files P B := {content := fun _ => none, opened := fun _ => none}

/-- Bytes put over the old ones at a position, with a hole filled up. -/
def splice (hole : B) (old : List B) (pos : Nat) : List B → List B
  | [] => old
  | b :: bytes =>
    old.take pos ++ List.replicate (pos - old.length) hole ++ b :: bytes ++ old.drop (pos + (b :: bytes).length)

/-- Open a path, creating it where that is asked for. The outcome is the number of the
descriptor, if the call can succeed. -/
def openFile [DecidableEq P] (f : Files P B) (path : P) (create : Bool) (outcome : Option Nat) :
    Option Nat × Files P B :=
  match outcome with
  | none => (none, f)
  | some d =>
    if (f.opened d).isSome || ((f.content path).isNone && !create) then (none, f)
    else
      (some d,
        { content := if (f.content path).isNone then Function.update f.content path (some []) else f.content
          opened := Function.update f.opened d (some {path := path, pos := 0}) })

/-- Set the position from the start of the file. -/
def seek (f : Files P B) (d : Nat) (offset : Int) (outcome : Bool) : Files P B :=
  match f.opened d with
  | none => f
  | some o =>
    if outcome = true ∧ 0 ≤ offset then
      {f with opened := Function.update f.opened d (some {o with pos := offset.toNat})}
    else f

/-- Read up to `n` bytes. A read that succeeds brings at least one while there are any;
the outcome says how many it would rather bring. -/
def read (f : Files P B) (d n : Nat) (outcome : Option Nat) : Option (List B) × Files P B :=
  match f.opened d, outcome with
  | some o, some k =>
    match f.content o.path with
    | none => (none, f)
    | some bytes =>
      let got := (bytes.drop o.pos).take (min n (max 1 k))
      (some got, {f with opened := Function.update f.opened d (some {o with pos := o.pos + got.length})})
  | _, _ => (none, f)

/-- Write bytes. The outcome says how many are taken. -/
def write [DecidableEq P] (hole : B) (f : Files P B) (d : Nat) (bytes : List B) (outcome : Option Nat) :
    Option Nat × Files P B :=
  match f.opened d, outcome with
  | some o, some k =>
    match f.content o.path with
    | none => (none, f)
    | some old =>
      let taken := bytes.take k
      (some taken.length,
        { content := Function.update f.content o.path (some (splice hole old o.pos taken))
          opened := Function.update f.opened d (some {o with pos := o.pos + taken.length}) })
  | _, _ => (none, f)

def close (f : Files P B) (d : Nat) : Files P B := {f with opened := Function.update f.opened d none}

/-- The path a descriptor is open on. -/
def pathOf (f : Files P B) (d : Nat) : Option P := (f.opened d).map Description.path

/-- Whatever the descriptor is open on, it is that path. -/
def Describes (f : Files P B) (d : Nat) (path : P) : Prop := ∀ p, f.pathOf d = some p → p = path

/-- What is open afterwards was open before, on the same path. -/
def Keeps (f g : Files P B) : Prop := ∀ d p, g.pathOf d = some p → f.pathOf d = some p

variable {f g h : Files P B} {d : Nat} {o : Description P}

theorem Keeps.refl (f : Files P B) : f.Keeps f := fun _ _ hp => hp

theorem Keeps.trans (hf : f.Keeps g) (hg : g.Keeps h) : f.Keeps h := fun d p hp => hf d p (hg d p hp)

theorem Describes.keep {path : P} (hd : f.Describes d path) (hk : f.Keeps g) : g.Describes d path :=
  fun p hp => hd p (hk d p hp)

/-- Moving the position keeps what a descriptor is open on. -/
theorem keeps_move (hd : f.opened d = some o) (pos : Nat) (hg : g.opened = Function.update f.opened d
    (some {o with pos := pos})) : f.Keeps g := by
  intro d' p hp
  unfold pathOf at hp ⊢
  rw [hg] at hp
  by_cases hne : d' = d
  · rw [hne, Function.update_self] at hp
    rw [hne, hd]
    exact hp
  · rwa [Function.update_of_ne hne] at hp

theorem seek_keeps (f : Files P B) (d : Nat) (offset : Int) (outcome : Bool) :
    f.Keeps (f.seek d offset outcome) := by
  unfold seek
  split
  · exact .refl f
  · rename_i o ho
    split
    · exact keeps_move ho _ rfl
    · exact .refl f

theorem read_keeps (f : Files P B) (d n : Nat) (outcome : Option Nat) :
    f.Keeps (f.read d n outcome).2 := by
  unfold read
  split
  · rename_i o k ho
    split
    · exact .refl f
    · exact keeps_move ho _ rfl
  · exact .refl f

theorem write_keeps [DecidableEq P] (hole : B) (f : Files P B) (d : Nat) (bytes : List B)
    (outcome : Option Nat) : f.Keeps (f.write hole d bytes outcome).2 := by
  unfold write
  split
  · rename_i o k ho
    split
    · exact .refl f
    · exact keeps_move ho _ rfl
  · exact .refl f

theorem close_keeps (f : Files P B) (d : Nat) : f.Keeps (f.close d) := by
  intro d' p hp
  by_cases hne : d' = d
  · simp [pathOf, close, hne] at hp
  · simpa [pathOf, close, hne] using hp

/-- What is open stays open under what a descriptor is used for. -/
theorem move_isSome (hd : f.opened d = some o) (o' : Description P) (k : Nat) :
    (Function.update f.opened d (some o') k).isSome = (f.opened k).isSome := by
  by_cases hk : k = d
  · rw [hk, Function.update_self, hd]
    rfl
  · rw [Function.update_of_ne hk]

theorem seek_isSome (f : Files P B) (d : Nat) (offset : Int) (outcome : Bool) (k : Nat) :
    ((f.seek d offset outcome).opened k).isSome = (f.opened k).isSome := by
  unfold seek
  split
  · rfl
  · split
    · exact move_isSome ‹_› _ k
    · rfl

theorem read_isSome (f : Files P B) (d n : Nat) (outcome : Option Nat) (k : Nat) :
    ((f.read d n outcome).2.opened k).isSome = (f.opened k).isSome := by
  unfold read
  split
  · split
    · rfl
    · exact move_isSome ‹_› _ k
  · rfl

theorem write_isSome [DecidableEq P] (hole : B) (f : Files P B) (d : Nat) (bytes : List B) (outcome : Option Nat)
    (k : Nat) : ((f.write hole d bytes outcome).2.opened k).isSome = (f.opened k).isSome := by
  unfold write
  split
  · split
    · rfl
    · exact move_isSome ‹_› _ k
  · rfl

/-- A file is opened under the number the system gives out, which was free; everything
else stays as it was. -/
theorem openFile_cases [DecidableEq P] (f : Files P B) (path : P) (create : Bool) (outcome : Option Nat) :
    f.openFile path create outcome = (none, f) ∨
      ∃ d g, outcome = some d ∧ f.openFile path create outcome = (some d, g) ∧ g.pathOf d = some path ∧
        ∀ d', d' ≠ d → g.pathOf d' = f.pathOf d' := by
  unfold openFile
  split
  · exact Or.inl rfl
  · rename_i d
    split
    · exact Or.inl rfl
    · refine Or.inr ⟨d, _, rfl, rfl, ?_, ?_⟩
      · simp [pathOf]
      · intro d' hne
        simp [pathOf, Function.update_of_ne hne]

/-- A file that is there is opened at its beginning. -/
theorem openFile_existing [DecidableEq P] {path : P} {bytes : List B} (hbytes : f.content path = some bytes)
    (hd : f.opened d = none) (create : Bool) :
    f.openFile path create (some d) =
      (some d, {f with opened := Function.update f.opened d (some {path := path, pos := 0})}) := by
  simp [openFile, hbytes, hd]

theorem seek_open (hd : f.opened d = some o) {offset : Int} (hoffset : 0 ≤ offset) :
    f.seek d offset true = {f with opened := Function.update f.opened d (some {o with pos := offset.toNat})} := by
  simp [seek, hd, hoffset]

/-- From the beginning a seek goes to its offset, and nowhere where it fails or that is negative. -/
theorem seek_start {path : P} (hd : f.opened d = some {path := path, pos := 0}) (offset : Int) (outcome : Bool) :
    (f.seek d offset outcome).opened =
        Function.update f.opened d (some {path := path, pos := if outcome then offset.toNat else 0}) ∧
      (f.seek d offset outcome).content = f.content := by
  by_cases hmoves : outcome = true ∧ 0 ≤ offset
  · rw [hmoves.1, seek_open hd hmoves.2]
    exact ⟨rfl, rfl⟩
  · have hkept : f.seek d offset outcome = f := by simp [seek, hd, hmoves]
    have hpos : (if outcome then offset.toNat else 0) = 0 := by
      split
      · rename_i houtcome
        exact Int.toNat_of_nonpos (by simp only [houtcome, true_and] at hmoves; omega)
      · rfl
    rw [hkept, hpos, ← hd, Function.update_eq_self]
    exact ⟨rfl, rfl⟩

/-- A read that succeeds brings a piece of what is left, and stands behind it. -/
theorem read_piece {bytes : List B} (hd : f.opened d = some o) (hbytes : f.content o.path = some bytes) (n k : Nat) :
    f.read d n (some k) = (some ((bytes.drop o.pos).take (min n (max 1 k))), {f with
      opened := Function.update f.opened d
        (some {o with pos := o.pos + ((bytes.drop o.pos).take (min n (max 1 k))).length}) }) := by
  simp only [read, hd, hbytes]

/-- A read that succeeds brings the next bytes of the file, and none only at its end. -/
theorem read_open {bytes : List B} (hd : f.opened d = some o) (hbytes : f.content o.path = some bytes) {n : Nat}
    (hn : 0 < n) (k : Nat) :
    ∃ got pos, f.read d n (some k) =
        (some got, {f with opened := Function.update f.opened d (some {o with pos := pos})}) ∧
      bytes.drop o.pos = got ++ bytes.drop pos ∧ (got = [] → bytes.drop o.pos = []) := by
  refine ⟨_, _, read_piece hd hbytes n k, ?_, ?_⟩
  · rw [← List.drop_drop]
    have hfront := List.take_prefix (min n (max 1 k)) (bytes.drop o.pos)
    exact (List.prefix_iff_eq_append.mp hfront).symm
  · intro hgot
    rcases List.take_eq_nil_iff.mp hgot with hzero | hnil
    · omega
    · exact hnil

/-- After an open that succeeds the path is open from its beginning on, under a number that was
free, with what was there or nothing. -/
theorem openFile_opens [DecidableEq P] {path : P} {create : Bool} {outcome : Option Nat}
    (h : f.openFile path create outcome = (some d, g)) :
    g.opened = Function.update f.opened d (some {path := path, pos := 0}) ∧
      g.content = Function.update f.content path (some ((f.content path).getD [])) := by
  unfold openFile at h
  cases outcome with
  | none => exact nomatch h
  | some n =>
    dsimp only at h
    split at h
    · exact nomatch h
    · cases h
      refine ⟨rfl, ?_⟩
      cases hbytes : f.content path with
      | none => rfl
      | some bytes => exact (hbytes ▸ Function.update_eq_self path f.content).symm

theorem openFile_free [DecidableEq P] {path : P} {create : Bool} {outcome : Option Nat}
    (h : f.openFile path create outcome = (some d, g)) : f.opened d = none := by
  unfold openFile at h
  cases outcome with
  | none => exact nomatch h
  | some n =>
    dsimp only at h
    split at h
    · exact nomatch h
    · rename_i htaken
      cases h
      rw [Bool.or_eq_true, not_or, Option.not_isSome_iff_eq_none] at htaken
      exact htaken.1

/-- An open succeeds for a free number and a path that is there or is created. -/
theorem openFile_succeeds [DecidableEq P] (f : Files P B) (path : P) (create : Bool) (outcome : Option Nat) (d : Nat) :
    (f.openFile path create outcome).1 = some d ↔
      outcome = some d ∧ f.opened d = none ∧ (create = true ∨ (f.content path).isSome = true) := by
  unfold openFile
  cases outcome with
  | none => simp
  | some n =>
    dsimp only
    split
    · rename_i htaken
      rw [Bool.or_eq_true, Bool.and_eq_true] at htaken
      apply iff_of_false (fun h => nomatch h)
      intro h
      obtain ⟨hn, hfree, hthere⟩ := h
      injection hn with hn
      rw [hn, hfree] at htaken
      rcases htaken with hopen | ⟨hnone, hcreate⟩
      · exact nomatch hopen
      · rcases hthere with hthere | hthere
        · rw [hthere] at hcreate
          exact nomatch hcreate
        · rw [Option.isNone_iff_eq_none] at hnone
          rw [hnone] at hthere
          exact nomatch hthere
    · rename_i hfree
      rw [Bool.or_eq_true, Bool.and_eq_true, not_or, Option.not_isSome_iff_eq_none] at hfree
      obtain ⟨hclosed, hthere⟩ := hfree
      rw [Option.some.injEq]
      refine ⟨fun h => ⟨h, h ▸ hclosed, ?_⟩, fun h => h.1⟩
      cases create with
      | true => exact Or.inl rfl
      | false =>
        cases hcontent : f.content path with
        | none => exact absurd ⟨by rw [hcontent]; rfl, rfl⟩ hthere
        | some bytes => exact Or.inr rfl

theorem openFile_fails [DecidableEq P] {path : P} {create : Bool} {outcome : Option Nat}
    (h : f.openFile path create outcome = (none, g)) : g = f := by
  unfold openFile at h
  cases outcome with
  | none => exact (Prod.mk.inj h).2.symm
  | some n =>
    dsimp only at h
    split at h
    · exact (Prod.mk.inj h).2.symm
    · exact nomatch h

/-- A write that is open on bytes takes the first of those it is given. -/
theorem write_open [DecidableEq P] (hole : B) {old : List B} (hd : f.opened d = some o)
    (hold : f.content o.path = some old) (bytes : List B) (k : Nat) :
    f.write hole d bytes (some k) = (some (bytes.take k).length,
      { content := Function.update f.content o.path (some (splice hole old o.pos (bytes.take k)))
        opened := Function.update f.opened d (some {o with pos := o.pos + (bytes.take k).length}) }) := by
  simp only [write, hd, hold]

@[simp] theorem write_failed [DecidableEq P] (hole : B) (f : Files P B) (d : Nat) (bytes : List B) :
    f.write hole d bytes none = (none, f) := by
  unfold write
  split
  · rename_i h
    exact nomatch h
  · rfl

@[simp] theorem read_failed (f : Files P B) (d n : Nat) : f.read d n none = (none, f) := by
  unfold read
  split
  · rename_i h
    exact nomatch h
  · rfl

/-- Nothing can be written through the descriptor. -/
def Shut (f : Files P B) (d : Nat) : Prop := ∀ o, f.opened d = some o → f.content o.path = none

theorem write_shut [DecidableEq P] (hole : B) (h : f.Shut d) (bytes : List B) (outcome : Option Nat) :
    f.write hole d bytes outcome = (none, f) := by
  unfold write
  split
  · rename_i o k ho
    rw [h o ho]
  · rfl

/-- What one descriptor does leaves the others as they are. -/
theorem write_spares [DecidableEq P] (hole : B) (f : Files P B) {k : Nat} (hk : k ≠ d) (bytes : List B)
    (outcome : Option Nat) : (f.write hole d bytes outcome).2.opened k = f.opened k := by
  unfold write
  split
  · split
    · rfl
    · exact Function.update_of_ne hk ..
  · rfl

theorem close_spares (f : Files P B) {k : Nat} (hk : k ≠ d) : (f.close d).opened k = f.opened k :=
  Function.update_of_ne hk ..

theorem close_closed (f : Files P B) (d : Nat) : (f.close d).opened d = none := Function.update_self ..

theorem close_shut (f : Files P B) (d : Nat) : (f.close d).Shut d := fun o ho => by simp [close] at ho

theorem splice_cons (hole : B) (old : List B) (pos : Nat) {bytes : List B} (h : bytes ≠ []) :
    splice hole old pos bytes =
      old.take pos ++ List.replicate (pos - old.length) hole ++ bytes ++ old.drop (pos + bytes.length) := by
  cases bytes with
  | nil => exact absurd rfl h
  | cons b bytes => rfl

/-- From the beginning of a file on, what is longer than the new bytes stays. -/
theorem splice_zero (hole : B) (old bytes : List B) : splice hole old 0 bytes = bytes ++ old.drop bytes.length := by
  cases bytes with
  | nil => rfl
  | cons b bytes => simp [splice]

theorem splice_zero_iff (hole : B) (old bytes : List B) :
    splice hole old 0 bytes = bytes ↔ old.length ≤ bytes.length := by
  rw [splice_zero]
  simp

/-- From the position on, the bytes put and what was there behind them. -/
theorem drop_splice (hole : B) (old : List B) (pos : Nat) (bytes : List B) :
    (splice hole old pos bytes).drop pos = bytes ++ old.drop (pos + bytes.length) := by
  by_cases hnil : bytes = []
  · subst hnil
    rfl
  · have hfront : (old.take pos ++ List.replicate (pos - old.length) hole).length = pos := by
      rw [List.length_append, List.length_take, List.length_replicate]
      omega
    rw [splice_cons hole old pos hnil, List.append_assoc, List.drop_left' hfront]

/-- Bytes put over others make nothing shorter. -/
theorem length_splice (hole : B) (old : List B) (pos : Nat) (bytes : List B) :
    old.length ≤ (splice hole old pos bytes).length := by
  by_cases hnil : bytes = []
  · subst hnil
    exact Nat.le_refl _
  · rw [splice_cons hole old pos hnil]
    simp only [List.length_append, List.length_take, List.length_replicate, List.length_drop]
    omega

/-- Bytes put right behind those put before. -/
theorem splice_splice (hole : B) (old : List B) (pos : Nat) (put bytes : List B) :
    splice hole (splice hole old pos put) (pos + put.length) bytes = splice hole old pos (put ++ bytes) := by
  by_cases hput : put = []
  · subst hput
    rfl
  by_cases hbytes : bytes = []
  · subst hbytes
    rw [List.append_nil]
    rfl
  have hboth : put ++ bytes ≠ [] := fun h => hput (List.append_eq_nil_iff.mp h).1
  generalize hfront : old.take pos ++ List.replicate (pos - old.length) hole ++ put = front
  have hlength : front.length = pos + put.length := by
    rw [← hfront, List.length_append, List.length_append, List.length_take, List.length_replicate]
    omega
  have hnow : splice hole old pos put = front ++ old.drop (pos + put.length) := by
    rw [splice_cons hole old pos hput, hfront]
  have hpadded : pos + put.length - (front ++ old.drop (pos + put.length)).length = 0 := by
    rw [List.length_append]
    omega
  rw [hnow, splice_cons hole _ _ hbytes, splice_cons hole old pos hboth, List.take_left' hlength, hpadded, ← hlength,
    ← List.drop_drop, List.drop_left, List.drop_drop, hlength, List.replicate_zero, List.append_nil, ← List.append_assoc,
    hfront, List.length_append, Nat.add_assoc]

/-- The descriptor has put bytes into the file from `start` on, over the old ones, and stands
behind them; the other files are as they were. -/
structure Puts [DecidableEq P] (hole : B) (f : Files P B) (d : Nat) (path : P) (start : Nat)
    (base : P → Option (List B)) (old put : List B) : Prop where
  opened : f.opened d = some {path := path, pos := start + put.length}
  content : f.content = Function.update base path (some (splice hole old start put))

/-- A write, whatever comes of it, puts what it takes behind what is there. -/
theorem write_puts [DecidableEq P] (hole : B) {path : P} {start : Nat} {base : P → Option (List B)} {old put : List B}
    (h : Puts hole f d path start base old put) (bytes : List B) (outcome : Option Nat) :
    (f.write hole d bytes outcome).1 = outcome.map (fun k => (bytes.take k).length) ∧
      Puts hole (f.write hole d bytes outcome).2 d path start base old (put ++ bytes.take (outcome.getD 0)) := by
  cases outcome with
  | none =>
    rw [write_failed]
    refine ⟨rfl, ?_⟩
    rw [Option.getD_none, List.take_zero, List.append_nil]
    exact h
  | some k =>
    have hbytes : f.content path = some (splice hole old start put) := by rw [h.content, Function.update_self]
    rw [write_open hole h.opened hbytes]
    refine ⟨rfl, ?_, ?_⟩
    · rw [Option.getD_some, List.length_append, ← Nat.add_assoc]
      exact Function.update_self ..
    · rw [Option.getD_some, ← splice_splice, h.content]
      exact Function.update_idem ..

/-! ### Contents -/

@[simp] theorem seek_content (f : Files P B) (d : Nat) (offset : Int) (outcome : Bool) :
    (f.seek d offset outcome).content = f.content := by
  unfold seek
  split
  · rfl
  · split <;> rfl

@[simp] theorem read_content (f : Files P B) (d n : Nat) (outcome : Option Nat) :
    (f.read d n outcome).2.content = f.content := by
  unfold read
  split
  · split <;> rfl
  · rfl

@[simp] theorem close_content (f : Files P B) (d : Nat) : (f.close d).content = f.content := rfl

/-- An open creates an empty file at most. -/
theorem openFile_content [DecidableEq P] (f : Files P B) (path : P) (create : Bool) (outcome : Option Nat) :
    (f.openFile path create outcome).2.content = f.content ∨
      create = true ∧ f.content path = none ∧
        (f.openFile path create outcome).2.content = Function.update f.content path (some []) := by
  unfold openFile
  split
  · exact Or.inl rfl
  · split
    · exact Or.inl rfl
    · rename_i hopens
      rw [Bool.or_eq_true, not_or, Bool.and_eq_true] at hopens
      cases hcontent : f.content path with
      | some old => exact Or.inl rfl
      | none =>
        refine Or.inr ⟨?_, rfl, rfl⟩
        rw [hcontent] at hopens
        simpa using hopens.2

/-- A write changes the file its descriptor is open on. -/
theorem write_content [DecidableEq P] (hole : B) (f : Files P B) (d : Nat) (bytes : List B) (outcome : Option Nat) :
    (f.write hole d bytes outcome).2.content = f.content ∨
      ∃ o old k, f.opened d = some o ∧ f.content o.path = some old ∧ outcome = some k ∧
        (f.write hole d bytes outcome).2.content =
          Function.update f.content o.path (some (splice hole old o.pos (bytes.take k))) := by
  unfold write
  split
  · rename_i o k ho
    split
    · exact Or.inl rfl
    · rename_i old hold
      exact Or.inr ⟨o, old, k, ho, hold, rfl, rfl⟩
  · exact Or.inl rfl

/-- What is open afterwards was open before on the same path, or was not open. -/
def Adds (f g : Files P B) : Prop := ∀ d p, g.pathOf d = some p → f.opened d = none ∨ f.pathOf d = some p

theorem Keeps.adds (h : f.Keeps g) : f.Adds g := fun d p hp => Or.inr (h d p hp)

theorem Adds.keep (hf : f.Adds g) (hg : g.Keeps h) : f.Adds h := fun d p hp => hf d p (hg d p hp)

theorem openFile_adds [DecidableEq P] (f : Files P B) (path : P) (create : Bool) (outcome : Option Nat) :
    f.Adds (f.openFile path create outcome).2 := by
  rcases openFile_cases f path create outcome with hsame | ⟨d, g, _, hopens, _, hother⟩
  · rw [hsame]
    exact (Keeps.refl f).adds
  · intro d' p hp
    rw [hopens] at hp
    by_cases hd : d' = d
    · exact Or.inl (hd ▸ openFile_free hopens)
    · exact Or.inr ((hother d' hd).symm.trans hp)

/-! ### Files that look alike from a few places -/

/-- The same at some paths and some descriptors, and in what is open under these. -/
structure Alike (ps : List P) (ds : List Nat) (f g : Files P B) : Prop where
  opened : ∀ d ∈ ds, g.opened d = f.opened d
  content : ∀ p, (p ∈ ps ∨ ∃ d ∈ ds, f.pathOf d = some p) → g.content p = f.content p

/-- What there is at some paths and some descriptors, and in what is open under these. -/
def around [DecidableEq P] (ps : List P) (ds : List Nat) (f : Files P B) : Files P B where
  content p := if p ∈ ps ∨ p ∈ ds.filterMap f.pathOf then f.content p else none
  opened d := if d ∈ ds then f.opened d else none

theorem around_alike [DecidableEq P] (ps : List P) (ds : List Nat) (f : Files P B) : f.Alike ps ds (f.around ps ds) :=
  ⟨fun _ hd => if_pos hd, fun _ hp => if_pos (hp.imp_right List.mem_filterMap.mpr)⟩

section
variable {ps : List P} {ds : List Nat}

/-- What is open under the descriptor changes in the same way, and stays among the paths. -/
theorem Alike.reopen {f' g' : Files P B} (h : f.Alike ps ds g) {x : Option (Description P)}
    (hx : ∀ o, x = some o → o.path ∈ ps ∨ f.pathOf d = some o.path) (hd : d ∈ ds)
    (hf : f'.opened = Function.update f.opened d x) (hg : g'.opened = Function.update g.opened d x)
    (hcontent : ∀ p, (p ∈ ps ∨ ∃ k ∈ ds, f.pathOf k = some p) → g'.content p = f'.content p) : f'.Alike ps ds g' := by
  refine ⟨fun k hk => ?_, fun p hp => hcontent p ?_⟩
  · rw [hf, hg]
    by_cases hkd : k = d
    · rw [hkd, Function.update_self, Function.update_self]
    · rw [Function.update_of_ne hkd, Function.update_of_ne hkd, h.opened k hk]
  · rcases hp with hp | ⟨k, hk, hpath⟩
    · exact Or.inl hp
    · unfold pathOf at hpath
      rw [hf] at hpath
      by_cases hkd : k = d
      · rw [hkd, Function.update_self, Option.map_eq_some_iff] at hpath
        obtain ⟨o, ho, rfl⟩ := hpath
        exact (hx o ho).imp_right fun hopen => ⟨d, hd, hopen⟩
      · rw [Function.update_of_ne hkd] at hpath
        exact Or.inr ⟨k, hk, hpath⟩

theorem openFile_alike [DecidableEq P] (h : f.Alike ps ds g) {path : P} (hpath : path ∈ ps) (create : Bool)
    {outcome : Option Nat} (hd : ∀ d, outcome = some d → d ∈ ds) :
    (g.openFile path create outcome).1 = (f.openFile path create outcome).1 ∧
      (f.openFile path create outcome).2.Alike ps ds (g.openFile path create outcome).2 := by
  have hsame := h.content path (Or.inl hpath)
  cases outcome with
  | none => exact ⟨rfl, h⟩
  | some d =>
    have hmem := hd d rfl
    unfold openFile
    dsimp only
    rw [h.opened d hmem, hsame]
    by_cases hfails : ((f.opened d).isSome || ((f.content path).isNone && !create)) = true
    · rw [if_pos hfails, if_pos hfails]
      exact ⟨rfl, h⟩
    · rw [if_neg hfails, if_neg hfails]
      refine ⟨rfl, h.reopen (d := d) (x := some ⟨path, 0⟩) ?_ hmem rfl rfl fun p hp => ?_⟩
      · intro o ho
        cases ho
        exact Or.inl hpath
      · dsimp only
        split
        · by_cases hne : p = path
          · rw [hne, Function.update_self, Function.update_self]
          · rw [Function.update_of_ne hne, Function.update_of_ne hne]
            exact h.content p hp
        · exact h.content p hp

theorem seek_alike (h : f.Alike ps ds g) (hd : d ∈ ds) (offset : Int) (outcome : Bool) :
    (f.seek d offset outcome).Alike ps ds (g.seek d offset outcome) := by
  unfold seek
  rw [h.opened d hd]
  cases ho : f.opened d with
  | none => exact h
  | some o =>
    dsimp only
    split
    · refine h.reopen (x := some {o with pos := offset.toNat}) (fun o' ho' => ?_) hd rfl rfl h.content
      cases ho'
      exact Or.inr (congrArg (Option.map Description.path) ho)
    · exact h

theorem read_alike (h : f.Alike ps ds g) (hd : d ∈ ds) (n : Nat) (outcome : Option Nat) :
    (g.read d n outcome).1 = (f.read d n outcome).1 ∧
      (f.read d n outcome).2.Alike ps ds (g.read d n outcome).2 := by
  unfold read
  rw [h.opened d hd]
  cases ho : f.opened d with
  | none => exact ⟨rfl, h⟩
  | some o =>
    cases outcome with
    | none => exact ⟨rfl, h⟩
    | some k =>
      have hpath : f.pathOf d = some o.path := congrArg (Option.map Description.path) ho
      dsimp only
      rw [h.content o.path (Or.inr ⟨d, hd, hpath⟩)]
      cases f.content o.path with
      | none => exact ⟨rfl, h⟩
      | some bytes =>
        refine ⟨rfl, h.reopen (x := some _) (fun o' ho' => ?_) hd rfl rfl h.content⟩
        cases ho'
        exact Or.inr hpath

theorem write_alike [DecidableEq P] (hole : B) (h : f.Alike ps ds g) (hd : d ∈ ds) (bytes : List B)
    (outcome : Option Nat) :
    (g.write hole d bytes outcome).1 = (f.write hole d bytes outcome).1 ∧
      (f.write hole d bytes outcome).2.Alike ps ds (g.write hole d bytes outcome).2 := by
  unfold write
  rw [h.opened d hd]
  cases ho : f.opened d with
  | none => exact ⟨rfl, h⟩
  | some o =>
    cases outcome with
    | none => exact ⟨rfl, h⟩
    | some k =>
      have hpath : f.pathOf d = some o.path := congrArg (Option.map Description.path) ho
      dsimp only
      rw [h.content o.path (Or.inr ⟨d, hd, hpath⟩)]
      cases f.content o.path with
      | none => exact ⟨rfl, h⟩
      | some old =>
        refine ⟨rfl, h.reopen (x := some _) (fun o' ho' => ?_) hd rfl rfl fun p hp => ?_⟩
        · cases ho'
          exact Or.inr hpath
        · dsimp only
          by_cases hne : p = o.path
          · rw [hne, Function.update_self, Function.update_self]
          · rw [Function.update_of_ne hne, Function.update_of_ne hne]
            exact h.content p hp

theorem close_alike (h : f.Alike ps ds g) (hd : d ∈ ds) : (f.close d).Alike ps ds (g.close d) :=
  h.reopen (x := none) (fun _ ho => nomatch ho) hd rfl rfl h.content

end

end Files
end HyperTransfer
