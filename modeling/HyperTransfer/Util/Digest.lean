import HyperTransfer.Common
import HyperTransfer.Lib.Files
import HyperTransfer.Lib.Loops
import HyperTransfer.Lib.Machine
import HyperTransfer.Lib.Pieces

/-! The digest of a part of a file.

`get_md5sum` reads blocks until it has as many bytes as it is asked for, and feeds each to the
hash as it comes. It never asks for less than a block, so the last one can bring more than is
missing; at the end of the file nothing comes and it goes on; a read that fails counts as one
byte less and as many bytes to be fed as there can be. What it feeds is what is asked for
exactly where the reads happen to bring that (`digests_iff`). -/
namespace HyperTransfer
open CString Pieces

abbrev readBlock : Nat := 1024
abbrev md5sumCharlen : Nat := 34

theorem readBlock_gt_one : 1 < readBlock := by decide

namespace Util

/-- MD5, as a function of the bytes fed. -/
abbrev Md5 := List Char → Fin 16 → Fin 256

/-- The files, how many reads there have been, and the buffer. -/
structure Reading where
  files : Files (List Char) Char
  calls : Nat
  buf : List Char

/-- `read(fd, buf, READ_BLOCK)`, where `reads` is what becomes of one call after another. -/
def Reading.read (reads : Nat → Option Nat) (fd : Option Nat) (r : Reading) : Int × Reading :=
  let (got, files) :=
    match fd with
    | none => (none, r.files)
    | some d => r.files.read d readBlock (reads r.calls)
  match got with
  | none => (-1, {r with files := files, calls := r.calls + 1})
  | some bytes =>
    (bytes.length, {files := files, calls := r.calls + 1, buf := bytes ++ r.buf.drop bytes.length})

/-- `MD5_Update(&ctx, buf, size)`. A size of -1 is more than any array has. -/
def md5Update (ctx buf : List Char) (size : Int) : Except Fault (List Char) :=
  if 0 ≤ size ∧ size ≤ readBlock then .ok (ctx ++ buf.take size.toNat) else .error .overrun

structure Digesting where
  reading : Reading
  total : Int := 0
  ctx : List Char := []

/-- The loop of `get_md5sum`. -/
def md5Loop (reads : Nat → Option Nat) (fd : Option Nat) (fileSize : Int) : Routine Digesting Fault where
  step s := do
    let (size, reading) := s.reading.read reads fd
    let ctx ← md5Update s.ctx reading.buf size
    return {reading := reading, total := s.total + size, ctx := ctx}
  done s := ¬ s.total < fileSize

/-- `sprintf(tmp, "%02X", md[i])`. -/
def sprintfX (b : Fin 256) : List Char := [(b.val / 16).digitChar.toUpper, (b.val % 16).digitChar.toUpper]

/-- The digits are put together in `result`. -/
def md5Result (md : Fin 16 → Fin 256) : Except Fault (List Char) :=
  (List.finRange 16).foldlM (fun result i => strncat md5sumCharlen result (sprintfX (md i)) 3) []

/-- The text in `result`, and what is left of the file. -/
def getMd5sum (md5 : Md5) (reads : Nat → Option Nat) (fuel : Nat) (fd : Option Nat) (fileSize : Int) (r : Reading) :
    Except (Option Fault) (List Char × Reading) := do
  let s ← (md5Loop reads fd fileSize).run fuel {reading := r}
  let result ← (md5Result (md5 s.ctx)).mapError some
  return (result, s.reading)

/-! ### The text -/

/-- The digits of a digest. -/
def md5Text (md : Fin 16 → Fin 256) : List Char := (List.finRange 16).flatMap fun i => sprintfX (md i)

theorem sprintfX_length (b : Fin 256) : (sprintfX b).length = 2 := rfl

theorem md5Text_length (md : Fin 16 → Fin 256) : (md5Text md).length = 32 := by
  simp [md5Text, List.length_flatMap, sprintfX_length]

theorem foldlM_sprintfX (md : Fin 16 → Fin 256) (l : List (Fin 16)) {result : List Char}
    (hfits : result.length + 2 * l.length < md5sumCharlen) :
    l.foldlM (fun result i => strncat md5sumCharlen result (sprintfX (md i)) 3) result =
      .ok (result ++ l.flatMap fun i => sprintfX (md i)) := by
  induction l generalizing result with
  | nil =>
    rw [List.foldlM_nil, List.flatMap_nil, List.append_nil]
    rfl
  | cons i rest ih =>
    rw [List.length_cons] at hfits
    have hlength : (result ++ sprintfX (md i)).length = result.length + 2 := List.length_append
    have hadds : strncat md5sumCharlen result (sprintfX (md i)) 3 = .ok (result ++ sprintfX (md i)) := by
      rw [strncat, List.take_of_length_le (by rw [sprintfX_length]; omega), cstr_of_lt (by omega)]
    rw [List.foldlM_cons, hadds, List.flatMap_cons, ← List.append_assoc]
    exact ih (by omega)

theorem md5Result_eq (md : Fin 16 → Fin 256) : md5Result md = .ok (md5Text md) := by
  have hall : ([] : List Char).length + 2 * (List.finRange 16).length < md5sumCharlen := by
    rw [List.length_finRange]
    decide
  exact foldlM_sprintfX md (List.finRange 16) hall

theorem getMd5sum_eq_ok {md5 : Md5} {reads : Nat → Option Nat} {fuel : Nat} {fd : Option Nat} {n : Int}
    {r r' : Reading} {text : List Char} : getMd5sum md5 reads fuel fd n r = .ok (text, r') ↔
      ∃ s, (md5Loop reads fd n).run fuel {reading := r} = .ok s ∧ text = md5Text (md5 s.ctx) ∧
        r' = s.reading := by
  unfold getMd5sum
  rw [bind_eq_ok]
  constructor
  · intro h
    obtain ⟨s, hs, h⟩ := h
    rw [md5Result_eq] at h
    cases h
    exact ⟨s, hs, rfl, rfl⟩
  · intro h
    obtain ⟨s, hs, rfl, rfl⟩ := h
    refine ⟨s, hs, ?_⟩
    rw [md5Result_eq]
    rfl

/-! ### Reads -/

/-- The descriptor is open on the file, behind so many bytes and reads. -/
structure Reading.At (r : Reading) (d : Nat) (path bytes : List Char) (calls pos : Nat) : Prop where
  opened : r.files.opened d = some {path := path, pos := pos}
  content : r.files.content path = some bytes
  calls : r.calls = calls

/-- What a digest of `k` reads has come to. -/
structure Digesting.After (reads : Nat → Option Nat) (d : Nat) (path bytes : List Char) (calls pos k : Nat)
    (s : Digesting) : Prop where
  reading : s.reading.At d path bytes (calls + k) (pos + pulled readBlock reads calls (bytes.length - pos) k)
  total : s.total = pulled readBlock reads calls (bytes.length - pos) k
  ctx : s.ctx = (bytes.drop pos).take (pulled readBlock reads calls (bytes.length - pos) k)

section
variable {reads : Nat → Option Nat} {d : Nat} {path bytes : List Char} {calls pos k : Nat} {r : Reading}
  {s : Digesting} {n : Int}

/-- A round feeds what its read says there is in the buffer. -/
theorem step_reads {fd : Option Nat} {size : Int} {r' : Reading} (hread : s.reading.read reads fd = (size, r')) :
    (md5Loop reads fd n).step s =
      (md5Update s.ctx r'.buf size).map fun ctx => {reading := r', total := s.total + size, ctx := ctx} := by
  simp only [md5Loop, hread]
  rfl

/-- A read that fails makes the round overrun the buffer. -/
theorem step_fails {fd : Option Nat} (hfails : fd = none ∨ reads s.reading.calls = none) :
    (md5Loop reads fd n).step s = .error .overrun := by
  have hread : ∃ r', s.reading.read reads fd = (-1, r') := by
    unfold Reading.read
    rcases hfails with hfd | hreads
    · rw [hfd]
      exact ⟨_, rfl⟩
    · cases fd with
      | none => exact ⟨_, rfl⟩
      | some d =>
        dsimp only
        rw [hreads, Files.read_failed]
        exact ⟨_, rfl⟩
  obtain ⟨r', hread⟩ := hread
  rw [step_reads hread]
  rfl

/-- A read brings the next piece, in the buffer. -/
theorem read_some (hr : r.At d path bytes calls pos) (hreads : (reads calls).isSome) :
    ∃ got r', r.read reads (some d) = ((got.length : Int), r') ∧
      got = (bytes.drop pos).take (piece readBlock (reads calls)) ∧ r'.buf.take got.length = got ∧
      r'.At d path bytes (calls + 1) (pos + got.length) := by
  obtain ⟨k, hk⟩ := Option.isSome_iff_exists.mp hreads
  have hpiece : piece readBlock (reads calls) = min readBlock (max 1 k) := by rw [hk, piece, Option.getD_some]
  have hread := Files.read_piece hr.opened hr.content readBlock k
  rw [← hpiece] at hread
  generalize (bytes.drop pos).take (piece readBlock (reads calls)) = got at hread ⊢
  have hbrings : r.read reads (some d) = ((got.length : Int),
      { files := {r.files with
          opened := Function.update r.files.opened d (some {path := path, pos := pos + got.length}) }
        calls := calls + 1
        buf := got ++ r.buf.drop got.length }) := by
    unfold Reading.read
    dsimp only
    rw [hr.calls, hk, hread]
  refine ⟨got, _, hbrings, rfl, List.take_left, ?_⟩
  exact ⟨Function.update_self .., hr.content, rfl⟩

/-- A round feeds the piece that its read brings. -/
theorem step_feeds (hs : s.After reads d path bytes calls pos k) (hreads : (reads (calls + k)).isSome) :
    ∃ t, (md5Loop reads (some d) n).step s = .ok t ∧ t.After reads d path bytes calls pos (k + 1) := by
  obtain ⟨got, r', hread, hgot, hbuf, hr'⟩ := read_some hs.reading hreads
  have hsize : got.length ≤ readBlock := by
    rw [hgot]
    exact (List.length_take_le ..).trans (Nat.min_le_left ..)
  have hfeeds : md5Update s.ctx r'.buf got.length = .ok (s.ctx ++ got) := by
    rw [md5Update, if_pos (by omega), Int.toNat_natCast, hbuf]
  have hpulled : pulled readBlock reads calls (bytes.length - pos) (k + 1) =
      pulled readBlock reads calls (bytes.length - pos) k + got.length := by
    rw [pulled_succ, hgot, List.length_take, List.length_drop]
    omega
  have hstep : (md5Loop reads (some d) n).step s =
      .ok {reading := r', total := s.total + got.length, ctx := s.ctx ++ got} := by
    rw [step_reads hread, hfeeds]
    rfl
  refine ⟨_, hstep, ?_, ?_, ?_⟩
  · rw [hpulled, ← Nat.add_assoc, ← Nat.add_assoc]
    exact hr'
  · show s.total + got.length = _
    rw [hpulled, hs.total, Int.natCast_add]
  · show s.ctx ++ got = _
    rw [hpulled, List.take_add, List.drop_drop, ← hs.ctx, hgot]
    exact congrArg _ (List.prefix_iff_eq_take.mp (List.take_prefix ..))

/-- The rounds of the loop: over with enough bytes, and each as good as its read. -/
theorem md5Loop_counts : (md5Loop reads (some d) n).Counts (fun k s => s.After reads d path bytes calls pos k)
    (fun k => n ≤ pulled readBlock reads calls (bytes.length - pos) k) (fun k => (reads (calls + k)).isSome) where
  ended hs := by
    show decide _ = true ↔ _
    rw [decide_eq_true_iff, hs.total, Int.not_lt]
  goes hs _ hreads := step_feeds hs hreads
  faults hs _ hfails := by
    refine ⟨.overrun, step_fails (Or.inr ?_)⟩
    rw [hs.reading.calls]
    exact Option.not_isSome_iff_eq_none.mp hfails

/-- Before the first read. -/
theorem after_start (hr : r.At d path bytes calls pos) :
    Digesting.After reads d path bytes calls pos 0 {reading := r} where
  reading := by
    rw [pulled_zero]
    exact hr
  total := by
    rw [pulled_zero]
    rfl
  ctx := by
    rw [pulled_zero, List.take_zero]

/-- The rounds that are not over and go on, up to one that is over. -/
theorem rounds_enough :
    ((∀ j, 0 ≤ j → j < k → ¬ n ≤ pulled readBlock reads calls (bytes.length - pos) j ∧
      (reads (calls + j)).isSome) ∧ n ≤ pulled readBlock reads calls (bytes.length - pos) k) ↔
      Enough readBlock reads calls (bytes.length - pos) n.toNat k := by
  constructor
  · intro h
    refine ⟨fun j hj => (h.1 j (Nat.zero_le j) hj).2, fun j hj => ?_, by omega⟩
    have hshort := (h.1 j (Nat.zero_le j) hj).1
    omega
  · intro h
    have henough := h.enough
    refine ⟨fun j _ hj => ⟨?_, h.given j hj⟩, by omega⟩
    have hshort := h.short j hj
    omega

/-- Where the loop ends, it is with the first read that is enough. -/
theorem md5Loop_enough (hr : r.At d path bytes calls pos) {fuel : Nat}
    (hrun : (md5Loop reads (some d) n).run fuel {reading := r} = .ok s) :
    ∃ k, Enough readBlock reads calls (bytes.length - pos) n.toNat k ∧ s.After reads d path bytes calls pos k := by
  obtain ⟨k, _, hall, hover, hs⟩ := md5Loop_counts.reaches (after_start hr) (Routine.ends_of_run hrun)
  exact ⟨k, rounds_enough.mp ⟨hall, hover⟩, hs⟩

/-- With a read that is enough the loop ends. -/
theorem md5Loop_ends (hr : r.At d path bytes calls pos)
    (hk : Enough readBlock reads calls (bytes.length - pos) n.toNat k) :
    ∃ s fuel, (∀ more, fuel ≤ more → (md5Loop reads (some d) n).run more {reading := r} = .ok s) ∧
      s.After reads d path bytes calls pos k := by
  obtain ⟨hall, hover⟩ := rounds_enough.mpr hk
  obtain ⟨s, hends, hs⟩ := md5Loop_counts.ends (after_start hr) (Nat.zero_le k) hall hover
  obtain ⟨fuel, hrun⟩ := hends.runs
  exact ⟨s, fuel, hrun, hs⟩

/-- The bytes fed are as many as asked for exactly when the reads bring so many. -/
theorem fed_iff (hk : Enough readBlock reads calls (bytes.length - pos) n.toNat k) :
    (bytes.drop pos).take (pulled readBlock reads calls (bytes.length - pos) k) = (bytes.drop pos).take n.toNat ↔
      pulled readBlock reads calls (bytes.length - pos) k = n.toNat := by
  constructor
  · intro hsame
    have hlength := congrArg List.length hsame
    have hle : pulled readBlock reads calls (bytes.length - pos) k ≤ bytes.length - pos := pulled_le
    have henough := hk.enough
    rw [List.length_take, List.length_take, List.length_drop] at hlength
    omega
  · exact fun hexact => by rw [hexact]

end

/-! ### What is fed -/

/-- A descriptor open on a file. -/
structure Source where
  reading : Reading
  fd : Nat
  file : Description (List Char)
  bytes : List Char
  opened : reading.files.opened fd = some file
  content : reading.files.content file.path = some bytes

/-- Behind the position there is so much left. -/
def Source.left (src : Source) : Nat := src.bytes.length - src.file.pos

/-- `get_md5sum` comes back and has fed these bytes to the hash, which is what it digests. -/
def Digests (reads : Nat → Option Nat) (fd : Option Nat) (n : Int) (r : Reading) (fed : List Char) : Prop :=
  ∃ fuel s, (md5Loop reads fd n).run fuel {reading := r} = .ok s ∧ s.ctx = fed ∧
    ∀ md5, getMd5sum md5 reads fuel fd n r = .ok (md5Text (md5 fed), s.reading)

theorem Source.at (src : Source) :
    src.reading.At src.fd src.file.path src.bytes src.reading.calls src.file.pos :=
  ⟨src.opened, src.content, rfl⟩

/-- The next `n` bytes are fed exactly when reads that succeed bring so many. -/
theorem digests_iff (src : Source) (reads : Nat → Option Nat) (n : Int) :
    Digests reads (some src.fd) n src.reading ((src.bytes.drop src.file.pos).take n.toNat) ↔
      LandsOn readBlock reads src.reading.calls src.left n.toNat := by
  rw [landsOn_iff]
  constructor
  · intro h
    obtain ⟨fuel, s, hrun, hfed, _⟩ := h
    obtain ⟨k, hk, hs⟩ := md5Loop_enough src.at hrun
    rw [hs.ctx, fed_iff hk] at hfed
    exact ⟨k, hk, hfed⟩
  · intro h
    obtain ⟨k, hk, hexact⟩ := h
    obtain ⟨s, fuel, hrun, hs⟩ := md5Loop_ends src.at hk
    have hfed : s.ctx = (src.bytes.drop src.file.pos).take n.toNat := by rw [hs.ctx, (fed_iff hk).mpr hexact]
    refine ⟨fuel, s, hrun fuel (Nat.le_refl fuel), hfed, fun md5 => ?_⟩
    rw [← hfed]
    exact getMd5sum_eq_ok.mpr ⟨s, hrun fuel (Nat.le_refl fuel), rfl, rfl⟩

end Util
end HyperTransfer
