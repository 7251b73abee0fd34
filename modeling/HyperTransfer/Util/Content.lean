import HyperTransfer.Util.Signature

/-! What a signature says of the content.

A hash that only tells whether it has been fed more than so many bytes already tells two texts
apart, so a text that is right for every hash has been made of the right parts. A run gives the
text of the content where every part lands (`signature_run_iff`). Two runs that read one byte at
a time, but for one read of two, give different texts where a part ends before the file does; so
every way of reading gives one text only where the file is digested to its end (`same_iff`). -/
namespace HyperTransfer
open CString Pieces

namespace Util

/-- A run comes back with this text. -/
def Signs (md5 : Md5) (c : SignatureCalls) (garbage filePath : List Char) (files : Files (List Char) Char)
    (text : List Char) : Prop :=
  ∃ fuel after, getFileSignature md5 c garbage fuel filePath files = .ok (text, after)

/-- The content of a file, if there is one. -/
def contentOf (files : Files (List Char) Char) (filePath : List Char) : List Char := (files.content filePath).getD []

/-- A regular file that is not empty can be opened, its size fits its array, and the reads bring
each part exactly. -/
def Exact (c : SignatureCalls) (filePath : List Char) (files : Files (List Char) Char) : Prop :=
  ∀ info, c.stat = .ok info → info.regular → info.size = 0 ∨
    info.size < 10 ^ 14 ∧ (files.openFile filePath false c.opens).1.isSome ∧
      LandsAll c.reads (contentOf files filePath).length 0 (parts info.size (contentOf files filePath).length)

/-- Two runs over the file, in which every read brings something as long as there is anything,
come back with one text. -/
def Same (c : SignatureCalls) (filePath : List Char) (files : Files (List Char) Char) : Prop :=
  ∀ md5 reads reads' garbage garbage', Steady reads → Steady reads' →
    ∃ text, Signs md5 {c with reads := reads} garbage filePath files text ∧
      Signs md5 {c with reads := reads'} garbage' filePath files text

/-- A regular file that is not empty can be opened, has at most `SMALL_FILE` bytes, and still as
many as `stat` has said. -/
def Settled (c : SignatureCalls) (filePath : List Char) (files : Files (List Char) Char) : Prop :=
  ∀ info, c.stat = .ok info → info.regular → info.size = 0 ∨
    info.size ≤ smallFile ∧ (files.openFile filePath false c.opens).1.isSome ∧
      (contentOf files filePath).length = info.size

/-- A hash that tells whether it has been fed more than `n` bytes. -/
def threshold (n : Nat) : Md5 := fun fed _ => if fed.length ≤ n then 0 else 1

section
variable {md5 : Md5} {c : SignatureCalls} {reads reads' : Nat → Option Nat} {calls n d : Nat} {size : Nat}
  {path bytes text garbage : List Char} {files g : Files (List Char) Char} {info : StatInfo} {ps : List (Nat × Nat)}
  {fed fed' : List (List Char)}

/-! ### Texts -/

/-- What is left of a digest by such a hash. -/
def thresholdText (short : Bool) : List Char :=
  toLowerString (md5Text (fun _ => if short then 0 else 1) ++ ['_'])

theorem thresholdText_inj {a b : Bool} (h : thresholdText a = thresholdText b) : a = b := by
  revert a b
  decide

/-- Texts that agree have been fed parts that are all on the same side. -/
theorem threshold_sides (hlength : fed.length = fed'.length)
    (h : signatureText (threshold n) size fed = signatureText (threshold n) size fed') :
    fed.map (fun f => decide (f.length ≤ n)) = fed'.map fun f => decide (f.length ≤ n) := by
  have hblocks (fed : List (List Char)) : toLowerString (fed.flatMap (blockText (threshold n))) =
      ((fed.map fun f => decide (f.length ≤ n)).map thresholdText).flatten := by
    rw [toLowerString, List.map_flatMap, List.flatMap_def, List.map_map]
    congr 1
    refine List.map_congr_left fun f _ => ?_
    have hdigest : threshold n f = fun _ => if decide (f.length ≤ n) then 0 else 1 := by
      funext i
      simp only [threshold, decide_eq_true_eq]
    show toLowerString (md5Text (threshold n f) ++ ['_']) = _
    rw [hdigest]
    rfl
  have hwidth (sides : List Bool) : (sides.map thresholdText).map List.length = List.replicate sides.length 33 := by
    rw [List.map_map, List.eq_replicate_iff, List.length_map]
    refine ⟨rfl, fun w hw => ?_⟩
    obtain ⟨side, _, rfl⟩ := List.mem_map.mp hw
    simp [thresholdText, toLowerString, md5Text_length]
  have hsame : toLowerString (fed.flatMap (blockText (threshold n))) =
      toLowerString (fed'.flatMap (blockText (threshold n))) := by
    unfold signatureText toLowerString at h
    simp only [List.map_append] at h
    exact List.append_cancel_right h
  rw [hblocks, hblocks] at hsame
  have hsides := List.eq_iff_flatten_eq.mpr
    ⟨hsame, by rw [hwidth, hwidth, List.length_map, List.length_map, hlength]⟩
  exact List.map_injective_iff.mpr (fun _ _ => thresholdText_inj) hsides

/-! ### One run -/

theorem Fed.length_eq (h : Fed reads bytes calls ps fed) : fed.length = ps.length := by
  induction h with
  | nil => rfl
  | cons _ _ ih => rw [List.length_cons, List.length_cons, ih]

theorem fed_part_length (p : Nat × Nat) (k : Nat) :
    ((bytes.drop p.1).take (pulled readBlock reads calls (bytes.length - p.1) k)).length =
      pulled readBlock reads calls (bytes.length - p.1) k := by
  rw [List.length_take, List.length_drop]
  exact Nat.min_eq_left pulled_le

/-- Where every part lands, the parts are fed. -/
theorem fed_of_lands (h : LandsAll reads bytes.length calls ps) : Fed reads bytes calls ps (ps.map (part bytes)) := by
  induction ps generalizing calls with
  | nil => exact .nil
  | cons p ps ih =>
    obtain ⟨k, hk, hexact, hrest⟩ := h
    rw [List.map_cons, part, ← hexact]
    exact .cons hk (ih hrest)

/-- Where no more is fed than the parts have, every part lands. -/
theorem lands_of_fed (h : Fed reads bytes calls ps fed) (hps : ∀ p ∈ ps, p.2 = n)
    (hfed : ∀ f ∈ fed, f.length ≤ n) : LandsAll reads bytes.length calls ps := by
  induction h with
  | nil => trivial
  | @cons _ k p _ _ hk _ ih =>
    obtain ⟨hp, hps⟩ := List.forall_mem_cons.mp hps
    obtain ⟨hle, hfed⟩ := List.forall_mem_cons.mp hfed
    rw [fed_part_length, ← hp] at hle
    exact ⟨k, hk, Nat.le_antisymm hle hk.enough, ih hps hfed⟩

/-- The parts of a file are equally long. -/
theorem parts_equal (size length : Nat) : ∃ n, ∀ p ∈ parts size length, p.2 = n := by
  unfold parts
  split
  · exact ⟨size, by simp⟩
  · exact ⟨fileBlock, by simp⟩

theorem part_length_le (p : Nat × Nat) : (part bytes p).length ≤ p.2 := List.length_take_le ..

theorem content_of_open (hopen : files.openFile path false c.opens = (some d, g)) :
    files.content path = some (contentOf files path) := by
  have hthere := ((Files.openFile_succeeds files path false c.opens d).mp (congrArg Prod.fst hopen)).2.2
  rcases hthere with hcreate | hthere
  · exact nomatch hcreate
  · obtain ⟨bytes, hbytes⟩ := Option.isSome_iff_exists.mp hthere
    rw [contentOf, hbytes, Option.getD_some]

/-- Of an open file a run gives the text of the content, for every hash, where every part lands. -/
theorem signs_lands (hstat : c.stat = .ok info) (hregular : info.regular)
    (hopen : files.openFile path false c.opens = (some d, g)) (hbytes : files.content path = some bytes) :
    (∀ md5, Signs md5 c garbage path files
        (signatureText md5 info.size ((parts info.size bytes.length).map (part bytes)))) ↔
      info.size < 10 ^ 14 ∧ LandsAll c.reads bytes.length 0 (parts info.size bytes.length) := by
  constructor
  · intro h
    obtain ⟨n, hn⟩ := parts_equal info.size bytes.length
    obtain ⟨fuel, after, hrun⟩ := h (threshold n)
    obtain ⟨hdigits, fed, hfed, htext⟩ := fed_of_signature hstat hregular hopen hbytes hrun
    have hsides := threshold_sides (by rw [List.length_map, hfed.length_eq]) htext
    refine ⟨hdigits, lands_of_fed hfed hn fun f hf => ?_⟩
    -- the parts themselves are not longer than they are to be
    have hside : decide (f.length ≤ n) ∈ fed.map fun f => decide (f.length ≤ n) := List.mem_map_of_mem hf
    rw [← hsides, List.map_map] at hside
    obtain ⟨p, hp, hsame⟩ := List.mem_map.mp hside
    have hpart : decide ((part bytes p).length ≤ n) = true := decide_eq_true (hn p hp ▸ part_length_le p)
    exact of_decide_eq_true (hsame.symm.trans hpart)
  · intro h md5
    exact signature_of_fed hstat hregular h.1 hopen hbytes (fed_of_lands h.2)

/-- What is not a regular file is not read. -/
theorem signs_unread (hunread : ∀ info, c.stat = .ok info → ¬ info.regular) :
    Signs md5 c garbage path files (contentText md5 c.stat path bytes) := by
  refine ⟨0, files, ?_⟩
  unfold getFileSignature contentText
  cases hstat : c.stat with
  | error text => rfl
  | ok info =>
    dsimp only
    rw [if_neg (hunread info hstat), if_neg (hunread info hstat)]
    rfl

/-- The text of a regular file. -/
theorem contentText_regular (hstat : c.stat = .ok info) (hregular : info.regular) :
    contentText md5 c.stat path bytes =
      signatureText md5 info.size ((parts info.size bytes.length).map (part bytes)) := by
  unfold contentText
  rw [hstat]
  exact if_pos hregular

/-- A run that comes back over a file that is not empty has it open. -/
theorem signs_open (hstat : c.stat = .ok info) (hregular : info.regular) (hsize : info.size ≠ 0)
    (h : Signs md5 c garbage path files text) : ∃ d g, files.openFile path false c.opens = (some d, g) := by
  obtain ⟨fuel, after, hrun⟩ := h
  cases hopen : files.openFile path false c.opens with
  | mk fd g =>
    cases fd with
    | some d => exact ⟨d, g, rfl⟩
    | none => exact absurd (unopened_empty hstat hregular hopen hrun) hsize

/-- **Runs.** A run gives the text of the content, whatever the hash, exactly when its file is
not a regular one, or empty, or can be opened and every part lands. -/
theorem signature_run_iff (c : SignatureCalls) (garbage path : List Char) (files : Files (List Char) Char) :
    (∀ md5, Signs md5 c garbage path files (contentText md5 c.stat path (contentOf files path))) ↔
      Exact c path files := by
  constructor
  · intro h info hstat hregular
    simp only [contentText_regular hstat hregular] at h
    by_cases hsize : info.size = 0
    · exact Or.inl hsize
    · obtain ⟨d, g, hopen⟩ := signs_open hstat hregular hsize (h (threshold 0))
      obtain ⟨hdigits, hlands⟩ := (signs_lands hstat hregular hopen (content_of_open hopen)).mp h
      exact Or.inr ⟨hdigits, by rw [hopen]; rfl, hlands⟩
  · intro h md5
    by_cases hunread : ∀ info, c.stat = .ok info → ¬ info.regular
    · exact signs_unread hunread
    · obtain ⟨info, hstat, hregular⟩ : ∃ info, c.stat = .ok info ∧ info.regular := by
        simpa using hunread
      rw [contentText_regular hstat hregular]
      rcases h info hstat hregular with hempty | ⟨hdigits, hopens, hlands⟩
      · rw [hempty]
        exact empty_signs hstat hregular hempty
      · obtain ⟨d, hd⟩ := Option.isSome_iff_exists.mp hopens
        have hopen : files.openFile path false c.opens = (some d, (files.openFile path false c.opens).2) :=
          Prod.ext hd rfl
        exact (signs_lands hstat hregular hopen (content_of_open hopen)).mpr ⟨hdigits, hlands⟩ md5

/-! ### Two runs -/

/-- Byte by byte, but for one read of two bytes, the first part is fed with one byte more, if the
file has more. -/
theorem first_sides (hn : 0 < n) (hlt : n < bytes.length) (hfed : Fed single bytes 0 ((0, n) :: ps) fed)
    (hfed' : Fed (overshoot n) bytes 0 ((0, n) :: ps) fed') :
    fed.map (fun f => decide (f.length ≤ n)) ≠ fed'.map fun f => decide (f.length ≤ n) := by
  obtain ⟨k, rest, hk, _, rfl⟩ := fed_cons.mp hfed
  obtain ⟨k', rest', hk', _, rfl⟩ := fed_cons.mp hfed'
  obtain ⟨hreaches, hsingle⟩ := enough_single (i := 0) readBlock_gt_one.le hk.le_left
  obtain ⟨hreaches', hbeyond⟩ := enough_beyond readBlock_gt_one hn hlt
  cases hk.unique hreaches
  cases hk'.unique hreaches'
  intro hsame
  have hfirst := (List.cons.inj hsame).1
  rw [decide_eq_decide, fed_part_length, fed_part_length] at hfirst
  have hshort : pulled readBlock single 0 (bytes.length - 0) n ≤ n := hsingle.le
  have hlong : pulled readBlock (overshoot n) 0 (bytes.length - 0) n ≤ n := hfirst.mp hshort
  exact Nat.not_succ_le_self n (hbeyond.symm.trans_le hlong)

/-- Two runs that give one text for every hash have come to the end of the file with the first
part. -/
theorem first_ends (hn : 0 < n) (hfed : Fed single bytes 0 ((0, n) :: ps) fed)
    (hfed' : Fed (overshoot n) bytes 0 ((0, n) :: ps) fed')
    (htext : signatureText (threshold n) size fed = signatureText (threshold n) size fed') : bytes.length = n := by
  have hle : n ≤ bytes.length := by
    obtain ⟨_, _, hk, _⟩ := fed_cons.mp hfed
    exact hk.le_left
  have hsides := threshold_sides (hfed.length_eq.trans hfed'.length_eq.symm) htext
  rcases Nat.eq_or_lt_of_le hle with heq | hlt
  · exact heq.symm
  · exact absurd hsides (first_sides hn hlt hfed hfed')

/-- What two such runs over a file that is not empty have fed. -/
theorem same_fed (hstat : c.stat = .ok info) (hregular : info.regular) (hsize : info.size ≠ 0) (h : Same c path files)
    (n : Nat) : (files.openFile path false c.opens).1.isSome ∧
      ∃ fed fed', Fed single (contentOf files path) 0 (parts info.size (contentOf files path).length) fed ∧
        Fed (overshoot n) (contentOf files path) 0 (parts info.size (contentOf files path).length) fed' ∧
        signatureText (threshold n) info.size fed = signatureText (threshold n) info.size fed' := by
  obtain ⟨text, hone, htwo⟩ := h (threshold n) single (overshoot n) [] [] steady_single steady_overshoot
  obtain ⟨d, g, hopen⟩ := signs_open (c := {c with reads := single}) hstat hregular hsize hone
  have hbytes := content_of_open hopen
  obtain ⟨_, _, hone⟩ := hone
  obtain ⟨_, _, htwo⟩ := htwo
  obtain ⟨_, fed, hfed, htext⟩ :=
    fed_of_signature (c := {c with reads := single}) hstat hregular hopen hbytes hone
  obtain ⟨_, fed', hfed', htext'⟩ :=
    fed_of_signature (c := {c with reads := overshoot n}) hstat hregular hopen hbytes htwo
  have hopens : (files.openFile path false c.opens).1 = some d := congrArg Prod.fst hopen
  exact ⟨by rw [hopens]; rfl, fed, fed', hfed, hfed', htext.symm.trans htext'⟩

/-- A part that ends with the file lands, if every read brings something. -/
theorem lands_steady (hsteady : Steady reads) (hsize : size ≤ smallFile) :
    LandsAll reads size 0 (parts size size) := by
  obtain ⟨k, hk⟩ := enough_steady (i := 0) readBlock_gt_one.le hsteady (Nat.le_refl size)
  rw [parts, if_pos hsize]
  exact ⟨k, hk, hk.all, trivial⟩

/-- **Ways of reading.** However the reads are split, one text comes back, exactly when the file
is not a regular one, or empty, or can be opened, is small and has as many bytes as it had. -/
theorem same_iff (c : SignatureCalls) (path : List Char) (files : Files (List Char) Char) :
    Same c path files ↔ Settled c path files := by
  constructor
  · intro h info hstat hregular
    by_cases hempty : info.size = 0
    · exact Or.inl hempty
    · right
      by_cases hsize : info.size ≤ smallFile
      · obtain ⟨hopens, fed, fed', hfed, hfed', htext⟩ := same_fed hstat hregular hempty h info.size
        rw [parts, if_pos hsize] at hfed hfed'
        exact ⟨hsize, hopens, first_ends (Nat.pos_of_ne_zero hempty) hfed hfed' htext⟩
      · -- the second part would end behind the file
        obtain ⟨_, fed, fed', hfed, hfed', htext⟩ := same_fed hstat hregular hempty h fileBlock
        rw [parts, if_neg hsize] at hfed hfed'
        have hlength := first_ends (by decide) hfed hfed' htext
        obtain ⟨_, _, _, hrest, _⟩ := fed_cons.mp hfed
        obtain ⟨_, _, hsecond, _⟩ := fed_cons.mp hrest
        have hle : fileBlock ≤ (contentOf files path).length - info.size / 2 := hsecond.le_left
        have hsizes : fileBlock = 33554432 ∧ smallFile = 134217728 := ⟨rfl, rfl⟩
        omega
  · intro h md5 reads reads' garbage garbage' hsteady hsteady'
    have hsigns {reads : Nat → Option Nat} (hsteady : Steady reads) (garbage : List Char) :
        Signs md5 {c with reads := reads} garbage path files (contentText md5 c.stat path (contentOf files path)) := by
      refine (signature_run_iff {c with reads := reads} garbage path files).mpr ?_ md5
      intro info hstat hregular
      rcases h info hstat hregular with hempty | ⟨hsize, hopens, hlength⟩
      · exact Or.inl hempty
      · rw [hlength]
        exact Or.inr ⟨Nat.lt_of_le_of_lt hsize (by decide), hopens, lands_steady hsteady hsize⟩
    exact ⟨_, hsigns hsteady garbage, hsigns hsteady' garbage'⟩

/-- A large file that is as long as it was gets a text each way, and they differ. -/
theorem large_differs (hstat : c.stat = .ok info) (hregular : info.regular) (hlarge : smallFile < info.size)
    (hdigits : info.size < 10 ^ 14) (hopen : files.openFile path false c.opens = (some d, g))
    (hbytes : files.content path = some bytes) (hlength : bytes.length = info.size) :
    ∃ text text', text ≠ text' ∧ Signs (threshold fileBlock) {c with reads := single} garbage path files text ∧
      Signs (threshold fileBlock) {c with reads := overshoot fileBlock} garbage path files text' := by
  have hsizes : fileBlock = 33554432 ∧ smallFile = 134217728 := ⟨rfl, rfl⟩
  have hparts : parts info.size bytes.length =
      [(0, fileBlock), (info.size / 2, fileBlock), (bytes.length - fileBlock, fileBlock)] :=
    if_neg (Nat.not_le.mpr hlarge)
  have hfeeds {reads : Nat → Option Nat} (hsteady : Steady reads) :
      ∃ fed, Fed reads bytes 0 (parts info.size bytes.length) fed := by
    have hreach (i left : Nat) (hleft : fileBlock ≤ left) :=
      enough_steady (i := i) readBlock_gt_one.le hsteady hleft
    obtain ⟨k₁, hk₁⟩ := hreach 0 (bytes.length - 0) (by omega)
    obtain ⟨k₂, hk₂⟩ := hreach (0 + k₁) (bytes.length - info.size / 2) (by omega)
    obtain ⟨k₃, hk₃⟩ := hreach (0 + k₁ + k₂) (bytes.length - (bytes.length - fileBlock)) (by omega)
    rw [hparts]
    exact ⟨_, .cons hk₁ (.cons hk₂ (.cons hk₃ .nil))⟩
  obtain ⟨fed, hfed⟩ := hfeeds steady_single
  obtain ⟨fed', hfed'⟩ := hfeeds (steady_overshoot (n := fileBlock))
  refine ⟨_, _, fun htext => ?_,
    signature_of_fed (c := {c with reads := single}) hstat hregular hdigits hopen hbytes hfed,
    signature_of_fed (c := {c with reads := overshoot fileBlock}) hstat hregular hdigits hopen hbytes hfed'⟩
  rw [hparts] at hfed hfed'
  have hends := first_ends (by decide) hfed hfed' htext
  omega

end

/-! ### Every way of reading -/

/-- **Signatures.** `get_md5sum` feeds the next `n` bytes exactly when its reads succeed and
bring so many; a run of `get_file_signature` gives the text of the content exactly when every
part of the file lands; and every way of reading gives one text exactly when the file, if there
is anything to be read, is small and as long as `stat` has said. -/
theorem signature_iff (src : Source) (n : Int) (c : SignatureCalls) (garbage path : List Char)
    (files : Files (List Char) Char) :
    (Digests c.reads (some src.fd) n src.reading ((src.bytes.drop src.file.pos).take n.toNat) ↔
      LandsOn readBlock c.reads src.reading.calls src.left n.toNat) ∧
    ((∀ md5, Signs md5 c garbage path files (contentText md5 c.stat path (contentOf files path))) ↔
      Exact c path files) ∧
    (Same c path files ↔ Settled c path files) :=
  ⟨digests_iff src c.reads n, signature_run_iff c garbage path files, same_iff c path files⟩

/-- The files of a system with one file on it. -/
def oneFile (path bytes : List Char) : Files (List Char) Char where
  content p := if p = path then some bytes else none
  opened _ := none

theorem oneFile_content (path bytes : List Char) : (oneFile path bytes).content path = some bytes := by
  simp [oneFile]

/-- The file, open under the number 3. -/
def opened (path bytes : List Char) : Source where
  reading :=
    { files := {oneFile path bytes with opened := fun d => if d = 3 then some {path := path, pos := 0} else none}
      calls := 0
      buf := [] }
  fd := 3
  file := {path := path, pos := 0}
  bytes := bytes
  opened := rfl
  content := oneFile_content path bytes

/-- What the system says of a regular file. -/
def regularCalls (size : Nat) (opens : Option Nat) : SignatureCalls where
  stat := .ok {regular := true, size := size}
  opens := opens
  reads := single

/-- Asked for one byte of two, it feeds both when they come together; asked for three, it does
not come back; a file that cannot be opened is an overrun; and two ways of reading a file of 128
MB and a byte give two texts. -/
theorem signature_differs :
    ¬ Digests (fun _ => some 2) (some 3) 1 (opened "f".toList "ab".toList).reading ['a'] ∧
    (∀ fed, ¬ Digests single (some 3) 3 (opened "f".toList "ab".toList).reading fed) ∧
    (∀ md5, getFileSignature md5 (regularCalls 2 none) [] 1 "f".toList (oneFile "f".toList "ab".toList) =
      .error (some .overrun)) ∧
    ∃ text text', text ≠ text' ∧
      Signs (threshold fileBlock) {regularCalls (smallFile + 1) (some 3) with reads := single} []
        "f".toList (oneFile "f".toList (List.replicate (smallFile + 1) 'x')) text ∧
      Signs (threshold fileBlock) {regularCalls (smallFile + 1) (some 3) with reads := overshoot fileBlock} []
        "f".toList (oneFile "f".toList (List.replicate (smallFile + 1) 'x')) text' := by
  refine ⟨fun h => ?_, fun fed h => ?_, fun md5 => rfl, ?_⟩
  · obtain ⟨k, _, hexact⟩ := (digests_iff (opened "f".toList "ab".toList) (fun _ => some 2) 1).mp h
    cases k with
    | zero => exact nomatch pulled_zero.symm.trans hexact
    | succ k =>
      have hboth : pulled readBlock (fun _ => some 2) 0 2 1 ≤ 1 := (pulled_mono (Nat.succ_pos k)).trans hexact.le
      exact absurd hboth (by decide)
  · obtain ⟨_, _, hrun, _⟩ := h
    obtain ⟨_, hk, _⟩ := md5Loop_enough (opened "f".toList "ab".toList).at hrun
    exact absurd hk.le_left (by decide)
  · have hbytes := oneFile_content "f".toList (List.replicate (smallFile + 1) 'x')
    exact large_differs (c := regularCalls (smallFile + 1) (some 3)) rfl rfl (Nat.lt_succ_self _) (by decide)
      (Files.openFile_existing hbytes rfl false) hbytes List.length_replicate

end Util
end HyperTransfer
