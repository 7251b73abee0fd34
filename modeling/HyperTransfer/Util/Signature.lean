import HyperTransfer.Util.Digest

/-! The signature of a file.

`get_file_signature` digests a file up to `SMALL_FILE` as a whole, and of a larger one three
blocks: at the beginning, in the middle and at the end. Each begins where `lseek` has put it and
goes on with the reads after those of the last one, so that a run is what `Fed` says of the reads:
it comes back where they bring enough for every part (`signature_of_fed`), and only there
(`fed_of_signature`). -/
namespace HyperTransfer
open CString Pieces

abbrev smallFile : Nat := 134217728
abbrev fileBlock : Nat := 33554432
abbrev filesizeCharlen : Nat := 16

/-- What `stat` reports: `S_ISREG`, and `st_size`. -/
structure StatInfo where
  regular : Bool
  size : Nat
deriving DecidableEq

namespace Util

/-- What comes of `stat`, or the text of its error, of `open` and of each `read`. -/
structure SignatureCalls where
  stat : Except (List Char) StatInfo
  opens : Option Nat
  reads : Nat → Option Nat

/-- `lseek(fd, offset, SEEK_SET)`. -/
def Reading.seekSet (fd : Option Nat) (offset : Int) (r : Reading) : Reading :=
  match fd with
  | none => r
  | some d => {r with files := r.files.seek d offset true}

/-- `lseek(fd, offset, SEEK_END)`. -/
def Reading.seekEnd (fd : Option Nat) (offset : Int) (r : Reading) : Reading :=
  match fd.bind r.files.opened with
  | none => r
  | some o => r.seekSet fd (((r.files.content o.path).getD []).length + offset)

/-- `close(fd)`. -/
def Reading.close (fd : Option Nat) (r : Reading) : Files (List Char) Char :=
  match fd with
  | none => r.files
  | some d => r.files.close d

/-- A digest with its underscore. -/
def getBlock (md5 : Md5) (reads : Nat → Option Nat) (fuel : Nat) (fd : Option Nat) (n : Int) (r : Reading) :
    Except (Option Fault) (List Char × Reading) := do
  let (result, r) ← getMd5sum md5 reads fuel fd n r
  let result ← (strncat md5sumCharlen result ['_'] 2).mapError some
  return (result, r)

def toLowerString (str : List Char) : List Char := str.map Char.toLower

/-- The signature, and the files afterwards. `garbage` is what the buffer holds before. -/
def getFileSignature (md5 : Md5) (c : SignatureCalls) (garbage : List Char) (fuel : Nat) (filePath : List Char)
    (files : Files (List Char) Char) : Except (Option Fault) (List Char × Files (List Char) Char) :=
  match c.stat with
  | .error text => return (text, files)
  | .ok info =>
    if info.regular then do
      let fileSizeChar ← (cstr filesizeCharlen (decimal info.size ++ [' '])).mapError some
      let (fd, files) := files.openFile filePath false c.opens
      let r : Reading := {files := files, calls := 0, buf := garbage}
      if info.size ≤ smallFile then
        let (signature, r) ← getBlock md5 c.reads fuel fd info.size r
        return (toLowerString (signature ++ fileSizeChar), r.close fd)
      else
        let (first, r) ← getBlock md5 c.reads fuel fd fileBlock r
        let (middle, r) ← getBlock md5 c.reads fuel fd fileBlock (r.seekSet fd (info.size / 2 : Nat))
        let (last, r) ← getBlock md5 c.reads fuel fd fileBlock (r.seekEnd fd (-fileBlock))
        return (toLowerString (first ++ middle ++ last ++ fileSizeChar), r.close fd)
    else return (filePath ++ " is not a regular file".toList, files)

/-! ### What a signature is made of -/

/-- The parts a file of that size is digested in: where each begins, and how long it is. -/
def parts (size length : Nat) : List (Nat × Nat) :=
  if size ≤ smallFile then [(0, size)]
  else [(0, fileBlock), (size / 2, fileBlock), (length - fileBlock, fileBlock)]

def part (bytes : List Char) (p : Nat × Nat) : List Char := (bytes.drop p.1).take p.2

/-- A digest in the text. -/
def blockText (md5 : Md5) (fed : List Char) : List Char := md5Text (md5 fed) ++ ['_']

/-- The text for a size and the bytes fed. -/
def signatureText (md5 : Md5) (size : Nat) (fed : List (List Char)) : List Char :=
  toLowerString (fed.flatMap (blockText md5) ++ (decimal size ++ [' ']))

/-- The text for a file with this content. -/
def contentText (md5 : Md5) (stat : Except (List Char) StatInfo) (filePath bytes : List Char) : List Char :=
  match stat with
  | .error text => text
  | .ok info =>
    if info.regular then signatureText md5 info.size ((parts info.size bytes.length).map (part bytes))
    else filePath ++ " is not a regular file".toList

/-- What is fed for one part after another. -/
inductive Fed (reads : Nat → Option Nat) (bytes : List Char) :
    Nat → List (Nat × Nat) → List (List Char) → Prop where
  | nil {calls : Nat} : Fed reads bytes calls [] []
  | cons {calls k : Nat} {p : Nat × Nat} {ps : List (Nat × Nat)} {fed : List (List Char)}
      (hk : Enough readBlock reads calls (bytes.length - p.1) p.2 k) (hrest : Fed reads bytes (calls + k) ps fed) :
      Fed reads bytes calls (p :: ps)
        ((bytes.drop p.1).take (pulled readBlock reads calls (bytes.length - p.1) k) :: fed)

theorem fed_nil {reads : Nat → Option Nat} {bytes : List Char} {calls : Nat} {fed : List (List Char)} :
    Fed reads bytes calls [] fed ↔ fed = [] := by
  constructor
  · intro h
    cases h
    rfl
  · exact fun h => h ▸ .nil

theorem fed_cons {reads : Nat → Option Nat} {bytes : List Char} {calls : Nat} {p : Nat × Nat}
    {ps : List (Nat × Nat)} {fed : List (List Char)} : Fed reads bytes calls (p :: ps) fed ↔
      ∃ k rest, Enough readBlock reads calls (bytes.length - p.1) p.2 k ∧ Fed reads bytes (calls + k) ps rest ∧
        fed = (bytes.drop p.1).take (pulled readBlock reads calls (bytes.length - p.1) k) :: rest := by
  constructor
  · intro h
    cases h with
    | cons hk hrest => exact ⟨_, _, hk, hrest, rfl⟩
  · intro h
    obtain ⟨k, rest, hk, hrest, rfl⟩ := h
    exact .cons hk hrest

/-- The reads of each part bring exactly its bytes. -/
def LandsAll (reads : Nat → Option Nat) (length : Nat) : Nat → List (Nat × Nat) → Prop
  | _, [] => True
  | calls, p :: ps =>
    ∃ k, Enough readBlock reads calls (length - p.1) p.2 k ∧
      pulled readBlock reads calls (length - p.1) k = p.2 ∧ LandsAll reads length (calls + k) ps

section
variable {md5 : Md5} {c : SignatureCalls} {reads : Nat → Option Nat} {fuel calls pos k d : Nat} {fd : Option Nat}
  {n : Int} {r r' : Reading} {path bytes text garbage : List Char} {files g : Files (List Char) Char}
  {info : StatInfo}

/-! ### One block -/

theorem strncat_underscore (md : Fin 16 → Fin 256) :
    strncat md5sumCharlen (md5Text md) ['_'] 2 = .ok (md5Text md ++ ['_']) := by
  refine cstr_of_lt ?_
  rw [List.length_append, md5Text_length]
  decide

theorem getBlock_eq_ok : getBlock md5 reads fuel fd n r = .ok (text, r') ↔
    ∃ s, (md5Loop reads fd n).run fuel {reading := r} = .ok s ∧ text = blockText md5 s.ctx ∧ r' = s.reading := by
  unfold getBlock
  rw [bind_eq_ok]
  constructor
  · intro h
    obtain ⟨⟨result, r''⟩, hdigest, h⟩ := h
    obtain ⟨s, hs, rfl, rfl⟩ := getMd5sum_eq_ok.mp hdigest
    dsimp only at h
    rw [strncat_underscore] at h
    cases h
    exact ⟨s, hs, rfl, rfl⟩
  · intro h
    obtain ⟨s, hs, rfl, rfl⟩ := h
    refine ⟨_, getMd5sum_eq_ok.mpr ⟨s, hs, rfl, rfl⟩, ?_⟩
    dsimp only
    rw [strncat_underscore]
    rfl

/-- What a block that comes back has fed, and where the file stands then. -/
theorem getBlock_enough (hr : r.At d path bytes calls pos)
    (h : getBlock md5 reads fuel (some d) n r = .ok (text, r')) :
    ∃ k, Enough readBlock reads calls (bytes.length - pos) n.toNat k ∧
      text = blockText md5 ((bytes.drop pos).take (pulled readBlock reads calls (bytes.length - pos) k)) ∧
      r'.At d path bytes (calls + k) (pos + pulled readBlock reads calls (bytes.length - pos) k) := by
  obtain ⟨s, hrun, htext, hr'⟩ := getBlock_eq_ok.mp h
  obtain ⟨k, hk, hs⟩ := md5Loop_enough hr hrun
  refine ⟨k, hk, ?_, hr' ▸ hs.reading⟩
  rw [htext, hs.ctx]

/-- A block whose reads are enough comes back, whatever the hash. -/
theorem getBlock_ends (hr : r.At d path bytes calls pos)
    (hk : Enough readBlock reads calls (bytes.length - pos) n.toNat k) :
    ∃ r' fuel, (∀ md5 more, fuel ≤ more → getBlock md5 reads more (some d) n r = .ok
        (blockText md5 ((bytes.drop pos).take (pulled readBlock reads calls (bytes.length - pos) k)), r')) ∧
      r'.At d path bytes (calls + k) (pos + pulled readBlock reads calls (bytes.length - pos) k) := by
  obtain ⟨s, fuel, hrun, hs⟩ := md5Loop_ends hr hk
  refine ⟨s.reading, fuel, fun md5 more hmore => ?_, hs.reading⟩
  rw [← hs.ctx]
  exact getBlock_eq_ok.mpr ⟨s, hrun more hmore, rfl, rfl⟩

theorem seekSet_at (hr : r.At d path bytes calls pos) (offset : Nat) :
    (r.seekSet (some d) offset).At d path bytes calls offset := by
  unfold Reading.seekSet
  dsimp only
  rw [Files.seek_open hr.opened (Int.natCast_nonneg offset)]
  exact ⟨Function.update_self .., hr.content, hr.calls⟩

theorem seekEnd_at (hr : r.At d path bytes calls pos) {back : Nat} (hback : back ≤ bytes.length) :
    (r.seekEnd (some d) (-back)).At d path bytes calls (bytes.length - back) := by
  have hto : ((bytes.length : Int) + -back) = ((bytes.length - back : Nat) : Int) := by omega
  unfold Reading.seekEnd
  rw [Option.bind_some, hr.opened]
  dsimp only
  rw [hr.content, Option.getD_some, hto]
  exact seekSet_at hr _

theorem opened_at (hopen : files.openFile path false c.opens = (some d, g)) (hbytes : files.content path = some bytes)
    (garbage : List Char) : Reading.At {files := g, calls := 0, buf := garbage} d path bytes 0 0 := by
  obtain ⟨hopened, hcontent⟩ := Files.openFile_opens hopen
  refine ⟨?_, ?_, rfl⟩
  · show g.opened d = _
    rw [hopened, Function.update_self]
  · show g.content path = _
    rw [hcontent, Function.update_self, hbytes, Option.getD_some]

/-! ### Runs -/

/-- The array holds 14 digits, a blank and the terminator. -/
theorem sizeText_eq_ok {size : Nat} : cstr filesizeCharlen (decimal size ++ [' ']) = .ok text ↔
    text = decimal size ++ [' '] ∧ size < 10 ^ 14 := by
  have hdigits : (decimal size).length ≤ 14 ↔ size < 10 ^ 14 := decimal_natCast_length (by decide)
  rw [cstr_eq_ok, ← hdigits, List.length_append, List.length_singleton]
  exact and_congr_right fun _ => Nat.lt_succ_iff.trans Nat.succ_le_succ_iff

/-- A file up to `SMALL_FILE` is one block. -/
theorem signature_small (hstat : c.stat = .ok info) (hregular : info.regular) (hsize : info.size ≤ smallFile)
    (hopen : files.openFile path false c.opens = (fd, g)) {after : Files (List Char) Char} :
    getFileSignature md5 c garbage fuel path files = .ok (text, after) ↔
      ∃ block r, getBlock md5 c.reads fuel fd info.size {files := g, calls := 0, buf := garbage} = .ok (block, r) ∧
        text = toLowerString (block ++ (decimal info.size ++ [' '])) ∧ after = r.close fd := by
  have htext := sizeText_eq_ok.mpr ⟨rfl, Nat.lt_of_le_of_lt hsize (by decide)⟩
  unfold getFileSignature
  rw [hstat, hopen]
  dsimp only
  rw [if_pos hregular, htext]
  simp only [if_pos hsize]
  constructor
  · intro h
    obtain ⟨_, hsame, h⟩ := bind_eq_ok.mp h
    cases hsame
    obtain ⟨⟨block, r⟩, hblock, h⟩ := bind_eq_ok.mp h
    cases h
    exact ⟨block, r, hblock, rfl, rfl⟩
  · intro h
    obtain ⟨block, r, hblock, rfl, rfl⟩ := h
    exact bind_eq_ok.mpr ⟨_, rfl, bind_eq_ok.mpr ⟨_, hblock, rfl⟩⟩

/-- A larger one is three. -/
theorem signature_large (hstat : c.stat = .ok info) (hregular : info.regular) (hsize : ¬ info.size ≤ smallFile)
    (hopen : files.openFile path false c.opens = (fd, g)) {after : Files (List Char) Char} :
    getFileSignature md5 c garbage fuel path files = .ok (text, after) ↔ info.size < 10 ^ 14 ∧
      ∃ first r₁ middle r₂ last r₃,
        getBlock md5 c.reads fuel fd fileBlock {files := g, calls := 0, buf := garbage} = .ok (first, r₁) ∧
        getBlock md5 c.reads fuel fd fileBlock (r₁.seekSet fd (info.size / 2 : Nat)) = .ok (middle, r₂) ∧
        getBlock md5 c.reads fuel fd fileBlock (r₂.seekEnd fd (-fileBlock)) = .ok (last, r₃) ∧
        text = toLowerString (first ++ middle ++ last ++ (decimal info.size ++ [' '])) ∧ after = r₃.close fd := by
  unfold getFileSignature
  rw [hstat, hopen]
  dsimp only
  rw [if_pos hregular]
  simp only [if_neg hsize]
  constructor
  · intro h
    obtain ⟨sizeText, hsizeText, h⟩ := bind_eq_ok.mp h
    obtain ⟨⟨first, r₁⟩, hfirst, h⟩ := bind_eq_ok.mp h
    obtain ⟨⟨middle, r₂⟩, hmiddle, h⟩ := bind_eq_ok.mp h
    obtain ⟨⟨last, r₃⟩, hlast, h⟩ := bind_eq_ok.mp h
    cases h
    obtain ⟨rfl, hdigits⟩ := sizeText_eq_ok.mp (mapError_eq_ok.mp hsizeText)
    exact ⟨hdigits, first, r₁, middle, r₂, last, r₃, hfirst, hmiddle, hlast, rfl, rfl⟩
  · intro h
    obtain ⟨hdigits, first, r₁, middle, r₂, last, r₃, hfirst, hmiddle, hlast, rfl, rfl⟩ := h
    refine bind_eq_ok.mpr ⟨_, mapError_eq_ok.mpr (sizeText_eq_ok.mpr ⟨rfl, hdigits⟩), ?_⟩
    exact bind_eq_ok.mpr ⟨_, hfirst, bind_eq_ok.mpr ⟨_, hmiddle, bind_eq_ok.mpr ⟨_, hlast, rfl⟩⟩⟩

/-- A run that comes back feeds the parts as its reads bring them. -/
theorem fed_of_signature (hstat : c.stat = .ok info) (hregular : info.regular)
    (hopen : files.openFile path false c.opens = (some d, g)) (hbytes : files.content path = some bytes)
    {after : Files (List Char) Char} (h : getFileSignature md5 c garbage fuel path files = .ok (text, after)) :
    info.size < 10 ^ 14 ∧ ∃ fed, Fed c.reads bytes 0 (parts info.size bytes.length) fed ∧
      text = signatureText md5 info.size fed := by
  have hstart := opened_at hopen hbytes garbage
  by_cases hsize : info.size ≤ smallFile
  · obtain ⟨block, r, hblock, rfl, _⟩ := (signature_small hstat hregular hsize hopen).mp h
    obtain ⟨k, hk, rfl, _⟩ := getBlock_enough hstart hblock
    rw [parts, if_pos hsize]
    refine ⟨Nat.lt_of_le_of_lt hsize (by decide), _, .cons hk .nil, ?_⟩
    rw [signatureText, List.flatMap_singleton]
  · obtain ⟨hdigits, first, r₁, middle, r₂, last, r₃, hfirst, hmiddle, hlast, rfl, _⟩ :=
      (signature_large hstat hregular hsize hopen).mp h
    obtain ⟨k₁, hk₁, rfl, hr₁⟩ := getBlock_enough hstart hfirst
    obtain ⟨k₂, hk₂, rfl, hr₂⟩ := getBlock_enough (seekSet_at hr₁ _) hmiddle
    have hlong : fileBlock ≤ bytes.length := hk₁.le_left
    obtain ⟨k₃, hk₃, rfl, _⟩ := getBlock_enough (seekEnd_at hr₂ hlong) hlast
    rw [parts, if_neg hsize]
    refine ⟨hdigits, _, .cons hk₁ (.cons hk₂ (.cons hk₃ .nil)), ?_⟩
    simp only [signatureText, List.flatMap_cons, List.flatMap_nil, List.append_nil, List.append_assoc]

/-- Where the reads bring enough for every part, the run comes back. -/
theorem signature_of_fed (hstat : c.stat = .ok info) (hregular : info.regular) (hdigits : info.size < 10 ^ 14)
    (hopen : files.openFile path false c.opens = (some d, g)) (hbytes : files.content path = some bytes)
    {fed : List (List Char)} (hfed : Fed c.reads bytes 0 (parts info.size bytes.length) fed) :
    ∃ fuel after, getFileSignature md5 c garbage fuel path files = .ok (signatureText md5 info.size fed, after) := by
  have hstart := opened_at hopen hbytes garbage
  by_cases hsize : info.size ≤ smallFile
  · rw [parts, if_pos hsize] at hfed
    obtain ⟨k, rest, hk, hrest, rfl⟩ := fed_cons.mp hfed
    cases fed_nil.mp hrest
    obtain ⟨r, fuel, hblock, _⟩ := getBlock_ends (n := info.size) hstart hk
    refine ⟨fuel, _, (signature_small hstat hregular hsize hopen).mpr
      ⟨_, r, hblock md5 fuel (Nat.le_refl fuel), ?_, rfl⟩⟩
    rw [signatureText, List.flatMap_singleton]
  · rw [parts, if_neg hsize] at hfed
    obtain ⟨k₁, _, hk₁, hfed₁, rfl⟩ := fed_cons.mp hfed
    obtain ⟨k₂, _, hk₂, hfed₂, rfl⟩ := fed_cons.mp hfed₁
    obtain ⟨k₃, _, hk₃, hfed₃, rfl⟩ := fed_cons.mp hfed₂
    rw [fed_nil.mp hfed₃]
    have hlong : fileBlock ≤ bytes.length := hk₁.le_left
    obtain ⟨r₁, fuel₁, hfirst, hr₁⟩ := getBlock_ends (n := fileBlock) hstart hk₁
    obtain ⟨r₂, fuel₂, hmiddle, hr₂⟩ := getBlock_ends (n := fileBlock) (seekSet_at hr₁ _) hk₂
    obtain ⟨r₃, fuel₃, hlast, _⟩ := getBlock_ends (n := fileBlock) (seekEnd_at hr₂ hlong) hk₃
    replace hfirst := hfirst md5 (fuel₁ + fuel₂ + fuel₃) (by omega)
    replace hmiddle := hmiddle md5 (fuel₁ + fuel₂ + fuel₃) (by omega)
    replace hlast := hlast md5 (fuel₁ + fuel₂ + fuel₃) (by omega)
    refine ⟨fuel₁ + fuel₂ + fuel₃, _, (signature_large hstat hregular hsize hopen).mpr
      ⟨hdigits, _, r₁, _, r₂, _, r₃, hfirst, hmiddle, hlast, ?_, rfl⟩⟩
    simp only [signatureText, List.flatMap_cons, List.flatMap_nil, List.append_nil, List.append_assoc]

/-! ### Without the file -/

/-- The first read fails, so that a loop that comes back has made none. -/
theorem getBlock_unopened (h : getBlock md5 reads fuel none n r = .ok (text, r')) : n ≤ 0 := by
  obtain ⟨s, hrun, _⟩ := getBlock_eq_ok.mp h
  cases Routine.ends_of_run hrun with
  | done hdone _ =>
    have hover : ¬ (0 : Int) < n := decide_eq_true_iff.mp hdone
    omega
  | step _ _ hstep _ =>
    rw [step_fails (Or.inl rfl)] at hstep
    exact nomatch hstep

theorem getBlock_nothing : getBlock md5 reads 1 fd (0 : Nat) r = .ok (blockText md5 [], r) :=
  getBlock_eq_ok.mpr ⟨_, Routine.run_over rfl, rfl, rfl⟩

theorem unopened_empty (hstat : c.stat = .ok info) (hregular : info.regular)
    (hopen : files.openFile path false c.opens = (none, g)) {after : Files (List Char) Char}
    (h : getFileSignature md5 c garbage fuel path files = .ok (text, after)) : info.size = 0 := by
  by_cases hsize : info.size ≤ smallFile
  · obtain ⟨_, _, hblock, _⟩ := (signature_small hstat hregular hsize hopen).mp h
    have hnone := getBlock_unopened hblock
    omega
  · obtain ⟨_, _, _, _, _, _, _, hfirst, _⟩ := (signature_large hstat hregular hsize hopen).mp h
    exact absurd (getBlock_unopened hfirst) (by decide)

/-- An empty file is not read, be it open or not. -/
theorem empty_signs (hstat : c.stat = .ok info) (hregular : info.regular) (hempty : info.size = 0) :
    ∃ fuel after, getFileSignature md5 c garbage fuel path files = .ok (signatureText md5 0 [[]], after) := by
  have hsize : info.size ≤ smallFile := hempty ▸ Nat.zero_le _
  cases hopen : files.openFile path false c.opens with
  | mk fd g =>
    have hblock : getBlock md5 c.reads 1 fd info.size {files := g, calls := 0, buf := garbage} =
        .ok (blockText md5 [], {files := g, calls := 0, buf := garbage}) := by
      rw [hempty]
      exact getBlock_nothing
    refine ⟨1, _, (signature_small hstat hregular hsize hopen).mpr ⟨_, _, hblock, ?_, rfl⟩⟩
    rw [hempty, signatureText, List.flatMap_singleton]

end

end Util
end HyperTransfer
