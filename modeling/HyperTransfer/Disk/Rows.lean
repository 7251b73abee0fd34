import HyperTransfer.Disk.Listing

/-! The rows of a listing, column by column.

`get_dir` formats each column in an array of 20 characters, puts them together in one of
`FILEINFOLEN`, and the rows of a page in one of `INDEXSIZE`. The first is too small for the
names and sizes a directory can have, the second for what is left of them, and where both are
large enough the third is as well (`rows_fit_iff`). A listing is such a page
(`getDirColumns_text`), and one that is written is as `Directories` has it
(`getDirColumns_getDir`). -/
namespace HyperTransfer
open CString

/-- The array a column is formatted in. -/
abbrev columnLen : Nat := 20

inductive FileKind where
  | regular | directory | other
deriving DecidableEq

/-- What `get_dir` reads of an entry: `struct stat`, the names of its owner and group, and the
text of `ctime`. `stale` is what the array for the permissions held before: its first character
is set for regular files and directories alone. -/
structure EntryStat where
  kind : FileKind
  stale : Char := '-'
  mode : Nat
  nlink : Nat
  owner : List Char
  group : List Char
  size : Nat
  ctime : List Char

namespace EntryStat

/-- `perm`. -/
def perm : List (List Char) :=
  ["---".toList, "--x".toList, "-w-".toList, "-wx".toList, "r--".toList, "r-x".toList, "rw-".toList, "rwx".toList]

/-- One group of three permissions. -/
def permissionBits (st : EntryStat) (mask i : Nat) : List Char := perm.getD ((st.mode &&& mask) >>> ((i - 1) * 3)) []

def permission (st : EntryStat) : List Char :=
  let first := match st.kind with
    | .regular => '-'
    | .directory => 'd'
    | .other => st.stale
  terminated (first :: (st.permissionBits 0o700 3 ++ st.permissionBits 0o070 2 ++ st.permissionBits 0o007 1))

/-- `%4d`. -/
def padLeft (n : Nat) (text : List Char) : List Char := List.replicate (n - text.length) ' ' ++ text

/-- `%-8s`. -/
def padRight (n : Nat) (text : List Char) : List Char := text ++ List.replicate (n - text.length) ' '

/-- The columns behind the permissions, each as `sprintf` writes it. -/
def columns (st : EntryStat) : List (List Char) :=
  [padLeft 4 (decimal (toInt st.nlink)) ++ [' '], padRight 8 st.owner ++ [' '], padRight 8 st.group ++ [' '],
    decimal st.size ++ [' '], (st.ctime.drop 4).take 12 ++ [' ']]

end EntryStat

/-- `sprintf` into the column's array, and `strncat` onto the row. -/
def addColumn (row column : List Char) : Except Fault (List Char) := do
  strncat fileInfoLen row (← cstr columnLen column) fileInfoLen

/-- The row of an entry. -/
def EntryStat.row (st : EntryStat) (name : List Char) : Except Fault (List Char) := do
  let s ← cstr columnLen (st.permission ++ [' '])
  let row ← st.columns.foldlM addColumn (strncpy fileInfoLen s)
  strncat fileInfoLen row (← cstr pathSize (name ++ "\r\n".toList)) fileInfoLen

/-- The row of an entry, behind the others of the page. -/
def addRow (info : List Char) (entry : EntryStat × List Char) : Except Fault (List Char) := do
  strncat indexSize info (← entry.1.row entry.2) fileInfoLen

/-- A page of rows. -/
def pageText (page : List (EntryStat × List Char)) : Except Fault (List Char) := page.foldlM addRow []

/-- `get_dir`, with the columns formatted. -/
def getDirColumns (stats : List Char → Option EntryStat) (pwd : List Char) :
    Nat → List (List Char) → List Char → Except Fault (List (List Char) × List Char)
  | _, [], info => .ok ([], info)
  | k, name :: rest, info => do
    match stats (← Directories.entryPath pwd name) with
    | none => getDirColumns stats pwd k rest info
    | some st => do
      let info ← addRow info (st, name)
      if k + 1 ≥ pageRows then return (rest, info) else getDirColumns stats pwd (k + 1) rest info

/-! ### Lengths -/

/-- The number of digits of a number, with its sign. -/
def digitCount (n : Int) : Nat := (decimal n).length

namespace EntryStat

/-- The length of a row. -/
def rowLength (st : EntryStat) (name : List Char) : Nat :=
  (st.permission.length + 1) + (max 4 (digitCount (toInt st.nlink)) + 1) + (max 8 st.owner.length + 1) +
    (max 8 st.group.length + 1) + (digitCount st.size + 1) + ((st.ctime.drop 4).take 12).length + 1 + (name.length + 2)

/-- The columns fit their array, and the row fits its own. -/
structure Fits (st : EntryStat) (name : List Char) : Prop where
  owner : st.owner.length ≤ 18
  group : st.group.length ≤ 18
  size : st.size < 10 ^ 18
  row : st.rowLength name < fileInfoLen

end EntryStat

section
variable {st : EntryStat} {name row t : List Char}

theorem padLeft_length (n : Nat) (text : List Char) : (EntryStat.padLeft n text).length = max n text.length := by
  rw [EntryStat.padLeft, List.length_append, List.length_replicate]
  omega

theorem padRight_length (n : Nat) (text : List Char) : (EntryStat.padRight n text).length = max n text.length := by
  rw [EntryStat.padRight, List.length_append, List.length_replicate]
  omega

theorem permissionBits_length (mask i : Nat) : (st.permissionBits mask i).length ≤ 3 := by
  have hall : ∀ text ∈ EntryStat.perm, text.length ≤ 3 := by decide
  unfold EntryStat.permissionBits
  rw [List.getD_eq_getElem?_getD]
  cases h : EntryStat.perm[(st.mode &&& mask) >>> ((i - 1) * 3)]? with
  | none => exact Nat.zero_le 3
  | some text => exact hall text (List.mem_of_getElem? h)

theorem permission_length : st.permission.length ≤ 10 := by
  refine Nat.le_trans (List.takeWhile_prefix _).length_le ?_
  rw [List.length_cons, List.length_append, List.length_append]
  have howner : (st.permissionBits 0o700 3).length ≤ 3 := permissionBits_length _ _
  have hgroup : (st.permissionBits 0o070 2).length ≤ 3 := permissionBits_length _ _
  have hothers : (st.permissionBits 0o007 1).length ≤ 3 := permissionBits_length _ _
  omega

/-- A link count is an `int`. -/
theorem digitCount_int (n : Int) : digitCount (toInt n) ≤ 11 := by
  have hlow : -(2 ^ 31) ≤ toInt n := Int.le_bmod (by decide)
  have hhigh : toInt n < 2 ^ 31 := Int.bmod_lt (by decide)
  have hdigits : (Nat.toDigits 10 (toInt n).natAbs).length ≤ 10 :=
    (Nat.length_toDigits_le_iff (by decide) (by decide)).mpr (by omega)
  unfold digitCount decimal
  split
  · rw [List.length_cons]
    omega
  · omega

theorem digitCount_size (n : Nat) : digitCount n ≤ 18 ↔ n < 10 ^ 18 := decimal_natCast_length (by decide)

/-! ### Rows and pages -/

theorem addColumn_eq_ok {column : List Char} : addColumn row column = .ok t ↔
    t = row ++ column ∧ column.length < columnLen ∧ (row ++ column).length < fileInfoLen := by
  constructor
  · intro h
    obtain ⟨s, hs, hadd⟩ := bind_eq_ok.mp h
    obtain ⟨rfl, hcolumn⟩ := cstr_eq_ok.mp hs
    obtain ⟨rfl, hfits⟩ := strncat_eq_ok.mp hadd
    exact ⟨rfl, hcolumn, hfits⟩
  · intro h
    obtain ⟨rfl, hcolumn, hfits⟩ := h
    exact bind_eq_ok.mpr ⟨column, cstr_of_lt hcolumn, strncat_eq_ok.mpr ⟨rfl, hfits⟩⟩

/-- The columns are put together if each of them fits its array, and all of them the row. -/
theorem foldlM_addColumn (columns : List (List Char)) (hrow : row.length < fileInfoLen) :
    columns.foldlM addColumn row = .ok t ↔
      t = row ++ columns.flatten ∧ (∀ c ∈ columns, c.length < columnLen) ∧
        (row ++ columns.flatten).length < fileInfoLen := by
  induction columns generalizing row with
  | nil =>
    rw [List.foldlM_nil, List.flatten_nil, List.append_nil]
    constructor
    · intro h
      cases h
      exact ⟨rfl, fun _ hc => (nomatch hc), hrow⟩
    · exact fun h => congrArg Except.ok h.1.symm
  | cons c rest ih =>
    rw [List.foldlM_cons, bind_eq_ok, List.flatten_cons, ← List.append_assoc]
    constructor
    · intro h
      obtain ⟨r, hr, h⟩ := h
      obtain ⟨rfl, hcolumn, hfits⟩ := addColumn_eq_ok.mp hr
      obtain ⟨ht, hall, hlen⟩ := (ih hfits).mp h
      exact ⟨ht, List.forall_mem_cons.mpr ⟨hcolumn, hall⟩, hlen⟩
    · intro h
      obtain ⟨ht, hall, hlen⟩ := h
      obtain ⟨hcolumn, hall⟩ := List.forall_mem_cons.mp hall
      have hfits : (row ++ c).length < fileInfoLen := by
        rw [List.length_append] at hlen
        omega
      exact ⟨row ++ c, addColumn_eq_ok.mpr ⟨rfl, hcolumn, hfits⟩, (ih hfits).mpr ⟨ht, hall, hlen⟩⟩

/-- The text of a row. -/
def EntryStat.rowText (st : EntryStat) (name : List Char) : List Char :=
  st.permission ++ [' '] ++ st.columns.flatten ++ (name ++ "\r\n".toList)

theorem rowText_length : (st.rowText name).length = st.rowLength name := by
  simp only [EntryStat.rowText, EntryStat.columns, EntryStat.rowLength, digitCount, List.flatten_cons, List.flatten_nil,
    List.length_append, List.length_nil, List.length_singleton, padLeft_length, padRight_length]
  show _ + (name.length + 2) = _
  omega

theorem columns_fit : (∀ c ∈ st.columns, c.length < columnLen) ↔
    st.owner.length ≤ 18 ∧ st.group.length ≤ 18 ∧ st.size < 10 ^ 18 := by
  have hlinks := digitCount_int st.nlink
  have htime : ((st.ctime.drop 4).take 12).length ≤ 12 := List.length_take_le 12 _
  have hcolumn : columnLen = 20 := rfl
  rw [← digitCount_size]
  unfold digitCount at *
  simp only [EntryStat.columns, List.forall_mem_cons, List.length_append, List.length_singleton, padLeft_length,
    padRight_length, hcolumn]
  constructor
  · intro h
    omega
  · intro h
    exact ⟨by omega, by omega, by omega, by omega, by omega, fun _ hc => nomatch hc⟩

/-- A row is built exactly when it fits. -/
theorem row_eq_ok (hname : name.length ≤ 255) : st.row name = .ok t ↔ t = st.rowText name ∧ st.Fits name := by
  have hpermission : (st.permission ++ [' ']).length < columnLen := by
    rw [List.length_append, List.length_singleton]
    exact Nat.lt_of_le_of_lt (Nat.succ_le_succ permission_length) (by decide)
  have hfirst : (st.permission ++ [' ']).length < fileInfoLen := Nat.lt_trans hpermission (by decide)
  have hline : (name ++ "\r\n".toList).length < pathSize := by
    rw [List.length_append]
    exact Nat.lt_of_le_of_lt (Nat.add_le_add_right hname 2) (by decide)
  unfold EntryStat.row
  rw [cstr_of_lt hpermission]
  constructor
  · intro h
    obtain ⟨s, hs, h⟩ := bind_eq_ok.mp h
    cases hs
    obtain ⟨r, hr, h⟩ := bind_eq_ok.mp h
    rw [strncpy_of_le hfirst.le] at hr
    obtain ⟨rfl, hall, hlen⟩ := (foldlM_addColumn st.columns hfirst).mp hr
    obtain ⟨l, hl, h⟩ := bind_eq_ok.mp h
    obtain ⟨rfl, _⟩ := cstr_eq_ok.mp hl
    obtain ⟨rfl, hfits⟩ := strncat_eq_ok.mp h
    obtain ⟨howner, hgroup, hsize⟩ := columns_fit.mp hall
    exact ⟨rfl, howner, hgroup, hsize, rowText_length.symm.trans_lt hfits⟩
  · intro h
    obtain ⟨rfl, hfits⟩ := h
    have hlen : (st.rowText name).length < fileInfoLen := rowText_length.trans_lt hfits.row
    have hshort : (st.permission ++ [' '] ++ st.columns.flatten).length < fileInfoLen := by
      rw [EntryStat.rowText, List.length_append] at hlen
      omega
    have hcolumns : st.columns.foldlM addColumn (strncpy fileInfoLen (st.permission ++ [' '])) =
        .ok (st.permission ++ [' '] ++ st.columns.flatten) := by
      rw [strncpy_of_le hfirst.le, foldlM_addColumn st.columns hfirst]
      exact ⟨rfl, columns_fit.mpr ⟨hfits.owner, hfits.group, hfits.size⟩, hshort⟩
    refine bind_eq_ok.mpr ⟨_, rfl, bind_eq_ok.mpr ⟨_, hcolumns, ?_⟩⟩
    exact bind_eq_ok.mpr ⟨_, cstr_of_lt hline, strncat_eq_ok.mpr ⟨rfl, hlen⟩⟩

/-- The rows of a page, behind others. -/
theorem foldlM_row (page : List (EntryStat × List Char)) (hnames : ∀ entry ∈ page, entry.2.length ≤ 255)
    {k : Nat} (hk : k + page.length ≤ pageRows) {info : List Char} (hinfo : info.length ≤ k * fileInfoLen) :
    page.foldlM addRow info = .ok t ↔
      t = info ++ page.flatMap (fun entry => entry.1.rowText entry.2) ∧ ∀ entry ∈ page, entry.1.Fits entry.2 := by
  induction page generalizing k info with
  | nil =>
    rw [List.foldlM_nil, List.flatMap_nil, List.append_nil]
    constructor
    · intro h
      cases h
      exact ⟨rfl, fun _ hentry => nomatch hentry⟩
    · exact fun h => congrArg Except.ok h.1.symm
  | cons entry rest ih =>
    obtain ⟨hname, hnames⟩ := List.forall_mem_cons.mp hnames
    rw [List.length_cons] at hk
    rw [List.foldlM_cons, List.flatMap_cons, ← List.append_assoc]
    constructor
    · intro h
      obtain ⟨more, hmore, h⟩ := bind_eq_ok.mp h
      obtain ⟨row, hrow, hmore⟩ := bind_eq_ok.mp hmore
      obtain ⟨rfl, hfits⟩ := (row_eq_ok hname).mp hrow
      obtain ⟨hadds, hlong⟩ := strncat_page (k := k) (by omega) hinfo (rowText_length.trans_lt hfits.row)
      rw [hadds] at hmore
      cases hmore
      obtain ⟨ht, hall⟩ := (ih hnames (by omega) hlong).mp h
      exact ⟨ht, List.forall_mem_cons.mpr ⟨hfits, hall⟩⟩
    · intro h
      obtain ⟨ht, hall⟩ := h
      obtain ⟨hfits, hall⟩ := List.forall_mem_cons.mp hall
      obtain ⟨hadds, hlong⟩ := strncat_page (k := k) (by omega) hinfo (rowText_length.trans_lt hfits.row)
      exact bind_eq_ok.mpr ⟨_, bind_eq_ok.mpr ⟨_, (row_eq_ok hname).mpr ⟨rfl, hfits⟩, hadds⟩,
        (ih hnames (by omega) hlong).mpr ⟨ht, hall⟩⟩

end

/-- **Rows.** A page of up to 32 entries stays in its arrays exactly when of each entry the
names of the owner and the group have at most 18 characters, the size has at most 18 digits
and the row at most 319 characters. -/
theorem rows_fit_iff (page : List (EntryStat × List Char)) (hpage : page.length ≤ pageRows)
    (hnames : ∀ entry ∈ page, entry.2.length ≤ 255) :
    (∃ text, pageText page = .ok text) ↔ ∀ entry ∈ page, entry.1.Fits entry.2 := by
  have hrows {t : List Char} : pageText page = .ok t ↔
      t = page.flatMap (fun entry => entry.1.rowText entry.2) ∧ ∀ entry ∈ page, entry.1.Fits entry.2 :=
    foldlM_row page hnames (k := 0) (by rwa [Nat.zero_add]) (Nat.zero_le _)
  constructor
  · intro h
    obtain ⟨text, htext⟩ := h
    exact (hrows.mp htext).2
  · exact fun h => ⟨_, hrows.mpr ⟨rfl, h⟩⟩

/-- A row with everything as long as it may be, of a file of a terabyte. -/
theorem rows_fit_long :
    ∃ text, pageText [(⟨.regular, '-', 0o644, 1, "an-owner-of-18-let".toList, "a-group-of-18-lett".toList, 10 ^ 12,
      "Thu Nov 24 18:22:48 1986".toList⟩, List.replicate 236 'x')] = .ok text := by
  refine (rows_fit_iff _ (by decide) fun entry hentry => ?_).mpr fun entry hentry => ?_
  · rw [List.mem_singleton.mp hentry, List.length_replicate]
    decide
  · rw [List.mem_singleton.mp hentry]
    constructor <;> decide +kernel

/-- A name of 19 characters for the owner, and a name of 255 for the file with an owner and a
group of 18, are too long. -/
theorem rows_overrun :
    pageText [(⟨.regular, '-', 0o644, 1, "an-owner-of-19-lett".toList, "users".toList, 0,
      "Thu Nov 24 18:22:48 1986".toList⟩, "x".toList)] = .error .overrun ∧
    pageText [(⟨.regular, '-', 0o644, 1, "an-owner-of-18-let".toList, "a-group-of-18-lett".toList, 0,
      "Thu Nov 24 18:22:48 1986".toList⟩, List.replicate 255 'x')] = .error .overrun ∧
    pageText [(⟨.regular, '-', 0o644, 1, "root".toList, "root".toList, 10 ^ 18,
      "Thu Nov 24 18:22:48 1986".toList⟩, "x".toList)] = .error .overrun := by
  refine ⟨?_, ?_, ?_⟩ <;> decide +kernel

/-! ### Directories -/

/-- The entries of a directory that can be looked at. -/
def lookedAt (stats : List Char → Option EntryStat) (pwd : List Char) (names : List (List Char)) :
    List (EntryStat × List Char) :=
  names.filterMap fun name =>
    match Directories.entryPath pwd name with
    | .ok path => (stats path).map fun st => (st, name)
    | .error _ => none

/-- What `get_dir` writes is the page of the first entries that can be looked at. -/
theorem getDirColumns_text {stats : List Char → Option EntryStat} {pwd : List Char} {names : List (List Char)}
    (hpaths : ∀ name ∈ names, ∃ path, Directories.entryPath pwd name = .ok path) {k : Nat} (hk : k < pageRows)
    (info : List Char) :
    (getDirColumns stats pwd k names info).map Prod.snd =
      ((lookedAt stats pwd names).take (pageRows - k)).foldlM addRow info := by
  induction names generalizing k info with
  | nil =>
    rw [getDirColumns, lookedAt, List.filterMap_nil, List.take_nil]
    rfl
  | cons name rest ih =>
    obtain ⟨⟨path, hpath⟩, hrest⟩ := List.forall_mem_cons.mp hpaths
    unfold getDirColumns
    rw [hpath]
    dsimp only [bind, Except.bind]
    cases hst : stats path with
    | none =>
      have hskips : lookedAt stats pwd (name :: rest) = lookedAt stats pwd rest := by
        simp [lookedAt, hpath, hst]
      rw [hskips]
      exact ih hrest hk info
    | some st =>
      have htakes : lookedAt stats pwd (name :: rest) = (st, name) :: lookedAt stats pwd rest := by
        simp [lookedAt, hpath, hst]
      obtain ⟨left, hleft⟩ : ∃ left, pageRows - k = left + 1 := ⟨pageRows - k - 1, by omega⟩
      rw [htakes, hleft, List.take_succ_cons, List.foldlM_cons]
      cases hrow : addRow info (st, name) with
      | error f => simp [hrow, Except.map, bind, Except.bind]
      | ok more =>
        simp only [hrow]
        split
        · have hlast : left = 0 := by omega
          rw [hlast, List.take_zero]
          rfl
        · rw [ih hrest (by omega), show pageRows - (k + 1) = left by omega]
          rfl

/-- The columns of an entry as one text. -/
def EntryStat.text (st : EntryStat) : List Char := st.permission ++ [' '] ++ st.columns.flatten

/-- A page that is written at all is written as `Directories` has it. -/
theorem getDirColumns_getDir {stats : List Char → Option EntryStat} {dirs : Directories}
    (hdirs : ∀ path, dirs.columns path = .ok ((stats path).map EntryStat.text)) {pwd : List Char} {names : List (List Char)}
    (hnames : ∀ name ∈ names, name.length ≤ 255) {k : Nat} {info : List Char} {r : List (List Char) × List Char}
    (h : getDirColumns stats pwd k names info = .ok r) : dirs.getDir pwd k names info = .ok r := by
  induction names generalizing k info with
  | nil => exact h
  | cons name rest ih =>
    obtain ⟨hname, hrest⟩ := List.forall_mem_cons.mp hnames
    unfold getDirColumns at h
    obtain ⟨path, hpath, h⟩ := bind_eq_ok.mp h
    unfold Directories.getDir
    rw [hpath]
    dsimp only [bind, Except.bind]
    rw [hdirs]
    cases hst : stats path with
    | none =>
      rw [hst] at h
      exact ih hrest h
    | some st =>
      rw [hst] at h
      obtain ⟨more, hmore, h⟩ := bind_eq_ok.mp h
      obtain ⟨row, hrow, hadds⟩ := bind_eq_ok.mp hmore
      obtain ⟨rfl, hfits⟩ := (row_eq_ok hname).mp hrow
      have hconcat : concat fileInfoLen [st.text, name, "\r\n".toList] = .ok (st.rowText name) := by
        rw [concat_eq_ok (by decide), List.flatten_cons, List.flatten_cons, List.flatten_singleton]
        exact ⟨rfl, rowText_length.trans_lt hfits.row⟩
      dsimp only [Option.map]
      rw [hconcat]
      dsimp only
      rw [hadds]
      dsimp only
      split
      · rename_i hfull
        rw [if_pos hfull] at h
        exact h
      · rename_i hmore
        rw [if_neg hmore] at h
        exact ih hrest h

end HyperTransfer
