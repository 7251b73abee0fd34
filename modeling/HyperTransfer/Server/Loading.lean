import HyperTransfer.Server.Userlist
import HyperTransfer.Session.Commands
import Mathlib.Data.List.Forall2
import Mathlib.Data.List.ModifyLast

/-! Runs of the constructor over a file.

A run that is to end with nothing owed takes the file apart into fields, five for a line, and the
last of them ends where the file does; every other file makes the length that is left negative
(`userlist_ends_iff`). What the fields say is what the records hold, and the lines of a list of
users say it of them; the last record is lost at the end (`userlist_loses_last`). -/
namespace HyperTransfer
open CString

namespace UserField

/-- The fields of a line behind this one. -/
def rest : UserField → List UserField
  | .user => [.pass, .upload, .download, .dele]
  | .pass => [.upload, .download, .dele]
  | .upload => [.download, .dele]
  | .download => [.dele]
  | .dele => []

/-- The field read next, across lines. -/
def next : UserField → UserField
  | .user => .pass
  | .pass => .upload
  | .upload => .download
  | .download => .dele
  | .dele => .user

/-- The array a field is copied to, if it is. -/
def room : UserField → Option Nat
  | .user => some userLen
  | .pass => some passLen
  | _ => none

/-- A text is this field with its end. -/
structure Written (f : UserField) (t : List Char) : Prop where
  text : FieldText f.delims t
  fits : ∀ n ∈ f.room, t.length ≤ n + 1

theorem delims_contains (f : UserField) : f.delims.contains '\x00' = false := by
  cases f <;> decide

/-- The five fields of a line. -/
def line : List UserField := [.user, .pass, .upload, .download, .dele]

/-- This field, the rest of its line, and `k` more lines. -/
def ahead (f : UserField) (k : Nat) : List UserField := f :: (f.rest ++ (List.replicate k line).flatten)

theorem ahead_cases (f : UserField) (k : Nat) :
    f = .dele ∧ k = 0 ∧ f.ahead k = [f] ∨ ∃ j, f.ahead k = f :: f.next.ahead j := by
  cases f with
  | dele =>
    cases k with
    | zero => exact Or.inl ⟨rfl, rfl, rfl⟩
    | succ k => exact Or.inr ⟨k, rfl⟩
  | user => exact Or.inr ⟨k, rfl⟩
  | pass => exact Or.inr ⟨k, rfl⟩
  | upload => exact Or.inr ⟨k, rfl⟩
  | download => exact Or.inr ⟨k, rfl⟩

theorem ahead_next (f : UserField) (k : Nat) : ∃ j, f :: f.next.ahead k = f.ahead j := by
  cases f with
  | dele => exact ⟨k + 1, rfl⟩
  | user => exact ⟨k, rfl⟩
  | pass => exact ⟨k, rfl⟩
  | upload => exact ⟨k, rfl⟩
  | download => exact ⟨k, rfl⟩

end UserField

/-- A record with one more field. The first makes a new one. -/
def UserRecord.set (u : UserRecord) (token : List Char) : UserField → UserRecord
  | .user => {user := token}
  | .pass => {u with pass := token}
  | .upload => {u with uploadPer := strncasecmp token "true".toList 4}
  | .download => {u with downloadPer := strncasecmp token "true".toList 4}
  | .dele => {u with delePer := strncasecmp token "true".toList 4}

/-- The records that fields make, from one begun on. -/
def records (u : UserRecord) : List UserField → List (List Char) → List UserRecord
  | f :: fs, t :: texts =>
    let u := u.set t.dropLast f
    if f = .dele then u :: records u fs texts else records u fs texts
  | _, _ => []

namespace UserLoading

/-- A field stored, and the next one to be read. -/
def stored (s : UserLoading) (token : List Char) (f : UserField) : UserLoading :=
  {s with
    userList := s.userList.set token f
    userMap := if f = .dele then s.userMap ++ [s.userList.set token f] else s.userMap
    point := if f = .dele ∧ s.readLen = 0 then .reading else .field f.next }

variable {content t r rest token : List Char} {f : UserField} {s s' u : UserLoading}

theorem store_eq_ok :
    s.store token f = .ok s' ↔ (∀ n ∈ f.room, token.length ≤ n) ∧ s' = s.stored token f := by
  have hroom {n : Nat} : (∀ m ∈ some n, token.length ≤ m) ↔ token.length ≤ n := by
    simp only [Option.mem_def, Option.some.injEq, forall_eq']
  -- the two texts are copied where they fit, the flags are compared
  have htext {n : Nat} {s'' : UserLoading} :
      (if token.length ≤ n then Except.ok s'' else .error Fault.overrun) = .ok s' ↔
        (∀ m ∈ some n, token.length ≤ m) ∧ s' = s'' := by
    rw [hroom]
    split
    · rename_i h
      rw [Except.ok.injEq, and_iff_right h, eq_comm]
    · rename_i h
      exact iff_of_false (fun h => nomatch h) fun hfits => h hfits.1
  have hflag {s'' : UserLoading} : (Except.ok s'' : Except Fault UserLoading) = .ok s' ↔
      (∀ m ∈ (none : Option Nat), token.length ≤ m) ∧ s' = s'' := by
    rw [Except.ok.injEq, eq_comm]
    exact (and_iff_right fun m hm => nomatch hm).symm
  cases f with
  | user => exact htext
  | pass => exact htext
  | upload => exact hflag
  | download => exact hflag
  | dele =>
    have hstate : {s with
        userList := {s.userList with delePer := strncasecmp token "true".toList 4}
        userMap := s.userMap ++ [{s.userList with delePer := strncasecmp token "true".toList 4}]
        point := if s.readLen ≠ 0 then .field .user else .reading } = s.stored token .dele := by
      unfold UserLoading.stored
      by_cases hread : s.readLen = 0
      · simp [hread, UserRecord.set]
      · simp [hread, UserRecord.set, UserField.next]
    rw [← hstate]
    exact hflag

/-- Nothing is owed, and nothing is read beyond what was got. -/
def InRange (content : List Char) (s : UserLoading) : Prop :=
  0 ≤ s.readLen ∧ s.sum + s.file.length ≤ content.length

theorem Reads.inRange (h : s.Reads content rest) : s.InRange content := by
  have hsum := h.sum
  constructor
  · rw [h.readLen]
    exact Int.natCast_nonneg _
  · rw [h.file, List.length_nil]
    omega

theorem Reads.stored (h : s.Reads content rest) (token : List Char) (f : UserField) :
    (s.stored token f).Reads content rest :=
  ⟨h.file, h.temp, h.buf, h.sum, h.readLen⟩

theorem step_reading (hpoint : s.point = .reading) : userManager.step s = .ok s.read := by
  unfold userManager
  dsimp only
  rw [hpoint]

theorem step_field (hpoint : s.point = .field f) :
    userManager.step s = s.field f.delims >>= fun r => r.2.store r.1 f := by
  unfold userManager
  dsimp only
  rw [hpoint]

/-- The step at a field that is written. -/
theorem step_text (hlen : content.length ≤ fileBufSize) (ht : f.Written t) (h : s.Reads content (t ++ r))
    (hpoint : s.point = .field f) :
    ∃ temp, userManager.step s = .ok ((s.past temp t.length).stored t.dropLast f) ∧
      ((s.past temp t.length).stored t.dropLast f).Reads content r := by
  obtain ⟨temp, htemp, hfield⟩ := field_text hlen f.delims_contains ht.text h
  refine ⟨temp, ?_, (h.past htemp).stored _ _⟩
  rw [step_field hpoint, hfield]
  refine store_eq_ok.mpr ⟨?_, rfl⟩
  intro n hn
  have := ht.fits n hn
  rw [List.length_dropLast]
  omega

/-- The step at a field that leaves something sensible. -/
theorem step_cases (hlen : content.length ≤ fileBufSize) (h : s.Reads content rest) (hpoint : s.point = .field f)
    (hstep : userManager.step s = .ok s') (hleft : 0 ≤ s'.readLen) :
    ∃ t r temp, rest = t ++ r ∧ f.Written t ∧ s' = (s.past temp t.length).stored t.dropLast f ∧
      s'.Reads content r := by
  rw [step_field hpoint] at hstep
  obtain ⟨⟨token, s''⟩, hfield, hstore⟩ := bind_eq_ok.mp hstep
  obtain ⟨hfits, rfl⟩ := store_eq_ok.mp hstore
  obtain ⟨t, r, temp, rfl, ht, htemp, rfl, rfl⟩ := field_cases hlen f.delims_contains h hfield hleft
  refine ⟨t, r, temp, rfl, ⟨ht, ?_⟩, rfl, (h.past htemp).stored _ _⟩
  intro n hn
  have := hfits n hn
  rw [List.length_dropLast] at this
  omega

/-- After the last field of the file nothing is left. -/
theorem stored_point (h : (s.stored token f).Reads content r) :
    (s.stored token f).point = if f = .dele ∧ r = [] then .reading else .field f.next := by
  have hread : s.readLen = r.length := h.readLen
  have hnil : s.readLen = 0 ↔ r = [] := by
    rw [hread, Int.natCast_eq_zero, List.length_eq_zero_iff]
  simp only [UserLoading.stored, hnil]

/-! ### The loops -/

theorem done_iff : userManager.done s = true ↔ s.point = .loaded := decide_eq_true_iff

theorem done_field (hpoint : s.point = .field f) : userManager.done s = false := by
  rw [← Bool.not_eq_true, done_iff, hpoint]
  exact fun h => nomatch h

theorem done_reading (hpoint : s.point = .reading) : userManager.done s = false := by
  rw [← Bool.not_eq_true, done_iff, hpoint]
  exact fun h => nomatch h

/-- The file is over: so is the outer loop. -/
theorem ends_reading (hpoint : s.point = .reading) (heof : s.eof = true) (hs : s.InRange content) :
    userManager.Ends (InRange content) s {s with point := .loaded} := by
  have hread : s.read = {s with point := .loaded} := by
    rw [read, if_pos heof]
  apply Routine.Ends.step (done_reading hpoint) hs (step_reading hpoint)
  rw [hread]
  exact Routine.Ends.done (done_iff.mpr rfl) hs

theorem flatten_ne_nil {texts : List (List Char)} {k : Nat}
    (htexts : List.Forall₂ UserField.Written (f.ahead k) texts) : texts.flatten ≠ [] := by
  intro h
  unfold UserField.ahead at htexts
  cases htexts with
  | cons ht _ =>
    have hlen := congrArg List.length h
    have hpos := ht.text.length_pos
    rw [List.flatten_cons, List.length_append, List.length_nil] at hlen
    omega

/-- A file as long as the array is read once more, and there is nothing. -/
theorem read_again (heof : s.eof = false) (h : s.Reads content []) :
    s.read.Reads content [] ∧ s.read.point = .field .user := by
  have hread : s.read = {s with
      file := [], eof := true, readLen := 0, point := .field .user
      userlistBuf := List.replicate fileBufSize '\x00' } := by
    unfold read
    rw [if_neg (by rw [heof]; exact Bool.false_ne_true), h.file]
    rfl
  rw [hread]
  refine ⟨⟨rfl, h.temp, ⟨fileBufSize - s.sum, ?_⟩, h.sum, rfl⟩, rfl⟩
  rw [List.nil_append]
  exact List.drop_replicate

/-- A file made of fields is read to its end, and its records are inserted. -/
theorem ends_of_texts (hlen : content.length < fileBufSize) {fs : List UserField} {texts : List (List Char)}
    (htexts : List.Forall₂ UserField.Written fs texts) {k : Nat} (hfs : fs = f.ahead k) (hpoint : s.point = .field f)
    (heof : s.eof = true) (h : s.Reads content texts.flatten) :
    ∃ t, userManager.Ends (InRange content) s t ∧ t.userMap = s.userMap ++ records s.userList fs texts := by
  induction htexts generalizing s f k with
  | nil => exact nomatch hfs
  | @cons g t gs texts ht hrest ih =>
    obtain ⟨rfl, _⟩ := List.cons.inj hfs
    rw [List.flatten_cons] at h
    obtain ⟨temp, hstep, hnext⟩ := step_text hlen.le ht h hpoint
    have hgoes := stored_point hnext
    generalize hs' : (s.past temp t.length).stored t.dropLast g = s' at hstep hnext hgoes
    have heof' : s'.eof = true := by
      rw [← hs']
      exact heof
    have hmap : s'.userMap = if g = .dele then s.userMap ++ [s.userList.set t.dropLast g] else s.userMap := by
      rw [← hs']
      rfl
    have hlist : s'.userList = s.userList.set t.dropLast g := by
      rw [← hs']
      rfl
    have hrecords : s'.userMap ++ records s'.userList gs texts =
        s.userMap ++ records s.userList (g :: gs) (t :: texts) := by
      rw [hmap, hlist, records]
      split
      · rw [List.append_assoc, List.singleton_append]
      · rfl
    obtain hlast | hmore := g.ahead_cases k
    · obtain ⟨hdele, _, hahead⟩ := hlast
      obtain rfl : gs = [] := (List.cons.inj (hfs.trans hahead)).2
      cases hrest
      rw [if_pos ⟨hdele, rfl⟩] at hgoes
      refine ⟨_, .step (done_field hpoint) h.inRange hstep (ends_reading hgoes heof' hnext.inRange), ?_⟩
      rw [← hrecords]
      exact (List.append_nil _).symm
    · obtain ⟨j, hj⟩ := hmore
      have hgs : gs = g.next.ahead j := (List.cons.inj (hfs.trans hj)).2
      have hne : texts.flatten ≠ [] := flatten_ne_nil (hgs ▸ hrest)
      rw [if_neg fun hlast => hne hlast.2] at hgoes
      obtain ⟨u, hends, hu⟩ := ih hgs hgoes heof' hnext
      exact ⟨u, .step (done_field hpoint) h.inRange hstep hends, hu.trans hrecords⟩

/-- A run that ends with nothing owed has taken the file apart into fields. -/
theorem texts_of_ends (hlen : content.length ≤ fileBufSize) (hends : userManager.Ends (InRange content) s u)
    (hpoint : s.point = .field f) (heof : s.eof = true ↔ content.length < fileBufSize) (h : s.Reads content rest) :
    content.length < fileBufSize ∧
      ∃ k texts, List.Forall₂ UserField.Written (f.ahead k) texts ∧ rest = texts.flatten := by
  induction hends generalizing f rest with
  | done hdone _ => exact nomatch (done_iff.mp hdone).symm.trans hpoint
  | @step s s' u hgo hs hstep hrest ih =>
    obtain ⟨t, r, temp, rfl, ht, hs', hnext⟩ := step_cases hlen h hpoint hstep hrest.start.1
    have hgoes := stored_point (hs' ▸ hnext)
    rw [← hs'] at hgoes
    have heof' : s'.eof = true ↔ content.length < fileBufSize := by
      rw [hs']
      exact heof
    by_cases hlast : f = .dele ∧ r = []
    · obtain ⟨rfl, rfl⟩ := hlast
      rw [if_pos ⟨rfl, rfl⟩] at hgoes
      refine ⟨?_, 0, [t], .cons ht .nil, by rw [List.flatten_singleton, List.append_nil]⟩
      by_contra hlong
      have heof : s'.eof = false := Bool.eq_false_iff.mpr fun h => hlong (heof'.mp h)
      obtain ⟨hagain, hfirst⟩ := read_again heof hnext
      obtain ⟨s₂, hs₂, hrest⟩ := hrest.next (done_reading hgoes)
      cases (step_reading hgoes).symm.trans hs₂
      obtain ⟨s₃, hs₃, hrest⟩ := hrest.next (done_field hfirst)
      -- the field that is read there is longer than what is left
      obtain ⟨t, r, _, hnone, ht, _⟩ := step_cases hlen hagain hfirst hs₃ hrest.start.1
      have hpos := ht.text.length_pos
      rw [(List.append_eq_nil_iff.mp hnone.symm).1] at hpos
      exact Nat.lt_irrefl _ hpos
    · rw [if_neg hlast] at hgoes
      obtain ⟨hshort, k, texts, htexts, hr⟩ := ih hgoes heof' hnext
      obtain ⟨j, hj⟩ := f.ahead_next k
      refine ⟨hshort, j, t :: texts, ?_, by rw [List.flatten_cons, hr]⟩
      rw [← hj]
      exact .cons ht htexts

/-- The first read gets the whole file. -/
theorem opened_read (hlen : content.length ≤ fileBufSize) (heap : Fin fileBufSize → Char) :
    (opened content heap).read.Reads content content ∧ (opened content heap).read.point = .field .user ∧
      ((opened content heap).read.eof = true ↔ content.length < fileBufSize) := by
  have htemp : (List.ofFn heap).length = fileBufSize := List.length_ofFn
  unfold opened
  generalize List.ofFn heap = temp at htemp
  have hread : read {file := content, temp := temp} =
      {file := [], eof := content.length < fileBufSize, temp := temp, readLen := content.length, point := .field .user
       userlistBuf := content ++ List.replicate (fileBufSize - content.length) '\x00' } := by
    unfold read
    rw [if_neg Bool.false_ne_true]
    dsimp only
    rw [List.take_of_length_le hlen, List.drop_of_length_le hlen]
  rw [hread]
  exact ⟨⟨rfl, htemp, ⟨_, List.drop_zero⟩, Nat.zero_add _, rfl⟩, rfl, decide_eq_true_iff⟩

theorem opened_inRange (heap : Fin fileBufSize → Char) : (opened content heap).InRange content :=
  ⟨Int.le_refl 0, (Nat.zero_add _).le⟩

/-- A file made of lines is loaded, and its records are those of its fields. -/
theorem ends_of_lines (hlen : content.length < fileBufSize) (heap : Fin fileBufSize → Char) {k : Nat}
    {texts : List (List Char)} (htexts : List.Forall₂ UserField.Written (UserField.ahead .user k) texts)
    (hcontent : content = texts.flatten) :
    ∃ s, userManager.Ends (InRange content) (opened content heap) s ∧
      s.userMap = records {} (UserField.ahead .user k) texts := by
  obtain ⟨hreads, hpoint, heof⟩ := opened_read hlen.le heap
  obtain ⟨s, hends, hs⟩ := ends_of_texts hlen htexts rfl hpoint (heof.mpr hlen) (hcontent ▸ hreads)
  exact ⟨s, .step (done_reading rfl) (opened_inRange heap) (step_reading rfl) hends, hs⟩

end UserLoading

/-- The content is one line or more, each of five fields, and shorter than the array. -/
def WholeLines (content : List Char) : Prop :=
  content.length < fileBufSize ∧ ∃ k texts,
    List.Forall₂ UserField.Written (List.replicate (k + 1) UserField.line).flatten texts ∧ content = texts.flatten

/-! ### Writing a list -/

/-- How a permission is written. -/
def flag (b : Bool) : List Char := if b then "true".toList else "false".toList

/-- A name or a password that keeps to its place. -/
def Unbroken (text : List Char) : Prop := text ≠ [] ∧ ∀ c ∈ text, c ≠ ' ' ∧ c ≠ '\n' ∧ c ≠ '\x00'

instance (text : List Char) : Decidable (Unbroken text) :=
  decidable_of_iff (text ≠ [] ∧ text.all fun c => c != ' ' && c != '\n' && c != '\x00') <| by
    simp only [Unbroken, List.all_eq_true, Bool.and_eq_true, bne_iff_ne, and_assoc]

namespace UserList

/-- The fields of a line, each with its end. -/
def texts (u : UserList) : List (List Char) :=
  [u.user ++ [' '], u.pass ++ [' '], flag u.uploadPer ++ [' '], flag u.downloadPer ++ [' '], flag u.delePer ++ ['\n']]

/-- The line of a user. -/
def text (u : UserList) : List Char := u.texts.flatten

/-- The user as a record. -/
def record (u : UserList) : UserRecord := ⟨u.user, u.pass, u.uploadPer, u.downloadPer, u.delePer⟩

end UserList

section
variable {users : List UserList} {u : UserList} {text : List Char}

theorem flag_unbroken (b : Bool) : Unbroken (flag b) := by
  cases b <;> decide

theorem strncasecmp_flag (b : Bool) : strncasecmp (flag b) "true".toList 4 = b := by
  cases b <;> decide

theorem Unbroken.fieldText (h : Unbroken text) (f : UserField) {c : Char} (hc : f.delims = [c]) :
    FieldText f.delims (text ++ [c]) := by
  refine ⟨[], text, c, rfl, fun x hx => (nomatch hx), ?_, Or.inl ⟨by simp [hc], h.1⟩⟩
  intro x hx
  obtain ⟨hblank, hline, hzero⟩ := h.2 x hx
  apply tokenChar_iff.mpr
  cases f <;> simp [UserField.delims, hblank, hline, hzero]

/-- The fields of a line are written as the constructor reads them. -/
theorem texts_written (huser : Unbroken u.user) (hpass : Unbroken u.pass) :
    List.Forall₂ UserField.Written UserField.line u.texts := by
  have hflag (f : UserField) (hroom : f.room = none) {c : Char} (hc : f.delims = [c]) (b : Bool) :
      f.Written (flag b ++ [c]) :=
    ⟨(flag_unbroken b).fieldText f hc, fun n hn => nomatch hroom.symm.trans hn⟩
  have htext {f : UserField} {n : Nat} (hroom : f.room = some n) (hc : f.delims = [' ']) {text : List Char}
      (h : Unbroken text) (hlen : text.length < n) : f.Written (text ++ [' ']) := by
    refine ⟨h.fieldText f hc, ?_⟩
    intro m hm
    cases hroom.symm.trans hm
    rw [List.length_append, List.length_singleton]
    omega
  exact .cons (htext rfl rfl huser u.user_lt) (.cons (htext rfl rfl hpass u.pass_lt) (.cons (hflag .upload rfl rfl _)
    (.cons (hflag .download rfl rfl _) (.cons (hflag .dele rfl rfl _) .nil))))

theorem users_written (hunbroken : ∀ u ∈ users, Unbroken u.user ∧ Unbroken u.pass) :
    List.Forall₂ UserField.Written (List.replicate users.length UserField.line).flatten
      (users.flatMap UserList.texts) := by
  induction users with
  | nil => exact .nil
  | cons u rest ih =>
    obtain ⟨⟨huser, hpass⟩, hrest⟩ := List.forall_mem_cons.mp hunbroken
    rw [List.length_cons, List.replicate_succ, List.flatten_cons, List.flatMap_cons]
    exact List.rel_append (texts_written huser hpass) (ih hrest)

/-- The fields of a line make the record of its user. -/
theorem records_texts (v : UserRecord) (fs : List UserField) (more : List (List Char)) :
    records v (UserField.line ++ fs) (u.texts ++ more) = u.record :: records u.record fs more := by
  simp only [UserField.line, UserList.texts, UserList.record, List.cons_append, List.nil_append, records,
    UserRecord.set, List.dropLast_concat, strncasecmp_flag, reduceCtorEq, reduceIte]

theorem records_users (v : UserRecord) :
    records v (List.replicate users.length UserField.line).flatten (users.flatMap UserList.texts) =
      users.map UserList.record := by
  induction users generalizing v with
  | nil => rfl
  | cons u rest ih =>
    rw [List.length_cons, List.replicate_succ, List.flatten_cons, List.flatMap_cons, records_texts, ih, List.map_cons]

theorem flatten_texts : (users.flatMap UserList.texts).flatten = users.flatMap UserList.text := by
  rw [List.flatMap_def, List.flatMap_def, List.flatten_flatten, List.map_map]
  rfl

/-- The loops read a list of users as it was written. -/
theorem userlist_loads (hne : users ≠ []) (hunbroken : ∀ u ∈ users, Unbroken u.user ∧ Unbroken u.pass)
    (hlen : (users.flatMap UserList.text).length < fileBufSize) (heap : Fin fileBufSize → Char) :
    ∃ s, userManager.Ends (UserLoading.InRange (users.flatMap UserList.text))
        (.opened (users.flatMap UserList.text) heap) s ∧
      s.userMap = users.map UserList.record := by
  obtain ⟨k, hk⟩ : ∃ k, users.length = k + 1 := Nat.exists_eq_succ_of_ne_zero (mt List.length_eq_zero_iff.mp hne)
  have hwritten := users_written hunbroken
  rw [hk] at hwritten
  obtain ⟨s, hends, hs⟩ := UserLoading.ends_of_lines hlen heap (k := k) hwritten flatten_texts.symm
  refine ⟨s, hends, hs.trans ?_⟩
  rw [← records_users {}, hk]
  rfl

/-- Where the loops have inserted anything, a pointer of the map is left without its record. -/
theorem deleteUserList_eq {s : UserLoading} {kept : List UserRecord} {u : UserRecord} (h : s.userMap = kept ++ [u]) :
    s.deleteUserList = kept.map some ++ [none] := by
  rw [UserLoading.deleteUserList, h, List.map_append, List.map_singleton, List.modifyLast_concat]

/-- The constructor reads the file of these users, and leaves one record for each line, with what
was written. -/
def LoadsBack (users : List UserList) (heap : Fin fileBufSize → Char) : Prop :=
  ∃ s, userManager.Ends (UserLoading.InRange (users.flatMap UserList.text))
      (.opened (users.flatMap UserList.text) heap) s ∧
    s.deleteUserList = users.map fun u => some u.record

/-- Nothing loads a list back. -/
theorem not_loadsBack (hne : users ≠ []) (heap : Fin fileBufSize → Char) : ¬ LoadsBack users heap := by
  rintro ⟨s, _, hs⟩
  have hfilled : none ∉ s.deleteUserList := by
    rw [hs]
    simp
  rcases List.eq_nil_or_concat' s.userMap with hnone | ⟨kept, u, hkept⟩
  · rw [UserLoading.deleteUserList, hnone] at hs
    exact hne (List.map_eq_nil_iff.mp hs.symm)
  · rw [deleteUserList_eq hkept] at hfilled
    exact hfilled (List.mem_append_right _ (List.mem_singleton_self none))

end

/-- **The user list.** A list of users written line by line is read by the loops as it is, one
record for each line, in their order; and the constructor then frees the record of the last line,
whose pointer stays in the map. So it never loads back. -/
theorem userlist_loses_last (users : List UserList) (hne : users ≠ [])
    (hunbroken : ∀ u ∈ users, Unbroken u.user ∧ Unbroken u.pass)
    (hlen : (users.flatMap UserList.text).length < fileBufSize) (heap : Fin fileBufSize → Char) :
    (∃ s, userManager.Ends (UserLoading.InRange (users.flatMap UserList.text))
        (.opened (users.flatMap UserList.text) heap) s ∧
      s.userMap = users.map UserList.record ∧
      s.deleteUserList = (users.dropLast.map fun u => some u.record) ++ [none]) ∧
    ¬ LoadsBack users heap := by
  obtain ⟨s, hends, hs⟩ := userlist_loads hne hunbroken hlen heap
  refine ⟨⟨s, hends, hs, ?_⟩, not_loadsBack hne heap⟩
  have hlast : users.map UserList.record = users.dropLast.map UserList.record ++ [(users.getLast hne).record] := by
    rw [← List.map_singleton, ← List.map_append, List.dropLast_append_getLast hne]
  rw [deleteUserList_eq (hs.trans hlast), List.map_map]
  rfl

theorem test2_user : "test2".toList.length < userLen := by decide

theorem test2_pass : "123".toList.length < passLen := by decide

/-- The list that comes with the server. -/
def shippedUsers : List UserList :=
  Env.shipped.users ++
    [{user := "test2".toList, pass := "123".toList, uploadPer := false, downloadPer := true, delePer := false
      user_lt := test2_user, pass_lt := test2_pass}]

theorem userlist_loses_test2 :
    (∃ s, userManager.Ends (UserLoading.InRange (shippedUsers.flatMap UserList.text))
        (.opened (shippedUsers.flatMap UserList.text) fun _ => 'x') s ∧
      s.userMap = shippedUsers.map UserList.record ∧
      s.deleteUserList = (Env.shipped.users.map fun u => some u.record) ++ [none]) ∧
    ¬ LoadsBack shippedUsers fun _ => 'x' :=
  userlist_loses_last shippedUsers (by decide) (by decide) (by decide) fun _ => 'x'

/-- The last user of the shipped list is lost. -/
theorem shipped_not_loadsBack :
    shippedUsers ≠ [] ∧ (∀ u ∈ shippedUsers, Unbroken u.user ∧ Unbroken u.pass) ∧
      (shippedUsers.flatMap UserList.text).length < fileBufSize ∧ ¬ LoadsBack shippedUsers fun _ => 'x' :=
  ⟨by decide, by decide, by decide, not_loadsBack (by decide) _⟩

/-! ### Every file -/

theorem UserLoading.wholeLines_of_ends {content : List Char} {heap : Fin fileBufSize → Char}
    (hlen : content.length ≤ fileBufSize) {s : UserLoading}
    (hends : userManager.Ends (InRange content) (opened content heap) s) : WholeLines content := by
  obtain ⟨hreads, hpoint, heof⟩ := opened_read hlen heap
  obtain ⟨s', hs', hends⟩ := hends.next (done_reading rfl)
  cases (step_reading rfl).symm.trans hs'
  exact texts_of_ends hlen hends hpoint heof hreads

/-- **Loading.** The loops end, with no negative length and nothing read beyond the file, exactly
on a file of whole lines that is shorter than the array. -/
theorem userlist_ends_iff (content : List Char) (heap : Fin fileBufSize → Char)
    (hlen : content.length ≤ fileBufSize) :
    (∃ s, userManager.Ends (UserLoading.InRange content) (.opened content heap) s) ↔ WholeLines content := by
  constructor
  · intro h
    obtain ⟨s, hends⟩ := h
    exact UserLoading.wholeLines_of_ends hlen hends
  · intro h
    obtain ⟨hshort, k, texts, htexts, hcontent⟩ := h
    obtain ⟨s, hends, _⟩ := UserLoading.ends_of_lines hshort heap (k := k) htexts hcontent
    exact ⟨s, hends⟩

theorem userlist_ends_shipped :
    ∃ s, userManager.Ends (UserLoading.InRange (shippedUsers.flatMap UserList.text))
      (.opened (shippedUsers.flatMap UserList.text) fun _ => 'x') s := by
  have hunbroken : ∀ u ∈ shippedUsers, Unbroken u.user ∧ Unbroken u.pass := by decide
  exact (userlist_ends_iff _ _ (by decide)).mpr ⟨by decide, 2, _, users_written hunbroken, flatten_texts.symm⟩

/-- In a file of whole lines something ends a line. -/
theorem WholeLines.mem {content : List Char} (h : WholeLines content) : '\n' ∈ content ∨ '\x00' ∈ content := by
  obtain ⟨_, k, texts, htexts, rfl⟩ := h
  rw [List.replicate_succ, List.flatten_cons] at htexts
  have hfields : 4 < (UserField.line ++ (List.replicate k UserField.line).flatten).length := by
    rw [List.length_append]
    exact Nat.lt_add_right _ (by decide)
  have hfifth : 4 < texts.length := htexts.length_eq ▸ hfields
  have ht : UserField.Written .dele (texts.get ⟨4, hfifth⟩) := htexts.get hfields hfifth
  obtain ⟨lead, token, c, htext, _, _, hc⟩ := ht.text
  have hmem : c ∈ texts.flatten := by
    apply List.mem_flatten_of_mem (List.get_mem texts ⟨4, hfifth⟩)
    rw [htext]
    exact List.mem_append_right _ (List.mem_singleton_self c)
  obtain hc | rfl := hc
  · rw [List.mem_singleton.mp (List.contains_iff_mem.mp hc.1)] at hmem
    exact Or.inl hmem
  · exact Or.inr hmem

/-- An empty file, and one whose last line has no end. -/
theorem userlist_runs_on :
    (¬ ∃ s, userManager.Ends (UserLoading.InRange []) (.opened [] fun _ => 'x') s) ∧
      ¬ ∃ s, userManager.Ends (UserLoading.InRange "share share true true true".toList)
        (.opened "share share true true true".toList fun _ => 'x') s := by
  constructor
  · intro h
    obtain ⟨s, hends⟩ := h
    obtain hmem | hmem := (UserLoading.wholeLines_of_ends (by decide) hends).mem
    · exact nomatch hmem
    · exact nomatch hmem
  · intro h
    obtain ⟨s, hends⟩ := h
    obtain hmem | hmem := (UserLoading.wholeLines_of_ends (by decide) hends).mem
    · exact absurd hmem (by decide)
    · exact absurd hmem (by decide)

end HyperTransfer
