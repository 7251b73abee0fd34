import HyperTransfer.Server.ConfigFile

/-! What is written of a configuration and read back.

Whatever is read from a file, its keys and values have a form (`loaded_clean`) in which `operator<<`
writes them so that `operator>>` finds the same entries again, and no other form does (`saved_reads_back`). -/
namespace HyperTransfer
open Trimming
namespace ConfigFile

/-- A key as it can be read. -/
structure Key (cf : ConfigFile) (key : List Char) : Prop where
  trimmed : trimmed key = key
  line : '\n' ∉ key
  plain : cf.Plain key
  short : ¬ cf.myDelimiter <:+: key

/-- A value as it can be read: behind the first line none is blank or could be an entry. -/
structure Value (cf : ConfigFile) (value : List Char) : Prop where
  trimmed : trimmed value = value
  plain : cf.Plain value
  later : ∀ l ∈ later '\n' value, ConfigFile.trimmed l ≠ [] ∧ ¬ cf.myDelimiter <:+: l

/-- Every entry is as it can be read. -/
def Clean (cf : ConfigFile) (m : Contents) : Prop := ∀ key value, m[key]? = some value → cf.Key key ∧ cf.Value value

/-- The same before the blanks are taken away. -/
structure RawKey (cf : ConfigFile) (key : List Char) : Prop where
  line : '\n' ∉ key
  plain : cf.Plain key
  short : ¬ cf.myDelimiter <:+: key

structure RawValue (cf : ConfigFile) (value : List Char) : Prop where
  plain : cf.Plain value
  later : ∀ l ∈ later '\n' value, ConfigFile.trimmed l ≠ [] ∧ ¬ cf.myDelimiter <:+: l

/-- Between two lines. -/
def Tidy (cf : ConfigFile) : Reading → Prop
  | .between m => cf.Clean m
  | .within m key value => cf.Clean m ∧ cf.RawKey key ∧ cf.RawValue value
  | .ended m => cf.Clean m

variable {cf : ConfigFile} {m : Contents} {key value line last : List Char} {s : Reading}

theorem Plain.part {part : List Char} (h : cf.Plain line) (hin : part <:+: line) : cf.Plain part :=
  ⟨fun hc => h.1 (hc.trans hin), fun hs => h.2 (hs.mono hin)⟩

theorem trimmed_append (h : trimmed line = []) (value : List Char) : trimmed (value ++ line) = trimmed value :=
  trim_around (List.forall_mem_nil _) (trim_eq_nil.mp h)

/-- Two plain texts with a blank between them. -/
theorem Plain.across (h : cf.Sound) {c : Char} (hc : whitespace c) (hvalue : cf.Plain value) (hline : cf.Plain line) :
    cf.Plain (value ++ c :: line) := by
  constructor
  · rw [infix_across (h.comment_blank c hc)]
    exact not_or.mpr ⟨hvalue.1, hline.1⟩
  · intro hended
    obtain ⟨hne, hin⟩ := hended
    rw [infix_across (h.sentry_blank c hc)] at hin
    exact hin.elim (fun hin => hvalue.2 ⟨hne, hin⟩) fun hin => hline.2 ⟨hne, hin⟩

theorem Plain.blanks (h : cf.Sound) (hvalue : cf.Plain value) (hblank : trimmed line = []) : cf.Plain (value ++ line) := by
  have hblanks := trim_eq_nil.mp hblank
  constructor
  · rw [infix_append h.comment fun c hc => h.comment_blank c (hblanks c hc)]
    exact hvalue.1
  · intro hended
    obtain ⟨hne, hin⟩ := hended
    rw [infix_append hne fun c hc => h.sentry_blank c (hblanks c hc)] at hin
    exact hvalue.2 ⟨hne, hin⟩

theorem RawKey.trim (h : cf.RawKey key) : cf.Key (trimmed key) where
  trimmed := trim_trim key
  line hmem := h.line ((trim_within key).subset hmem)
  plain := h.plain.part (trim_within key)
  short hin := h.short (hin.trans (trim_within key))

theorem RawValue.trim (h : cf.RawValue value) : cf.Value (trimmed value) where
  trimmed := trim_trim value
  plain := h.plain.part (trim_within value)
  later l hl := by
    obtain ⟨blanks, hblanks, hmem⟩ := later_trim hl
    obtain ⟨hsome, hshort⟩ := h.later _ hmem
    rw [trimmed_append (trim_eq_nil.mpr hblanks)] at hsome
    exact ⟨hsome, fun hin => hshort (hin.trans (List.prefix_append ..).isInfix)⟩

/-- One more line of a value. -/
theorem RawValue.joined (h : cf.Sound) (hvalue : cf.RawValue value) (hline : '\n' ∉ line) (hgoes : ¬ cf.Ends line) :
    cf.RawValue (cf.joined value line) := by
  obtain ⟨_, hstop⟩ := not_or.mp hgoes
  obtain ⟨hdelim, hended⟩ := not_or.mp hstop
  have hcut : '\n' ∉ before line cf.myComment := fun hmem => hline ((before_starts line _).subset hmem)
  have hplain : cf.Plain (before line cf.myComment) := ⟨before_not h.comment line, hended⟩
  rw [ConfigFile.joined]
  generalize before line cf.myComment = cut at hdelim hcut hplain
  split
  · rename_i hsome
    rw [List.append_assoc, List.singleton_append]
    refine ⟨hvalue.plain.across h rfl hplain, fun l hl => ?_⟩
    rw [later_append_line hcut, List.mem_append, List.mem_singleton] at hl
    obtain hl | rfl := hl
    · exact hvalue.later l hl
    · exact ⟨hsome, hdelim⟩
  · rename_i hblank
    rw [not_not] at hblank
    refine ⟨hvalue.plain.blanks h hblank, fun l hl => ?_⟩
    have hblanks := trim_eq_nil.mp hblank
    obtain ⟨ls, last, hs, hsl⟩ := splitOn_append (s := value) hcut
    have hvalues := hvalue.later
    rw [Trimming.later, hs] at hvalues
    rw [Trimming.later, hsl] at hl
    cases ls with
    | nil => cases hl
    | cons first ls =>
      rw [List.cons_append, List.tail_cons] at hvalues hl
      obtain hl | hl := List.mem_append.mp hl
      · exact hvalues l (List.mem_append_left _ hl)
      · obtain ⟨hsome, hshort⟩ := hvalues last (List.mem_append_right _ (List.mem_singleton_self last))
        rw [List.mem_singleton.mp hl, trimmed_append hblank,
          infix_append h.delimiter fun c hc => h.delimiter_blank c (hblanks c hc)]
        exact ⟨hsome, hshort⟩

theorem Clean.insert (hm : cf.Clean m) (hkey : cf.Key key) (hvalue : cf.Value value) : cf.Clean (m.insert key value) := by
  intro k v hv
  rw [Std.ExtTreeMap.getElem?_insert] at hv
  split at hv
  · rename_i heq
    cases hv
    exact ⟨Std.LawfulEqOrd.eq_of_compare heq ▸ hkey, hvalue⟩
  · exact hm k v hv

theorem Tidy.stored (h : cf.Tidy s) : cf.Clean s.stored := by
  cases s with
  | between m => exact h
  | within m key value => exact h.1.insert h.2.1.trim h.2.2.trim
  | ended m => exact h

theorem fresh_tidy (h : cf.Sound) (hm : cf.Clean m) (hline : '\n' ∉ line) : cf.Tidy (cf.fresh m line) := by
  obtain ⟨_, hfresh⟩ | ⟨_, _, hfresh⟩ | ⟨hended, key, value, hfind, hfresh⟩ := cf.fresh_cases m line
  · exact hfresh ▸ hm
  · exact hfresh ▸ hm
  · obtain ⟨hcut, _⟩ := dropInfix?_eq_some.mp hfind
    have hplain : cf.Plain (before line cf.myComment) := ⟨before_not h.comment line, hended⟩
    have hnl : '\n' ∉ before line cf.myComment := fun hmem => hline ((before_starts line _).subset hmem)
    have hkey : key <:+: before line cf.myComment := ⟨[], cf.myDelimiter ++ value, by rw [hcut]; simp⟩
    have hvalue : value <:+: before line cf.myComment := ⟨key ++ cf.myDelimiter, [], by rw [hcut]; simp⟩
    rw [hfresh]
    refine ⟨hm, ⟨fun hmem => hnl (hkey.subset hmem), hplain.part hkey, dropInfix?_front h.delimiter hfind⟩,
      hplain.part hvalue, fun l hl => ?_⟩
    rw [later, List.splitOn_eq_singleton fun hmem => hnl (hvalue.subset hmem)] at hl
    cases hl

theorem takeLine_tidy (h : cf.Sound) (hs : cf.Tidy s) (hline : '\n' ∉ line) : cf.Tidy (cf.takeLine s line) := by
  cases s with
  | between m => exact fresh_tidy h hs hline
  | ended m => exact hs
  | within m key value =>
    rw [takeLine]
    split
    · exact fresh_tidy h hs.stored hline
    · rename_i hgoes
      exact ⟨hs.1, hs.2.1, hs.2.2.joined h hline hgoes⟩

theorem taken_tidy (h : cf.Sound) {lines : List (List Char)} (hs : cf.Tidy s) (hlines : ∀ l ∈ lines, '\n' ∉ l) :
    cf.Tidy (lines.foldl cf.takeLine s) := by
  induction lines generalizing s with
  | nil => exact hs
  | cons line lines ih =>
    exact ih (takeLine_tidy h hs (hlines line (List.mem_cons_self ..))) fun l hl => hlines l (List.mem_cons_of_mem line hl)

/-- Whatever the file is, its entries are as they can be read. -/
theorem loaded_clean (h : cf.Sound) (hm : cf.Clean cf.myContents) (text : List Char) :
    cf.Clean (cf.load ⟨text, false, false⟩).myContents := by
  obtain ⟨lines, last, rfl, hlines, hlast⟩ := exists_lines text
  rw [load_lines h hlines hlast]
  have hstart : cf.Tidy (.between cf.myContents) := hm
  refine (taken_tidy h hstart fun l hl => ?_).stored
  obtain hl | hl := List.mem_append.mp hl
  · exact hlines l hl
  · split at hl
    · exact nomatch hl
    · simp only [List.mem_cons, List.not_mem_nil, or_false, or_self] at hl
      exact hl ▸ hlast

/-! ### Writing -/

/-- The lines of an entry. -/
theorem exists_entry (cf : ConfigFile) (key : List Char) (hkey : '\n' ∉ key) (hdelim : '\n' ∉ cf.myDelimiter)
    (value : List Char) :
    ∃ first, value = first ++ (later '\n' value).flatMap ('\n' :: ·) ∧ '\n' ∉ first ∧
      cf.entry key value =
        ((key ++ ' ' :: (cf.myDelimiter ++ ' ' :: first)) :: later '\n' value).flatMap (· ++ ['\n']) ∧
      ∀ l ∈ (key ++ ' ' :: (cf.myDelimiter ++ ' ' :: first)) :: later '\n' value, '\n' ∉ l := by
  obtain ⟨first, hfirst, hvalue, hlater⟩ := exists_first '\n' value
  refine ⟨first, hvalue, hfirst, ?_, List.forall_mem_cons.mpr ⟨?_, hlater⟩⟩
  · rw [flatMap_lines, entry]
    conv => lhs; rw [hvalue]
    simp only [List.append_assoc, List.cons_append]
  · simp only [List.mem_append, List.mem_cons, not_or]
    exact ⟨hkey, by decide, hdelim, by decide, hfirst⟩

/-- The sentry has not been read. -/
def Reading.Open : Reading → Prop
  | between _ => True
  | within _ _ _ => True
  | ended _ => False

/-- The first line of an entry opens it. -/
theorem takeLine_opens (h : cf.Sound) {first : List Char} (hkey : cf.Key key) (hfirst : cf.Plain first) (hs : s.Open) :
    cf.takeLine s (key ++ ' ' :: (cf.myDelimiter ++ ' ' :: first)) =
      .within s.stored (key ++ [' ']) (' ' :: first) := by
  have hplain : cf.Plain (key ++ ' ' :: (cf.myDelimiter ++ ' ' :: first)) :=
    hkey.plain.across h rfl (h.plain.across h rfl hfirst)
  have hcut := before_of_not hplain.1
  have hfresh (m : Contents) :
      cf.fresh m (key ++ ' ' :: (cf.myDelimiter ++ ' ' :: first)) = .within m (key ++ [' ']) (' ' :: first) := by
    rw [fresh, hcut, if_neg hplain.2, dropInfix?_behind (h.delimiter_blank ' ' rfl) hkey.short]
  cases s with
  | ended m => exact hs.elim
  | between m => exact hfresh m
  | within m k v =>
    have hends : cf.Ends (key ++ ' ' :: (cf.myDelimiter ++ ' ' :: first)) := by
      refine Or.inr (Or.inl ?_)
      rw [hcut]
      exact ⟨key ++ [' '], ' ' :: first, by simp only [List.append_assoc, List.cons_append, List.nil_append]⟩
    rw [takeLine, if_pos hends]
    exact hfresh _

/-- The other lines go on with it. -/
theorem takeLine_goes {lines : List (List Char)}
    (hlines : ∀ l ∈ lines, cf.Plain l ∧ trimmed l ≠ [] ∧ ¬ cf.myDelimiter <:+: l) (m : Contents) (key value : List Char) :
    lines.foldl cf.takeLine (.within m key value) = .within m key (value ++ lines.flatMap ('\n' :: ·)) := by
  induction lines generalizing value with
  | nil => rw [List.flatMap_nil, List.append_nil, List.foldl_nil]
  | cons l lines ih =>
    obtain ⟨hplain, hsome, hdelim⟩ := hlines l (List.mem_cons_self ..)
    have hcut := before_of_not hplain.1
    have hgoes : ¬ cf.Ends l := by
      rw [Ends, hcut]
      exact not_or.mpr ⟨hsome, not_or.mpr ⟨hdelim, hplain.2⟩⟩
    have htaken : cf.takeLine (.within m key value) l = .within m key (value ++ '\n' :: l) := by
      rw [takeLine, if_neg hgoes, joined, hcut, if_pos hsome, List.append_assoc, List.singleton_append]
    rw [List.foldl_cons, htaken, ih fun x hx => hlines x (List.mem_cons_of_mem l hx), List.flatMap_cons]
    simp only [List.append_assoc, List.cons_append]

/-- A saved entry is stored as it was. -/
theorem entry_read (h : cf.Sound) (hkey : cf.Key key) (hvalue : cf.Value value) :
    ∃ lines : List (List Char), cf.entry key value = lines.flatMap (· ++ ['\n']) ∧ (∀ l ∈ lines, '\n' ∉ l) ∧
      ∀ s : Reading, s.Open → (lines.foldl cf.takeLine s).Open ∧
        (lines.foldl cf.takeLine s).stored = s.stored.insert key value := by
  obtain ⟨first, hparts, hfirst, htext, hlines⟩ := cf.exists_entry key hkey.line (h.delimiter_blank '\n' rfl) value
  have hpart (part : List Char) (hin : part <:+: value) : cf.Plain part := hvalue.plain.part hin
  have hplain : cf.Plain first := hpart first ⟨[], _, hparts.symm⟩
  have hmore : ∀ l ∈ later '\n' value, cf.Plain l ∧ trimmed l ≠ [] ∧ ¬ cf.myDelimiter <:+: l := by
    intro l hl
    refine ⟨hpart l ?_, hvalue.later l hl⟩
    have hline : '\n' :: l <:+: (later '\n' value).flatMap ('\n' :: ·) :=
      List.infix_of_mem_flatten (List.mem_map_of_mem hl)
    rw [hparts]
    exact (List.suffix_cons '\n' l).isInfix.trans (hline.trans (List.suffix_append ..).isInfix)
  refine ⟨_, htext, hlines, fun s hs => ?_⟩
  rw [List.foldl_cons, takeLine_opens h hkey hplain hs, takeLine_goes hmore, List.cons_append, ← hparts]
  refine ⟨trivial, ?_⟩
  have hkeys : trimmed (key ++ [' ']) = key := (trimmed_append rfl key).trans hkey.trimmed
  have hvalues : trimmed (' ' :: value) = value := by
    have haround : trimmed ([' '] ++ value ++ []) = trimmed value :=
      trim_around (List.forall_mem_singleton.mpr rfl) (List.forall_mem_nil _)
    rw [List.append_nil] at haround
    exact haround.trans hvalue.trimmed
  rw [Reading.stored, hkeys, hvalues]

/-- So are all the entries, in their order. -/
theorem entries_read (h : cf.Sound) {entries : List (List Char × List Char)}
    (hentries : ∀ p ∈ entries, cf.Key p.1 ∧ cf.Value p.2) :
    ∃ lines : List (List Char), (entries.flatMap fun p => cf.entry p.1 p.2) = lines.flatMap (· ++ ['\n']) ∧
      (∀ l ∈ lines, '\n' ∉ l) ∧
      ∀ s : Reading, s.Open → (lines.foldl cf.takeLine s).stored = s.stored.insertMany entries := by
  induction entries with
  | nil => exact ⟨[], rfl, List.forall_mem_nil _, fun s _ => rfl⟩
  | cons p entries ih =>
    obtain ⟨hkey, hvalue⟩ := hentries p (List.mem_cons_self ..)
    obtain ⟨first, hfirst, hfirsts, htaken⟩ := entry_read h hkey hvalue
    obtain ⟨lines, htext, hlines, hrest⟩ := ih fun q hq => hentries q (List.mem_cons_of_mem p hq)
    refine ⟨first ++ lines, ?_, fun l hl => ?_, fun s hs => ?_⟩
    · rw [List.flatMap_cons, hfirst, htext, List.flatMap_append]
    · exact (List.mem_append.mp hl).elim (hfirsts l) (hlines l)
    · obtain ⟨hopen, hstored⟩ := htaken s hs
      rw [List.foldl_append, hrest _ hopen, hstored, Std.ExtTreeMap.insertMany_list_eq_foldl,
        Std.ExtTreeMap.insertMany_list_eq_foldl]
      rfl

/-- A map is what its entries make. -/
theorem insertMany_toList (m : Contents) : (∅ : Contents).insertMany m.toList = m := by
  apply Std.ExtTreeMap.ext_getElem?
  intro k
  cases hk : m[k]? with
  | some v =>
    apply Std.ExtTreeMap.getElem?_insertMany_list_of_mem (Std.ReflCmp.compare_self)
    · exact m.distinct_keys_toList
    · exact Std.ExtTreeMap.mem_toList_iff_getElem?_eq_some.mpr hk
  | none =>
    rw [Std.ExtTreeMap.getElem?_insertMany_list_of_contains_eq_false]
    · exact Std.ExtTreeMap.getElem?_empty
    · rw [← Bool.not_eq_true, List.contains_iff_mem]
      intro hmem
      obtain ⟨p, hp, rfl⟩ := List.mem_map.mp hmem
      exact nomatch hk.symm.trans (Std.ExtTreeMap.mem_toList_iff_getElem?_eq_some.mp hp)

/-- The same syntax, and nothing read. -/
def emptied (cf : ConfigFile) : ConfigFile := {cf with myContents := ∅}

/-- The form of keys and values is one of the syntax alone. -/
theorem Clean.contents (h : cf.Clean m) (other : Contents) : ({cf with myContents := other} : ConfigFile).Clean m := by
  intro key value hvalue
  obtain ⟨hkey, hvalue⟩ := h key value hvalue
  exact ⟨⟨hkey.trimmed, hkey.line, hkey.plain, hkey.short⟩, hvalue.trimmed, hvalue.plain, hvalue.later⟩

theorem clean_empty (cf : ConfigFile) : cf.Clean ∅ := by
  intro key value hvalue
  rw [Std.ExtTreeMap.getElem?_empty] at hvalue
  exact nomatch hvalue

theorem Sound.emptied (h : cf.Sound) : cf.emptied.Sound := ⟨h.delimiter, h.comment, h.words, h.plain⟩

/-- **A configuration that is saved and loaded is the same exactly when its keys and values are such as a file
can give**: an entry of any other form is lost, cut or taken apart. -/
theorem saved_reads_back (cf : ConfigFile) (h : cf.Sound) :
    cf.emptied.load ⟨cf.save, false, false⟩ = cf ↔ cf.Clean cf.myContents := by
  constructor
  · intro hback
    have hclean := loaded_clean h.emptied (clean_empty _) cf.save
    rw [hback] at hclean
    exact hclean.contents cf.myContents
  · intro hclean
    have hentries : ∀ p ∈ cf.myContents.toList, cf.emptied.Key p.1 ∧ cf.emptied.Value p.2 := fun p hp =>
      hclean.contents ∅ p.1 p.2 (Std.ExtTreeMap.mem_toList_iff_getElem?_eq_some.mp hp)
    obtain ⟨lines, htext, hlines, hread⟩ := entries_read h.emptied hentries
    have hfile : cf.save = fileText lines [] := htext.trans (List.append_nil _).symm
    have hopen : (Reading.between cf.emptied.myContents).Open := trivial
    rw [hfile, load_lines h.emptied hlines List.not_mem_nil, taken, if_pos rfl, List.append_nil, hread _ hopen]
    show {cf with myContents := (∅ : Contents).insertMany cf.myContents.toList} = cf
    rw [insertMany_toList]

/-- Two settings, one of them with a value of two lines. -/
def twoSettings : ConfigFile :=
  (unread.add id "server_port".toList "2123".toList).add id "init_path".toList "/home\n/data".toList

theorem saved_reads_back_two : twoSettings.emptied.load ⟨twoSettings.save, false, false⟩ = twoSettings := by
  have hsound : twoSettings.Sound :=
    ⟨unread_sound.delimiter, unread_sound.comment, unread_sound.words, unread_sound.plain⟩
  have hport : twoSettings.Key "server_port".toList ∧ twoSettings.Value "2123".toList :=
    ⟨⟨by decide, by decide, by decide, by decide⟩, by decide, by decide, by decide⟩
  have hpath : twoSettings.Key "init_path".toList ∧ twoSettings.Value "/home\n/data".toList :=
    ⟨⟨by decide, by decide, by decide, by decide⟩, by decide, by decide, by decide⟩
  have hclean := ((clean_empty twoSettings).insert hport.1 hport.2).insert hpath.1 hpath.2
  exact (saved_reads_back twoSettings hsound).mpr hclean

/-- What has been loaded from any file can be saved and loaded again. -/
theorem loaded_saves_back (cf : ConfigFile) (h : cf.Sound) (text : List Char) :
    cf.emptied.load ⟨(cf.emptied.load ⟨text, false, false⟩).save, false, false⟩ = cf.emptied.load ⟨text, false, false⟩ := by
  have hsound : (cf.emptied.load ⟨text, false, false⟩).Sound := ⟨h.delimiter, h.comment, h.words, h.plain⟩
  refine (saved_reads_back _ hsound).mpr ?_
  exact (loaded_clean h.emptied (clean_empty _) text).contents _

theorem loaded_saves_back_remark :
    unread.emptied.load ⟨(unread.emptied.load ⟨"a = 1 # one\nb\n\nc=".toList, false, false⟩).save, false, false⟩ =
      unread.emptied.load ⟨"a = 1 # one\nb\n\nc=".toList, false, false⟩ :=
  loaded_saves_back unread unread_sound _

theorem takeLine_nil (h : cf.Sound) (s : Reading) : (cf.takeLine s []).stored = s.stored := by
  cases s with
  | ended m => rfl
  | between m =>
    rw [takeLine, fresh_blank h rfl]
  | within m key value =>
    have hends : cf.Ends [] := Or.inl rfl
    rw [takeLine, if_pos hends, fresh_blank h rfl, Reading.stored]

/-- **The last line of a file counts twice if nothing ends it**: a value that it goes on with has it two times. -/
theorem unended_twice (cf : ConfigFile) (h : cf.Sound) (text last : List Char)
    (htext : text = [] ∨ ∃ front, text = front ++ ['\n']) (hlast : '\n' ∉ last) :
    cf.load ⟨text ++ last, false, false⟩ = cf.load ⟨text ++ last ++ '\n' :: last ++ ['\n'], false, false⟩ := by
  have hwhole : ∃ lines, text = fileText lines [] ∧ ∀ l ∈ lines, '\n' ∉ l := by
    obtain rfl | ⟨front, rfl⟩ := htext
    · exact ⟨[], rfl, List.forall_mem_nil _⟩
    · obtain ⟨lines, l, rfl, hlines, hl⟩ := exists_lines front
      refine ⟨lines ++ [l], ?_, fun x hx => ?_⟩
      · simp only [fileText, List.flatMap_append, List.flatMap_singleton, List.append_assoc, List.append_nil]
      · exact (List.mem_append.mp hx).elim (hlines x) fun hx => List.mem_singleton.mp hx ▸ hl
  obtain ⟨lines, rfl, hlines⟩ := hwhole
  have hleft : fileText lines [] ++ last = fileText lines last := by rw [fileText, List.append_nil, fileText]
  have hright : fileText lines [] ++ last ++ '\n' :: last ++ ['\n'] = fileText (lines ++ [last, last]) [] := by
    simp only [fileText, List.flatMap_append, List.flatMap_cons, List.flatMap_nil, List.append_assoc, List.append_nil,
      List.cons_append, List.nil_append]
  have hmore : ∀ l ∈ lines ++ [last, last], '\n' ∉ l := by
    intro l hl
    obtain hl | hl := List.mem_append.mp hl
    · exact hlines l hl
    · rw [List.mem_pair, or_self] at hl
      exact hl ▸ hlast
  rw [hright, hleft, load_lines h hlines hlast, load_lines h hmore List.not_mem_nil, taken, taken, if_pos rfl,
    List.append_nil]
  split
  · rename_i hnil
    rw [hnil, List.append_nil, List.foldl_append, List.foldl_cons, List.foldl_cons, List.foldl_nil, takeLine_nil h,
      takeLine_nil h]
  · rfl

theorem unended_twice_value :
    unread.load ⟨"a = 1\n".toList ++ "b".toList, false, false⟩ =
      unread.load ⟨"a = 1\n".toList ++ "b".toList ++ '\n' :: "b".toList ++ ['\n'], false, false⟩ :=
  unended_twice unread unread_sound _ _ (Or.inr ⟨"a = 1".toList, rfl⟩) (by decide)

end ConfigFile
end HyperTransfer
