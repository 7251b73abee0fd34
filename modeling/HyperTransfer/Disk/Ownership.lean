import HyperTransfer.Disk.Steps

/-! Which transfer a disk task acts on.

The entry a start task finds in the map is kept, so the tasks that follow work on the
object of an earlier transfer of the descriptor unless that one came to an end
(`transfers_own_iff`). Where every transfer did, the tasks read and write what their own
start named, as long as no file is opened under a number that an object of the map still
carries. -/
namespace HyperTransfer
open CString

/-- The step starts a transfer on `fd`. -/
def StartsOn (fd : Fd) (e : DiskEdge) : Bool := e.input.task.action.starts && e.input.task.ctrlFd = fd

/-- The step ends the transfer of the object found for `fd`. -/
def EndsOn (fd : Fd) (e : DiskEdge) : Bool :=
  e.input.task.ctrlFd = fd &&
    match e.before.seekDisk fd with
    | some d => d.ends e.input.calls e.input.task e.before.files
    | none => false

/-- Every transfer started on `fd` has been ended. -/
def Ended (fd : Fd) (past : List DiskEdge) : Prop :=
  ∀ pre a post, past = pre ++ a :: post → StartsOn fd a = true → ∃ x ∈ post, EndsOn fd x = true

/-- A start task is followed by finding the object it made. -/
def FindsOwn (e : DiskEdge) : Prop :=
  e.input.task.action.starts = true →
    (e.after.seekDisk e.input.task.ctrlFd).map DiskInfo.address = some e.before.allocated

/-- Every start task comes when the earlier transfers of its descriptor have been ended. -/
def InTurn (trace : List DiskEdge) : Prop :=
  ∀ past e post, trace = past ++ e :: post → ∀ fd, StartsOn fd e = true → Ended fd past

/-- No object of the map carries the number a start task opens its file under. -/
def OpensFree (e : DiskEdge) : Prop :=
  e.input.task.action.starts = true → ∀ n, e.input.calls.opens = some n →
    ∀ fd d, e.before.seekDisk fd = some d → d.fileHandle ≠ some n

/-- The step works on the object made in the step `a`, and reads and writes what its task
named. -/
structure ActsFor (a e : DiskEdge) : Prop where
  object : ∀ d, e.before.seekDisk e.input.task.ctrlFd = some d → d.address = a.before.allocated
  path : ∀ x ∈ e.effects, ∀ p, x.path? = some p → p = strncpy pathSize a.input.task.curPath

section
variable {e : DiskEdge} {fd : Fd} {past : List DiskEdge} {m : DiskManager}

/-! ### Steps -/

/-- A start on the descriptor. -/
theorem start_step (h : diskManager.Takes e) (hs : StartsOn fd e = true) :
    ∃ w : DiskWork, w.Begins e.input.calls e.before e.input.task ∧ w.info.fd = fd ∧
      e.after.infos = Registry.insert e.before.infos fd w.info ∧
      e.after.allocated = e.before.allocated + 1 ∧ e.after.files = w.files := by
  obtain ⟨hstarts, hfd⟩ : e.input.task.action.starts = true ∧ e.input.task.ctrlFd = fd := by
    simpa [StartsOn] using hs
  obtain ⟨r, hacts, hafter, _⟩ := takes_acts h
  cases hacts with
  | starts w _ hw hm =>
    have hwfd : w.info.fd = fd := hw.fd.trans hfd
    rw [← hafter, hm]
    exact ⟨w, hw, hwfd, by rw [← hwfd]; rfl, rfl, rfl⟩
  | unknown hno => rw [hstarts] at hno; exact nomatch hno
  | works _ _ hno => rw [hstarts] at hno; exact nomatch hno
  | ends _ _ hno => rw [hstarts] at hno; exact nomatch hno

/-- A task that starts nothing changes objects at most where it leaves them alone. -/
theorem follow_step (h : diskManager.Takes e) (hs : e.input.task.action.starts = false) :
    e.after.allocated = e.before.allocated ∧ e.before.files.Keeps e.after.files ∧
      (∀ fd d', e.after.infos fd = some d' → ∃ d, e.before.infos fd = some d ∧ d'.kept = d.kept) ∧
      ∀ x ∈ e.effects, ∃ d, e.before.infos e.input.task.ctrlFd = some d ∧
        DiskWork.Touches {info := d, files := e.before.files} x := by
  obtain ⟨r, hacts, hafter, heffects⟩ := takes_acts h
  rw [← hafter, ← heffects]
  cases hacts with
  | starts w hstarts =>
    rw [hs] at hstarts
    exact nomatch hstarts
  | unknown _ hd hm he =>
    rw [hm, he]
    exact ⟨rfl, .refl _, fun fd d' hd' => ⟨d', hd', rfl⟩, fun x hx => nomatch hx⟩
  | works d w _ hd _ hw hm he =>
    rw [hm]
    refine ⟨rfl, hw.files, fun fd d' hd' => ?_, fun x hx => ⟨d, hd, he x hx⟩⟩
    by_cases hfd : fd = e.input.task.ctrlFd
    · rw [hfd] at hd' ⊢
      have hinfo : some w.info = some d' := (Registry.modify_same _ _ _).symm.trans hd'
      injection hinfo with hinfo
      exact ⟨d, hd, hinfo ▸ hw.kept⟩
    · exact ⟨d', (Registry.modify_other _ _ hfd).symm.trans hd', rfl⟩
  | ends d files _ hd _ hfiles hm he =>
    rw [hm]
    refine ⟨rfl, hfiles, fun fd d' hd' => ?_, fun x hx => ⟨d, hd, he x hx⟩⟩
    by_cases hfd : fd = e.input.task.ctrlFd
    · rw [hfd] at hd'
      exact nomatch (Registry.erase_same _ _).symm.trans hd'
    · exact ⟨d', (Registry.erase_other _ hfd).symm.trans hd', rfl⟩

/-- A task that finds no object does nothing. -/
theorem unknown_step (h : diskManager.Takes e) (hstarts : e.input.task.action.starts = false)
    (hd : e.before.infos e.input.task.ctrlFd = none) : e.after = e.before ∧ e.effects = [] := by
  obtain ⟨r, hacts, hafter, heffects⟩ := takes_acts h
  rw [← hafter, ← heffects]
  cases hacts with
  | starts w hno => rw [hstarts] at hno; exact nomatch hno
  | unknown _ _ hm he => exact ⟨hm, he⟩
  | works d w _ hfound => exact nomatch hd.symm.trans hfound
  | ends d files _ hfound => exact nomatch hd.symm.trans hfound

/-- A task has nothing to do with the other descriptors. -/
theorem infos_other (h : diskManager.Takes e) (hfd : fd ≠ e.input.task.ctrlFd)
    (hstarts : e.input.task.action.starts = false) : e.after.infos fd = e.before.infos fd := by
  obtain ⟨r, hacts, hafter, _⟩ := takes_acts h
  rw [← hafter]
  cases hacts with
  | starts w hno => rw [hstarts] at hno; exact nomatch hno
  | unknown _ _ hm => rw [hm]
  | works d w _ _ _ _ hm => rw [hm]; exact Registry.modify_other _ _ hfd
  | ends d files _ _ _ _ hm => rw [hm]; exact Registry.erase_other _ hfd

/-- What a step that starts nothing on `fd` leaves there was there before. -/
theorem entry_step (h : diskManager.Takes e) (hs : StartsOn fd e = false) :
    e.before.allocated ≤ e.after.allocated ∧
      ∀ d', e.after.infos fd = some d' → ∃ d, e.before.infos fd = some d ∧ d'.kept = d.kept := by
  cases hstarts : e.input.task.action.starts with
  | false =>
    obtain ⟨hallocated, _, hentry, _⟩ := follow_step h hstarts
    exact ⟨Nat.le_of_eq hallocated.symm, hentry fd⟩
  | true =>
    have hne : fd ≠ e.input.task.ctrlFd := by
      intro he
      simp [StartsOn, hstarts, he] at hs
    have hon : StartsOn e.input.task.ctrlFd e = true := by simp [StartsOn, hstarts]
    obtain ⟨w, _, _, hinfos, hallocated, _⟩ := start_step h hon
    refine ⟨by rw [hallocated]; exact Nat.le_succ _, fun d' hd' => ⟨d', ?_, rfl⟩⟩
    rwa [hinfos, Registry.insert_other _ _ hne] at hd'

/-- A step that starts nothing on `fd` leaves its entry free or taken as it was, unless
it ends the transfer there. -/
theorem taken_step (h : diskManager.Takes e) (hs : StartsOn fd e = false) :
    (e.after.infos fd).isSome = ((e.before.infos fd).isSome && !EndsOn fd e) := by
  obtain ⟨r, hacts, hafter, _⟩ := takes_acts h
  rw [← hafter]
  by_cases hfd : e.input.task.ctrlFd = fd
  · unfold EndsOn
    rw [← hfd]
    cases hacts with
    | starts w hstarts =>
      rw [StartsOn, hstarts, hfd] at hs
      simp at hs
    | unknown _ hd hm =>
      rw [hm]
      simp [show e.before.infos _ = none from hd]
    | works d w _ hd hends _ hm =>
      rw [hm, hd]
      simp [DiskManager.worked, show e.before.infos _ = some d from hd, hends]
    | ends d files _ hd hends _ hm =>
      rw [hm, hd]
      simp [hends]
  · have hne : fd ≠ e.input.task.ctrlFd := fun he => hfd he.symm
    have hends : EndsOn fd e = false := by simp [EndsOn, hfd]
    rw [hends, Bool.not_false, Bool.and_true]
    cases hacts with
    | starts w _ hw hm =>
      have hinsert : (e.before.started w).manager.infos fd = e.before.infos fd :=
        Registry.insert_other _ _ (hw.fd.symm ▸ hne)
      rw [hm, hinsert]
    | unknown _ _ hm => rw [hm]
    | works d w _ _ _ _ hm =>
      rw [hm]
      exact congrArg Option.isSome (Registry.modify_other _ _ hne)
    | ends d files _ _ _ _ hm =>
      rw [hm]
      exact congrArg Option.isSome (Registry.erase_other _ hne)

/-- The object a start task made is found exactly when the entry was free. -/
theorem finds_iff (h : diskManager.Takes e) (hs : StartsOn fd e = true)
    (hold : ∀ d, e.before.infos fd = some d → d.address < e.before.allocated) :
    FindsOwn e ↔ e.before.infos fd = none := by
  obtain ⟨hstarts, hfd⟩ : e.input.task.action.starts = true ∧ e.input.task.ctrlFd = fd := by
    simpa [StartsOn] using hs
  obtain ⟨w, hw, _, hinfos, _⟩ := start_step h hs
  unfold FindsOwn DiskManager.seekDisk
  rw [hfd, hinfos]
  cases hentry : e.before.infos fd with
  | none => simp [hstarts, hw.address, hentry]
  | some d =>
    have hlt := hold d hentry
    rw [Registry.insert_taken hentry, hentry]
    constructor
    · intro h
      have haddress : d.address = e.before.allocated := Option.some.inj (h hstarts)
      omega
    · exact fun h => nomatch h

/-! ### Runs -/

/-- Whether the entry is free tells whether the transfers started so far have been ended. -/
structure Tracks (fd : Fd) (past : List DiskEdge) (m : DiskManager) : Prop where
  free : m.infos fd = none ↔ Ended fd past
  old : ∀ d, m.infos fd = some d → d.address < m.allocated

theorem ended_start (hs : StartsOn fd e = true) : ¬ Ended fd (past ++ [e]) := by
  intro h
  obtain ⟨x, hx, _⟩ := h past e [] rfl hs
  exact nomatch hx

theorem ended_kept (hs : StartsOn fd e = false) :
    Ended fd (past ++ [e]) ↔ Ended fd past ∨ EndsOn fd e = true := by
  constructor
  · intro h
    by_cases hends : EndsOn fd e = true
    · exact Or.inr hends
    · apply Or.inl
      intro pre a post hpast ha
      obtain ⟨x, hx, hxends⟩ := h pre a (post ++ [e]) (by rw [hpast, List.append_assoc, List.cons_append]) ha
      rcases List.mem_append.mp hx with hx | hx
      · exact ⟨x, hx, hxends⟩
      · exact absurd (List.mem_singleton.mp hx ▸ hxends) hends
  · intro h pre a post hpast ha
    rcases append_last hpast with ⟨_, _, hlast⟩ | ⟨rest, hpost, hpast⟩
    · rw [hlast, ha] at hs
      exact nomatch hs
    · rw [hpost]
      rcases h with h | hends
      · obtain ⟨x, hx, hxends⟩ := h pre a rest hpast ha
        exact ⟨x, List.mem_append_left _ hx, hxends⟩
      · exact ⟨e, List.mem_append_right _ (List.mem_singleton_self e), hends⟩

theorem tracks_step (h : diskManager.Takes e) (hp : Tracks fd past e.before) :
    Tracks fd (past ++ [e]) e.after := by
  cases hs : StartsOn fd e with
  | true =>
    obtain ⟨w, hw, _, hinfos, hallocated, _⟩ := start_step h hs
    refine ⟨iff_of_false ?_ (ended_start hs), ?_⟩
    · rw [hinfos]
      cases hentry : e.before.infos fd with
      | none => simp [hentry]
      | some d => simp [hentry]
    · intro d hd
      rw [hinfos] at hd
      rw [hallocated]
      cases hentry : e.before.infos fd with
      | none =>
        rw [Registry.insert_free hentry] at hd
        rw [← Option.some.inj hd, hw.address]
        exact Nat.lt_succ_self _
      | some d' =>
        rw [Registry.insert_taken hentry] at hd
        exact Nat.lt_succ_of_lt (hp.old d hd)
  | false =>
    refine ⟨?_, ?_⟩
    · have hkept := taken_step h hs
      rw [ended_kept hs, ← hp.free]
      cases hends : EndsOn fd e with
      | true =>
        rw [hends, Bool.not_true, Bool.and_false] at hkept
        exact iff_of_true (Option.not_isSome_iff_eq_none.mp (by rw [hkept]; exact Bool.false_ne_true))
          (Or.inr rfl)
      | false =>
        rw [hends, Bool.not_false, Bool.and_true] at hkept
        rw [← Option.not_isSome_iff_eq_none, hkept, Option.not_isSome_iff_eq_none]
        simp
    · intro d' hd'
      obtain ⟨hallocated, hentry⟩ := entry_step h hs
      obtain ⟨d, hd, hkept⟩ := hentry d' hd'
      have haddress : d'.address = d.address := congrArg Prod.fst hkept
      rw [haddress]
      exact Nat.lt_of_lt_of_le (hp.old d hd) hallocated

/-- The object in the entry is the one the last start made. -/
def Latest (fd : Fd) (past : List DiskEdge) (m : DiskManager) : Prop :=
  ∀ pre a post, past = pre ++ a :: post → StartsOn fd a = true → (∀ x ∈ post, StartsOn fd x = false) →
    ∀ d, m.infos fd = some d →
      d.address = a.before.allocated ∧ d.curPath = strncpy pathSize a.input.task.curPath

theorem latest_step (h : diskManager.Takes e) (hfree : StartsOn fd e = true → e.before.infos fd = none)
    (hp : Latest fd past e.before) : Latest fd (past ++ [e]) e.after := by
  intro pre a post hpast ha hpost d' hd'
  cases hs : StartsOn fd e with
  | true =>
    obtain ⟨w, hw, _, hinfos, _⟩ := start_step h hs
    rw [hinfos, Registry.insert_free (hfree hs)] at hd'
    rcases append_last hpast with ⟨_, _, hlast⟩ | ⟨rest, hrest, _⟩
    · rw [← Option.some.inj hd', ← hlast]
      exact ⟨hw.address, hw.curPath⟩
    · have hno := hpost e (hrest ▸ List.mem_append_right _ (List.mem_singleton_self e))
      rw [hs] at hno
      exact nomatch hno
  | false =>
    rcases append_last hpast with ⟨_, _, hlast⟩ | ⟨rest, hrest, hpast⟩
    · rw [hlast, ha] at hs
      exact nomatch hs
    · obtain ⟨d, hd, hkept⟩ := (entry_step h hs).2 d' hd'
      injection hkept with haddress hkept
      injection hkept with _ hkept
      injection hkept with hpath _
      rw [haddress, hpath]
      exact hp pre a rest hpast ha (fun x hx => hpost x (hrest ▸ List.mem_append_left _ hx)) d hd

/-- Every handle is open on its object's path, if it is open. -/
def Honest (m : DiskManager) : Prop :=
  ∀ fd d, m.infos fd = some d → ∀ n, d.fileHandle = some n → m.files.Describes n d.curPath

theorem honest_step (h : diskManager.Takes e) (hopens : OpensFree e) (hp : Honest e.before) :
    Honest e.after := by
  intro fd d' hd' n hn
  cases hstarts : e.input.task.action.starts with
  | true =>
    have hon : StartsOn e.input.task.ctrlFd e = true := by simp [StartsOn, hstarts]
    obtain ⟨w, hw, _, hinfos, _, hfiles⟩ := start_step h hon
    -- an object that was there before carries another number than the new one
    have hthere : e.before.infos fd = some d' → e.after.files.Describes n d'.curPath := by
      intro hd p hfile
      rw [hfiles] at hfile
      refine hp fd d' hd n hn p (hw.files n p ?_ hfile)
      intro hnew
      exact hopens hstarts n (hw.handle n hnew).1 fd d' hd hn
    rw [hinfos] at hd'
    by_cases hfd : fd = e.input.task.ctrlFd
    · rw [← hfd] at hd'
      cases hentry : e.before.infos fd with
      | none =>
        rw [Registry.insert_free hentry] at hd'
        rw [hfiles, ← Option.some.inj hd']
        exact (hw.handle n (Option.some.inj hd' ▸ hn)).2
      | some d =>
        rw [Registry.insert_taken hentry] at hd'
        exact hthere hd'
    · rw [Registry.insert_other _ _ hfd] at hd'
      exact hthere hd'
  | false =>
    obtain ⟨_, hkeeps, hentry, _⟩ := follow_step h hstarts
    obtain ⟨d, hd, hkept⟩ := hentry fd d' hd'
    injection hkept with _ hkept
    injection hkept with _ hkept
    injection hkept with hpath hhandle
    rw [hpath]
    exact (hp fd d hd n (hhandle ▸ hn)).keep hkeeps

end

/-- A run on an empty map, seen from one descriptor. -/
theorem tracks_run {m : DiskManager} (hm : ∀ fd, m.seekDisk fd = none) {inputs : List DiskInput} (fd : Fd)
    {past : List DiskEdge} {e : DiskEdge} {post : List DiskEdge}
    (htrace : diskManager.trace m inputs = past ++ e :: post) :
    diskManager.Takes e ∧ Tracks fd past e.before := by
  have hfirst : Tracks fd [] m :=
    ⟨iff_of_true (hm fd) fun pre a post h => by simp at h, fun d hd => nomatch (hm fd).symm.trans hd⟩
  obtain ⟨htakes, hbefore, _⟩ := Machine.history (fun _ => True) [] hfirst
    (fun _ _ he _ hp => tracks_step he hp) (fun _ _ => trivial) past e post htrace
  exact ⟨htakes, hbefore⟩

theorem finds_own_iff (m : DiskManager) (hm : ∀ fd, m.seekDisk fd = none) (inputs : List DiskInput) :
    (∀ e ∈ diskManager.trace m inputs, FindsOwn e) ↔ InTurn (diskManager.trace m inputs) := by
  constructor
  · intro hfinds past e post htrace fd hs
    obtain ⟨htakes, htrack⟩ := tracks_run hm fd htrace
    have he := hfinds e (htrace ▸ List.mem_append_right _ (List.mem_cons_self ..))
    exact htrack.free.mp ((finds_iff htakes hs htrack.old).mp he)
  · intro hturn e he
    obtain ⟨past, post, htrace⟩ := List.append_of_mem he
    cases hstarts : e.input.task.action.starts with
    | false => exact fun h => nomatch hstarts.symm.trans h
    | true =>
      have hs : StartsOn e.input.task.ctrlFd e = true := by simp [StartsOn, hstarts]
      obtain ⟨htakes, htrack⟩ := tracks_run hm e.input.task.ctrlFd htrace
      exact (finds_iff htakes hs htrack.old).mpr (htrack.free.mpr (hturn past e post htrace _ hs))

/-- In a run in turn, a task that starts nothing acts for the last start of its descriptor. -/
theorem acts_for_last (m : DiskManager) (hm : ∀ fd, m.seekDisk fd = none) (inputs : List DiskInput)
    (hturn : InTurn (diskManager.trace m inputs)) (hopens : ∀ e ∈ diskManager.trace m inputs, OpensFree e)
    {past : List DiskEdge} {a : DiskEdge} {mid : List DiskEdge} {e : DiskEdge} {post : List DiskEdge}
    (htrace : diskManager.trace m inputs = past ++ a :: (mid ++ e :: post))
    (ha : StartsOn e.input.task.ctrlFd a = true) (hmid : ∀ x ∈ mid, StartsOn e.input.task.ctrlFd x = false)
    (he : e.input.task.action.starts = false) : ActsFor a e := by
  have hfree : ∀ x ∈ diskManager.trace m inputs,
      (StartsOn e.input.task.ctrlFd x = true → x.before.infos e.input.task.ctrlFd = none) ∧ OpensFree x := by
    intro x hx
    obtain ⟨before, after, hsplit⟩ := List.append_of_mem hx
    refine ⟨fun hs => ?_, hopens x hx⟩
    exact (tracks_run hm _ hsplit).2.free.mpr (hturn before x after hsplit _ hs)
  have hfirst : Latest e.input.task.ctrlFd [] m ∧ Honest m :=
    ⟨fun pre a post h => by simp at h, fun fd d hd => nomatch (hm fd).symm.trans hd⟩
  obtain ⟨htakes, ⟨hlatest, hhonest⟩, _⟩ := Machine.history
    (H := fun past m => Latest e.input.task.ctrlFd past m ∧ Honest m) _ [] hfirst
    (fun past x hx hc hp => ⟨latest_step hx hc.1 hp.1, honest_step hx hc.2 hp.2⟩) hfree
    (past ++ a :: mid) e post (by rw [htrace, List.append_assoc, List.cons_append])
  have hobject := hlatest past a mid rfl ha hmid
  refine ⟨fun d hd => (hobject d hd).1, fun x hx p hp => ?_⟩
  obtain ⟨_, _, _, htouch⟩ := follow_step htakes he
  obtain ⟨d, hd, hd'⟩ := htouch x hx
  rw [← (hobject d hd).2]
  rcases hd' p hp with hpath | ⟨_, n, hn, hopen⟩
  · exact hpath
  · exact hhonest _ d hd n hn p hopen

/-- **Whose transfer.** Every start task of a run is followed by finding the object it
made exactly when it comes after the end of the transfers started before on its
descriptor. In such a run the tasks that follow a start act on its object, and read and
write the file or directory it named, as long as start tasks open their files under
numbers no object carries. -/
theorem transfers_own_iff (m : DiskManager) (hm : ∀ fd, m.seekDisk fd = none) (inputs : List DiskInput) :
    ((∀ e ∈ diskManager.trace m inputs, FindsOwn e) ↔ InTurn (diskManager.trace m inputs)) ∧
      (InTurn (diskManager.trace m inputs) → (∀ e ∈ diskManager.trace m inputs, OpensFree e) →
        ∀ past a mid e post, diskManager.trace m inputs = past ++ a :: (mid ++ e :: post) →
          StartsOn e.input.task.ctrlFd a = true → (∀ x ∈ mid, StartsOn e.input.task.ctrlFd x = false) →
          e.input.task.action.starts = false → ActsFor a e) :=
  ⟨finds_own_iff m hm inputs, fun hturn hopens _ _ _ _ _ htrace ha hmid he =>
    acts_for_last m hm inputs hturn hopens htrace ha hmid he⟩

instance (e : DiskEdge) : Decidable (FindsOwn e) := inferInstanceAs (Decidable (_ → _))

/-- An upload of one chunk. -/
def oneUpload : List DiskInput :=
  [{task := .ofPath 7 .storStart "/data/a".toList, calls := {opens := some 5}},
    {task := {ctrlFd := 7, action := .storOk, fileBuffer := some ['x'], bufLen := 1}, calls := {writes := some 1}}]

theorem transfers_own_upload :
    ∃ a e, diskManager.trace (.idle .empty) oneUpload = [a, e] ∧ FindsOwn a ∧ ActsFor a e := by
  have hown := transfers_own_iff (.idle .empty) (fun _ => rfl) oneUpload
  have hturn := hown.1.mp (by decide +kernel)
  refine ⟨_, _, rfl, hown.1.mpr hturn _ (List.mem_cons_self ..), ?_⟩
  refine hown.2 hturn ?_ [] _ [] _ [] rfl rfl (fun _ h => nomatch h) rfl
  exact List.forall_mem_cons.mpr ⟨fun _ _ _ _ _ hd => (nomatch hd), List.forall_mem_singleton.mpr fun h => nomatch h⟩

/-- An upload whose data connection fails, and the next one on the same connection. -/
def abortedUpload : List DiskInput :=
  [{task := .ofPath 7 .storStart "/data/a".toList, calls := {opens := some 5}},
    {task := {ctrlFd := 7, action := .storing, fileBuffer := some ['x'], bufLen := 1}, calls := {writes := some 1}},
    {task := .ofPath 7 .storStart "/data/b".toList, calls := {opens := some 6}},
    {task := {ctrlFd := 7, action := .storing, fileBuffer := some ['y'], bufLen := 1}, calls := {writes := some 1}}]

/-- The second upload goes into the first one's file. -/
theorem transfer_not_own_aborted :
    ∃ a b e f, diskManager.trace (.idle .empty) abortedUpload = [a, b, e, f] ∧
      e.input.task.curPath = "/data/b".toList ∧ ¬ FindsOwn e ∧ f.effects = [.wrote (some "/data/a".toList) ['y']] :=
  ⟨_, _, _, _, rfl, by decide, by decide +kernel, by decide +kernel⟩

end HyperTransfer
