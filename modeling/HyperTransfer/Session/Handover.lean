import HyperTransfer.Session.Parked

/-! What a transfer takes over from the commands before it.

The path a transfer command has checked and the offset a `REST` has asked for wait in two
fields of the session until the data connection comes. `SIZE` writes the one without being
a transfer, and nothing takes the other back once it has been used: the file transferred
is the one that was checked (`checked_transferred_iff`), and the offset is that of a `REST`
for this transfer (`rest_once_iff`), under conditions on the commands in between. -/
namespace HyperTransfer
open CString History

def Effect.disk? : Effect → Option DiskTask
  | .postToDisk d => some d
  | _ => none

/-- The tasks a step posts to the disk threads; a session posts start tasks only. -/
def posted (e : SessionEdge) : List DiskTask := e.effects.filterMap Effect.disk?

/-- The step takes the data connection of an upload or a download. -/
def Collects (e : SessionEdge) : Prop :=
  e.input.task.action = .dataAccept ∧ (e.before.dataAction = .stor ∨ e.before.dataAction = .retr)

instance (e : SessionEdge) : Decidable (Collects e) := inferInstanceAs (Decidable (_ ∧ _))

/-- The path looked up by the last step that set the data action. -/
def checkedPath (past : List SessionEdge) : Option (List Char) :=
  (latest (fun e => if setsAction e then some (checkedBy e) else none) past).join

/-- The path of the last `SIZE` since then. -/
def sizedPath (past : List SessionEdge) : Option (List Char) := latest sized (since setsAction past)

section
variable {env : Env} {past : List SessionEdge} {e : SessionEdge}

theorem mem_posted {d : DiskTask} : d ∈ posted e ↔ .postToDisk d ∈ e.effects := by
  unfold posted
  rw [List.mem_filterMap]
  constructor
  · intro h
    obtain ⟨x, hx, hd⟩ := h
    cases x with
    | postToDisk d' =>
      injection hd with hd
      rwa [← hd]
    | _ => exact nomatch hd
  · intro h
    exact ⟨_, h, rfl⟩

/-- The data connection's task starts the transfer the data action asks for, and no other. -/
theorem starts_armed (h : (session env).Takes e) (haction : e.input.task.action = .dataAccept)
    (harmed : e.before.dataAction.armed = true) : ∃ d, posted e = [d] ∧ e.before.dataAction = d.action.from := by
  obtain ⟨r, hr, _, heffects⟩ := takes_roll h
  rw [posted, ← heffects]
  cases rollSession_comes env _ _ _ r hr with
  | listLoad _ hs _ path => exact ⟨.ofPath e.before.fd .indexStart path, rfl, hs⟩
  | storLoad _ hs => exact ⟨.ofPath e.before.fd .storStart e.before.fileName e.before.restSize, rfl, hs⟩
  | retrLoad _ hs => exact ⟨.ofPath e.before.fd .retrStart e.before.fileName e.before.restSize, rfl, hs⟩
  | idle _ hs =>
    rw [hs haction] at harmed
    exact nomatch harmed
  | unheard ht | heard ht | announced ht | busy ht | storStart ht | transOk ht =>
    rw [haction] at ht
    exact nomatch ht

/-- An upload or a download is started exactly by the data connection's task. -/
theorem collects_iff (h : (session env).Takes e) : Collects e ↔
    ∃ d ∈ posted e, (d.action = .storStart ∧ e.before.dataAction = .stor) ∨
      (d.action = .retrStart ∧ e.before.dataAction = .retr) := by
  constructor
  · intro hc
    obtain ⟨haction, hdata⟩ := hc
    have harmed : e.before.dataAction.armed = true := by
      rcases hdata with hdata | hdata <;> rw [hdata] <;> rfl
    obtain ⟨d, hd, hfrom⟩ := starts_armed h haction harmed
    refine ⟨d, by rw [hd]; exact List.mem_singleton_self _, ?_⟩
    rcases hdata with hdata | hdata
    · rw [hdata] at hfrom
      refine Or.inl ⟨?_, hdata⟩
      cases ha : d.action with
      | storStart => rfl
      | _ => rw [ha] at hfrom; exact nomatch hfrom
    · rw [hdata] at hfrom
      refine Or.inr ⟨?_, hdata⟩
      cases ha : d.action with
      | retrStart => rfl
      | _ => rw [ha] at hfrom; exact nomatch hfrom
  · intro hd
    obtain ⟨d, hd, hdata⟩ := hd
    refine ⟨((takes_moves h).2 d (mem_posted.mp hd)).1, ?_⟩
    rcases hdata with hdata | hdata
    · exact Or.inl hdata.2
    · exact Or.inr hdata.2

/-! ### The path -/

/-- The file name is the path that was checked, or that of the last `SIZE` since. -/
def Named (past : List SessionEdge) (s : Session) : Prop :=
  s.dataAction = .stor ∨ s.dataAction = .retr →
    ∃ p, checkedPath past = some p ∧ s.fileName = (sizedPath past).getD p

theorem named_step (h : (session env).Takes e) (hpast : Named past e.before) : Named (past ++ [e]) e.after := by
  intro haction
  have hparks := parks_step h
  cases hsets : setsAction e with
  | true =>
    have hchecked := hparks.checked hsets haction
    refine ⟨e.after.fileName, ?_, ?_⟩
    · rw [checkedPath, latest_append, if_pos hsets, Option.some_or, Option.join_some, hchecked]
    · rw [sizedPath, since_mark hsets, latest_nil, Option.getD_none]
  | false =>
    have harmed : e.after.dataAction.armed = true := by
      rcases haction with haction | haction <;> rw [haction] <;> rfl
    obtain ⟨hsame, hname⟩ := hparks.kept hsets harmed
    rw [← hsame] at haction
    obtain ⟨p, hp, hbefore⟩ := hpast haction
    refine ⟨p, ?_, ?_⟩
    · rw [checkedPath, latest_silent]
      · exact hp
      · rw [hsets]
        rfl
    · rw [hname, sizedPath, since_other hsets, latest_append, hbefore]
      cases hsized : sized e with
      | some q => rfl
      | none => rfl

end

/-- What an upload or a download is started with has been checked by the last command that
set the data action. -/
def Checked (now : List SessionEdge) (e : SessionEdge) : Prop :=
  ∀ d ∈ posted e, d.action = .storStart ∨ d.action = .retrStart → checkedPath now = some d.curPath

instance (now : List SessionEdge) (e : SessionEdge) : Decidable (Checked now e) :=
  inferInstanceAs (Decidable (∀ d ∈ posted e, _ → _))

/-- A data connection of an upload or a download finds that no other path than the one
checked has been given to `SIZE` in between. -/
def SizeAgrees (now : List SessionEdge) (e : SessionEdge) : Prop :=
  Collects e → ∀ q ∈ sizedPath now, checkedPath now = some q

instance (now : List SessionEdge) (e : SessionEdge) : Decidable (SizeAgrees now e) :=
  inferInstanceAs (Decidable (_ → _))

theorem checked_step {env : Env} {now : List SessionEdge} {e : SessionEdge} (h : (session env).Takes e)
    (hnow : Named now e.before) : Checked now e ↔ SizeAgrees now e := by
  constructor
  · intro hchecked hc q hq
    obtain ⟨d, hd, hdata⟩ := (collects_iff h).mp hc
    have haction : d.action = .storStart ∨ d.action = .retrStart := hdata.imp And.left And.left
    obtain ⟨p, hp, hname⟩ := hnow hc.2
    rw [hchecked d hd haction, (posts_parked h (mem_posted.mp hd) haction).1, hname, hq, Option.getD_some]
  · intro hagrees d hd haction
    have hfrom := ((takes_moves h).2 d (mem_posted.mp hd)).2.1
    have hc : Collects e := by
      refine (collects_iff h).mpr ⟨d, hd, ?_⟩
      rcases haction with haction | haction
      · exact Or.inl ⟨haction, by rw [hfrom, haction]; rfl⟩
      · exact Or.inr ⟨haction, by rw [hfrom, haction]; rfl⟩
    obtain ⟨p, hp, hname⟩ := hnow hc.2
    rw [(posts_parked h (mem_posted.mp hd) haction).1, hname]
    cases hq : sizedPath now with
    | none => exact hp
    | some q => exact hagrees hc q hq

/-- A logged in user with a port to connect to. -/
def sharePassive : List SessionInput :=
  shareLogin ++ [⟨.constant none, {fd := 7, action := .pasv, bufLen := 2024}⟩]

/-- An upload, with a look at another file before the data connection comes, or at none. -/
def uploadSized (size : List Char) : List SessionInput :=
  sharePassive ++ [.read (.constant none) 7 "STOR up\r\n".toList, .read (.constant none) 7 size,
    ⟨.constant none, {fd := 7, action := .dataAccept}⟩]

/-- The step starts a transfer. -/
def startsTransfer (e : SessionEdge) : Bool := !(posted e).isEmpty

/-- Who wrote the offset, and what. -/
inductive OffsetWriter where
  | rest (offset : Int)
  | appe (offset : Int)
deriving DecidableEq

def OffsetWriter.offset : OffsetWriter → Int
  | .rest offset => offset
  | .appe offset => offset

def writesOffset (e : SessionEdge) : Option OffsetWriter :=
  ((rested e).map .rest).or ((appended e).map .appe)

/-- The offset of the last `REST` since the last transfer was started. -/
def lastRest (past : List SessionEdge) : Option Int := latest rested (since startsTransfer past)

/-- The last command since then that wrote the offset. -/
def lastWriter (past : List SessionEdge) : Option OffsetWriter := latest writesOffset (since startsTransfer past)

/-- The command that set the data action. -/
def setBy (past : List SessionEdge) : Option Command :=
  (latest (fun e => if setsAction e then some ((e.input.task.handles e.before).map Prod.fst) else none) past).join

/-- A download, or an upload by `STOR`. -/
def FromOffset (past : List SessionEdge) (a : DataAction) : Prop :=
  a = .retr ∨ (a = .stor ∧ setBy past = some .stor)

instance (past : List SessionEdge) (a : DataAction) : Decidable (FromOffset past a) :=
  inferInstanceAs (Decidable (_ ∨ _))

/-- A download and an upload by `STOR` start at the offset of a `REST` that was for them,
and at the beginning where there was none. -/
def RestOnce (now : List SessionEdge) (e : SessionEdge) : Prop :=
  ∀ d ∈ posted e, d.action = .storStart ∨ d.action = .retrStart → FromOffset now e.before.dataAction →
    d.restSize = (lastRest now).getD 0

/-- The data connection of such a transfer finds an offset no other transfer has left:
since the last start a `REST` wrote it last, or an `APPE` that wrote what a `REST` would
have, or nothing has, and it is zero. -/
def OffsetFresh (now : List SessionEdge) (e : SessionEdge) : Prop :=
  Collects e → FromOffset now e.before.dataAction →
    match lastWriter now with
    | some (.rest _) => True
    | some (.appe n) => n = (lastRest now).getD 0
    | none => e.before.restSize = 0

instance (now : List SessionEdge) (e : SessionEdge) : Decidable (RestOnce now e) :=
  inferInstanceAs (Decidable (∀ d ∈ posted e, _ → _ → _))

instance (now : List SessionEdge) (e : SessionEdge) : Decidable (OffsetFresh now e) := by
  unfold OffsetFresh
  have : Decidable (match lastWriter now with
      | some (.rest _) => True
      | some (.appe n) => n = (lastRest now).getD 0
      | none => e.before.restSize = 0) := by
    split <;> infer_instance
  infer_instance

/-- The offset is what its last writer since the last start has written. -/
def Offset (past : List SessionEdge) (s : Session) : Prop :=
  ∀ w, lastWriter past = some w → s.restSize = w.offset

section
variable {env : Env} {past : List SessionEdge} {e : SessionEdge}

theorem offset_step (h : (session env).Takes e) (hpast : Offset past e.before) : Offset (past ++ [e]) e.after := by
  intro w hw
  have hoffset := (parks_step h).offset
  rw [lastWriter, since_append] at hw
  split at hw
  · exact nomatch hw
  · rw [latest_append] at hw
    unfold writesOffset at hw
    cases hrest : rested e with
    | some n =>
      rw [hrest] at hw hoffset
      cases hw
      exact hoffset
    | none =>
      cases happe : appended e with
      | some n =>
        rw [hrest, happe] at hw hoffset
        cases hw
        exact hoffset
      | none =>
        rw [hrest, happe] at hw hoffset
        exact hoffset.trans (hpast w hw)

/-- A `REST` that was the last writer was the last `REST`. -/
theorem rest_of_writer {n : Int} (h : lastWriter past = some (.rest n)) : lastRest past = some n := by
  unfold lastWriter lastRest at *
  generalize since startsTransfer past = run at *
  induction run using List.reverseRecOn with
  | nil => exact nomatch h
  | append_singleton run e ih =>
    rw [latest_append] at h ⊢
    unfold writesOffset at h
    cases hrest : rested e with
    | some m =>
      rw [hrest] at h
      cases h
      rfl
    | none =>
      cases happe : appended e with
      | some m =>
        rw [hrest, happe] at h
        exact nomatch h
      | none =>
        rw [hrest, happe] at h
        exact ih h

theorem rest_of_none (h : lastWriter past = none) : lastRest past = none := by
  refine latest_none (fun e he => ?_) h
  cases hrest : rested e with
  | none => rfl
  | some n =>
    rw [writesOffset, hrest] at he
    exact nomatch he

theorem offset_fresh_iff (h : (session env).Takes e) (hpast : Offset past e.before) :
    RestOnce past e ↔ OffsetFresh past e := by
  -- what the fields say of the offset the disk threads are handed
  have hfresh : (match lastWriter past with
      | some (.rest _) => True
      | some (.appe n) => n = (lastRest past).getD 0
      | none => e.before.restSize = 0) ↔ e.before.restSize = (lastRest past).getD 0 := by
    cases hw : lastWriter past with
    | none =>
      rw [rest_of_none hw]
      rfl
    | some w =>
      rw [hpast w hw]
      cases w with
      | rest n =>
        rw [rest_of_writer hw]
        exact iff_of_true trivial rfl
      | appe n => rfl
  rw [OffsetFresh, hfresh]
  constructor
  · intro honce hc hfrom
    obtain ⟨d, hd, hdata⟩ := (collects_iff h).mp hc
    have haction : d.action = .storStart ∨ d.action = .retrStart := hdata.imp And.left And.left
    rw [← honce d hd haction hfrom, (posts_parked h (mem_posted.mp hd) haction).2]
  · intro hoffset d hd haction hfrom
    rw [(posts_parked h (mem_posted.mp hd) haction).2]
    refine hoffset ⟨((takes_moves h).2 d (mem_posted.mp hd)).1, ?_⟩ hfrom
    exact hfrom.symm.imp And.left id

end

/-- **`REST` applies to one transfer only**, exactly when every download and every upload
by `STOR` finds an offset that nothing before the last start has left. -/
theorem rest_once_iff (env : Env) (s : Session) (inputs : List SessionInput) :
    Always RestOnce ((session env).trace s inputs) ↔ Always OffsetFresh ((session env).trace s inputs) := by
  have hstart : Offset [] s := fun w hw => nomatch hw
  exact always_iff inputs hstart (fun _ _ he hpast => offset_step he hpast) fun _ _ he hnow => offset_fresh_iff he hnow

/-- Two downloads of one file, the first of them from an offset. -/
def downloadTwice : List SessionInput :=
  sharePassive ++ [.read (.constant none) 7 "REST 5\r\n".toList,
    .read (.constant (some ⟨false, 42⟩)) 7 "RETR kept\r\n".toList, ⟨.constant none, {fd := 7, action := .dataAccept}⟩,
    ⟨.constant none, {fd := 7, action := .transOk}⟩, ⟨.constant none, {fd := 7, action := .pasv, bufLen := 2025}⟩,
    .read (.constant (some ⟨false, 42⟩)) 7 "RETR kept\r\n".toList, ⟨.constant none, {fd := 7, action := .dataAccept}⟩]

/-- The second download starts at the offset of the first one. -/
theorem rest_twice_download :
    ∃ h, acceptSession Env.shipped.config 0 [] (.accept 7 "10.0.0.9".toList) = .ok h ∧
      ¬ Always RestOnce ((session Env.shipped).trace h.session downloadTwice) ∧
      ((session Env.shipped).trace h.session downloadTwice).flatMap
          (fun e => (posted e).map (fun d => (d.action, d.restSize))) =
        [(.retrStart, 5), (.retrStart, 5)] :=
  ⟨_, rfl, by decide +kernel, by decide +kernel⟩

end HyperTransfer
