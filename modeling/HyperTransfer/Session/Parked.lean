import HyperTransfer.Lib.History
import HyperTransfer.Session.Access
import HyperTransfer.Session.Confinement

/-! The file name and the offset of a transfer that waits for its data connection.

A transfer command looks the file up and leaves its path in the session; the data
connection's task, whenever it comes, hands on what it finds there. `Parks` is what a
command makes of the two fields, `parks_step` what a task does. -/
namespace HyperTransfer
open CString

namespace Session

/-- What waits for the data connection. -/
def parked (s : Session) : List Char × Int := (s.fileName, s.restSize)

end Session

def Effect.sets : Effect → Bool
  | .setDataAction _ => true
  | _ => false

/-- The path given to `stat`. -/
def Effect.stat? : Effect → Option (List Char)
  | .stat path => some path
  | _ => none

/-- The first path looked up. -/
def looked (es : List Effect) : Option (List Char) := (es.filterMap Effect.stat?).head?

/-- The offset a `REST` asks for. -/
def restOffset (argument : List Char) : Int :=
  if strncasecmp argument " ".toList 1 then (scanLong (argument.drop 1)).getD 0 else 0

/-! ### Commands -/

/-- What a command makes of the file name and the offset. A transfer command that is
refused for the file itself has written the name already, which takes a data action
`DATA_PASV_OK`. -/
structure Handled.Parks (fs : FileSystem) (s : Session) (cmd : Command) (h : Handled) : Prop where
  offset : h.session.restSize =
    if cmd = .rest then restOffset s.processingCommand
    else if cmd = .appe ∧ h.effects.any Effect.sets = true then appeOffset fs h.session.fileName
    else s.restSize
  armed : h.effects.any Effect.sets = true → looked h.effects = some h.session.fileName ∨ cmd = .list
  unarmed : h.effects.any Effect.sets = false → s.dataAction ≠ .pasvOk → h.session.fileName =
    if cmd = .size then s.curPath ++ s.processingCommand else s.fileName

section
variable {fs : FileSystem} {s : Session} {cmd : Command} {h : Handled}

/-- Most commands park nothing. -/
theorem parks_nothing (hrest : cmd ≠ .rest) (hsize : cmd ≠ .size)
    (hsame : (h.session.parked, h.effects.any Effect.sets) = (s.parked, false)) : h.Parks fs s cmd := by
  injection hsame with hparked hsets
  injection hparked with hname hoffset
  refine ⟨?_, ?_, ?_⟩
  · rw [if_neg hrest, if_neg, hoffset]
    intro hcmd
    rw [hsets] at hcmd
    exact nomatch hcmd.2
  · intro harms
    rw [hsets] at harms
    exact nomatch harms
  · intro _ _
    rw [if_neg hsize, hname]

theorem comUSER_parks (users : List UserList) : Returns (comUSER users s) fun h => h.Parks fs s .user := by
  have hparks {h : Handled} (hh : (h.session.parked, h.effects.any Effect.sets) = (s.parked, false)) :
      h.Parks fs s .user := parks_nothing (by decide) (by decide) hh
  unfold comUSER Session.cmpProcessingCommand
  dsimp only
  split
  · split
    · exact .ok (hparks rfl)
    · split
      · exact .ok_bind (.bind_any fun _ => .ok (hparks rfl))
      · exact .ok (hparks rfl)
  · split
    · exact .ok (hparks rfl)
    · split
      · exact .ok_bind (.bind_any fun _ => .ok (hparks rfl))
      · exact .ok (hparks rfl)

theorem comPASS_parks : Returns (comPASS s) fun h => h.Parks fs s .pass := by
  have hparks {h : Handled} (hh : (h.session.parked, h.effects.any Effect.sets) = (s.parked, false)) :
      h.Parks fs s .pass := parks_nothing (by decide) (by decide) hh
  unfold comPASS
  split
  · exact .ok (hparks rfl)
  · split
    · split
      · refine .bind setPermission_writes fun t ht => .bind_any fun _ => .ok ?_
        obtain ⟨u, _, rfl⟩ := ht
        exact hparks rfl
      · exact .ok (hparks rfl)
    · exact .ok (hparks rfl)

theorem comCWD_parks (hcmd : cmd = .cwd ∨ cmd = .cdup) : Returns (comCWD fs s) fun h => h.Parks fs s cmd := by
  have hparks {h : Handled} (hh : (h.session.parked, h.effects.any Effect.sets) = (s.parked, false)) :
      h.Parks fs s cmd := by
    rcases hcmd with rfl | rfl <;> exact parks_nothing (by decide) (by decide) hh
  intro h hh
  cases comCWD_comes fs s h hh with
  | entered _ _ _ a _ _ _ _ _ path _ t ht =>
    have hsame : t.parked = s.parked := by
      rw [ht]
      split <;> rfl
    exact hparks (congrArg (fun p => (p, false)) hsame)
  | _ => exact hparks rfl

theorem comPWD_parks : Returns (comPWD s) fun h => h.Parks fs s .pwd := by
  have hparks {h : Handled} (hh : (h.session.parked, h.effects.any Effect.sets) = (s.parked, false)) :
      h.Parks fs s .pwd := parks_nothing (by decide) (by decide) hh
  unfold comPWD
  split
  · exact .bind_any fun _ => .bind_any fun _ => .bind_any fun _ => .ok (hparks rfl)
  · exact .ok (hparks rfl)

/-- `SIZE` writes the file name whatever it finds. -/
theorem comSIZE_parks : Returns (comSIZE fs s) fun h => h.Parks fs s .size := by
  have hparks {h : Handled} (hh : (h.session.parked, h.effects.any Effect.sets) =
      ((s.curPath ++ s.processingCommand, s.restSize), false)) : h.Parks fs s .size := by
    injection hh with hparked hsets
    injection hparked with hname hoffset
    refine ⟨hoffset, ?_, fun _ _ => hname⟩
    intro harms
    rw [hsets] at harms
    exact nomatch harms
  refine .bind (P := fun cur => cur = s.curPath) (fun cur hcur => (cstr_eq_ok.mp hcur).1) fun cur hcur => ?_
  refine .bind (P := fun path => path = s.curPath ++ s.processingCommand) ?_ fun path hpath => ?_
  · intro path hpath
    rw [((concat_eq_ok (by decide)).mp hpath).1, hcur]
    simp
  · refine .bind (P := fun _ => path.length < pathSize) (fun _ hname => (cstr_strncpy.mp hname).2) fun name hlen => ?_
    have hfile : strncpy pathSize path = s.curPath ++ s.processingCommand := by
      rw [strncpy_of_le (Nat.le_of_lt hlen), hpath]
    split
    · split
      · exact .bind_any fun _ => .bind_any fun _ => .ok (hparks (by rw [← hfile]; rfl))
      · exact .bind_any fun _ => .ok (hparks (by rw [← hfile]; rfl))
    · exact .bind_any fun _ => .bind_any fun _ => .ok (hparks (by rw [← hfile]; rfl))

theorem comREST_parks : Returns (comREST s) fun h => h.Parks fs s .rest := by
  unfold comREST Session.cmpProcessingCommand
  split
  · rename_i hblank
    refine .bind_any fun _ => .ok ⟨?_, fun h => (nomatch h), fun _ _ => rfl⟩
    rw [if_pos rfl, restOffset, if_pos hblank]
    rfl
  · rename_i hblank
    refine .ok ⟨?_, fun h => (nomatch h), fun _ _ => rfl⟩
    rw [if_pos rfl, restOffset, if_neg hblank]
    rfl

/-! ### Transfer commands -/

/-- The path a transfer's argument leads to fits its array. -/
theorem transferPath_fits {p : APath × List Char} (h : transferPath s = .ok p) :
    strncpy pathSize p.1.path = p.1.path := by
  obtain ⟨hterm, ha, _⟩ := transferPath_eq_ok.mp h
  exact strncpy_of_le (Nat.le_of_lt (changePath_length hterm.root hterm.cur ha))

/-- A refusal before the path is resolved. -/
theorem parks_refused (hrest : cmd ≠ .rest) (hsize : cmd ≠ .size) (hsets : h.effects.any Effect.sets = false)
    (hoffset : h.session.restSize = s.restSize) (hname : s.dataAction = .pasvOk ∨ h.session.fileName = s.fileName) :
    h.Parks fs s cmd := by
  refine ⟨?_, ?_, ?_⟩
  · rw [if_neg hrest, if_neg, hoffset]
    intro hcmd
    rw [hsets] at hcmd
    exact nomatch hcmd.2
  · intro harms
    rw [hsets] at harms
    exact nomatch harms
  · intro _ hdata
    rw [if_neg hsize]
    exact hname.resolve_left hdata

/-- A transfer accepted: the path looked up is the one in the file name. -/
theorem parks_accepted (hcmd : cmd = .stor ∨ cmd = .retr) (hoffset : h.session.restSize = s.restSize)
    (hsets : h.effects.any Effect.sets = true) (hname : looked h.effects = some h.session.fileName) :
    h.Parks fs s cmd := by
  refine ⟨?_, fun _ => Or.inl hname, ?_⟩
  · rcases hcmd with rfl | rfl
    · simpa using hoffset
    · simpa using hoffset
  · intro harms
    rw [hsets] at harms
    exact nomatch harms

theorem comLIST_parks : (comLIST s).Parks fs s .list := by
  unfold comLIST
  split
  · exact parks_refused (by decide) (by decide) rfl rfl (Or.inr rfl)
  · split
    · exact parks_refused (by decide) (by decide) rfl rfl (Or.inr rfl)
    · exact ⟨rfl, fun _ => Or.inr rfl, fun h => (nomatch h)⟩

/-- `APPE` parks the end of the file with its path. -/
theorem transfer_parks {env : Env} (hcmd : cmd.Transfers) :
    Returns (cmd.handle env fs s) fun h => h.Parks fs s cmd := by
  refine (transfer_comes hcmd).mono fun h hcomes => ?_
  have hother : cmd ≠ .rest ∧ cmd ≠ .size := by rcases hcmd with rfl | rfl | rfl <;> decide
  cases hcomes with
  | refused => exact parks_refused hother.1 hother.2 rfl rfl (Or.inr rfl)
  | answered hpass hport => exact parks_refused hother.1 hother.2 rfl rfl (Or.inl (hpass.port hport))
  | stor _ a jump hpath => exact parks_accepted (Or.inl rfl) rfl rfl (congrArg some (transferPath_fits hpath).symm)
  | appe _ a jump hpath =>
    have hfits : strncpy pathSize a.path = a.path := transferPath_fits hpath
    refine ⟨?_, fun _ => Or.inl (congrArg some hfits.symm), fun h => (nomatch h)⟩
    rw [if_neg (by decide), if_pos ⟨rfl, rfl⟩]
    show appeOffset fs a.path = appeOffset fs (strncpy pathSize a.path)
    rw [hfits]
  | retr _ a jump hpath => exact parks_accepted (Or.inr rfl) rfl rfl (congrArg some (transferPath_fits hpath).symm)

/-- What a command parks. -/
theorem handle_parks {env : Env} : Returns (cmd.handle env fs s) fun h => h.Parks fs s cmd := by
  cases cmd with
  | user => exact comUSER_parks env.users
  | pass => exact comPASS_parks
  | type =>
    refine .ok (parks_nothing (by decide) (by decide) ?_)
    unfold comTYPE
    split
    · rfl
    · split <;> rfl
  | cwd => exact comCWD_parks (Or.inl rfl)
  | cdup => exact comCWD_parks (Or.inr rfl)
  | pwd => exact comPWD_parks
  | appe => exact transfer_parks (Or.inr (Or.inl rfl))
  | size => exact comSIZE_parks
  | rest => exact comREST_parks
  | pasv =>
    refine .ok (parks_nothing (by decide) (by decide) ?_)
    unfold comPASV
    split <;> rfl
  | list => exact .ok comLIST_parks
  | stor => exact transfer_parks (Or.inl rfl)
  | retr => exact transfer_parks (Or.inr (Or.inr rfl))
  | syst => exact .ok (parks_nothing (by decide) (by decide) rfl)
  | feat => exact .ok (parks_nothing (by decide) (by decide) rfl)
  | bad => exact .ok (parks_nothing (by decide) (by decide) rfl)

end

/-! ### Steps -/

/-- The step sets the data action. -/
def setsAction (e : SessionEdge) : Bool := e.effects.any Effect.sets

/-- The path the command of a `SIZE` leaves in the file name. -/
def sized (e : SessionEdge) : Option (List Char) :=
  match e.input.task.handles e.before with
  | some (.size, argument) => some (e.before.curPath ++ argument)
  | _ => none

/-- The offset of a `REST`. -/
def rested (e : SessionEdge) : Option Int :=
  match e.input.task.handles e.before with
  | some (.rest, argument) => some (restOffset argument)
  | _ => none

/-- The offset of an `APPE` that was accepted. -/
def appended (e : SessionEdge) : Option Int :=
  match e.input.task.handles e.before with
  | some (.appe, _) =>
    if setsAction e then (looked e.effects).map (appeOffset e.input.fs) else none
  | _ => none

/-- The path a transfer command that was accepted has looked up. -/
def checkedBy (e : SessionEdge) : Option (List Char) :=
  match e.input.task.handles e.before with
  | some (.stor, _) => looked e.effects
  | some (.appe, _) => looked e.effects
  | some (.retr, _) => looked e.effects
  | _ => none

/-- What a step makes of the file name and the offset. -/
structure ParksOn (e : SessionEdge) : Prop where
  offset : e.after.restSize = ((rested e).or (appended e)).getD e.before.restSize
  checked : setsAction e = true → e.after.dataAction = .stor ∨ e.after.dataAction = .retr →
    checkedBy e = some e.after.fileName
  kept : setsAction e = false → e.after.dataAction.armed = true →
    e.before.dataAction = e.after.dataAction ∧ e.after.fileName = (sized e).getD e.before.fileName

section
variable {env : Env} {fs : FileSystem} {s : Session} {t : SessionTask}

/-- A task other than a command line parks nothing. -/
theorem rollSession_parks : Returns (rollSession env fs t s) fun h =>
    (t.line s = none ∧ h.session.parked = s.parked) ∨
    ∃ deal u g, t.line s = some (deal, u) ∧ u.parked = s.parked ∧
      (command deal).1.handle env fs (u.prepared deal) = .ok g ∧ h.session.parked = g.session.parked := by
  have hwait (h : Handled) : h.wait.session.parked = h.session.parked := by
    unfold Handled.wait
    split <;> rfl
  have hframe {r : Session} : Returns (frame r) fun p => ∀ deal u, p = some (deal, u) → u.parked = r.parked := by
    unfold frame
    split
    · exact .error _
    · dsimp only
      split
      · exact .ok fun _ _ h => nomatch h
      · split
        · refine .ok fun deal u h => ?_
          cases h
          rfl
        · split
          · refine .ok fun deal u h => ?_
            cases h
            rfl
          · exact .error _
  have hcat {r : Session} (hr : (s.setAction (.task .read)).catRecvCommand t.buf = .ok r) : r.parked = s.parked := by
    obtain ⟨text, _, hr⟩ := bind_eq_ok.mp hr
    cases hr
    rfl
  intro h hh
  cases rollSession_comes env fs t s h hh with
  | unheard ht r hr hnone => exact Or.inl ⟨line_read ht hr hnone, hcat hr⟩
  | heard ht r hr deal u hsome g hg =>
    obtain ⟨k, hk, hsession, _⟩ := dispatch_writes deal g hg
    refine Or.inr ⟨deal, u, k, line_read ht hr hsome, (hframe _ hsome deal u rfl).trans (hcat hr), hk, ?_⟩
    rw [hwait, hsession]
  | idle ht => exact Or.inl ⟨line_none ht, rfl⟩
  | announced ht | busy ht | listLoad ht | storLoad ht | retrLoad ht | storStart ht | transOk ht =>
    exact Or.inl ⟨line_none (by simp [ht]), rfl⟩

/-- Effects that move nothing set no data action. -/
theorem sets_none {es : List Effect} (h : es.filter Effect.moves = []) : es.any Effect.sets = false := by
  rw [List.filter_eq_nil_iff] at h
  rw [List.any_eq_false]
  intro x hx hsets
  apply h x hx
  cases x with
  | setDataAction a => rfl
  | _ => exact nomatch hsets

theorem sets_of_mem {es : List Effect} {a : DataAction} (h : .setDataAction a ∈ es) : es.any Effect.sets = true :=
  List.any_eq_true.mpr ⟨_, h, rfl⟩

/-- A task other than a command line sets nothing, or disarms the data action. -/
theorem parks_task {e : SessionEdge} (hnone : e.input.task.handles e.before = none)
    (hparked : e.after.parked = e.before.parked)
    (hdata : (e.after.dataAction = e.before.dataAction ∧ Quiet e) ∨ e.after.dataAction.armed = false) : ParksOn e := by
  injection hparked with hname hoffset
  refine ⟨?_, ?_, ?_⟩
  · simp only [rested, appended, hnone, Option.none_or, Option.getD_none]
    exact hoffset
  · intro hsets haction
    rcases hdata with ⟨_, hquiet⟩ | hoff
    · obtain ⟨x, hx, hset⟩ := List.any_eq_true.mp hsets
      cases x with
      | setDataAction a => exact absurd hx (hquiet a)
      | _ => exact nomatch hset
    · rcases haction with haction | haction <;> rw [haction] at hoff <;> exact nomatch hoff
  · intro _ harmed
    rcases hdata with ⟨hsame, _⟩ | hoff
    · refine ⟨hsame.symm, ?_⟩
      simp only [sized, hnone, Option.getD_none]
      exact hname
    · rw [hoff] at harmed
      exact nomatch harmed

/-- A command line parks what its command does. -/
theorem parks_line {e : SessionEdge} {u : Session} {cmd : Command} {g : Handled}
    (hhandles : e.input.task.handles e.before = some (cmd, u.processingCommand))
    (hu : (u.parked, u.curPath, u.dataAction) = (e.before.parked, e.before.curPath, e.before.dataAction))
    (hparks : g.Parks e.input.fs u cmd) (hmoves : g.Replies u ∨ g.Arms cmd.arms)
    (hafter : (e.after.parked, e.after.dataAction) = (g.session.parked, g.session.dataAction))
    (hset : setsAction e = g.effects.any Effect.sets) (hlooked : looked e.effects = looked g.effects) : ParksOn e := by
  injection hafter with hgparked hgdata
  injection hgparked with hname hoffset
  injection hu with huparked hu
  injection huparked with huname huoffset
  injection hu with hcur hdata
  refine ⟨?_, ?_, ?_⟩
  · rw [hoffset, hparks.offset]
    cases cmd with
    | rest => simp [rested, hhandles]
    | appe =>
      cases hany : g.effects.any Effect.sets with
      | true =>
        have hfile := (hparks.armed hany).resolve_right (by decide)
        simp [rested, appended, hhandles, hset, hany, hlooked, hfile]
      | false => simp [rested, appended, hhandles, hset, hany, huoffset]
    | _ => simp [rested, appended, hhandles, huoffset]
  · intro hsets haction
    rw [hset] at hsets
    rcases hmoves with hreplies | harms
    · rw [sets_none hreplies.moves] at hsets
      exact nomatch hsets
    · rw [hgdata, harms.dataAction] at haction
      have hchecked : checkedBy e = looked e.effects ∧ cmd ≠ .list := by
        cases cmd with
        | stor => simp [checkedBy, hhandles]
        | appe => simp [checkedBy, hhandles]
        | retr => simp [checkedBy, hhandles]
        | _ => rcases haction with haction | haction <;> exact nomatch haction
      rw [hchecked.1, hlooked, hname]
      exact (hparks.armed hsets).resolve_right hchecked.2
  · intro hsets harmed
    rw [hset] at hsets
    rcases hmoves with hreplies | harms
    · have hsame : e.before.dataAction = e.after.dataAction := by
        rw [hgdata, hreplies.dataAction, hdata]
      refine ⟨hsame, ?_⟩
      have hpasv : u.dataAction ≠ .pasvOk := by
        rw [hdata, hsame]
        intro hpasv
        rw [hpasv] at harmed
        exact nomatch harmed
      rw [hname, hparks.unarmed hsets hpasv]
      cases cmd with
      | size => simp [sized, hhandles, hcur]
      | _ => simp [sized, hhandles, huname]
    · have hmem : Effect.setDataAction cmd.arms ∈ g.effects.filter Effect.moves := by
        rw [harms.moves]
        exact List.mem_singleton_self _
      rw [sets_of_mem (List.mem_filter.mp hmem).1] at hsets
      exact nomatch hsets

theorem parks_step {e : SessionEdge} (h : (session env).Takes e) : ParksOn e := by
  obtain ⟨r, hr, hafter, heffects⟩ := takes_roll h
  rcases rollSession_parks r hr with ⟨hline, hparked⟩ | ⟨deal, u, g, hline, huparked, hg, hgparked⟩
  · have hnone : e.input.task.handles e.before = none := by rw [SessionTask.handles, hline, Option.map_none]
    rcases rollSession_cases r hr with ⟨_, _, hloads⟩ | ⟨deal, u, g, hsome, _⟩
    · apply parks_task hnone (hafter ▸ hparked)
      rw [← hafter, Quiet, ← heffects]
      exact hloads.dataAction
    · rw [hline] at hsome
      cases hsome
  · rcases rollSession_cases r hr with ⟨hnone, _⟩ | ⟨deal', u', g', hline', hcore, hudata, hg', _, hgdata, heff⟩
    · rw [hnone] at hline
      cases hline
    · -- the two summaries speak of the same line and the same handler's run
      rw [hline] at hline'
      cases hline'
      rw [hg] at hg'
      cases hg'
      have hcur : (u.prepared deal).curPath = e.before.curPath := congrArg (fun p => p.2.2) (Session.place_of_core hcore)
      rw [hafter] at hgparked hgdata
      refine parks_line (handles_of_line hline) (Prod.ext huparked (Prod.ext hcur hudata)) (handle_parks g hg)
        ((handle_moves g hg).imp_right And.right) (Prod.ext hgparked hgdata) ?_ ?_
      · rw [setsAction, ← heffects, heff]
        rfl
      · rw [← heffects, heff]
        rfl

/-- An upload or a download starts with what is parked. -/
theorem posts_parked {e : SessionEdge} (h : (session env).Takes e) {d : DiskTask} (hd : .postToDisk d ∈ e.effects)
    (ha : d.action = .storStart ∨ d.action = .retrStart) :
    d.curPath = e.before.fileName ∧ d.restSize = e.before.restSize := by
  obtain ⟨haction, hfrom, _⟩ := (takes_moves h).2 d hd
  obtain ⟨r, hr, _, heffects⟩ := takes_roll h
  rw [← heffects] at hd
  have harmed : e.before.dataAction.armed = true := by
    rcases ha with ha | ha <;> rw [hfrom, ha] <;> rfl
  cases rollSession_comes env _ _ _ r hr with
  | listLoad _ hs =>
    rw [hs] at hfrom
    rcases ha with ha | ha <;> rw [ha] at hfrom <;> cases hfrom
  | storLoad _ _ hname =>
    obtain rfl : d = _ := by simpa using hd
    exact ⟨strncpy_of_le (Nat.le_of_lt hname), rfl⟩
  | retrLoad _ _ hname =>
    obtain rfl : d = _ := by simpa [Session.post] using hd
    exact ⟨strncpy_of_le (Nat.le_of_lt hname), rfl⟩
  | idle _ hs =>
    rw [hs haction] at harmed
    cases harmed
  | unheard ht | heard ht | announced ht | busy ht | storStart ht | transOk ht =>
    rw [haction] at ht
    cases ht

end
end HyperTransfer
