import HyperTransfer.Disk.Ownership

/-! Which paths the disk side touches.

A path comes in with a start task, whose file is opened or whose directory is gone through. Any
other task goes by the object and by what its handle is open on, be it its own transfer's file or
not: in a run, whatever is opened or listed was named by a start task for the same descriptor, and
whatever is read or written by one for some descriptor (`covered_step`). -/
namespace HyperTransfer
open CString

/-- The paths of the objects, and of the descriptors for some object, are among `P`. -/
structure DiskManager.Covered (P : Fd → List Char → Prop) (m : DiskManager) : Prop where
  infos : ∀ fd d, m.infos fd = some d → P fd d.curPath
  files : ∀ n p, m.files.pathOf n = some p → ∃ fd, P fd p

namespace DiskWork
variable {c : DiskCalls} {m : DiskManager} {t : DiskTask} {w v : DiskWork}

/-- What touches a new object or its file touches what the task names. -/
theorem Begins.touches (hw : w.Begins c m t) {x : DiskEffect} (hx : w.Touches x) :
    ∀ p, x.path? = some p → p = strncpy pathSize t.curPath := by
  intro p hp
  rw [← hw.curPath]
  rcases hx p hp with hpath | ⟨_, d, hd, hopen⟩
  · exact hpath
  · exact (hw.handle d hd).2 p hopen

/-- Work that has touched what the task names alone. -/
def Stays (t : DiskTask) (w : DiskWork) : Prop := ∀ x ∈ w.effects, ∀ p, x.path? = some p → p = strncpy pathSize t.curPath

theorem Stays.goes (hw : w.Begins c m t) (hstays : w.Stays t) (h : w.Goes v) : v.Stays t := by
  obtain ⟨new, hnew, htouch⟩ := h.effects
  intro x hx
  rw [hnew] at hx
  rcases List.mem_append.mp hx with hx | hx
  · exact hstays x hx
  · exact hw.touches (htouch x hx)

theorem construct_stays : (m.construct t).Stays t := fun _ h => nomatch h

theorem openPath_stays (create : Bool) : ((m.construct t).openPath c create).Stays t := by
  refine List.forall_mem_singleton.mpr fun p hp => ?_
  injection hp with hp
  exact hp.symm

end DiskWork

namespace DiskFsm
variable {c : DiskCalls} {m : DiskManager} {t : DiskTask}

theorem runRetrStart_stays : (runRetrStart c (m.construct t)).2.Stays t :=
  (DiskWork.openPath_stays false).goes (DiskWork.openPath_begins false)
    ((DiskWork.seekFileHandle_goes _).trans (runRetrLoading_goes _))

theorem runStorStart_stays : (runStorStart c (m.construct t)).2.Stays t := by
  unfold runStorStart
  split
  · exact DiskWork.openPath_stays true
  · exact (DiskWork.openPath_stays false).goes (DiskWork.openPath_begins false)
      ((DiskWork.seekFileHandle_goes _).trans (DiskWork.goes_none rfl (.refl _) rfl))

/-- A start task touches the path it names. -/
theorem starts_stay (hstarts : t.action.starts = true) : Returns (rollStateMachine c t m) fun h =>
    ∀ x ∈ h.effects, ∀ p, x.path? = some p → p = strncpy pathSize t.curPath := by
  unfold rollStateMachine
  cases ht : t.action with
  | indexStart =>
    refine .bind (runIndexStart_goes _) fun r hr => .bind (DiskWork.dataPost_goes _ _ _) fun w hw => .ok ?_
    exact DiskWork.construct_stays.goes (c := c) DiskWork.construct_begins
      ((hr.trans (DiskWork.setDataAction_goes _ _)).trans hw)
  | storStart =>
    dsimp only
    rw [runStorStart_ret, if_pos rfl]
    refine .ok fun x hx => ?_
    rcases List.mem_append.mp hx with hx | hx
    · exact runStorStart_stays x hx
    · rw [List.mem_singleton.mp hx]
      exact fun _ hp => nomatch hp
  | retrStart =>
    refine .bind (DiskWork.dataPost_goes _ _ _) fun w hw => .ok ?_
    exact runRetrStart_stays.goes runRetrStart_begins ((DiskWork.setDataAction_goes _ _).trans hw)
  | _ =>
    rw [ht] at hstarts
    cases hstarts

end DiskFsm

/-- A step touches the paths of before, those of its own descriptor where it goes by a path; one that
starts a transfer touches the path it names. -/
theorem covered_step {P : Fd → List Char → Prop} {e : DiskEdge} (h : diskManager.Takes e) (hp : e.before.Covered P)
    (hnames : e.input.task.action.starts = true → P e.input.task.ctrlFd (strncpy pathSize e.input.task.curPath)) :
    e.after.Covered P ∧ ∀ x ∈ e.effects, ∀ p, x.path? = some p →
      ∃ fd, P fd p ∧ (x.byPath = true → fd = e.input.task.ctrlFd) := by
  cases hstarts : e.input.task.action.starts with
  | true =>
    have hnamed := hnames hstarts
    have hon : StartsOn e.input.task.ctrlFd e = true := by simp [StartsOn, hstarts]
    obtain ⟨w, hw, _, hinfos, _, hfiles⟩ := start_step h hon
    obtain ⟨r, hr, he⟩ := bind_eq_ok.mp h
    refine ⟨⟨fun fd d hd => ?_, fun n p hpath => ?_⟩, fun x hx p hpath => ?_⟩
    · rw [hinfos] at hd
      rcases Registry.insert_cases hd with hd | ⟨hfd, rfl⟩
      · exact hp.infos fd d hd
      · rw [hw.curPath, hfd]
        exact hnamed
    · rw [hfiles] at hpath
      by_cases hnew : w.info.fileHandle = some n
      · rw [(hw.handle n hnew).2 p hpath, hw.curPath]
        exact ⟨_, hnamed⟩
      · exact hp.files n p (hw.files n p hnew hpath)
    · injection he with he
      injection he with _ heffects
      rw [← heffects] at hx
      rw [DiskFsm.starts_stay hstarts r hr x hx p hpath]
      exact ⟨_, hnamed, fun _ => rfl⟩
  | false =>
    obtain ⟨_, hkeeps, hentry, htouch⟩ := follow_step h hstarts
    refine ⟨⟨fun fd d' hd' => ?_, fun n p hpath => hp.files n p (hkeeps n p hpath)⟩, fun x hx p hpath => ?_⟩
    · obtain ⟨d, hd, hkept⟩ := hentry fd d' hd'
      rw [show d'.curPath = d.curPath from congrArg (fun k => k.2.2.1) hkept]
      exact hp.infos fd d hd
    · obtain ⟨d, hd, hx⟩ := htouch x hx
      rcases hx p hpath with rfl | ⟨hnumber, n, _, hopen⟩
      · exact ⟨_, hp.infos _ d hd, fun _ => rfl⟩
      · obtain ⟨fd, hfd⟩ := hp.files n p hopen
        exact ⟨fd, hfd, fun hname => absurd (hnumber.symm.trans hname) (by decide)⟩

end HyperTransfer
