import HyperTransfer.Disk.Ownership
import HyperTransfer.Lib.History

/-! Upload tasks that find a download.

The data connection of a `RETR` or a `LIST` is read like that of an upload, so what its
client sends, or that it closes its end, arrives at the disk side as `STORING` or
`STOR_OK`. The state machine looks for an object of the descriptor and not for an object of
an upload: the two tasks leave a download alone exactly when they never find one
(`downloads_kept_iff`). -/
namespace HyperTransfer
open History

/-- A task of an upload that has been started. -/
def DiskTaskAction.uploads : DiskTaskAction → Bool
  | .storing => true
  | .storOk => true
  | _ => false

/-- A task that makes the object of a download or a listing. -/
def DiskTaskAction.sends : DiskTaskAction → Bool
  | .retrStart => true
  | .indexStart => true
  | _ => false

/-- What the data action of a download or a listing is between its tasks. -/
def DiskAction.sends : DiskAction → Bool
  | .indexLoading => true
  | .indexFinish => true
  | .retrLoading => true
  | .retrFinish => true
  | _ => false

/-- The object was made by a `RETR_START` or an `INDEX_START`. -/
def Download (past : List DiskEdge) (d : DiskInfo) : Prop :=
  ∃ a ∈ past, a.input.task.action.sends = true ∧ a.before.allocated = d.address

/-- The object is left in the map, in its state, with its handle, which stays open. -/
def LeftAlone (e : DiskEdge) (d : DiskInfo) : Prop :=
  (e.after.seekDisk e.input.task.ctrlFd).map (fun d' => (d'.address, d'.dataAction, d'.fileHandle)) =
      some (d.address, d.dataAction, d.fileHandle) ∧
    ∀ n ∈ d.fileHandle, (e.after.files.opened n).isSome = (e.before.files.opened n).isSome

/-- A task of an upload leaves a download alone. -/
def DownloadKept (now : List DiskEdge) (e : DiskEdge) : Prop :=
  e.input.task.action.uploads = true → ∀ d ∈ e.before.seekDisk e.input.task.ctrlFd, Download now d → LeftAlone e d

/-- A task of an upload does not find a download. -/
def UploadFound (now : List DiskEdge) (e : DiskEdge) : Prop :=
  e.input.task.action.uploads = true → ∀ d ∈ e.before.seekDisk e.input.task.ctrlFd, ¬ Download now d

instance (past : List DiskEdge) (d : DiskInfo) : Decidable (Download past d) :=
  inferInstanceAs (Decidable (∃ a ∈ past, _ ∧ _))

instance (e : DiskEdge) (d : DiskInfo) : Decidable (LeftAlone e d) := inferInstanceAs (Decidable (_ ∧ _))

instance (now : List DiskEdge) (e : DiskEdge) : Decidable (DownloadKept now e) :=
  inferInstanceAs (Decidable (_ → ∀ d ∈ _, _ → _))

instance (now : List DiskEdge) (e : DiskEdge) : Decidable (UploadFound now e) :=
  inferInstanceAs (Decidable (_ → ∀ d ∈ _, _))

/-- Objects are older than the next one, and downloads are in a state of a download. -/
structure Directed (past : List DiskEdge) (m : DiskManager) : Prop where
  started : ∀ a ∈ past, a.input.task.action.starts = true → a.before.allocated < m.allocated
  old : ∀ fd d, m.infos fd = some d → d.address < m.allocated
  sends : ∀ fd d, m.infos fd = some d → Download past d → d.dataAction.sends = true

section
variable {c : DiskCalls} {t : DiskTask} {m : DiskManager} {d d' : DiskInfo} {e : DiskEdge} {past : List DiskEdge} {fd : Fd}

/-! ### States -/

theorem runRetrLoading_sends (w : DiskWork) : (DiskFsm.runRetrLoading c w).1.sends = true := by
  unfold DiskFsm.runRetrLoading
  dsimp only
  split <;> rfl

theorem runIndexStart_sends (w : DiskWork) : Returns (DiskFsm.runIndexStart c w) fun r => r.1.sends = true := by
  refine .bind_any fun r => ?_
  dsimp only
  split <;> exact .ok rfl

theorem runIndexLoading_sends (w : DiskWork) : Returns (DiskFsm.runIndexLoading c w) fun r => r.1.sends = true := by
  refine .bind_any fun r => ?_
  dsimp only
  split <;> exact .ok rfl

/-- Deleting leaves nothing to find. -/
theorem thenDelete_gone (fd : Fd) (h : DiskHandled) : (h.thenDelete fd).manager.infos fd = none := by
  show (h.manager.delDisk fd).1.infos fd = none
  unfold DiskManager.delDisk
  split
  · assumption
  · exact Registry.erase_same ..

/-- What a start task makes, and which state it leaves a download in. -/
theorem rollStateMachine_starts (hstarts : t.action.starts = true) : Returns (DiskFsm.rollStateMachine c t m) fun h =>
    ∃ w : DiskWork, w.Begins c m t ∧ h.manager = (m.started w).manager ∧
      (t.action.sends = true → w.info.dataAction.sends = true) := by
  unfold DiskFsm.rollStateMachine
  cases ht : t.action with
  | indexStart =>
    refine .bind (P := fun r => (m.construct t).Goes r.2 ∧ r.1.sends = true) ?_ fun r hr => ?_
    · exact fun r hr => ⟨DiskFsm.runIndexStart_goes _ r hr, runIndexStart_sends _ r hr⟩
    · intro h hh
      obtain ⟨w, hw, hh⟩ := bind_eq_ok.mp hh
      cases hh
      have hgoes := (hr.1.trans (DiskWork.setDataAction_goes _ _)).trans (DiskWork.dataPost_goes _ _ _ w hw)
      refine ⟨w, DiskWork.construct_begins.goes hgoes, rfl, fun _ => ?_⟩
      rw [DiskWork.dataPost_info _ _ _ w hw]
      exact hr.2
  | storStart =>
    dsimp only
    rw [DiskFsm.runStorStart_ret, if_pos rfl]
    have hgoes := DiskFsm.runStorStart_begins.goes
      (DiskWork.setDataAction_goes (DiskFsm.runStorStart c (m.construct t)).2 .storStart)
    exact .ok ⟨_, hgoes, rfl, fun hsends => nomatch hsends⟩
  | retrStart =>
    intro h hh
    obtain ⟨w, hw, hh⟩ := bind_eq_ok.mp hh
    cases hh
    have hgoes := (DiskWork.setDataAction_goes _ _).trans (DiskWork.dataPost_goes _ _ _ w hw)
    refine ⟨w, DiskFsm.runRetrStart_begins.goes hgoes, rfl, fun _ => ?_⟩
    rw [DiskWork.dataPost_info _ _ _ w hw]
    exact runRetrLoading_sends _
  | _ =>
    rw [ht] at hstarts
    exact nomatch hstarts

/-- Between the tasks of an upload a download stays in a state of its own. -/
theorem writeDone_sends : Returns (DiskFsm.writeDone c t m d) fun h =>
    ∀ d', m.infos t.ctrlFd = some d → h.manager.infos t.ctrlFd = some d' → d.dataAction.sends = true →
      d'.dataAction.sends = true := by
  unfold DiskFsm.writeDone
  split
  · intro h hh
    obtain ⟨r, hr, hh⟩ := bind_eq_ok.mp hh
    obtain ⟨w, hw, hh⟩ := bind_eq_ok.mp hh
    cases hh
    intro d' _ hd' _
    rw [← Option.some.inj ((Registry.modify_same ..).symm.trans hd'), DiskWork.dataPost_info _ _ _ w hw]
    exact runIndexLoading_sends _ r hr
  · refine .ok fun d' _ hd' => ?_
    exact nomatch (thenDelete_gone t.ctrlFd _).symm.trans hd'
  · intro h hh
    obtain ⟨w, hw, hh⟩ := bind_eq_ok.mp hh
    cases hh
    intro d' _ hd' _
    rw [← Option.some.inj ((Registry.modify_same ..).symm.trans hd'), DiskWork.dataPost_info _ _ _ w hw]
    exact runRetrLoading_sends _
  · refine .ok fun d' _ hd' => ?_
    exact nomatch (thenDelete_gone t.ctrlFd _).symm.trans hd'
  · refine .ok fun d' hd hd' hsends => ?_
    rw [← Option.some.inj (hd.symm.trans hd')]
    exact hsends

/-- A task of an upload leaves no state of a download behind. -/
theorem storing_state : ∃ d', (DiskFsm.storing c t m d).manager.infos t.ctrlFd = some d' ∧
    d'.dataAction.sends = false := by
  unfold DiskFsm.storing DiskFsm.runStorLoading
  dsimp only
  split
  · refine ⟨_, Registry.modify_same .., ?_⟩
    rw [DiskWork.writeToDisk_info]
    rfl
  · split
    · refine ⟨_, Registry.modify_same .., ?_⟩
      rw [DiskWork.writeToDisk_info]
      rfl
    · exact ⟨_, Registry.modify_same .., rfl⟩

theorem storOk_state : ∀ d', (DiskFsm.storOk c t m d).manager.infos t.ctrlFd = some d' →
    d'.dataAction.sends = false := by
  unfold DiskFsm.storOk DiskFsm.runStorFinish
  dsimp only
  intro d' hd'
  split at hd'
  · rw [← Option.some.inj ((Registry.modify_same ..).symm.trans hd'), DiskWork.closeFileHandle_info, DiskWork.writeToDisk_info]
    rfl
  · split at hd'
    · rw [← Option.some.inj ((Registry.modify_same ..).symm.trans hd'), DiskWork.closeFileHandle_info, DiskWork.writeToDisk_info]
      rfl
    · exact nomatch (thenDelete_gone t.ctrlFd _).symm.trans hd'

/-! ### Steps -/

theorem follow_sends (h : diskManager.Takes e) (hstarts : e.input.task.action.starts = false)
    (huploads : e.input.task.action.uploads = false) (hd : e.before.infos e.input.task.ctrlFd = some d)
    (hd' : e.after.infos e.input.task.ctrlFd = some d') (hsends : d.dataAction.sends = true) :
    d'.dataAction.sends = true := by
  obtain ⟨r, hr, he⟩ := bind_eq_ok.mp h
  injection he with he
  injection he with hafter _
  rw [← hafter] at hd'
  have hsame (hm : r.manager = e.before) : d'.dataAction.sends = true := by
    rw [hm] at hd'
    rw [← Option.some.inj (hd.symm.trans hd')]
    exact hsends
  unfold DiskFsm.rollStateMachine at hr
  cases ht : e.input.task.action with
  | writeDone =>
    rw [ht] at hr
    simp only [DiskManager.seekDisk, hd] at hr
    exact writeDone_sends r hr d' hd hd' hsends
  | dele =>
    rw [ht] at hr
    simp only [DiskManager.seekDisk, hd] at hr
    cases hr
    exact nomatch (thenDelete_gone _ _).symm.trans hd'
  | other code =>
    rw [ht] at hr
    simp only [DiskManager.seekDisk, hd] at hr
    cases hr
    exact hsame rfl
  | storing => rw [ht] at huploads; exact nomatch huploads
  | storOk => rw [ht] at huploads; exact nomatch huploads
  | _ => rw [ht] at hstarts; exact nomatch hstarts

theorem download_old (hno : e.input.task.action.sends = true → e.before.allocated ≠ d.address)
    (h : Download (past ++ [e]) d) : Download past d := by
  obtain ⟨a, ha, hsends, haddress⟩ := h
  rcases List.mem_append.mp ha with ha | ha
  · exact ⟨a, ha, hsends, haddress⟩
  · rw [List.mem_singleton.mp ha] at hsends haddress
    exact absurd haddress (hno hsends)

theorem starts_of_sends {a : DiskTaskAction} (h : a.sends = true) : a.starts = true := by
  cases a with
  | indexStart => rfl
  | retrStart => rfl
  | _ => exact nomatch h

theorem directed_step (h : diskManager.Takes e) (hC : UploadFound past e) (hp : Directed past e.before) :
    Directed (past ++ [e]) e.after := by
  cases hstarts : e.input.task.action.starts with
  | true =>
    obtain ⟨r, hr, he⟩ := bind_eq_ok.mp h
    injection he with he
    injection he with hafter _
    obtain ⟨w, hw, hm, hsends⟩ := rollStateMachine_starts hstarts r hr
    have hinfos : e.after.infos = Registry.insert e.before.infos e.input.task.ctrlFd w.info := by
      rw [← hafter, hm, ← hw.fd]
      rfl
    have hallocated : e.after.allocated = e.before.allocated + 1 := by
      rw [← hafter, hm]
      rfl
    have hentry (fd : Fd) (d : DiskInfo) (hd : e.after.infos fd = some d) : e.before.infos fd = some d ∨ d = w.info := by
      rw [hinfos] at hd
      exact (Registry.insert_cases hd).imp_right And.right
    refine ⟨fun a ha hastarts => ?_, fun fd d hd => ?_, fun fd d hd hdownload => ?_⟩
    · rw [hallocated]
      rcases List.mem_append.mp ha with ha | ha
      · exact Nat.lt_succ_of_lt (hp.started a ha hastarts)
      · rw [List.mem_singleton.mp ha]
        exact Nat.lt_succ_self _
    · rw [hallocated]
      rcases hentry fd d hd with hbefore | hnew
      · exact Nat.lt_succ_of_lt (hp.old fd d hbefore)
      · rw [hnew, hw.address]
        exact Nat.lt_succ_self _
    · rcases hentry fd d hd with hbefore | hnew
      · exact hp.sends fd d hbefore (download_old (fun _ => Nat.ne_of_gt (hp.old fd d hbefore)) hdownload)
      · rw [hnew] at hdownload ⊢
        obtain ⟨a, ha, hasends, haddress⟩ := hdownload
        rw [hw.address] at haddress
        rcases List.mem_append.mp ha with ha | ha
        · exact absurd haddress (Nat.ne_of_lt (hp.started a ha (starts_of_sends hasends)))
        · rw [List.mem_singleton.mp ha] at hasends
          exact hsends hasends
  | false =>
    obtain ⟨hallocated, _, hentry, _⟩ := follow_step h hstarts
    refine ⟨fun a ha hastarts => ?_, fun fd d' hd' => ?_, fun fd d' hd' hdownload => ?_⟩
    · rw [hallocated]
      rcases List.mem_append.mp ha with ha | ha
      · exact hp.started a ha hastarts
      · rw [List.mem_singleton.mp ha, hstarts] at hastarts
        exact nomatch hastarts
    · obtain ⟨d, hd, hkept⟩ := hentry fd d' hd'
      have haddress : d'.address = d.address := congrArg Prod.fst hkept
      rw [hallocated, haddress]
      exact hp.old fd d hd
    · obtain ⟨d, hd, hkept⟩ := hentry fd d' hd'
      have haddress : d'.address = d.address := congrArg Prod.fst hkept
      have hbefore : Download past d := by
        unfold Download
        rw [← haddress]
        refine download_old (fun hsends => ?_) hdownload
        rw [starts_of_sends hsends] at hstarts
        exact nomatch hstarts
      have hsends := hp.sends fd d hd hbefore
      by_cases hfd : fd = e.input.task.ctrlFd
      · rw [hfd] at hd hd'
        cases huploads : e.input.task.action.uploads with
        | true => exact absurd hbefore (hC huploads d hd)
        | false => exact follow_sends h hstarts huploads hd hd' hsends
      · rw [infos_other h hfd hstarts, hd] at hd'
        rw [← Option.some.inj hd']
        exact hsends

/-- A task of an upload never leaves a download alone. -/
theorem upload_disturbs (h : diskManager.Takes e) (huploads : e.input.task.action.uploads = true)
    (hd : e.before.seekDisk e.input.task.ctrlFd = some d) (hsends : d.dataAction.sends = true) : ¬ LeftAlone e d := by
  intro halone
  obtain ⟨r, hr, he⟩ := bind_eq_ok.mp h
  injection he with he
  injection he with hafter _
  obtain ⟨d', hd', hsame⟩ := Option.map_eq_some_iff.mp halone.1
  have hstate : d'.dataAction.sends = true := by
    have hdata : d'.dataAction = d.dataAction := congrArg (fun p => p.2.1) hsame
    rw [hdata]
    exact hsends
  rw [← hafter] at hd'
  unfold DiskFsm.rollStateMachine at hr
  cases ht : e.input.task.action with
  | storing =>
    rw [ht] at hr
    simp only [hd] at hr
    cases hr
    obtain ⟨d₁, hd₁, hgone⟩ := storing_state (c := e.input.calls) (t := e.input.task) (m := e.before) (d := d)
    rw [← Option.some.inj (hd₁.symm.trans hd'), hgone] at hstate
    exact nomatch hstate
  | storOk =>
    rw [ht] at hr
    simp only [hd] at hr
    cases hr
    rw [storOk_state d' hd'] at hstate
    exact nomatch hstate
  | _ => rw [ht] at huploads; exact nomatch huploads

end

/-- **Uploads and downloads apart**: a task of an upload leaves the downloads and listings of
its descriptor alone, exactly when it finds none. -/
theorem downloads_kept_iff (files : Files (List Char) Char) (inputs : List DiskInput) :
    Always DownloadKept (diskManager.trace (.idle files) inputs) ↔
      Always UploadFound (diskManager.trace (.idle files) inputs) := by
  have hstart : Directed [] (DiskManager.idle files) :=
    ⟨fun _ ha => (nomatch ha), fun _ _ hd => (nomatch hd), fun _ _ hd => (nomatch hd)⟩
  apply always_iff_under inputs hstart (fun _ _ he hC hp => directed_step he hC hp)
  intro now e he hnow
  constructor
  · intro hkept huploads d hd hdownload
    exact upload_disturbs he huploads hd (hnow.sends _ d hd hdownload) (hkept huploads d hd hdownload)
  · intro hfound huploads d hd hdownload
    exact absurd hdownload (hfound huploads d hd)

/-- A download whose client closes its end of the data connection. -/
def closedDownload : List DiskInput :=
  [{task := .ofPath 7 .retrStart "/data/a".toList, calls := {opens := some 5, reads := some 1}},
    {task := {ctrlFd := 7, action := .storOk}, calls := {writes := some 0}}]

/-- The download has lost its file, and its object stays where the next transfer finds it. -/
theorem download_closed :
    ∃ a e, diskManager.trace (.idle {content := fun _ => some ['x', 'y'], opened := fun _ => none}) closedDownload = [a, e] ∧
      ¬ Always DownloadKept
        (diskManager.trace (.idle {content := fun _ => some ['x', 'y'], opened := fun _ => none}) closedDownload) ∧
      (a.after.seekDisk 7).map DiskInfo.dataAction = some .retrLoading ∧ a.after.files.pathOf 5 = some "/data/a".toList ∧
      (e.after.seekDisk 7).map DiskInfo.dataAction = some .storing ∧ e.after.files.pathOf 5 = none :=
  ⟨_, _, rfl, by decide +kernel, by decide +kernel, by decide +kernel, by decide +kernel, by decide +kernel⟩

end HyperTransfer
