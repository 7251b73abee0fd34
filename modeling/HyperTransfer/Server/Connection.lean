import HyperTransfer.Disk.Steps
import HyperTransfer.Server.Whole
import HyperTransfer.Session.Outcomes

/-! One connection, as if it were alone.

The managers run on maps with one entry at most, on queues and a pipe that hold what is the
connection's. How many objects the managers have made, and the files, are given with the
event: nothing else of what there is besides the connection comes in. On its own descriptor a
manager does the same alone (`roll_alone`, `DiskFsm.roll_alone`). -/
namespace HyperTransfer
open CString

structure Connection where
  client : Option Client
  session : Option Session
  transfer : Option DiskInfo
  sessionQueue : List SessionTask
  diskQueue : List DiskTask
  pipe : List EventNotify
deriving DecidableEq

/-- What happens to a connection. An accept comes with the number of its client, a task with
the number of the next object and with the files. -/
inductive ConnectionEvent where
  | accept (number : Nat) (ip : List Char)
  | read (r : CtrlReadResult)
  | callback (k : Callback)
  | timeout
  | notify (ports : List (Option (Fd × Int)))
  | session (number : Nat) (fs : FileSystem) (garbage : List Char)
  | disk (number : Nat) (files : Files (List Char) Char) (calls : DiskCalls)

/-- The session manager of one connection. -/
def Manager.alone (fd : Fd) (m : Manager) : Manager := {m with sessions := Registry.single fd (m.sessions fd)}

/-- The disk manager of one connection. -/
def DiskManager.alone (fd : Fd) (m : DiskManager) : DiskManager := {m with infos := Registry.single fd (m.infos fd)}

def DiskHandled.alone (fd : Fd) (h : DiskHandled) : DiskHandled := {h with manager := h.manager.alone fd}

namespace Connection

/-- Before its first accept. -/
def unused : Connection where
  client := none
  session := none
  transfer := none
  sessionQueue := []
  diskQueue := []
  pipe := []

/-- What was done is handed on. -/
def post (fd : Fd) (c : Connection) (es : List ThreadsEffect) : Connection × List ThreadsEffect :=
  ({c with
      sessionQueue := c.sessionQueue ++ es.filterMap ThreadsEffect.session?
      diskQueue := c.diskQueue ++ es.filterMap ThreadsEffect.disk?
      pipe := c.pipe ++ es.filterMap (ThreadsEffect.notify? fd) },
    es)

/-- A callback of the client, if there is one. -/
def net (fd : Fd) (c : Connection) (run : Client → Except Halt (Option Client × List NetEffect)) :
    Except Halt (Connection × List ThreadsEffect) :=
  match c.client with
  | none => .ok (c, [])
  | some x => do
    let (x, es) ← run x
    return {c with client := x}.post fd (es.map .net)

def onNotify (cfg : Config) (fd : Fd) (c : Connection) (ports : List (Option (Fd × Int))) :
    Except Halt (Connection × List ThreadsEffect) :=
  match c.pipe with
  | [] => .ok (c, [])
  | n :: rest =>
    match c.client with
    | none => .error (.fault .nullPointer)
    | some _ => {c with pipe := rest}.net fd fun x => x.handle cfg (.notify n ports)

def sessionThread (env : Env) (fd : Fd) (c : Connection) (number : Nat) (fs : FileSystem) (garbage : List Char) :
    Except Halt (Connection × List ThreadsEffect) :=
  match c.sessionQueue with
  | [] => .ok (c, [])
  | t :: rest => do
    let (m, es) ← halting (rollStateMachine env {fs := fs, task := t, garbage := garbage}
      {sessions := Registry.single fd c.session, allocated := number})
    return {c with session := m.sessions fd, sessionQueue := rest}.post fd (es.map .session)

def diskThread (fd : Fd) (c : Connection) (number : Nat) (files : Files (List Char) Char) (calls : DiskCalls) :
    Except Halt (Connection × List ThreadsEffect) :=
  match c.diskQueue with
  | [] => .ok (c, [])
  | t :: rest => do
    let h ← halting (DiskFsm.rollStateMachine calls t
      {infos := Registry.single fd c.transfer, allocated := number, files := files})
    return {c with transfer := h.manager.infos fd, diskQueue := rest}.post fd (h.effects.map .disk)

end Connection

/-- The connections on `fd`, one after the other. -/
def connectionOn (env : Env) (fd : Fd) : Machine ConnectionEvent Connection ThreadsEffect Halt where
  step i c :=
    match i with
    | .accept number ip =>
      .ok ({c with client := some (c.client.getD (.new number fd))}.post fd
        [.net (.postToSession {fd := fd, action := .ctrlAccept, buf := ip, bufLen := ipLen + 1})])
    | .read r => c.net fd fun x => .ok (x.onRead r)
    | .callback k => c.net fd fun x => x.handle env.config (.callback k)
    | .timeout => c.net fd fun x => .ok x.onTimeout
    | .notify ports => c.onNotify env.config fd ports
    | .session number fs garbage => c.sessionThread env fd number fs garbage
    | .disk number files calls => c.diskThread fd number files calls

/-! ### The managers, on one connection -/

section
variable {env : Env} {i : ManagerInput} {m m' : Manager} {es : List Effect}

/-- What the session manager does for a descriptor, and what it leaves alone. -/
theorem roll_alone (h : rollStateMachine env i m = .ok (m', es)) :
    rollStateMachine env i (m.alone i.task.fd) = .ok (m'.alone i.task.fd, es) ∧
      ∀ fd, i.task.fd ≠ fd → m'.sessions fd = m.sessions fd := by
  unfold rollStateMachine at h ⊢
  split at h
  · obtain ⟨r, hr, he⟩ := bind_eq_ok.mp h
    cases he
    have hfd : r.session.fd = i.task.fd := congrArg Prod.snd (acceptSession_writes _ _ _ _ r hr).1
    refine ⟨bind_eq_ok.mpr ⟨r, hr, ?_⟩, fun fd hne => ?_⟩
    · refine congrArg (fun sessions => Except.ok ((⟨sessions, m.allocated + 1⟩ : Manager), r.effects)) ?_
      show Registry.insert (Registry.single i.task.fd (m.sessions i.task.fd)) r.session.fd r.session =
        Registry.single i.task.fd (Registry.insert m.sessions r.session.fd r.session i.task.fd)
      rw [hfd]
      exact Registry.insert_single ..
    · exact Registry.insert_other _ _ (hfd ▸ hne.symm)
  · have hseek : (m.alone i.task.fd).seekSession i.task.fd = m.seekSession i.task.fd := Registry.single_same ..
    rw [hseek]
    split at h
    · obtain ⟨r, hr, he⟩ := bind_eq_ok.mp h
      cases he
      refine ⟨bind_eq_ok.mpr ⟨r, hr, ?_⟩, fun fd hne => Registry.modify_other _ _ hne.symm⟩
      exact congrArg (fun sessions => Except.ok ((⟨sessions, m.allocated⟩ : Manager), r.effects))
        (Registry.modify_single ..)
    · cases h
      exact ⟨rfl, fun _ _ => rfl⟩

end

namespace DiskFsm
variable {c : DiskCalls} {t : DiskTask} {m : DiskManager} {d : DiskInfo} {fd : Fd}

theorem started_alone {w : DiskWork} (hw : w.info.fd = fd) :
    (m.alone fd).started w = (m.started w).alone fd := by
  refine congrArg (fun infos => ({
    manager := {infos := infos, allocated := m.allocated + 1, files := w.files}
    effects := w.effects } : DiskHandled)) ?_
  show Registry.insert (Registry.single fd (m.infos fd)) w.info.fd w.info =
    Registry.single fd (Registry.insert m.infos w.info.fd w.info fd)
  rw [hw]
  exact Registry.insert_single ..

theorem worked_alone (w : DiskWork) (ret : Int) : (m.alone fd).worked fd w ret = (m.worked fd w ret).alone fd :=
  congrArg (fun infos => ({
    ret := ret
    manager := {infos := infos, allocated := m.allocated, files := w.files}
    effects := w.effects } : DiskHandled)) (Registry.modify_single ..)

theorem thenDelete_alone (h : DiskHandled) : (h.alone fd).thenDelete fd = (h.thenDelete fd).alone fd := by
  have hseek : (h.manager.alone fd).seekDisk fd = h.manager.seekDisk fd := Registry.single_same ..
  have hdel : (h.manager.alone fd).delDisk fd = ((h.manager.delDisk fd).1.alone fd, (h.manager.delDisk fd).2) := by
    unfold DiskManager.delDisk
    rw [hseek]
    cases h.manager.seekDisk fd with
    | none => rfl
    | some d =>
      refine Prod.ext ?_ rfl
      exact congrArg (fun infos => ({
        infos := infos
        allocated := h.manager.allocated
        files := (DiskWork.closeFileHandle {info := d, files := h.manager.files}).files } : DiskManager))
        (Registry.erase_single ..)
  show {h.alone fd with
    manager := ((h.manager.alone fd).delDisk fd).1
    effects := h.effects ++ ((h.manager.alone fd).delDisk fd).2 } = _
  rw [hdel]
  rfl

theorem finish_alone (h : DiskHandled) : (h.alone fd).finish fd = (h.finish fd).alone fd :=
  thenDelete_alone {h with effects := h.effects ++ [.postToSession {fd := fd, action := .transOk}]}

theorem writeDone_alone {h : DiskHandled} (hh : writeDone c t m d = .ok h) :
    writeDone c t (m.alone t.ctrlFd) d = .ok (h.alone t.ctrlFd) := by
  unfold writeDone at hh ⊢
  split at hh
  · obtain ⟨r, hr, hh⟩ := bind_eq_ok.mp hh
    obtain ⟨w, hw, hh⟩ := bind_eq_ok.mp hh
    cases hh
    refine bind_eq_ok.mpr ⟨r, hr, bind_eq_ok.mpr ⟨w, hw, ?_⟩⟩
    exact congrArg Except.ok (worked_alone w 0)
  · cases hh
    exact congrArg Except.ok (finish_alone {manager := m})
  · obtain ⟨w, hw, hh⟩ := bind_eq_ok.mp hh
    cases hh
    exact bind_eq_ok.mpr ⟨w, hw, congrArg Except.ok (worked_alone w 0)⟩
  · cases hh
    exact congrArg Except.ok (finish_alone {manager := m})
  · cases hh
    rfl

theorem storing_alone : storing c t (m.alone t.ctrlFd) d = (storing c t m d).alone t.ctrlFd := by
  have hfiles : (m.alone t.ctrlFd).files = m.files := rfl
  unfold storing
  dsimp only
  rw [hfiles, apply_ite (DiskHandled.alone t.ctrlFd), apply_ite (DiskHandled.alone t.ctrlFd), worked_alone, worked_alone,
    worked_alone]

theorem storOk_alone : storOk c t (m.alone t.ctrlFd) d = (storOk c t m d).alone t.ctrlFd := by
  have hfiles : (m.alone t.ctrlFd).files = m.files := rfl
  unfold storOk
  dsimp only
  rw [hfiles, apply_ite (DiskHandled.alone t.ctrlFd), apply_ite (DiskHandled.alone t.ctrlFd), worked_alone, worked_alone,
    worked_alone, finish_alone]

/-- The disk manager does for a descriptor what it does alone. -/
theorem roll_alone {h : DiskHandled} (hh : rollStateMachine c t m = .ok h) :
    rollStateMachine c t (m.alone t.ctrlFd) = .ok (h.alone t.ctrlFd) := by
  have hseek : (m.alone t.ctrlFd).seekDisk t.ctrlFd = m.seekDisk t.ctrlFd := Registry.single_same ..
  unfold rollStateMachine at hh ⊢
  cases ht : t.action with
  | indexStart =>
    simp only [ht] at hh
    obtain ⟨r, hr, hh⟩ := bind_eq_ok.mp hh
    obtain ⟨w, hw, hh⟩ := bind_eq_ok.mp hh
    cases hh
    have hgoes := ((runIndexStart_goes _ r hr).trans (DiskWork.setDataAction_goes _ _)).trans
      (DiskWork.dataPost_goes _ _ _ w hw)
    exact bind_eq_ok.mpr ⟨r, hr, bind_eq_ok.mpr ⟨w, hw, congrArg Except.ok (started_alone hgoes.fd)⟩⟩
  | storStart =>
    simp only [ht, runStorStart_ret, if_true] at hh ⊢
    cases hh
    have hfd : (runStorStart c (m.construct t)).2.info.fd = t.ctrlFd := runStorStart_begins.fd
    have hsame := started_alone (m := m) (w := (runStorStart c (m.construct t)).2.setDataAction .storStart) hfd
    exact congrArg (fun h : DiskHandled =>
      Except.ok {h with effects := h.effects ++ [DiskEffect.postToSession {fd := t.ctrlFd, action := .storStart}]}) hsame
  | retrStart =>
    simp only [ht] at hh
    obtain ⟨w, hw, hh⟩ := bind_eq_ok.mp hh
    cases hh
    have hfd := (runRetrStart_begins.goes ((DiskWork.setDataAction_goes _ _).trans
      (DiskWork.dataPost_goes _ _ _ w hw))).fd
    exact bind_eq_ok.mpr ⟨w, hw, congrArg Except.ok (started_alone hfd)⟩
  | writeDone =>
    simp only [ht, hseek] at hh ⊢
    split at hh
    · cases hh
      rfl
    · exact writeDone_alone hh
  | storing =>
    simp only [ht, hseek] at hh ⊢
    split at hh
    · cases hh
      rfl
    · cases hh
      exact congrArg Except.ok storing_alone
  | storOk =>
    simp only [ht, hseek] at hh ⊢
    split at hh
    · cases hh
      rfl
    · cases hh
      exact congrArg Except.ok storOk_alone
  | dele =>
    simp only [ht, hseek] at hh ⊢
    split at hh
    · cases hh
      rfl
    · cases hh
      exact congrArg Except.ok (thenDelete_alone {manager := m})
  | other code =>
    simp only [ht, hseek] at hh ⊢
    split at hh
    · cases hh
      rfl
    · cases hh
      rfl

end DiskFsm
end HyperTransfer
