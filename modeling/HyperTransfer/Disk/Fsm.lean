import HyperTransfer.Disk.Info
import HyperTransfer.Lib.Machine
import HyperTransfer.Lib.Registry

/-! The disk manager and the state machine of its threads.

A start task makes an object and adds it to the map; the other tasks work on the object
`seek_disk` finds for their descriptor. The map's insertion keeps what is there. -/
namespace HyperTransfer
open CString

/-- `m_disk_info_map`, how many objects have been made, and the files. -/
structure DiskManager where
  infos : Fd → Option DiskInfo
  allocated : Nat
  files : Files (List Char) Char

/-- A handled task: what it returns, and what it leaves behind. -/
structure DiskHandled where
  ret : Int := 0
  manager : DiskManager
  effects : List DiskEffect := []

namespace DiskManager

/-- Before the first task. -/
def idle (files : Files (List Char) Char) : DiskManager :=
  {infos := fun _ => none, allocated := 0, files := files}

def addDisk (m : DiskManager) (d : DiskInfo) : DiskManager := {m with infos := Registry.insert m.infos d.fd d}

def seekDisk (m : DiskManager) (fd : Fd) : Option DiskInfo := m.infos fd

/-- `del_disk`; the destructor closes the file handle. -/
def delDisk (m : DiskManager) (fd : Fd) : DiskManager × List DiskEffect :=
  match m.seekDisk fd with
  | none => (m, [])
  | some d =>
    let w := DiskWork.closeFileHandle {info := d, files := m.files}
    ({m with infos := Registry.erase m.infos fd, files := w.files}, w.effects)

/-- A new object for a start task. -/
def construct (m : DiskManager) (t : DiskTask) : DiskWork :=
  {info := DiskInfo.new m.allocated t, files := m.files}

/-- The new object is added first and worked on through the pointer to it; nothing looks
it up in between. -/
def started (m : DiskManager) (w : DiskWork) : DiskHandled where
  manager := {m with allocated := m.allocated + 1, files := w.files}.addDisk w.info
  effects := w.effects

/-- Work done through the pointer found for `fd`. -/
def worked (m : DiskManager) (fd : Fd) (w : DiskWork) (ret : Int := 0) : DiskHandled where
  ret := ret
  manager := {m with infos := Registry.modify m.infos fd w.info, files := w.files}
  effects := w.effects

end DiskManager

namespace DiskHandled

/-- The object of `fd` is deleted after all. -/
def thenDelete (fd : Fd) (h : DiskHandled) : DiskHandled :=
  let r := h.manager.delDisk fd
  {h with manager := r.1, effects := h.effects ++ r.2}

/-- `SESSION_TASK_TRANS_OK` is posted to the session, and the object is deleted. -/
def finish (fd : Fd) (h : DiskHandled) : DiskHandled :=
  thenDelete fd {h with effects := h.effects ++ [.postToSession {fd := fd, action := .transOk}]}

end DiskHandled

namespace DiskFsm

/-! ### Sub-machines -/

def runIndexStart (c : DiskCalls) (w : DiskWork) : Except Fault (DiskAction × DiskWork) := do
  let (list, w) ← w.clearListInfo.getList c
  return (if list ≠ [] then .indexLoading else .indexFinish, w)

def runIndexLoading (c : DiskCalls) (w : DiskWork) : Except Fault (DiskAction × DiskWork) := do
  let (list, w) ← w.clearListInfo.getListNext c
  return (if list ≠ [] then .indexLoading else .indexFinish, w)

def runRetrLoading (c : DiskCalls) (w : DiskWork) : DiskAction × DiskWork :=
  let (n, w) := w.readFromDisk c
  if n > 0 then (.retrLoading, w) else (.retrFinish, w.closeFileHandle)

/-- Opens and seeks, then does what `run_retr_loading` does. -/
def runRetrStart (c : DiskCalls) (w : DiskWork) : DiskAction × DiskWork :=
  runRetrLoading c ((w.openReadonly c).seekFileHandle c)

def runStorStart (c : DiskCalls) (w : DiskWork) : Int × DiskWork :=
  if toInt w.info.restSize = 0 then (0, w.openCreate c)
  else (0, ((w.openWriteonly c).seekFileHandle c).setRestSize 0)

def runStorLoading (c : DiskCalls) (t : DiskTask) (w : DiskWork) : Int × DiskWork := w.writeToDisk c t

def runStorFinish (c : DiskCalls) (t : DiskTask) (w : DiskWork) : Int × DiskWork :=
  let (len, w) := w.writeToDisk c t
  (len, w.closeFileHandle)

/-! ### Tasks -/

/-- `DATA_TASK_WRITE_DONE` on an object found. -/
def writeDone (c : DiskCalls) (t : DiskTask) (m : DiskManager) (d : DiskInfo) : Except Fault DiskHandled :=
  match d.dataAction with
  | .indexLoading => do
    let (a, w) ← runIndexLoading c {info := d, files := m.files}
    let w ← (w.setDataAction a).dataPost w.info.listInfo w.info.listInfo.length
    return m.worked t.ctrlFd w
  | .indexFinish => .ok ({manager := m : DiskHandled}.finish t.ctrlFd)
  | .retrLoading => do
    let (a, w) := runRetrLoading c {info := d, files := m.files}
    let w ← (w.setDataAction a).dataPost w.info.fileBuffer w.info.bufLen
    return m.worked t.ctrlFd w
  | .retrFinish => .ok ({manager := m : DiskHandled}.finish t.ctrlFd)
  | _ => .ok {manager := m}

/-- `DATA_TASK_STORING` on an object found. -/
def storing (c : DiskCalls) (t : DiskTask) (m : DiskManager) (d : DiskInfo) : DiskHandled :=
  let (ret, w) := runStorLoading c t ({info := d, files := m.files : DiskWork}.setDataAction .storing)
  if ret = 0 then m.worked t.ctrlFd w
  else if ret = -1 then m.worked t.ctrlFd w (-1)
  else m.worked t.ctrlFd (w.setDataAction .storDone)

/-- `DATA_TASK_STOR_OK` on an object found. -/
def storOk (c : DiskCalls) (t : DiskTask) (m : DiskManager) (d : DiskInfo) : DiskHandled :=
  let (ret, w) := runStorFinish c t ({info := d, files := m.files : DiskWork}.setDataAction .storing)
  if ret = 0 then m.worked t.ctrlFd w
  else if ret = -1 then m.worked t.ctrlFd w (-1)
  else (m.worked t.ctrlFd (w.setDataAction .storDone)).finish t.ctrlFd

/-- `roll_state_machine`. -/
def rollStateMachine (c : DiskCalls) (t : DiskTask) (m : DiskManager) : Except Fault DiskHandled :=
  match t.action with
  | .indexStart => do
    let (a, w) ← runIndexStart c (m.construct t)
    let w ← (w.setDataAction a).dataPost w.info.listInfo w.info.listInfo.length
    return m.started w
  | .storStart => do
    let (ret, w) := runStorStart c (m.construct t)
    if ret = 0 then
      let h := m.started (w.setDataAction .storStart)
      return {h with effects := h.effects ++ [.postToSession {fd := t.ctrlFd, action := .storStart}]}
    else return {m.started w with ret := ret}
  | .retrStart => do
    let (a, w) := runRetrStart c (m.construct t)
    let w ← (w.setDataAction a).dataPost w.info.fileBuffer w.info.bufLen
    return m.started w
  | action =>
    match m.seekDisk t.ctrlFd with
    | none => .ok {manager := m}
    | some d =>
      match action with
      | .writeDone => writeDone c t m d
      | .storing => .ok (storing c t m d)
      | .storOk => .ok (storOk c t m d)
      | .dele => .ok ({manager := m : DiskHandled}.thenDelete t.ctrlFd)
      | _ => .ok {manager := m}

end DiskFsm

/-- A disk task, with what the operating system answers while it is handled. -/
structure DiskInput where
  task : DiskTask
  calls : DiskCalls := {}

/-- The disk side under a sequence of tasks. -/
def diskManager : Machine DiskInput DiskManager DiskEffect Fault where
  step i m := do
    let h ← DiskFsm.rollStateMachine i.calls i.task m
    return (h.manager, h.effects)

abbrev DiskEdge := Edge DiskInput DiskManager DiskEffect

end HyperTransfer
