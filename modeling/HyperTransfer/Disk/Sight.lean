import HyperTransfer.Disk.Steps

/-! What a transfer gets to know of the rest of the server.

The number of its object tells it from others and nothing else (`DiskInfo.numbered`). Of the files it
gets to know what is at its path and the task's, and what its handle and a new descriptor are
open on; of the directories the entries at these paths. Whatever else there is, a task does the
same for it (`DiskFsm.roll_alike`). -/
namespace HyperTransfer
open CString

/-- The same object, under another number. -/
def DiskInfo.numbered (n : Nat) (d : DiskInfo) : DiskInfo := {d with address := n}

/-! ### Directories -/

/-- The same at some directories, for entries of some names. -/
structure Directories.Alike (ps names : List (List Char)) (dirs dirs' : Directories) : Prop where
  entries : ∀ p ∈ ps, dirs'.entries p = dirs.entries p
  detail : ∀ p ∈ ps, ∀ name ∈ dirs.getDirDetail p, name ∈ names
  columns : ∀ p ∈ ps, ∀ name ∈ names, ∀ path, Directories.entryPath p name = .ok path →
    dirs'.columns path = dirs.columns path

/-- The paths of the entries of some names in some directories. -/
def Directories.entryPaths (ps names : List (List Char)) : List (List Char) :=
  ps.flatMap fun p => names.filterMap fun name => (entryPath p name).toOption

/-- What there is at some directories, for the entries there and those of some names. -/
def Directories.shown (ps names : List (List Char)) (dirs : Directories) : Directories where
  entries p := if p ∈ ps then dirs.entries p else none
  columns path :=
    if path ∈ entryPaths ps (names ++ ps.flatMap dirs.getDirDetail) then dirs.columns path else .ok none

section
variable {ps names : List (List Char)} {dirs dirs' : Directories}

theorem shown_dirs_alike (ps names : List (List Char)) (dirs : Directories) :
    dirs.Alike ps (names ++ ps.flatMap dirs.getDirDetail) (dirs.shown ps names) := by
  refine ⟨fun p hp => if_pos hp, fun p hp name hname => ?_, fun p hp name hname path hpath => if_pos ?_⟩
  · exact List.mem_append_right _ (List.mem_flatMap.mpr ⟨p, hp, hname⟩)
  · refine List.mem_flatMap.mpr ⟨p, hp, List.mem_filterMap.mpr ⟨name, hname, ?_⟩⟩
    rw [hpath]
    rfl

theorem getDirDetail_alike (h : dirs.Alike ps names dirs') {p : List Char} (hp : p ∈ ps) :
    dirs'.getDirDetail p = dirs.getDirDetail p := by
  unfold Directories.getDirDetail
  rw [h.entries p hp]

theorem getDir_alike (h : dirs.Alike ps names dirs') {p : List Char} (hp : p ∈ ps) {list : List (List Char)}
    (hlist : ∀ name ∈ list, name ∈ names) (k : Nat) (info : List Char) :
    dirs'.getDir p k list info = dirs.getDir p k list info := by
  induction list generalizing k info with
  | nil => rfl
  | cons name rest ih =>
    obtain ⟨hname, hrest⟩ := List.forall_mem_cons.mp hlist
    unfold Directories.getDir
    refine bind_same fun path hpath => ?_
    rw [h.columns p hp name hname path hpath]
    refine bind_same fun columns _ => ?_
    cases columns with
    | none => exact ih hrest k info
    | some columns =>
      refine bind_same fun row _ => bind_same fun info _ => ?_
      rw [ih hrest]

end

/-! ### Work on an object -/

namespace DiskWork

/-- The same work on the same object under another number, where its paths and descriptors look alike. -/
structure Alike (n : Nat) (ps : List (List Char)) (ds : List Nat) (w v : DiskWork) : Prop where
  info : v.info = w.info.numbered n
  files : w.files.Alike ps ds v.files
  effects : v.effects = w.effects
  path : w.info.curPath ∈ ps
  handle : ∀ d, w.info.fileHandle = some d → d ∈ ds

variable {n : Nat} {ps names : List (List Char)} {ds : List Nat} {w v : DiskWork} {c : DiskCalls} {dirs' : Directories}

theorem Alike.fileHandle (h : w.Alike n ps ds v) : v.info.fileHandle = w.info.fileHandle := by
  rw [h.info]
  rfl

theorem setDataAction_alike (h : w.Alike n ps ds v) (a : DiskAction) :
    (w.setDataAction a).Alike n ps ds (v.setDataAction a) := by
  refine ⟨?_, h.files, h.effects, h.path, h.handle⟩
  unfold setDataAction
  rw [h.info]
  rfl

theorem setRestSize_alike (h : w.Alike n ps ds v) (k : Int) : (w.setRestSize k).Alike n ps ds (v.setRestSize k) := by
  refine ⟨?_, h.files, h.effects, h.path, h.handle⟩
  unfold setRestSize
  rw [h.info]
  rfl

theorem clearListInfo_alike (h : w.Alike n ps ds v) : w.clearListInfo.Alike n ps ds v.clearListInfo := by
  refine ⟨?_, h.files, h.effects, h.path, h.handle⟩
  unfold clearListInfo
  rw [h.info]
  rfl

theorem openPath_alike (h : w.Alike n ps ds v) (hopens : ∀ d, c.opens = some d → d ∈ ds) (create : Bool) :
    (w.openPath c create).Alike n ps ds (v.openPath {c with dirs := dirs'} create) := by
  have hpath : v.info.curPath = w.info.curPath := by
    rw [h.info]
    rfl
  obtain ⟨hsame, hfiles⟩ := Files.openFile_alike h.files h.path create hopens
  unfold openPath
  rw [hpath]
  refine ⟨?_, hfiles, ?_, h.path, fun d hd => hopens d ?_⟩
  · dsimp only
    rw [hsame, h.info]
    rfl
  · dsimp only
    rw [hsame, h.effects]
  · have hd : (w.files.openFile w.info.curPath create c.opens).1 = some d := hd
    exact ((Files.openFile_succeeds ..).mp hd).1

theorem seekFileHandle_alike (h : w.Alike n ps ds v) :
    (w.seekFileHandle c).Alike n ps ds (v.seekFileHandle {c with dirs := dirs'}) := by
  have hrest : v.info.restSize = w.info.restSize := by
    rw [h.info]
    rfl
  unfold seekFileHandle
  rw [h.fileHandle]
  cases hd : w.info.fileHandle with
  | none => exact h
  | some d =>
    dsimp only
    rw [hrest]
    exact ⟨h.info, Files.seek_alike h.files (h.handle d hd) _ _, h.effects, h.path, h.handle⟩

theorem readFromDisk_alike (dirs' : Directories) (h : w.Alike n ps ds v) :
    (v.readFromDisk {c with dirs := dirs'}).1 = (w.readFromDisk c).1 ∧
      (w.readFromDisk c).2.Alike n ps ds (v.readFromDisk {c with dirs := dirs'}).2 := by
  unfold readFromDisk
  rw [h.fileHandle, h.info, h.effects]
  cases hd : w.info.fileHandle with
  | none => exact ⟨rfl, rfl, h.files, rfl, h.path, h.handle⟩
  | some d =>
    obtain ⟨hsame, hfiles⟩ := Files.read_alike h.files (h.handle d hd) fileBufSize c.reads
    have hopen : v.files.pathOf d = w.files.pathOf d := by
      unfold Files.pathOf
      rw [h.files.opened d (h.handle d hd)]
    dsimp only
    rw [hopen]
    revert hsame hfiles
    generalize w.files.read d fileBufSize c.reads = r
    generalize v.files.read d fileBufSize c.reads = r'
    obtain ⟨got, files⟩ := r
    obtain ⟨got', files'⟩ := r'
    intro hsame hfiles
    obtain rfl : got' = got := hsame
    cases got' with
    | none => exact ⟨rfl, rfl, hfiles, rfl, h.path, h.handle⟩
    | some bytes => exact ⟨rfl, rfl, hfiles, rfl, h.path, h.handle⟩

theorem writeToDisk_alike (dirs' : Directories) (h : w.Alike n ps ds v) (t : DiskTask) :
    (v.writeToDisk {c with dirs := dirs'} t).1 = (w.writeToDisk c t).1 ∧
      (w.writeToDisk c t).2.Alike n ps ds (v.writeToDisk {c with dirs := dirs'} t).2 := by
  unfold writeToDisk
  rw [h.fileHandle, h.effects]
  cases hd : w.info.fileHandle with
  | none => exact ⟨rfl, h⟩
  | some d =>
    obtain ⟨hsame, hfiles⟩ := Files.write_alike '\x00' h.files (h.handle d hd) t.payload c.writes
    have hopen : v.files.pathOf d = w.files.pathOf d := by
      unfold Files.pathOf
      rw [h.files.opened d (h.handle d hd)]
    dsimp only
    rw [hopen]
    revert hsame hfiles
    generalize w.files.write '\x00' d t.payload c.writes = r
    generalize v.files.write '\x00' d t.payload c.writes = r'
    obtain ⟨taken, files⟩ := r
    obtain ⟨taken', files'⟩ := r'
    intro hsame hfiles
    obtain rfl : taken' = taken := hsame
    cases taken' with
    | none => exact ⟨rfl, h.info, hfiles, rfl, h.path, h.handle⟩
    | some k => exact ⟨rfl, h.info, hfiles, rfl, h.path, h.handle⟩

theorem closeFileHandle_alike (h : w.Alike n ps ds v) : w.closeFileHandle.Alike n ps ds v.closeFileHandle := by
  unfold closeFileHandle
  rw [h.fileHandle, h.effects]
  cases hd : w.info.fileHandle with
  | none => exact h
  | some d => exact ⟨h.info, Files.close_alike h.files (h.handle d hd), rfl, h.path, h.handle⟩

theorem listFrom_alike (h : w.Alike n ps ds v) (hdirs : c.dirs.Alike ps names dirs') {entries : List (List Char)}
    (hentries : ∀ name ∈ entries, name ∈ names) :
    Returns (w.listFrom c entries) fun r => ∃ v', v.listFrom {c with dirs := dirs'} entries = .ok (r.1, v') ∧
      r.2.Alike n ps ds v' := by
  intro r hr
  obtain ⟨⟨rest, text⟩, hget, hr⟩ := bind_eq_ok.mp hr
  cases hr
  have hsame : dirs'.getDir v.info.curPath 0 entries [] = .ok (rest, text) := by
    rw [h.info]
    exact (getDir_alike hdirs h.path hentries 0 []).trans hget
  refine ⟨_, bind_eq_ok.mpr ⟨_, hsame, rfl⟩, ?_, h.files, ?_, h.path, h.handle⟩
  · dsimp only
    rw [h.info]
    rfl
  · dsimp only
    rw [h.effects, h.info]
    rfl

theorem dataPost_alike (h : w.Alike n ps ds v) (buf : List Char) (len : Int) :
    Returns (w.dataPost buf len) fun r => ∃ v', v.dataPost buf len = .ok v' ∧ r.Alike n ps ds v' := by
  unfold dataPost
  split
  · exact .error _
  · refine .ok ⟨_, rfl, h.info, h.files, ?_, h.path, h.handle⟩
    dsimp only
    rw [h.effects, h.info]
    rfl

/-- What an object is to send, whatever its number. -/
theorem sent_alike {r q : DiskAction × DiskWork} (ha : q.1 = r.1) (h : r.2.Alike n ps ds q.2)
    (buf : DiskInfo → List Char) (len : DiskInfo → Int) (hbuf : ∀ d, buf (d.numbered n) = buf d)
    (hlen : ∀ d, len (d.numbered n) = len d) :
    Returns ((r.2.setDataAction r.1).dataPost (buf r.2.info) (len r.2.info)) fun w =>
      ∃ v, (q.2.setDataAction q.1).dataPost (buf q.2.info) (len q.2.info) = .ok v ∧ w.Alike n ps ds v := by
  rw [ha, h.info, hbuf, hlen]
  exact dataPost_alike (setDataAction_alike h r.1) _ _

end DiskWork

/-! ### Handling a task -/

/-- The same for one descriptor, under another number. -/
structure DiskHandled.Alike (n : Nat) (fd : Fd) (h g : DiskHandled) : Prop where
  infos : g.manager.infos fd = (h.manager.infos fd).map (DiskInfo.numbered n)
  effects : g.effects = h.effects

/-- What a task can get to know of two managers is the same, up to the number of its object. -/
structure DiskManager.Alike (n : Nat) (ps : List (List Char)) (ds : List Nat) (t : DiskTask) (m m' : DiskManager) :
    Prop where
  infos : m'.infos t.ctrlFd = (m.infos t.ctrlFd).map (DiskInfo.numbered n)
  allocated : m'.allocated = n
  files : m.files.Alike ps ds m'.files
  task : strncpy pathSize t.curPath ∈ ps
  path : ∀ d, m.infos t.ctrlFd = some d → d.curPath ∈ ps
  handle : ∀ d, m.infos t.ctrlFd = some d → ∀ k, d.fileHandle = some k → k ∈ ds

section
variable {n : Nat} {ps names : List (List Char)} {ds : List Nat} {w v : DiskWork} {c : DiskCalls} {dirs' : Directories}
  {t : DiskTask} {m m' : DiskManager} {d : DiskInfo} {h g : DiskHandled} {fd : Fd}

theorem started_alike (hm : m'.infos w.info.fd = (m.infos w.info.fd).map (DiskInfo.numbered n))
    (hw : w.Alike n ps ds v) : (m.started w).Alike n w.info.fd (m'.started v) := by
  refine ⟨?_, hw.effects⟩
  have hfd : v.info.fd = w.info.fd := by rw [hw.info]; rfl
  show Registry.insert m'.infos v.info.fd v.info w.info.fd = (Registry.insert m.infos w.info.fd w.info w.info.fd).map _
  rw [hfd, hw.info]
  cases hd : m.infos w.info.fd with
  | none =>
    rw [hd] at hm
    rw [Registry.insert_free hd, Registry.insert_free hm]
    rfl
  | some d =>
    rw [hd] at hm
    rw [Registry.insert_taken hd, Registry.insert_taken hm, hm, hd]

theorem worked_alike (hw : w.Alike n ps ds v) (ret : Int) : (m.worked fd w ret).Alike n fd (m'.worked fd v ret) := by
  refine ⟨?_, hw.effects⟩
  show Registry.modify m'.infos fd v.info fd = (Registry.modify m.infos fd w.info fd).map _
  rw [Registry.modify_same, Registry.modify_same, hw.info]
  rfl

theorem thenDelete_alike (hg : h.Alike n fd g) : (h.thenDelete fd).Alike n fd (g.thenDelete fd) := by
  unfold DiskHandled.thenDelete DiskManager.delDisk
  rw [show g.manager.seekDisk fd = _ from hg.infos]
  cases hd : h.manager.infos fd with
  | none =>
    rw [show h.manager.seekDisk fd = none from hd]
    refine ⟨?_, ?_⟩
    · show g.manager.infos fd = (h.manager.infos fd).map _
      exact hg.infos
    · show g.effects ++ [] = h.effects ++ []
      rw [hg.effects]
  | some d =>
    rw [show h.manager.seekDisk fd = some d from hd]
    refine ⟨?_, ?_⟩
    · show Registry.erase g.manager.infos fd fd = (Registry.erase h.manager.infos fd fd).map _
      rw [Registry.erase_same, Registry.erase_same]
      rfl
    · show g.effects ++ (DiskWork.closeFileHandle {info := d.numbered n, files := g.manager.files}).effects =
        h.effects ++ (DiskWork.closeFileHandle {info := d, files := h.manager.files}).effects
      have hhandle : (d.numbered n).fileHandle = d.fileHandle := rfl
      unfold DiskWork.closeFileHandle
      dsimp only
      rw [hg.effects, hhandle]
      cases d.fileHandle with
      | none => rfl
      | some k => rfl

theorem finish_alike (hg : h.Alike n fd g) : (h.finish fd).Alike n fd (g.finish fd) := by
  refine thenDelete_alike ⟨hg.infos, ?_⟩
  dsimp only
  rw [hg.effects]

namespace DiskFsm

theorem runRetrLoading_alike (dirs' : Directories) (hw : w.Alike n ps ds v) :
    (runRetrLoading {c with dirs := dirs'} v).1 = (runRetrLoading c w).1 ∧
      (runRetrLoading c w).2.Alike n ps ds (runRetrLoading {c with dirs := dirs'} v).2 := by
  obtain ⟨hsame, hread⟩ := DiskWork.readFromDisk_alike (c := c) dirs' hw
  unfold runRetrLoading
  dsimp only
  rw [hsame]
  split
  · exact ⟨rfl, hread⟩
  · exact ⟨rfl, DiskWork.closeFileHandle_alike hread⟩

theorem runRetrStart_alike (dirs' : Directories) (hw : w.Alike n ps ds v) (hopens : ∀ d, c.opens = some d → d ∈ ds) :
    (runRetrStart {c with dirs := dirs'} v).1 = (runRetrStart c w).1 ∧
      (runRetrStart c w).2.Alike n ps ds (runRetrStart {c with dirs := dirs'} v).2 :=
  runRetrLoading_alike dirs' (DiskWork.seekFileHandle_alike (DiskWork.openPath_alike hw hopens false))

theorem runStorStart_alike (dirs' : Directories) (hw : w.Alike n ps ds v) (hopens : ∀ d, c.opens = some d → d ∈ ds) :
    (runStorStart c w).2.Alike n ps ds (runStorStart {c with dirs := dirs'} v).2 := by
  have hrest : v.info.restSize = w.info.restSize := by
    rw [hw.info]
    rfl
  unfold runStorStart
  rw [hrest]
  split
  · exact DiskWork.openPath_alike hw hopens true
  · exact DiskWork.setRestSize_alike (DiskWork.seekFileHandle_alike (DiskWork.openPath_alike hw hopens false)) 0

theorem runStorFinish_alike (dirs' : Directories) (hw : w.Alike n ps ds v) :
    (runStorFinish {c with dirs := dirs'} t v).1 = (runStorFinish c t w).1 ∧
      (runStorFinish c t w).2.Alike n ps ds (runStorFinish {c with dirs := dirs'} t v).2 := by
  obtain ⟨hsame, hwritten⟩ := DiskWork.writeToDisk_alike (c := c) dirs' hw t
  exact ⟨hsame, DiskWork.closeFileHandle_alike hwritten⟩

theorem runIndexStart_alike (hw : w.Alike n ps ds v) (hdirs : c.dirs.Alike ps names dirs') :
    Returns (runIndexStart c w) fun r => ∃ v', runIndexStart {c with dirs := dirs'} v = .ok (r.1, v') ∧
      r.2.Alike n ps ds v' := by
  intro r hr
  obtain ⟨⟨list, u⟩, hu, hr⟩ := bind_eq_ok.mp hr
  cases hr
  have hcleared := DiskWork.clearListInfo_alike hw
  have hsame : dirs'.getDirDetail v.clearListInfo.info.curPath = c.dirs.getDirDetail w.clearListInfo.info.curPath := by
    rw [hcleared.info]
    exact getDirDetail_alike hdirs hcleared.path
  obtain ⟨v', hv', hu'⟩ :=
    DiskWork.listFrom_alike hcleared hdirs (fun name hname => hdirs.detail _ hcleared.path name hname) _ hu
  refine ⟨v', bind_eq_ok.mpr ⟨(list, v'), ?_, rfl⟩, hu'⟩
  unfold DiskWork.getList
  rw [hsame]
  exact hv'

theorem runIndexLoading_alike (hw : w.Alike n ps ds v) (hdirs : c.dirs.Alike ps names dirs')
    (hlist : ∀ name ∈ w.info.curDir, name ∈ names) :
    Returns (runIndexLoading c w) fun r => ∃ v', runIndexLoading {c with dirs := dirs'} v = .ok (r.1, v') ∧
      r.2.Alike n ps ds v' := by
  intro r hr
  obtain ⟨⟨list, u⟩, hu, hr⟩ := bind_eq_ok.mp hr
  cases hr
  have hcleared := DiskWork.clearListInfo_alike hw
  obtain ⟨v', hv', hu'⟩ := DiskWork.listFrom_alike hcleared hdirs hlist _ hu
  refine ⟨v', bind_eq_ok.mpr ⟨(list, v'), ?_, rfl⟩, hu'⟩
  unfold DiskWork.getListNext
  rw [hcleared.info]
  exact hv'

theorem construct_alike (hm : m.Alike n ps ds t m') : (m.construct t).Alike n ps ds (m'.construct t) := by
  refine ⟨?_, hm.files, rfl, hm.task, fun _ h => nomatch h⟩
  rw [← hm.allocated]
  rfl

/-- The object found, under another number. -/
theorem found_alike (hm : m.Alike n ps ds t m') (hd : m.infos t.ctrlFd = some d) :
    m'.infos t.ctrlFd = some (d.numbered n) ∧
      DiskWork.Alike n ps ds {info := d, files := m.files} {info := d.numbered n, files := m'.files} := by
  refine ⟨?_, rfl, hm.files, rfl, hm.path d hd, hm.handle d hd⟩
  rw [hm.infos, hd]
  rfl

theorem writeDone_alike (hm : m.Alike n ps ds t m') (hd : m.infos t.ctrlFd = some d)
    (hdirs : c.dirs.Alike ps names dirs') (hlist : ∀ name ∈ d.curDir, name ∈ names) :
    Returns (writeDone c t m d) fun h => ∃ g, writeDone {c with dirs := dirs'} t m' (d.numbered n) = .ok g ∧
      h.Alike n t.ctrlFd g := by
  obtain ⟨_, hfound⟩ := found_alike hm hd
  have haction : (d.numbered n).dataAction = d.dataAction := rfl
  have hidle : DiskHandled.Alike n t.ctrlFd {manager := m} {manager := m'} := ⟨hm.infos, rfl⟩
  unfold writeDone
  rw [haction]
  cases d.dataAction with
  | indexLoading =>
    intro h hh
    obtain ⟨⟨a, w⟩, hw, hh⟩ := bind_eq_ok.mp hh
    obtain ⟨u, hu, hh⟩ := bind_eq_ok.mp hh
    cases hh
    obtain ⟨v, hv, hwv⟩ := runIndexLoading_alike hfound hdirs hlist _ hw
    obtain ⟨u', hu', huu'⟩ := DiskWork.sent_alike (r := (a, w)) (q := (a, v)) rfl hwv (·.listInfo)
      (fun d => d.listInfo.length) (fun _ => rfl) (fun _ => rfl) u hu
    exact ⟨_, bind_eq_ok.mpr ⟨_, hv, bind_eq_ok.mpr ⟨u', hu', rfl⟩⟩, worked_alike huu' 0⟩
  | indexFinish => exact .ok ⟨_, rfl, finish_alike hidle⟩
  | retrLoading =>
    intro h hh
    obtain ⟨u, hu, hh⟩ := bind_eq_ok.mp hh
    cases hh
    obtain ⟨hsame, hwv⟩ := runRetrLoading_alike (c := c) dirs' hfound
    obtain ⟨u', hu', huu'⟩ := DiskWork.sent_alike hsame hwv (·.fileBuffer) (·.bufLen) (fun _ => rfl) (fun _ => rfl) u hu
    exact ⟨_, bind_eq_ok.mpr ⟨u', hu', rfl⟩, worked_alike huu' 0⟩
  | retrFinish => exact .ok ⟨_, rfl, finish_alike hidle⟩
  | _ => exact .ok ⟨_, rfl, hidle⟩

theorem storing_alike (hm : m.Alike n ps ds t m') (hd : m.infos t.ctrlFd = some d) :
    (storing c t m d).Alike n t.ctrlFd (storing {c with dirs := dirs'} t m' (d.numbered n)) := by
  obtain ⟨_, hfound⟩ := found_alike hm hd
  obtain ⟨hsame, hwritten⟩ := DiskWork.writeToDisk_alike (c := c) dirs'
    (DiskWork.setDataAction_alike hfound .storing) t
  unfold storing runStorLoading
  dsimp only
  rw [hsame]
  split
  · exact worked_alike hwritten 0
  · split
    · exact worked_alike hwritten (-1)
    · exact worked_alike (DiskWork.setDataAction_alike hwritten .storDone) 0

theorem storOk_alike (hm : m.Alike n ps ds t m') (hd : m.infos t.ctrlFd = some d) :
    (storOk c t m d).Alike n t.ctrlFd (storOk {c with dirs := dirs'} t m' (d.numbered n)) := by
  obtain ⟨_, hfound⟩ := found_alike hm hd
  obtain ⟨hsame, hwritten⟩ := runStorFinish_alike (c := c) (t := t) dirs'
    (DiskWork.setDataAction_alike hfound .storing)
  unfold storOk
  dsimp only
  rw [hsame]
  split
  · exact worked_alike hwritten 0
  · split
    · exact worked_alike hwritten (-1)
    · exact finish_alike (worked_alike (DiskWork.setDataAction_alike hwritten .storDone) 0)

/-- What is done with the object found, if there is one. -/
theorem looked_alike {f g : DiskInfo → Except Fault DiskHandled} (hm : m.Alike n ps ds t m')
    (hfg : ∀ d, m.infos t.ctrlFd = some d →
      Returns (f d) fun h => ∃ k, g (d.numbered n) = .ok k ∧ h.Alike n t.ctrlFd k) :
    Returns (match m.seekDisk t.ctrlFd with | none => .ok {manager := m} | some d => f d) fun h =>
      ∃ k, (match m'.seekDisk t.ctrlFd with | none => Except.ok ({manager := m'} : DiskHandled) | some d => g d) = .ok k ∧
        h.Alike n t.ctrlFd k := by
  rw [show m'.seekDisk t.ctrlFd = (m.seekDisk t.ctrlFd).map (DiskInfo.numbered n) from hm.infos]
  cases hd : m.seekDisk t.ctrlFd with
  | none => exact .ok ⟨_, rfl, hm.infos, rfl⟩
  | some d => exact hfg d hd

/-- A task does the same for its descriptor whatever the numbers are, and whatever else there is. -/
theorem roll_alike (hm : m.Alike n ps ds t m') (hopens : ∀ d, c.opens = some d → d ∈ ds)
    (hdirs : c.dirs.Alike ps names dirs') (hlist : ∀ d, m.infos t.ctrlFd = some d → ∀ name ∈ d.curDir, name ∈ names) :
    Returns (rollStateMachine c t m) fun h =>
      ∃ g, rollStateMachine {c with dirs := dirs'} t m' = .ok g ∧ h.Alike n t.ctrlFd g := by
  have hmade := construct_alike hm
  have hother : DiskHandled.Alike n t.ctrlFd {manager := m} {manager := m'} := ⟨hm.infos, rfl⟩
  unfold rollStateMachine
  cases ht : t.action with
  | indexStart =>
    intro h hh
    obtain ⟨⟨a, w⟩, hw, hh⟩ := bind_eq_ok.mp hh
    obtain ⟨u, hu, hh⟩ := bind_eq_ok.mp hh
    cases hh
    have hfd : u.info.fd = t.ctrlFd := (((runIndexStart_goes _ _ hw).trans (DiskWork.setDataAction_goes _ _)).trans
      (DiskWork.dataPost_goes _ _ _ u hu)).fd
    obtain ⟨v, hv, hwv⟩ := runIndexStart_alike hmade hdirs _ hw
    obtain ⟨u', hu', huu'⟩ := DiskWork.sent_alike (r := (a, w)) (q := (a, v)) rfl hwv (·.listInfo)
      (fun d => d.listInfo.length) (fun _ => rfl) (fun _ => rfl) u hu
    exact ⟨_, bind_eq_ok.mpr ⟨_, hv, bind_eq_ok.mpr ⟨u', hu', rfl⟩⟩, hfd ▸ started_alike (hfd ▸ hm.infos) huu'⟩
  | storStart =>
    simp only [runStorStart_ret, if_true]
    have hset := DiskWork.setDataAction_alike (runStorStart_alike dirs' hmade hopens) .storStart
    generalize hw : (runStorStart c (m.construct t)).2.setDataAction .storStart = w at hset ⊢
    have hfd : w.info.fd = t.ctrlFd := hw ▸ (runStorStart_begins.fd : (runStorStart c (m.construct t)).2.info.fd = _)
    have hstarted := started_alike (hfd ▸ hm.infos) hset
    refine .ok ⟨_, rfl, hfd ▸ hstarted.infos, ?_⟩
    dsimp only
    rw [hstarted.effects]
  | retrStart =>
    intro h hh
    obtain ⟨u, hu, hh⟩ := bind_eq_ok.mp hh
    cases hh
    have hfd : u.info.fd = t.ctrlFd := (runRetrStart_begins.goes ((DiskWork.setDataAction_goes _ _).trans
      (DiskWork.dataPost_goes _ _ _ u hu))).fd
    obtain ⟨hsame, hwv⟩ := runRetrStart_alike (c := c) dirs' hmade hopens
    obtain ⟨u', hu', huu'⟩ := DiskWork.sent_alike hsame hwv (·.fileBuffer) (·.bufLen) (fun _ => rfl) (fun _ => rfl) u hu
    exact ⟨_, bind_eq_ok.mpr ⟨u', hu', rfl⟩, hfd ▸ started_alike (hfd ▸ hm.infos) huu'⟩
  | writeDone => exact looked_alike hm fun d hd => writeDone_alike hm hd hdirs (hlist d hd)
  | storing =>
    exact looked_alike (g := fun d => .ok (storing {c with dirs := dirs'} t m' d)) hm fun d hd =>
      .ok ⟨_, rfl, storing_alike hm hd⟩
  | storOk =>
    exact looked_alike (g := fun d => .ok (storOk {c with dirs := dirs'} t m' d)) hm fun d hd =>
      .ok ⟨_, rfl, storOk_alike hm hd⟩
  | dele =>
    exact looked_alike (g := fun _ => .ok ({manager := m' : DiskHandled}.thenDelete t.ctrlFd)) hm fun _ _ =>
      .ok ⟨_, rfl, thenDelete_alike hother⟩
  | other code => exact looked_alike (g := fun _ => .ok {manager := m'}) hm fun _ _ => .ok ⟨_, rfl, hother⟩

end DiskFsm
end

end HyperTransfer
