import HyperTransfer.Disk.Steps
import HyperTransfer.Session.Handover

/-! The offset of a transfer on its way to the file.

A `REST` or an `APPE` leaves the offset in the session as a `long`; the disk task hands it on
as an `int`, and `run_stor_start` chooses between creating a file and opening one by that
alone. `offset_survives_iff` says which offsets reach `lseek`, and `placed_iff` when an
accepted upload leaves its file open where it was asked for: the start is reported either
way. -/
namespace HyperTransfer
open CString

/-! ### What an accepted command has found -/

section
variable {env : Env} {fs : FileSystem} {s : Session} {cmd : Command} {h g : Handled} {t : SessionTask} {d : DiskTask}

/-- An upload is accepted for a file that is not there. -/
theorem comSTOR_finds (hh : Command.stor.handle env fs s = .ok h) (harms : .setDataAction .stor ∈ h.effects) :
    fs.stat h.session.fileName = none := by
  cases transfer_comes (Or.inl rfl) h hh with
  | refused => simp [Session.answer, Session.post] at harms
  | answered => simp [Session.answer, Session.post, Handled.after] at harms
  | stor _ a jump hpath hstat =>
    show fs.stat (strncpy pathSize a.path) = none
    rw [transferPath_fits hpath, hstat]

/-- A download is accepted for a file that is at least as long as the offset. -/
theorem comRETR_finds (hh : Command.retr.handle env fs s = .ok h) (harms : .setDataAction .retr ∈ h.effects) :
    ∃ info, fs.stat h.session.fileName = some info ∧ s.restSize ≤ info.size := by
  cases transfer_comes (Or.inr (Or.inr rfl)) h hh with
  | refused => simp [Session.answer, Session.post] at harms
  | answered => simp [Session.answer, Session.post, Handled.after] at harms
  | retr _ a jump hpath info hstat hlong =>
    refine ⟨info, ?_, hlong⟩
    show fs.stat (strncpy pathSize a.path) = some info
    rw [transferPath_fits hpath, hstat]

/-- The offset an accepted command leaves: the end of the file for `APPE`, the session's own
for the others. -/
theorem accepted_offset (hcmd : cmd.Transfers) (hh : cmd.handle env fs s = .ok h)
    (harms : .setDataAction cmd.arms ∈ h.effects) :
    h.session.restSize = if cmd = .appe then appeOffset fs h.session.fileName else s.restSize := by
  have hoffset := (handle_parks h hh).offset
  have hsets : h.effects.any Effect.sets = true := List.any_eq_true.mpr ⟨_, harms, rfl⟩
  rcases hcmd with rfl | rfl | rfl
  · exact hoffset
  · rw [if_neg (by decide), if_pos ⟨rfl, hsets⟩] at hoffset
    exact hoffset
  · exact hoffset

/-- The task the data connection posts for it. -/
theorem load_posts (hcmd : cmd.Transfers) (hh : cmd.handle env fs s = .ok h)
    (harms : .setDataAction cmd.arms ∈ h.effects) (ht : t.action = .dataAccept)
    (hg : rollSession env fs t h.session = .ok g) (hd : .postToDisk d ∈ g.effects) :
    d = .ofPath h.session.fd (if cmd = .retr then .retrStart else .storStart) h.session.fileName h.session.restSize ∧
      strncpy pathSize h.session.fileName = h.session.fileName := by
  have hdata : h.session.dataAction = cmd.arms := by
    rcases handle_moves h hh with hreplies | ⟨_, harmed⟩
    · have hmoves := hreplies.moves
      rw [List.filter_eq_nil_iff] at hmoves
      exact absurd rfl (hmoves _ harms)
    · exact harmed.dataAction
  cases rollSession_comes env _ _ _ g hg with
  | listLoad _ hs =>
    rw [hdata] at hs
    rcases hcmd with rfl | rfl | rfl <;> cases hs
  | storLoad _ hs hname =>
    rw [hdata] at hs
    have hne : cmd ≠ .retr := by
      rintro rfl
      cases hs
    obtain rfl : d = _ := by simpa using hd
    rw [if_neg hne]
    exact ⟨rfl, strncpy_of_le (Nat.le_of_lt hname)⟩
  | retrLoad _ hs hname =>
    obtain rfl : d = _ := by simpa [Session.post] using hd
    have heq : cmd = .retr := by
      rw [hdata] at hs
      rcases hcmd with rfl | rfl | rfl
      · cases hs
      · cases hs
      · rfl
    rw [if_pos heq]
    exact ⟨rfl, strncpy_of_le (Nat.le_of_lt hname)⟩
  | idle _ hs =>
    have harmed := hs ht
    rw [hdata] at harmed
    rcases hcmd with rfl | rfl | rfl <;> cases harmed
  | unheard hread | heard hread | announced hread | busy hread | storStart hread | transOk hread =>
    rw [ht] at hread
    cases hread

end

/-! ### From the session to `lseek` -/

theorem seekFileHandle_open {w : DiskWork} {c : DiskCalls} {n : Nat} (h : w.info.fileHandle = some n) :
    w.seekFileHandle c = {w with files := w.files.seek n w.info.restSize c.seeks} := by
  unfold DiskWork.seekFileHandle
  rw [h]

/-- `run_stor_start` takes the branch for a file that is there. -/
theorem runStorStart_resumes {w : DiskWork} {c : DiskCalls} (h : toInt w.info.restSize ≠ 0) :
    DiskFsm.runStorStart c w = (0, ((w.openWriteonly c).seekFileHandle c).setRestSize 0) := if_neg h

section
variable {c : DiskCalls} {m : DiskManager} {t : DiskTask}

theorem construct_opens (create : Bool) (hpath : strncpy pathSize t.curPath = t.curPath)
    {handle : Option Nat} {files : Files (List Char) Char}
    (hopen : m.files.openFile t.curPath create c.opens = (handle, files)) :
    (m.construct t).openPath c create =
      { info := {DiskInfo.new m.allocated t with fileHandle := handle}
        files := files
        effects := [.opened t.curPath handle] } := by
  have hcur : (m.construct t).info.curPath = t.curPath := hpath
  have hfiles : (m.construct t).files = m.files := rfl
  unfold DiskWork.openPath
  rw [hcur, hfiles, hopen]
  rfl

/-- The start opens the file, moves in it unless it has created it, and is reported. -/
theorem storStart_does (ht : t.action = .storStart) (hpath : strncpy pathSize t.curPath = t.curPath)
    {handle : Option Nat} {files : Files (List Char) Char}
    (hopen : m.files.openFile t.curPath (t.getRestSize = 0) c.opens = (handle, files)) :
    ∃ r, DiskFsm.rollStateMachine c t m = .ok r ∧
      r.effects = [.opened t.curPath handle, .postToSession {fd := t.ctrlFd, action := .storStart}] ∧
      r.manager.files.content = files.content ∧
      ∀ n, handle = some n → r.manager.files.opened n =
        some {path := t.curPath, pos := if c.seeks then t.getRestSize.toNat else 0} := by
  have hint : toInt (m.construct t).info.restSize = t.getRestSize := toInt_toInt _
  have hopened (n : Nat) (hn : handle = some n) : files.opened n = some {path := t.curPath, pos := 0} := by
    rw [hn] at hopen
    rw [(Files.openFile_opens hopen).1, Function.update_self]
  have hopens := construct_opens _ hpath hopen
  unfold DiskFsm.rollStateMachine
  rw [ht]
  by_cases hzero : t.getRestSize = 0
  · have hrun : DiskFsm.runStorStart c (m.construct t) = (0, (m.construct t).openPath c (t.getRestSize = 0)) := by
      unfold DiskFsm.runStorStart
      rw [hint, if_pos hzero, decide_eq_true hzero]
      rfl
    dsimp only
    rw [hrun, hopens]
    refine ⟨_, rfl, rfl, rfl, fun n hn => ?_⟩
    rw [hzero, Int.toNat_zero, ite_self]
    exact hopened n hn
  · have hrun : DiskFsm.runStorStart c (m.construct t) =
        (0, (((m.construct t).openPath c (t.getRestSize = 0)).seekFileHandle c).setRestSize 0) := by
      rw [decide_eq_false hzero]
      exact runStorStart_resumes (by rw [hint]; exact hzero)
    dsimp only
    rw [hrun, hopens]
    cases handle with
    | none => exact ⟨_, rfl, rfl, rfl, fun _ h => nomatch h⟩
    | some k =>
      rw [seekFileHandle_open (n := k) rfl]
      refine ⟨_, rfl, rfl, Files.seek_content .., fun n hn => ?_⟩
      injection hn with hn
      rw [← hn]
      have hmoved := (Files.seek_start (hopened k rfl) t.getRestSize c.seeks).1
      show (files.seek k t.getRestSize c.seeks).opened k = _
      rw [hmoved, Function.update_self]

/-- The start of an upload with an offset creates no file. -/
theorem storStart_creates_none (ht : t.action = .storStart) (hpath : strncpy pathSize t.curPath = t.curPath)
    (hrest : t.getRestSize ≠ 0) :
    ∃ r, DiskFsm.rollStateMachine c t m = .ok r ∧ r.manager.files.content = m.files.content := by
  have hcontent := Files.openFile_content m.files t.curPath (t.getRestSize = 0) c.opens
  rw [decide_eq_false hrest] at hcontent
  cases hopen : m.files.openFile t.curPath (t.getRestSize = 0) c.opens with
  | mk handle files =>
    obtain ⟨r, hr, _, hfiles, _⟩ := storStart_does ht hpath hopen
    rw [decide_eq_false hrest] at hopen
    rw [hopen] at hcontent
    exact ⟨r, hr, hfiles.trans (hcontent.resolve_right fun h => nomatch h.1)⟩

/-- A read of the file that is open brings the piece it stands at. -/
theorem readFromDisk_piece {w : DiskWork} {n k pos : Nat} {path bytes : List Char} (hn : w.info.fileHandle = some n)
    (hat : w.files.opened n = some {path := path, pos := pos}) (hbytes : w.files.content path = some bytes)
    (hread : c.reads = some k) {got : List Char} (hgot : (bytes.drop pos).take (min fileBufSize (max 1 k)) = got) :
    (w.readFromDisk c).1 = got.length ∧ (w.readFromDisk c).2.info.bufLen = got.length ∧
      (w.readFromDisk c).2.effects = w.effects ++ [.read (some path) got] := by
  have hpiece := Files.read_piece hat hbytes fileBufSize k
  rw [hgot] at hpiece
  have hpath : w.files.pathOf n = some path := by
    unfold Files.pathOf
    rw [hat]
    rfl
  unfold DiskWork.readFromDisk
  rw [hn]
  dsimp only
  rw [hread, hpiece, hpath]
  exact ⟨rfl, rfl, rfl⟩

/-- The start of a download opens the file, moves in it, and reads the first piece. -/
theorem retrStart_does (ht : t.action = .retrStart) (hpath : strncpy pathSize t.curPath = t.curPath)
    {bytes : List Char} (hbytes : m.files.content t.curPath = some bytes) {n k : Nat} (hopen : c.opens = some n)
    (hfree : m.files.opened n = none) (hread : c.reads = some k) :
    ∃ r, DiskFsm.rollStateMachine c t m = .ok r ∧
      ∀ path got, .read path got ∈ r.effects ↔ path = some t.curPath ∧
        got = (bytes.drop (if c.seeks then t.getRestSize.toNat else 0)).take (min fileBufSize (max 1 k)) := by
  have hopens := construct_opens false hpath (by rw [hopen, Files.openFile_existing hbytes hfree])
  generalize hfiles : ({m.files with opened := Function.update m.files.opened n (some ⟨t.curPath, 0⟩)} :
    Files (List Char) Char) = files at hopens
  have hstart : files.opened n = some {path := t.curPath, pos := 0} := by
    rw [← hfiles]
    exact Function.update_self ..
  have hmoved := (Files.seek_start hstart t.getRestSize c.seeks).1
  generalize hsought : ((m.construct t).openReadonly c).seekFileHandle c = w
  have hw : w = {
      info := {DiskInfo.new m.allocated t with fileHandle := some n}
      files := files.seek n t.getRestSize c.seeks
      effects := [.opened t.curPath (some n)] } := by
    rw [← hsought, DiskWork.openReadonly, hopens, seekFileHandle_open (n := n) rfl]
    rfl
  have hcontent : w.files.content t.curPath = some bytes := by
    rw [hw]
    dsimp only
    rw [Files.seek_content, ← hfiles]
    exact hbytes
  have hat : w.files.opened n =
      some {path := t.curPath, pos := if c.seeks then t.getRestSize.toNat else 0} := by
    rw [hw]
    dsimp only
    rw [hmoved, Function.update_self]
  generalize hgot : (bytes.drop (if c.seeks then t.getRestSize.toNat else 0)).take (min fileBufSize (max 1 k)) = got
  obtain ⟨hret, hlen, heffects⟩ := readFromDisk_piece (by rw [hw]) hat hcontent hread hgot
  have hbegun : w.effects = [.opened t.curPath (some n)] := by rw [hw]
  rw [hbegun] at heffects
  unfold DiskFsm.rollStateMachine
  rw [ht]
  dsimp only
  unfold DiskFsm.runRetrStart DiskFsm.runRetrLoading
  rw [hsought]
  generalize w.readFromDisk c = r at hret hlen heffects
  obtain ⟨ret, v⟩ := r
  dsimp only at hret hlen heffects ⊢
  have hposted : ¬ v.info.bufLen < 0 := by omega
  by_cases hmore : ret > 0
  · rw [if_pos hmore]
    dsimp only
    rw [DiskWork.dataPost, if_neg hposted]
    refine ⟨_, rfl, fun path piece => ?_⟩
    simp [DiskManager.started, DiskWork.setDataAction, heffects]
  · rw [if_neg hmore]
    dsimp only
    have hclosed (path piece) : DiskEffect.read path piece ∈ v.closeFileHandle.effects ↔ .read path piece ∈ v.effects := by
      unfold DiskWork.closeFileHandle
      split <;> simp
    rw [DiskWork.dataPost, DiskWork.closeFileHandle_info, if_neg hposted]
    refine ⟨_, rfl, fun path piece => ?_⟩
    simp [DiskManager.started, DiskManager.addDisk, DiskWork.setDataAction, hclosed, heffects]

end

/-- The offset a transfer asks for: the file's end for `APPE`, otherwise what the last `REST` stored. -/
def Command.asked (s : Session) (info : FileInfo) : Command → Int
  | .appe => info.size
  | _ => s.restSize

/-- Where the start of a transfer has come to in a file of these bytes that is open as `n`: a
download has read a piece from there, an upload stands there. -/
def DiskHandled.StartsAt (path bytes : List Char) (n k pos : Nat) (r : DiskHandled) : Command → Prop
  | .retr => .read (some path) ((bytes.drop pos).take (min fileBufSize (max 1 k))) ∈ r.effects
  | _ => r.manager.files.opened n = some {path := path, pos := pos}

/-- Handling the task starts the transfer at the offset it asks for, which lies inside the file;
an append that has one leaves a file that is not there alone. -/
structure DiskTask.Survives (s : Session) (info : FileInfo) (cmd : Command) (d : DiskTask) : Prop where
  inside : 0 ≤ cmd.asked s info ∧ cmd.asked s info ≤ info.size
  starts : ∀ (c : DiskCalls) (m : DiskManager) (bytes : List Char) (n k : Nat),
    m.files.content d.curPath = some bytes → bytes.length = info.size →
    c.opens = some n → m.files.opened n = none → c.seeks = true → c.reads = some k →
    ∃ r, DiskFsm.rollStateMachine c d m = .ok r ∧ r.StartsAt d.curPath bytes n k (cmd.asked s info).toNat cmd
  existing : cmd = .appe → cmd.asked s info ≠ 0 → ∀ (c : DiskCalls) (m : DiskManager),
    m.files.content d.curPath = none →
    ∃ r, DiskFsm.rollStateMachine c d m = .ok r ∧ r.manager.files.content d.curPath = none

theorem toInt_lt (n : Int) : -2 ^ 31 ≤ toInt n ∧ toInt n < 2 ^ 31 := by
  unfold toInt
  have hle := Int.le_bmod (x := n) (m := 2 ^ 32) (by decide)
  have hlt := Int.bmod_lt (x := n) (m := 2 ^ 32) (by decide)
  omega

/-- A file whose bytes change at an offset reads differently before it. -/
theorem marked_differs {a b : Nat} (h : b < a) (rest : Nat) :
    ((List.replicate a 'a' ++ List.replicate rest 'b').drop a).take 1 ≠
      ((List.replicate a 'a' ++ List.replicate rest 'b').drop b).take 1 := by
  intro heq
  have hfirst := congrArg List.head? heq
  have hb : (List.replicate a 'a' ++ List.replicate rest 'b')[b]? = some 'a' := by
    rw [List.getElem?_append_left (by rw [List.length_replicate]; exact h), List.getElem?_replicate_of_lt h]
  have ha : (List.replicate a 'a' ++ List.replicate rest 'b')[a]? = (List.replicate rest 'b').head? := by
    rw [List.getElem?_append_right (by rw [List.length_replicate]), List.length_replicate, Nat.sub_self,
      List.head?_eq_getElem?]
  rw [List.head?_take, if_neg (by decide), List.head?_take, if_neg (by decide), List.head?_drop, List.head?_drop, hb,
    ha, List.head?_replicate] at hfirst
  split at hfirst
  · exact nomatch hfirst
  · injection hfirst with hsame
    exact absurd hsame (by decide)

/-- A task whose transfer starts at the offset it asks for in every file that is there hands on an
offset of an `int`. -/
theorem asked_lt {s : Session} {info : FileInfo} {cmd : Command} {d : DiskTask} (hcmd : cmd = .retr ∨ cmd = .appe)
    (haction : d.action = if cmd = .retr then .retrStart else .storStart) (hrest : d.restSize = cmd.asked s info)
    (hpath : strncpy pathSize d.curPath = d.curPath) (hs : d.Survives s info cmd) : cmd.asked s info < 2 ^ 31 := by
  by_contra hlarge
  obtain ⟨hpos, hinside⟩ := hs.inside
  have hbefore : d.getRestSize.toNat < (cmd.asked s info).toNat := by
    have hlt := (toInt_lt d.restSize).2
    change d.getRestSize < 2 ^ 31 at hlt
    omega
  -- a file of the right length whose bytes change at the offset tells where the start has come to
  generalize hbytes : List.replicate (cmd.asked s info).toNat 'a' ++
    List.replicate (info.size - (cmd.asked s info).toNat) 'b' = bytes
  have hlength : bytes.length = info.size := by
    rw [← hbytes, List.length_append, List.length_replicate, List.length_replicate]
    omega
  let m := DiskManager.idle {content := fun _ => some bytes, opened := fun _ => none}
  have hthere : m.files.content d.curPath = some bytes := rfl
  obtain ⟨r, hr, hat⟩ := hs.starts {opens := some 0, reads := some 0} m bytes 0 0 rfl hlength rfl rfl rfl rfl
  rcases hcmd with rfl | rfl
  · obtain ⟨r', hr', hreads⟩ := retrStart_does (c := {opens := some 0, reads := some 0}) (m := m) (k := 0) haction hpath
      hthere rfl rfl rfl
    rw [hr] at hr'
    cases hr'
    have hpiece := ((hreads _ _).mp hat).2
    rw [← hbytes] at hpiece
    exact marked_differs hbefore _ hpiece
  · have hopens := Files.openFile_existing (f := m.files) (d := 0) hthere rfl (d.getRestSize = 0)
    obtain ⟨r', hr', _, _, hopened⟩ := storStart_does (c := {opens := some 0, reads := some 0}) haction hpath hopens
    rw [hr] at hr'
    cases hr'
    change r.manager.files.opened 0 = some _ at hat
    rw [hopened 0 rfl] at hat
    injection hat with hat
    injection hat with _ hsame
    rw [if_pos rfl] at hsame
    omega

/-- An accepted download or append starts at the offset it asked for, inside the file, exactly
when that is not negative and below 2 GiB. -/
theorem offset_survives_iff (env : Env) (fs : FileSystem) (s : Session) (h g : Handled) (cmd : Command)
    (hcmd : cmd = .retr ∨ cmd = .appe) (hh : cmd.handle env fs s = .ok h) (harms : .setDataAction cmd.arms ∈ h.effects)
    (info : FileInfo) (hinfo : fs.stat h.session.fileName = some info) (t : SessionTask) (ht : t.action = .dataAccept)
    (hg : rollSession env fs t h.session = .ok g) (d : DiskTask) (hd : .postToDisk d ∈ g.effects) :
    d.Survives s info cmd ↔ 0 ≤ cmd.asked s info ∧ cmd.asked s info < 2 ^ 31 := by
  have htransfers : cmd.Transfers := hcmd.elim (fun h => Or.inr (Or.inr h)) fun h => Or.inr (Or.inl h)
  obtain ⟨hd, hfits⟩ := load_posts htransfers hh harms ht hg hd
  have hasked : h.session.restSize = cmd.asked s info := by
    have hoffset := accepted_offset htransfers hh harms
    rcases hcmd with rfl | rfl
    · exact hoffset
    · rw [if_pos rfl, appeOffset, hinfo] at hoffset
      exact hoffset
  have hinside : cmd.asked s info ≤ info.size := by
    rcases hcmd with rfl | rfl
    · obtain ⟨info', hinfo', hle⟩ := comRETR_finds hh harms
      rw [hinfo] at hinfo'
      injection hinfo' with hsame
      rw [hsame]
      exact hle
    · exact Int.le_refl _
  have haction : d.action = if cmd = .retr then .retrStart else .storStart := by rw [hd]; rfl
  have hrest : d.restSize = cmd.asked s info := by rw [hd, ← hasked]; rfl
  have hpath : strncpy pathSize d.curPath = d.curPath := by
    rw [hd]
    show strncpy pathSize (strncpy pathSize h.session.fileName) = strncpy pathSize h.session.fileName
    rw [hfits, hfits]
  constructor
  · exact fun hs => ⟨hs.inside.1, asked_lt hcmd haction hrest hpath hs⟩
  · intro hlt
    obtain ⟨hpos, hlt⟩ := hlt
    have hsame : d.getRestSize = cmd.asked s info := by
      rw [DiskTask.getRestSize, hrest]
      exact toInt_of_lt hpos hlt
    refine ⟨⟨hpos, hinside⟩, ?_, ?_⟩
    · intro c m bytes n k hbytes _ hopen hfree hseeks hread
      rcases hcmd with rfl | rfl
      · obtain ⟨r, hr, hreads⟩ := retrStart_does haction hpath hbytes hopen hfree hread
        refine ⟨r, hr, (hreads _ _).mpr ⟨rfl, ?_⟩⟩
        rw [if_pos hseeks, hsame]
      · have hopens := Files.openFile_existing hbytes hfree (d.getRestSize = 0)
        rw [← hopen] at hopens
        obtain ⟨r, hr, _, _, hopened⟩ := storStart_does haction hpath hopens
        refine ⟨r, hr, ?_⟩
        show r.manager.files.opened n = _
        rw [hopened n hopen, if_pos hseeks, hsame]
    · intro happe hne c m hnone
      rw [if_neg (by rw [happe]; decide)] at haction
      obtain ⟨r, hr, hcontent⟩ := storStart_creates_none (c := c) (m := m) haction hpath (by rw [hsame]; exact hne)
      exact ⟨r, hr, by rw [hcontent]; exact hnone⟩

/-- The session with every right, an offset and an argument. -/
def Session.ready (s : Session) (offset : Int) (argument : List Char) : Session :=
  {s with
    logIn := true, uploadPer := true, downloadPer := true, dataAction := .pasvOk
    restSize := offset, processingCommand := argument}

theorem offset_survives_five :
    ∃ h, acceptSession Env.shipped.config 0 [] (.accept 7 "10.0.0.9".toList) = .ok h ∧
      ∃ k g d, Command.retr.handle Env.shipped (.constant (some ⟨false, 10⟩)) (h.session.ready 5 "file".toList) = .ok k ∧
        rollSession Env.shipped (.constant none) {fd := 7, action := .dataAccept} k.session = .ok g ∧
        .postToDisk d ∈ g.effects ∧ d.Survives (h.session.ready 5 "file".toList) ⟨false, 10⟩ .retr :=
  ⟨_, rfl, _, _, .ofPath 7 .retrStart "/home/chentianjian/data/file".toList 5, rfl, rfl, by decide +kernel,
    (offset_survives_iff Env.shipped (.constant (some ⟨false, 10⟩)) _ _ _ .retr (Or.inl rfl) rfl (by decide +kernel)
      ⟨false, 10⟩ rfl {fd := 7, action := .dataAccept} rfl rfl _ (by decide +kernel)).mpr ⟨by decide, by decide⟩⟩

/-- Nothing keeps a negative offset from the file. -/
theorem offset_lost_negative :
    ∃ h, acceptSession Env.shipped.config 0 [] (.accept 7 "10.0.0.9".toList) = .ok h ∧
      ∃ r k g d, comREST (h.session.ready 0 " -1".toList) = .ok r ∧ r.session.restSize = -1 ∧
        Command.retr.handle Env.shipped (.constant (some ⟨false, 10⟩)) (r.session.ready (-1) "file".toList) = .ok k ∧
        .setDataAction .retr ∈ k.effects ∧
        rollSession Env.shipped (.constant none) {fd := 7, action := .dataAccept} k.session = .ok g ∧
        .postToDisk d ∈ g.effects ∧ ¬ d.Survives (r.session.ready (-1) "file".toList) ⟨false, 10⟩ .retr := by
  refine ⟨_, rfl, _, _, _, .ofPath 7 .retrStart "/home/chentianjian/data/file".toList (-1), rfl, rfl, rfl,
    by decide +kernel, rfl, by decide +kernel, fun h => ?_⟩
  exact absurd h.inside.1 (by decide)

/-! ### The start of an upload -/

/-- Handling the start leaves the file open at the task's offset, or does not report it. -/
def DiskTask.Placed (c : DiskCalls) (m : DiskManager) (t : DiskTask) : Prop :=
  ∃ r, DiskFsm.rollStateMachine c t m = .ok r ∧
    ((∃ n o, .opened t.curPath (some n) ∈ r.effects ∧
        r.manager.files.opened n = some {path := t.curPath, pos := o} ∧ (o : Int) = t.restSize) ∨
      .postToSession {fd := t.ctrlFd, action := .storStart} ∉ r.effects)

section
variable {c : DiskCalls} {m : DiskManager} {t : DiskTask}

/-- The start of an upload is placed exactly when the open succeeds, and either the task has no
offset, or the file is there, the seek succeeds and the offset is positive and below 2 GiB. -/
theorem task_placed_iff (ht : t.action = .storStart) (hpath : strncpy pathSize t.curPath = t.curPath) :
    t.Placed c m ↔ (∃ n, c.opens = some n ∧ m.files.opened n = none) ∧
      (t.restSize = 0 ∨ ((m.files.content t.curPath).isSome = true ∧ c.seeks = true ∧ 0 < t.restSize ∧ t.restSize < 2 ^ 31)) := by
  cases hopen : m.files.openFile t.curPath (t.getRestSize = 0) c.opens with
  | mk handle files =>
    obtain ⟨r, hr, heffects, _, hopened⟩ := storStart_does ht hpath hopen
    have hsucceeds (n : Nat) : handle = some n ↔ c.opens = some n ∧ m.files.opened n = none ∧
        (t.getRestSize = 0 ∨ (m.files.content t.curPath).isSome = true) := by
      have h := Files.openFile_succeeds m.files t.curPath (t.getRestSize = 0) c.opens n
      rw [hopen, decide_eq_true_iff] at h
      exact h
    have hzero : t.restSize = 0 → t.getRestSize = 0 := fun h => by rw [DiskTask.getRestSize, h]; rfl
    constructor
    · intro hp
      obtain ⟨r', hr', hp⟩ := hp
      rw [hr] at hr'
      cases hr'
      rcases hp with ⟨n, o, hmem, hat, ho⟩ | hsilent
      · rw [heffects] at hmem
        have hn : handle = some n := by simpa [eq_comm] using hmem
        obtain ⟨hfree, hclosed, hthere⟩ := (hsucceeds n).mp hn
        refine ⟨⟨n, hfree, hclosed⟩, ?_⟩
        rw [hopened n hn] at hat
        injection hat with hat
        injection hat with _ hpos
        rw [← hpos] at ho
        by_cases hrest : t.restSize = 0
        · exact Or.inl hrest
        · -- the file is open behind its start: it was there, and the seek went to the offset
          have hseeks : c.seeks = true := by
            by_contra hseeks
            rw [if_neg hseeks] at ho
            exact hrest ho.symm
          rw [if_pos hseeks] at ho
          have hlt := (toInt_lt t.restSize).2
          change t.getRestSize < 2 ^ 31 at hlt
          exact Or.inr ⟨hthere.resolve_left (by omega), hseeks, by omega, by omega⟩
      · rw [heffects] at hsilent
        exact absurd (List.mem_cons_of_mem _ (List.mem_singleton_self _)) hsilent
    · intro hc
      obtain ⟨⟨n, hfree, hclosed⟩, hc⟩ := hc
      have hthere : t.getRestSize = 0 ∨ (m.files.content t.curPath).isSome = true := hc.imp hzero fun h => h.1
      have hn : handle = some n := (hsucceeds n).mpr ⟨hfree, hclosed, hthere⟩
      refine ⟨r, hr, Or.inl ⟨n, _, by rw [heffects, hn]; exact List.mem_cons_self .., hopened n hn, ?_⟩⟩
      rcases hc with hrest | ⟨_, hseeks, hpos, hlt⟩
      · rw [hzero hrest, hrest, Int.toNat_zero, ite_self]
        rfl
      · rw [if_pos hseeks]
        have hsame : t.getRestSize = t.restSize := toInt_of_lt (Int.le_of_lt hpos) hlt
        omega

end

/-- What the files of the disk side have in common with what `stat` has shown: the file or its
absence, and that a directory cannot be opened for writing. -/
structure FileSystem.Shows (fs : FileSystem) (m : DiskManager) (c : DiskCalls) (path : List Char) : Prop where
  absent : fs.stat path = none → m.files.content path = none
  file : ∀ info, fs.stat path = some info → info.isDir = false →
    ∃ bytes, m.files.content path = some bytes ∧ bytes.length = info.size
  dir : ∀ info, fs.stat path = some info → info.isDir = true → c.opens = none

/-- The offset with which an upload can be placed: none for `STOR`, and for `APPE` the end of the
file, where a seek can get. -/
def Command.Placeable (fs : FileSystem) (s : Session) (path : List Char) (c : DiskCalls) : Command → Prop
  | .stor => s.restSize = 0
  | .appe => ∀ info, fs.stat path = some info → info.size = 0 ∨ (c.seeks = true ∧ info.size < 2 ^ 31)
  | _ => False

/-- An accepted upload leaves its file open where it was asked for, exactly when the file can be
opened and its offset is one that can be placed; the start is reported either way. -/
theorem placed_iff (env : Env) (fs : FileSystem) (s : Session) (h g : Handled) (cmd : Command)
    (hcmd : cmd = .stor ∨ cmd = .appe) (hh : cmd.handle env fs s = .ok h)
    (harms : .setDataAction cmd.arms ∈ h.effects) (t : SessionTask) (ht : t.action = .dataAccept)
    (hg : rollSession env fs t h.session = .ok g) (d : DiskTask) (hd : .postToDisk d ∈ g.effects) (c : DiskCalls)
    (m : DiskManager) (hfs : fs.Shows m c d.curPath) :
    d.Placed c m ↔ (∃ n, c.opens = some n ∧ m.files.opened n = none) ∧ cmd.Placeable fs s d.curPath c := by
  have htransfers : cmd.Transfers := hcmd.imp_right fun h => Or.inl h
  have hne : cmd ≠ .retr := by rcases hcmd with rfl | rfl <;> decide
  obtain ⟨hd, hfits⟩ := load_posts htransfers hh harms ht hg hd
  rw [if_neg hne] at hd
  have hpath : d.curPath = h.session.fileName := by
    rw [hd]
    exact hfits
  have hoffset : d.restSize = h.session.restSize := by rw [hd]; rfl
  rw [task_placed_iff (by rw [hd]; rfl) (by rw [hpath]; exact hfits), hoffset, accepted_offset htransfers hh harms]
  apply and_congr_right
  intro hopens
  obtain ⟨n, hopens, _⟩ := hopens
  rcases hcmd with rfl | rfl
  · -- the file was not there, so nothing but a created file can be open
    have hstat := comSTOR_finds hh harms
    rw [← hpath] at hstat
    rw [hfs.absent hstat, if_neg (by decide)]
    constructor
    · intro hc
      rcases hc with hzero | ⟨hthere, _⟩
      · exact hzero
      · exact nomatch hthere
    · exact Or.inl
  · rw [if_pos rfl, ← hpath, appeOffset]
    cases hstat : fs.stat d.curPath with
    | none => exact iff_of_true (Or.inl rfl) fun info hinfo => by rw [hstat] at hinfo; exact nomatch hinfo
    | some info =>
      have hfile : info.isDir = false := by
        cases hdir : info.isDir with
        | false => rfl
        | true =>
          rw [hfs.dir info hstat hdir] at hopens
          exact nomatch hopens
      obtain ⟨bytes, hbytes, _⟩ := hfs.file info hstat hfile
      rw [hbytes]
      constructor
      · intro hc info' hinfo
        rw [hstat] at hinfo
        injection hinfo with hinfo
        rw [← hinfo]
        dsimp only at hc
        rcases hc with hzero | ⟨_, hseeks, _, hlt⟩
        · exact Or.inl (by omega)
        · exact Or.inr ⟨hseeks, by omega⟩
      · intro hc
        dsimp only
        by_cases hzero : info.size = 0
        · exact Or.inl (by rw [hzero]; rfl)
        · obtain ⟨hseeks, hlt⟩ := (hc info hstat).resolve_left hzero
          exact Or.inr ⟨rfl, hseeks, by omega, by omega⟩

/-- An upload of a new file to `d` was accepted from `s` and got its data connection. -/
def Session.Uploads (s : Session) (d : DiskTask) : Prop :=
  ∃ k g, Command.stor.handle Env.shipped (.constant none) s = .ok k ∧ .setDataAction .stor ∈ k.effects ∧
    rollSession Env.shipped (.constant none) {fd := 7, action := .dataAccept} k.session = .ok g ∧
    .postToDisk d ∈ g.effects

/-- The file system without a file, as both sides see it. -/
theorem shows_nothing (c : DiskCalls) (path : List Char) : (FileSystem.constant none).Shows (.idle .empty) c path :=
  ⟨fun _ => rfl, fun _ h => (nomatch h), fun _ h => (nomatch h)⟩

theorem placed_new :
    ∃ h, acceptSession Env.shipped.config 0 [] (.accept 7 "10.0.0.9".toList) = .ok h ∧
      ∃ d, (h.session.ready 0 "file".toList).Uploads d ∧ d.Placed {opens := some 3} (.idle .empty) := by
  have hplaced (s : Session) {d : DiskTask} (hs : s.Uploads d) (hrest : s.restSize = 0) :
      ∃ d, s.Uploads d ∧ d.Placed {opens := some 3} (.idle .empty) := by
    obtain ⟨k, g, hk, harms, hg, hd⟩ := hs
    exact ⟨d, ⟨k, g, hk, harms, hg, hd⟩,
      (placed_iff Env.shipped (.constant none) s k g .stor (Or.inl rfl) hk harms _ rfl hg d hd {opens := some 3}
        (.idle .empty) (shows_nothing _ _)).mpr ⟨⟨3, rfl, rfl⟩, hrest⟩⟩
  exact ⟨_, rfl, hplaced _ (d := .ofPath 7 .storStart "/home/chentianjian/data/file".toList 0)
    ⟨_, _, rfl, by decide +kernel, rfl, by decide +kernel⟩ rfl⟩

/-- After a `REST` the file of a `STOR`, which is not there, is opened without being created:
the upload starts with no file. -/
theorem not_placed_rested :
    ∃ h, acceptSession Env.shipped.config 0 [] (.accept 7 "10.0.0.9".toList) = .ok h ∧
      ∃ d, (h.session.ready 5 "file".toList).Uploads d ∧
        (FileSystem.constant none).Shows (.idle .empty) {opens := some 3} d.curPath ∧
        ¬ d.Placed {opens := some 3} (.idle .empty) := by
  refine ⟨_, rfl, .ofPath 7 .storStart "/home/chentianjian/data/file".toList 5,
    ⟨_, _, rfl, by decide +kernel, rfl, by decide +kernel⟩, shows_nothing _ _, fun h => ?_⟩
  rcases ((task_placed_iff rfl (by decide)).mp h).2 with hzero | ⟨hthere, _⟩
  · exact absurd hzero (by decide)
  · exact nomatch hthere

end HyperTransfer
