import HyperTransfer.Server.Uploading
import HyperTransfer.Tcp.Download

/-! What is fetched is what was stored.

A download reads the file an upload has left, if nothing else has changed it in between. What comes
out is the upload put over what the file held before it: the offset of the upload and the bytes of
an older, longer file show, since an upload does not cut the file off. -/
namespace HyperTransfer
open CString

section
variable {cfg : Config} {start get : DiskTask} {content : List Char} {s : Uploading} {c : Client} {d : Transfer}

/-- A request is the beginning of a download of what the file holds from its offset on. -/
theorem requested_follows (hd : Requested get content d) :
    Asks get (strncpy pathSize get.curPath) ∧
      Follows get (strncpy pathSize get.curPath) content (content.drop get.restSize.toNat) [] d := by
  have hoffset : get.getRestSize = get.restSize := toInt_of_lt hd.nonneg hd.lt
  refine ⟨⟨hd.action, rfl, by rw [hoffset]; exact hd.nonneg⟩, .start _, Relay.exact_start _, ⟨?_, hd.file, hd.client⟩, rfl, rfl⟩
  exact .asked hd.queue hd.pipe hd.dataWriteQ hd.free rfl rfl (by rw [hoffset]; rfl) rfl

/-- The file after an upload that was reported. -/
theorem reported_content (hs : UploadRequested start s c) {events : List UploadingEvent}
    (hspares : ∀ a ∈ (uploading cfg).attempts s events, Spares start.ctrlFd (strncpy pathSize start.curPath) a.1 a.2)
    (hreported : reportsIn start.ctrlFd ((uploading cfg).trace s events) ≠ 0) :
    ((uploading cfg).final s events).disk.files.content (strncpy pathSize start.curPath) =
      some (Files.splice '\x00' ((s.disk.files.content (strncpy pathSize start.curPath)).getD [])
        start.restSize.toNat (readOf ((uploading cfg).trace s events))) := by
  have hoffset : start.getRestSize = start.restSize := toInt_of_lt hs.nonneg hs.lt
  have hbegins : Uploads start (strncpy pathSize start.curPath) _ [] s := uploads_start hs rfl
  obtain ⟨_, hrun⟩ := Machine.history_returns _ [] hbegins
    (fun past s i h hi => uploads_step ⟨hs.action, rfl⟩ h hi) hspares
  have hfinal := Machine.history_final [] hbegins hrun
  exact ((stores_of_uploads hoffset hfinal).complete hreported).2

/-- **What is fetched is what was stored**: a download of the file of an upload that was reported sends, whatever
is interleaved with either, the upload put over what the file held before it; a download of the whole file gives
back an upload of the whole file exactly when the file was no longer before. -/
theorem fetches_stored (cfg : Config) (start : DiskTask) (s : Uploading) (c : Client) (hs : UploadRequested start s c)
    (events : List UploadingEvent)
    (hspares : ∀ a ∈ (uploading cfg).attempts s events, Spares start.ctrlFd (strncpy pathSize start.curPath) a.1 a.2)
    (hreported : reportsIn start.ctrlFd ((uploading cfg).trace s events) ≠ 0)
    (get : DiskTask) (content : List Char) (d : Transfer) (hd : Requested get content d)
    (hpath : strncpy pathSize get.curPath = strncpy pathSize start.curPath)
    (hkept : d.disk.files.content (strncpy pathSize start.curPath) =
      ((uploading cfg).final s events).disk.files.content (strncpy pathSize start.curPath))
    (steps : List TransferEvent)
    (hfair : ∀ a ∈ transfer.attempts d steps, Fair get.ctrlFd (strncpy pathSize get.curPath) a.1 a.2) :
    (∀ past e rest, transfer.trace d steps = past ++ e :: rest →
      DeliversExactly get.ctrlFd
        ((Files.splice '\x00' ((s.disk.files.content (strncpy pathSize start.curPath)).getD []) start.restSize.toNat
          (readOf ((uploading cfg).trace s events))).drop get.restSize.toNat) (past ++ [e]) e.after) ∧
      (start.restSize = 0 → get.restSize = 0 → ∀ past e rest, transfer.trace d steps = past ++ e :: rest →
        reportsOf get.ctrlFd (effectsOf (past ++ [e])) ≠ 0 →
          (bytesOf (effectsOf (past ++ [e])) = readOf ((uploading cfg).trace s events) ↔
            ((s.disk.files.content (strncpy pathSize start.curPath)).getD []).length ≤
              (readOf ((uploading cfg).trace s events)).length)) := by
  have hcontent : content = Files.splice '\x00' ((s.disk.files.content (strncpy pathSize start.curPath)).getD [])
      start.restSize.toNat (readOf ((uploading cfg).trace s events)) := by
    apply Option.some.inj
    rw [← reported_content hs hspares hreported, ← hkept, ← hpath]
    exact hd.file.symm
  obtain ⟨hasks, hbegins⟩ := requested_follows hd
  obtain ⟨_, hrun⟩ := Machine.history_returns _ [] hbegins (fun past s i h hi => follows_step hasks h hi) hfair
  have hdelivers (past : List TransferEdge) (e : TransferEdge) (rest : List TransferEdge)
      (h : transfer.trace d steps = past ++ e :: rest) :
      DeliversExactly get.ctrlFd (content.drop get.restSize.toNat) (past ++ [e]) e.after :=
    delivers_of_follows (hrun past e rest h)
  refine ⟨hcontent ▸ hdelivers, fun hstart hget past e rest h hdone => ?_⟩
  have hsent : bytesOf (effectsOf (past ++ [e])) = content := by
    rw [((hdelivers past e rest h).complete hdone).1, hget]
    rfl
  rw [hsent, hcontent, hstart]
  exact Files.splice_zero_iff ..

/-- The file is asked for again. -/
def storedRequested : Transfer where
  disk := ((uploading Env.shipped.config).final uploadRequested twoReads).disk
  queue := [.ofPath 7 .retrStart "/data/a".toList]
  pipe := []
  client := {ctrlSocket := 7, dataWriteQ := [], dataWritePending := false}

/-- The whole file in one block; then the empty one. -/
def oneWrite : List TransferEvent :=
  [.disk {opens := some 6, reads := some 9}, .notify, .writable (.wrote 9), .disk {reads := some 9}, .notify,
    .writable (.wrote 0), .disk {reads := some 9}]

theorem oneWrite_fair : ∀ a ∈ transfer.attempts storedRequested oneWrite,
    Fair 7 (strncpy pathSize "/data/a".toList) a.1 a.2 := by
  refine List.forall_mem_cons.mpr ⟨⟨by decide, rfl, fun _ _ _ => ⟨6, rfl, rfl⟩⟩, ?_⟩
  refine List.forall_mem_cons.mpr ⟨trivial, List.forall_mem_cons.mpr ⟨nofun, ?_⟩⟩
  refine List.forall_mem_cons.mpr ⟨⟨by decide, rfl, List.forall_mem_singleton.mpr nofun⟩, ?_⟩
  refine List.forall_mem_cons.mpr ⟨trivial, List.forall_mem_cons.mpr ⟨nofun, ?_⟩⟩
  exact List.forall_mem_singleton.mpr ⟨by decide, rfl, List.forall_mem_singleton.mpr nofun⟩

/-- The three bytes of the two reads come back. -/
theorem fetches_stored_whole : ∃ past e, transfer.trace storedRequested oneWrite = past ++ [e] ∧
    bytesOf (effectsOf (past ++ [e])) = readOf ((uploading Env.shipped.config).trace uploadRequested twoReads) ∧
      readOf ((uploading Env.shipped.config).trace uploadRequested twoReads) = "xyz".toList := by
  refine ⟨[_, _, _, _, _, _], _, rfl, ?_, rfl⟩
  have hfetches := fetches_stored Env.shipped.config (.ofPath 7 .storStart "/data/a".toList) uploadRequested uploadClient
    uploadRequested_requested twoReads twoReads_spares (by decide) (.ofPath 7 .retrStart "/data/a".toList) "xyz".toList
    storedRequested ⟨rfl, by decide, by decide, by decide, rfl, rfl, rfl, rfl, rfl⟩ rfl rfl oneWrite oneWrite_fair
  exact (hfetches.2 rfl rfl _ _ [] rfl (by decide)).mpr (by decide)

end
end HyperTransfer
