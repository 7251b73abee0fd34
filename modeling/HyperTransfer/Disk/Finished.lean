import HyperTransfer.Disk.Stored

/-! When an upload is over on the server.

A zero count of `write` stands for an error that is not looked into, and it is also what an
empty last task brings: an upload whose last bytes were flushed before its end was seen, or
that has no bytes at all, is never reported, and its object stays in the map, with the number
of a file that has been closed (`finished_iff`). -/
namespace HyperTransfer

namespace Upload

/-- Every call succeeds in full: the file is opened, what the tasks write to is open as well,
and each write takes its whole chunk. -/
structure Succeeds (m : DiskManager) (u : Upload) : Prop where
  opens : (u.opened m).isSome = true
  file : ∃ n o held, u.handle m = some n ∧ u.openedOn m n = some o ∧ u.begun m o.path = some held
  writes : ∀ i ∈ u.chunks ++ [u.last], ∃ k, i.calls.writes = some k ∧ i.task.payload.length ≤ k

/-- The last task posts the one report there is, frees the entry and closes the file. -/
def Finished (m : DiskManager) (u : Upload) : Prop :=
  ∃ pre e, diskManager.trace m u.inputs = pre ++ [e] ∧
    (∀ x ∈ pre, .postToSession {fd := u.fd, action := .transOk} ∉ x.effects) ∧
    e.effects.count (.postToSession {fd := u.fd, action := .transOk}) = 1 ∧ e.after.seekDisk u.fd = none ∧
    ∀ n ∈ u.opened m, e.after.files.opened n = none

theorem Succeeds.taken {m : DiskManager} {u : Upload} (h : u.Succeeds m) : u.last.taken = u.last.task.payload := by
  obtain ⟨k, hk, hlength⟩ := h.writes u.last (List.mem_append_right _ (List.mem_singleton_self _))
  rw [DiskInput.taken, hk, Option.getD_some, List.take_of_length_le hlength]

end Upload

/-- **A finished upload is finished on the server**, exactly when its last task carries
anything and writes to the file this upload has opened. -/
theorem finished_iff (m : DiskManager) (u : Upload) (hfull : u.Succeeds m) :
    u.Finished m ↔ u.last.task.payload ≠ [] ∧ u.handle m = u.opened m := by
  obtain ⟨t, es, d, hstep, hsilent, hd, hhandle, hcontent, hopened⟩ := step_start m u
  obtain ⟨n, o, held, hn, ho, hheld⟩ := hfull.file
  obtain ⟨v, pre, hputs, htrace, _, hkept, hposts⟩ := chunks_put [u.last]
    (started_puts hd (hhandle.trans hn) ((hopened n).trans ho) (by rw [hcontent]; exact hheld)) u.chunk_tasks
  obtain ⟨w, es', hlast, hcount, _, hends, hspares⟩ := storOk_puts hputs u.last_task
  rw [hfull.taken] at hcount hends
  have hrun : diskManager.trace m u.inputs = (⟨m, u.start, t, es⟩ :: pre) ++ [⟨v, u.last, w, es'⟩] := by
    rw [Upload.inputs, Machine.trace_ok hstep, htrace, Machine.trace_ok hlast]
    rfl
  constructor
  · intro hfinished
    obtain ⟨pre', e, hrun', _, hone, _, hclosed⟩ := hfinished
    obtain ⟨_, he⟩ := List.append_inj' (hrun.symm.trans hrun') rfl
    rw [← List.head_eq_of_cons_eq he] at hone hclosed
    obtain ⟨k, hk⟩ := Option.isSome_iff_exists.mp hfull.opens
    refine ⟨fun hnothing => ?_, ?_⟩
    · rw [hcount, if_pos hnothing] at hone
      exact nomatch hone
    · -- the file this upload has opened is not spared by its last task only if it is the one written to
      rw [hn, hk]
      by_contra hother
      have hopen : w.files.opened k = u.openedOn m k := by
        have hne : k ≠ n := fun hkn => hother (congrArg some hkn.symm)
        rw [hspares k hne, hkept k hne, hopened k]
      rw [hclosed k hk, Upload.openedOn, if_pos hk] at hopen
      exact nomatch hopen
  · intro h
    obtain ⟨hsome, hsame⟩ := h
    obtain ⟨hfree, hclosed⟩ := hends hsome
    refine ⟨_, _, hrun, List.forall_mem_cons.mpr ⟨hsilent, fun x hx => hposts x hx _⟩, ?_, hfree, fun k hk => ?_⟩
    · rw [if_neg hsome] at hcount
      exact hcount
    · cases (hn.symm.trans (hsame.trans hk))
      exact hclosed

/-- An upload of one task. -/
def singleChunk (bytes : List Char) : Upload where
  fd := 7
  start := newFile
  chunks := []
  last := ⟨{ctrlFd := 7, action := .storOk, fileBuffer := some bytes, bufLen := bytes.length}, {writes := some bytes.length}⟩
  start_task := newFile_task
  chunk_tasks := fun _ h => nomatch h
  last_task := ⟨rfl, rfl⟩

theorem finished_single : (singleChunk ['c']).Finished (.idle .empty) :=
  (finished_iff (.idle .empty) (singleChunk ['c']) ⟨rfl, ⟨3, _, _, rfl, rfl, rfl⟩,
    List.forall_mem_singleton.mpr ⟨1, rfl, Nat.le_refl _⟩⟩).mpr ⟨by decide, rfl⟩

/-- An empty file is created and closed, but nothing is reported and the object stays. -/
theorem empty_not_finished :
    (singleChunk []).Succeeds (.idle .empty) ∧ ¬ (singleChunk []).Finished (.idle .empty) ∧
      ((diskManager.trace (.idle .empty) (singleChunk []).inputs).flatMap Edge.effects).filter
          (fun x => x matches .postToSession _) =
        [.postToSession {fd := 7, action := .storStart}] ∧
      ((diskManager.final (.idle .empty) (singleChunk []).inputs).seekDisk 7).map
        (fun d => (d.dataAction, d.fileHandle)) = some (.storing, some 3) := by
  refine ⟨⟨rfl, ⟨3, _, _, rfl, rfl, rfl⟩, List.forall_mem_singleton.mpr ⟨0, rfl, Nat.le_refl _⟩⟩, fun h => ?_,
    by decide +kernel, by decide +kernel⟩
  obtain ⟨pre, e, hrun, _, hone, _⟩ := h
  have hlast := congrArg List.getLast? hrun
  rw [List.getLast?_append] at hlast
  cases hlast
  exact absurd hone (by decide)

end HyperTransfer
