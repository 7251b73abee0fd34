import HyperTransfer.Disk.Contents
import HyperTransfer.Server.Mediation

/-! Which files change, across the whole server.

A write goes through whatever handle the object found for the descriptor carries. What that is open
on was opened by a start task, which a session asked for on the strength of a right; a download has
it open for reading. So a file changes only where an upload to it was asked for, and a file that
is there stays there and gets no shorter. -/
namespace HyperTransfer
open CString

/-- What is open was opened by tasks that were asked for. -/
structure Guarded (nums : ThreadNums) (past : List ServerEdge) (s : Server) : Prop where
  mediated : Mediated nums past s
  traced : Traced (diskView.seen past) (AskedFor past) s.disk

section
variable {env : Env} {nums : ThreadNums} {past : List ServerEdge} {e : ServerEdge}

theorem guarded_next (h : (server env nums).Takes e) (hp : Guarded nums past e.before) :
    Guarded nums (past ++ [e]) e.after := by
  refine ⟨(mediated_next h hp.mediated).1, ?_⟩
  rw [View.seen_last, View.edge]
  have hlater : Traced (diskView.seen past) (AskedFor (past ++ [e])) e.before.disk := by
    intro n p hpath
    obtain ⟨t, ht, hfile, hasked, hnamed⟩ := hp.traced n p hpath
    exact ⟨t, ht, hfile, hasked.next e, hnamed⟩
  cases hseen : diskView.input e.input e.before with
  | none =>
    rw [Option.map_none, Option.toList_none, List.append_nil,
      show e.after.disk = e.before.disk from ((diskView_shows env nums).unseen e h trivial hseen).1]
    exact hlater
  | some j =>
    refine traced_next ((diskView_shows env nums).seen e h trivial j hseen) hlater fun hfile => ?_
    exact (disk_asked hp.mediated hseen (starts_of_opensFile hfile)).next e

/-- Nothing that a step does makes a file shorter. -/
theorem files_grow (h : (server env nums).Takes e) {p old : List Char}
    (hold : e.before.disk.files.content p = some old) :
    ∃ new, e.after.disk.files.content p = some new ∧ old.length ≤ new.length := by
  cases hseen : diskView.input e.input e.before with
  | none =>
    rw [show e.after.disk = e.before.disk from ((diskView_shows env nums).unseen e h trivial hseen).1]
    exact ⟨old, hold, Nat.le_refl _⟩
  | some j => exact (contents_step ((diskView_shows env nums).seen e h trivial j hseen)).grows hold

/-- A step that changes a file writes to it for an upload that was asked for. -/
theorem files_change (h : (server env nums).Takes e) (hp : Guarded nums past e.before)
    (hrefused : ∀ i, diskView.input e.input e.before = some i → WritesRefused (diskView.seen past) e.before.disk i)
    {p : List Char} (hchanged : e.after.disk.files.content p ≠ e.before.disk.files.content p) :
    ∃ t, AskedFor past t ∧ t.action = .storStart ∧ p = strncpy pathSize t.curPath := by
  cases hseen : diskView.input e.input e.before with
  | none =>
    have hsame : e.after.disk = e.before.disk := ((diskView_shows env nums).unseen e h trivial hseen).1
    rw [hsame] at hchanged
    exact absurd rfl hchanged
  | some j =>
    exact changed_by_upload ((diskView_shows env nums).seen e h trivial j hseen) hp.traced
      (fun hfile => disk_asked hp.mediated hseen (starts_of_opensFile hfile)) (hrefused j hseen) hchanged

end

/-- What is open for reading alone refuses writes, in every step of the run. -/
def ReadsOnly (run : List ServerEdge) : Prop :=
  ∀ now e rest, run = now ++ e :: rest →
    ∀ i, diskView.input e.input e.before = some i → WritesRefused (diskView.seen now) e.before.disk i

/-- **Files are safe**: in every run of the server no step removes a file or makes it shorter; and in one where
writes through what is open for reading fail, a step changes a file only where a session has earlier asked for an
upload to it, after it had handled a command that may start one, from a user logged in with the right to it. -/
theorem files_safe (env : Env) (nums : ThreadNums) (files : Files (List Char) Char)
    (hfiles : ∀ n, files.opened n = none) (inputs : List ServerEvent) :
    (∀ e ∈ (server env nums).trace (.start nums files) inputs, ∀ p old, e.before.disk.files.content p = some old →
      ∃ new, e.after.disk.files.content p = some new ∧ old.length ≤ new.length) ∧
    (ReadsOnly ((server env nums).trace (.start nums files) inputs) →
      ∀ now e rest, (server env nums).trace (.start nums files) inputs = now ++ e :: rest →
        ∀ p, e.after.disk.files.content p ≠ e.before.disk.files.content p →
          ∃ t, AskedFor now t ∧ t.action = .storStart ∧ p = strncpy pathSize t.curPath) := by
  have hstart : Guarded nums [] (.start nums files) := by
    refine ⟨mediated_start nums files hfiles, fun n p hp => ?_⟩
    have hnone : (files.opened n).map Description.path = some p := hp
    rw [hfiles n] at hnone
    cases hnone
  have hsteps {now : List ServerEdge} {e : ServerEdge} {rest : List ServerEdge}
      (hrun : (server env nums).trace (.start nums files) inputs = now ++ e :: rest) :
      (server env nums).Takes e ∧ Guarded nums now e.before := by
    obtain ⟨htakes, hbefore, _⟩ := Machine.history (m := server env nums) (fun _ => True) [] hstart
      (fun past e he _ hp => guarded_next he hp) (fun _ _ => trivial) now e rest hrun
    exact ⟨htakes, hbefore⟩
  refine ⟨fun e he p old hold => ?_, fun hreads now e rest hrun p hchanged => ?_⟩
  · obtain ⟨now, rest, hrun⟩ := List.append_of_mem he
    exact files_grow (hsteps hrun).1 hold
  · exact files_change (hsteps hrun).1 (hsteps hrun).2 (hreads now e rest hrun) hchanged

/-- A user of the shipped list logs in and uploads to a new file. -/
def serverStoring : List ServerEvent :=
  [.accept 7 "10.0.0.2".toList, .session 0 (.constant none) [],
    .read 7 (.text "USER share\r\n".toList), .session 0 (.constant none) [],
    .read 7 (.text "PASS share\r\n".toList), .session 0 (.constant none) [],
    .read 7 (.text "PASV\r\n".toList), .session 0 (.constant none) [],
    .notify [], .notify [], .notify [], .notify [some (8, 2024)], .session 0 (.constant none) [],
    .read 7 (.text "STOR a\r\n".toList), .session 0 (.constant none) [],
    .callback 7 (.dataAccept (some 9)), .session 0 (.constant none) [], .disk 0 {opens := some 3}]

theorem storing_safe :
    ∃ now e, (server .shipped oneThread).trace (.start oneThread .empty) serverStoring = now ++ [e] ∧
      e.before.disk.files.content "/home/chentianjian/data/a".toList = none ∧
      e.after.disk.files.content "/home/chentianjian/data/a".toList = some [] ∧
      ∃ t, AskedFor now t ∧ t.action = .storStart ∧ "/home/chentianjian/data/a".toList = strncpy pathSize t.curPath := by
  have hnone : ((server .shipped oneThread).trace (.start oneThread .empty) serverStoring).all (fun e =>
      (diskView.input e.input e.before).all fun i => (e.before.disk.infos i.task.ctrlFd).isNone) = true := by
    decide +kernel
  have hreads : ReadsOnly ((server .shipped oneThread).trace (.start oneThread .empty) serverStoring) := by
    intro now e rest hrun i hi d n t hd
    have he := List.all_eq_true.mp hnone e (hrun ▸ List.mem_append_right _ (List.mem_cons_self ..))
    rw [hi, Option.all_some, hd] at he
    cases he
  refine ⟨[_, _, _, _, _, _, _, _, _, _, _, _, _, _, _, _, _], _, rfl, by decide +kernel, by decide +kernel, ?_⟩
  exact (files_safe .shipped oneThread .empty (fun _ => rfl) serverStoring).2 hreads _ _ [] rfl _ (by decide +kernel)

end HyperTransfer
