import HyperTransfer.Common
import HyperTransfer.Lib.History

/-! When a session thread is woken.

The thread tests its queue under the lock and waits if there is nothing; a call of
`post_to_session` inserts its task and then signals, neither under the lock. A signal that is
sent between the test and the wait wakes nobody, and the task stays in the queue until the
next one comes (`no_lost_wakeup_iff`). -/
namespace HyperTransfer
open CString History

/-- Where the thread stands in its loop. -/
inductive ThreadPc where
  | lock | test | wait | blocked | relock | dequeue | process (t : SessionTask) | unlock
deriving DecidableEq

/-- A session thread, its mutex and its queue, and the tasks of the calls of `post_to_session` that have
inserted and not signalled yet. -/
structure SessionThread where
  pc : ThreadPc
  locked : Bool
  pending : List SessionTask
  posting : List SessionTask
deriving DecidableEq

/-- The thread takes a step, a call inserts its task, the `k`-th call under way signals, or the wait ends of itself. -/
inductive WakeInput where
  | thread
  | insert (t : SessionTask)
  | signal (k : Nat)
  | spurious
deriving DecidableEq

namespace SessionThread

def idle : SessionThread := {pc := .lock, locked := false, pending := [], posting := []}

/-- `pthread_mutex_lock`. -/
def lock (s : SessionThread) : SessionThread := if s.locked then s else {s with pc := .test, locked := true}

/-- The next step of `thread_function`, with the task it has handled. -/
def threadFunction (s : SessionThread) : Except Fault (SessionThread × List SessionTask) :=
  match s.pc with
  | .lock => .ok (s.lock, [])
  | .test => .ok ({s with pc := if s.pending = [] then .wait else .dequeue}, [])
  -- the lock is released and the wait begins in one step
  | .wait => .ok ({s with pc := .blocked, locked := false}, [])
  | .blocked => .ok (s, [])
  | .relock => .ok (s.lock, [])
  | .dequeue =>
    match s.pending with
    | [] => .error .nullPointer
    | t :: rest => .ok ({s with pc := .process t, pending := rest}, [])
  | .process t => .ok ({s with pc := .unlock}, [t])
  | .unlock => .ok ({s with pc := .lock, locked := false}, [])

/-- The wait ends, if the thread is in it. -/
def wake (s : SessionThread) : SessionThread := if s.pc = .blocked then {s with pc := .relock} else s

/-- `TAILQ_INSERT_TAIL`, the first half of `post_to_session`. -/
def insertTail (s : SessionThread) (t : SessionTask) : SessionThread :=
  {s with pending := s.pending ++ [t], posting := s.posting ++ [t]}

/-- `pthread_cond_signal`, the second half. -/
def condSignal (s : SessionThread) (k : Nat) : SessionThread :=
  if k < s.posting.length then {s with posting := s.posting.eraseIdx k}.wake else s

/-- The thread is blocked while there is a task, and no call has a signal to send. -/
def Stuck (s : SessionThread) : Prop := s.pc = .blocked ∧ s.pending ≠ [] ∧ s.posting = []

instance (s : SessionThread) : Decidable s.Stuck := inferInstanceAs (Decidable (_ ∧ _ ∧ _))

end SessionThread

/-- One session thread and whoever posts to it. -/
def sessionThread : Machine WakeInput SessionThread SessionTask Fault where
  step i s :=
    match i with
    | .thread => s.threadFunction
    | .insert t => .ok (s.insertTail t, [])
    | .signal k => .ok (s.condSignal k, [])
    | .spurious => .ok (s.wake, [])

abbrev WakeEdge := Edge WakeInput SessionThread SessionTask

/-- The thread tests its queue. -/
def tests (e : WakeEdge) : Bool := e.input = .thread && e.before.pc = .test

/-- The thread begins to wait. -/
def waits (e : WakeEdge) : Bool := e.input = .thread && e.before.pc = .wait

/-- A task is inserted. -/
def inserts (e : WakeEdge) : Bool :=
  match e.input with
  | .insert _ => true
  | _ => false

/-- When the thread begins to wait, nothing has been inserted since its test, or a signal is still to be sent. -/
def WaitsInTime (now : List WakeEdge) (e : WakeEdge) : Prop :=
  waits e = true → (∀ x ∈ since tests now, inserts x = false) ∨ e.before.posting ≠ []

/-- Between its test and its wait, the thread has found nothing, and at its dequeue there is something. -/
structure Tested (past : List WakeEdge) (s : SessionThread) : Prop where
  seen : s.pc = .wait → (s.pending = [] ↔ ∀ x ∈ since tests past, inserts x = false)
  found : s.pc = .dequeue → s.pending ≠ []

section
variable {s s' : SessionThread} {past : List WakeEdge} {e : WakeEdge} {i : WakeInput} {ts : List SessionTask}

/-- What the ends of a wait leave alone. -/
theorem wake_spares (s : SessionThread) :
    s.wake.pc ≠ .blocked ∧ (s.wake.pc = s.pc ∨ s.wake.pc = .relock) ∧ s.wake.pending = s.pending := by
  unfold SessionThread.wake
  split
  · exact ⟨nofun, Or.inr rfl, rfl⟩
  · exact ⟨‹_›, Or.inl rfl, rfl⟩

theorem condSignal_spares (s : SessionThread) (k : Nat) :
    (s.condSignal k = s ∨ (s.condSignal k).pc ≠ .blocked) ∧
      ((s.condSignal k).pc = s.pc ∨ (s.condSignal k).pc = .relock) ∧ (s.condSignal k).pending = s.pending := by
  unfold SessionThread.condSignal
  split
  · obtain ⟨hblocked, hpc, hpending⟩ := wake_spares {s with posting := s.posting.eraseIdx k}
    exact ⟨Or.inr hblocked, hpc, hpending⟩
  · exact ⟨Or.inl rfl, Or.inl rfl, rfl⟩

theorem lock_spares (s : SessionThread) :
    (s.lock.pc = s.pc ∨ s.lock.pc = .test) ∧ s.lock.pending = s.pending ∧ s.lock.posting = s.posting := by
  unfold SessionThread.lock
  split
  · exact ⟨Or.inl rfl, rfl, rfl⟩
  · exact ⟨Or.inr rfl, rfl, rfl⟩

/-- What a step of the thread is. -/
inductive SessionThread.Goes (s : SessionThread) : SessionThread → Prop where
  | locks (hpc : s.pc = .lock ∨ s.pc = .relock) : Goes s s.lock
  | waits (hpc : s.pc = .test) (hpending : s.pending = []) : Goes s {s with pc := .wait}
  | finds (hpc : s.pc = .test) (hpending : s.pending ≠ []) : Goes s {s with pc := .dequeue}
  | blocks (hpc : s.pc = .wait) : Goes s {s with pc := .blocked, locked := false}
  | stays (hpc : s.pc = .blocked) : Goes s s
  | takes (hpc : s.pc = .dequeue) (t : SessionTask) (rest : List SessionTask) (hpending : s.pending = t :: rest) :
      Goes s {s with pc := .process t, pending := rest}
  | handles (t : SessionTask) (hpc : s.pc = .process t) : Goes s {s with pc := .unlock}
  | unlocks (hpc : s.pc = .unlock) : Goes s {s with pc := .lock, locked := false}

theorem threadFunction_goes (h : s.threadFunction = .ok (s', ts)) : s.Goes s' := by
  unfold SessionThread.threadFunction at h
  cases hpc : s.pc with
  | lock => rw [hpc] at h; cases h; exact .locks (Or.inl hpc)
  | test =>
    rw [hpc] at h
    cases h
    by_cases hpending : s.pending = []
    · rw [if_pos hpending]
      exact .waits hpc hpending
    · rw [if_neg hpending]
      exact .finds hpc hpending
  | wait => rw [hpc] at h; cases h; exact .blocks hpc
  | blocked => rw [hpc] at h; cases h; exact .stays hpc
  | relock => rw [hpc] at h; cases h; exact .locks (Or.inr hpc)
  | dequeue =>
    rw [hpc] at h
    cases hpending : s.pending with
    | nil => rw [hpending] at h; exact nomatch h
    | cons t rest => rw [hpending] at h; cases h; exact .takes hpc t rest hpending
  | process t => rw [hpc] at h; cases h; exact .handles t hpc
  | unlock => rw [hpc] at h; cases h; exact .unlocks hpc

/-- A thread is stuck from when it begins to wait. -/
theorem stuck_iff (h : sessionThread.step i s = .ok (s', ts)) (hs : ¬ s.Stuck) :
    s'.Stuck ↔ (i = .thread ∧ s.pc = .wait) ∧ s.pending ≠ [] ∧ s.posting = [] := by
  cases i with
  | insert t =>
    cases h
    simp [SessionThread.Stuck, SessionThread.insertTail]
  | signal k =>
    cases h
    refine iff_of_false (fun hstuck => ?_) (by simp)
    rcases (condSignal_spares s k).1 with hsame | hpc
    · exact hs (hsame ▸ hstuck)
    · exact hpc hstuck.1
  | spurious =>
    cases h
    exact iff_of_false (fun hstuck => (wake_spares s).1 hstuck.1) (by simp)
  | thread =>
    have hgoes := threadFunction_goes h
    cases hgoes with
    | locks hpc =>
      have hlock := (lock_spares s).1
      refine iff_of_false (fun hstuck => ?_) (by rcases hpc with hpc | hpc <;> simp [hpc])
      rcases hlock with hlock | hlock <;> rw [hstuck.1] at hlock
      · rcases hpc with hpc | hpc <;> exact nomatch hlock.trans hpc
      · exact nomatch hlock
    | blocks hpc => simp [SessionThread.Stuck, hpc]
    | stays hpc => exact iff_of_false hs (by simp [hpc])
    | waits hpc => simp [SessionThread.Stuck, hpc]
    | finds hpc => simp [SessionThread.Stuck, hpc]
    | takes hpc => simp [SessionThread.Stuck, hpc]
    | handles t hpc => simp [SessionThread.Stuck, hpc]
    | unlocks hpc => simp [SessionThread.Stuck, hpc]

theorem tested_idle : Tested [] SessionThread.idle := ⟨nofun, nofun⟩

theorem tested_elsewhere (hwait : s.pc ≠ .wait) (hdequeue : s.pc ≠ .dequeue) : Tested past s :=
  ⟨fun h => absurd h hwait, fun h => absurd h hdequeue⟩

/-- A signal, or the end of a wait. -/
theorem tested_aside (hp : Tested past e.before) (htests : tests e = false) (hinserts : inserts e = false)
    (hpc : e.after.pc = e.before.pc ∨ e.after.pc = .relock) (hpending : e.after.pending = e.before.pending) :
    Tested (past ++ [e]) e.after := by
  rcases hpc with hpc | hpc
  · refine ⟨fun hwait => ?_, fun hdequeue => ?_⟩
    · rw [hpending, since_other htests, hp.seen (hpc.symm.trans hwait)]
      simp [or_imp, forall_and, hinserts]
    · rw [hpending]
      exact hp.found (hpc.symm.trans hdequeue)
  · exact tested_elsewhere (by rw [hpc]; nofun) (by rw [hpc]; nofun)

theorem tested_step (h : sessionThread.Takes e) (hp : Tested past e.before) : Tested (past ++ [e]) e.after := by
  obtain ⟨s, i, s', ts⟩ := e
  have h : sessionThread.step i s = .ok (s', ts) := h
  cases i with
  | insert t =>
    cases h
    have hsome : s.pending ++ [t] ≠ [] := by simp
    refine ⟨fun _ => iff_of_false hsome fun hnone => ?_, fun _ => hsome⟩
    rw [since_other rfl] at hnone
    exact nomatch hnone _ (List.mem_append_right _ (List.mem_singleton_self _))
  | signal k =>
    cases h
    obtain ⟨_, hpc, hpending⟩ := condSignal_spares s k
    exact tested_aside hp rfl rfl hpc hpending
  | spurious =>
    cases h
    obtain ⟨_, hpc, hpending⟩ := wake_spares s
    exact tested_aside hp rfl rfl hpc hpending
  | thread =>
    cases threadFunction_goes h with
    | locks hpc =>
      have hlock : s.lock.pc = .lock ∨ s.lock.pc = .relock ∨ s.lock.pc = .test := by
        rcases (lock_spares s).1 with hsame | htest
        · rw [hsame]
          exact hpc.imp_right Or.inl
        · exact Or.inr (Or.inr htest)
      rcases hlock with hlock | hlock | hlock <;>
        exact tested_elsewhere (by rw [hlock]; nofun) (by rw [hlock]; nofun)
    | waits hpc hpending =>
      have htests : tests ⟨s, .thread, {s with pc := .wait}, ts⟩ = true := by simp [tests, hpc]
      refine ⟨fun _ => ?_, fun hdequeue => nomatch hdequeue⟩
      rw [since_mark htests]
      exact iff_of_true hpending fun x hx => nomatch hx
    | finds hpc hpending => exact ⟨fun hwait => (nomatch hwait), fun _ => hpending⟩
    | stays hpc => exact tested_elsewhere (by rw [hpc]; nofun) (by rw [hpc]; nofun)
    | blocks hpc => exact tested_elsewhere nofun nofun
    | takes hpc => exact tested_elsewhere nofun nofun
    | handles t hpc => exact tested_elsewhere nofun nofun
    | unlocks hpc => exact tested_elsewhere nofun nofun

end

/-- The queue is not empty when the thread takes its first task: no step of a run fails. -/
theorem session_thread_returns (inputs : List WakeInput) :
    (sessionThread.trace .idle inputs).length = inputs.length := by
  refine (Machine.history_returns (H := Tested) (fun _ _ => True) [] tested_idle (fun past s i hp _ => ?_)
    fun _ _ => trivial).1
  have hreturns : ∃ s' ts, sessionThread.step i s = .ok (s', ts) := by
    cases i with
    | thread =>
      show ∃ s' ts, s.threadFunction = .ok (s', ts)
      unfold SessionThread.threadFunction
      split
      case h_6 hpc =>
        cases hpending : s.pending with
        | nil => exact absurd hpending (hp.found hpc)
        | cons t rest => exact ⟨_, _, rfl⟩
      all_goals exact ⟨_, _, rfl⟩
    | _ => exact ⟨_, _, rfl⟩
  obtain ⟨s', ts, hstep⟩ := hreturns
  exact ⟨s', ts, hstep, tested_step (e := ⟨s, i, s', ts⟩) hstep hp⟩

/-- **No lost wake-up**: the thread is never blocked while there is a task and no signal left to be sent, exactly
when it always begins to wait in time. -/
theorem no_lost_wakeup_iff (inputs : List WakeInput) : (∀ s ∈ sessionThread.states .idle inputs, ¬ s.Stuck) ↔
    Always WaitsInTime (sessionThread.trace .idle inputs) := by
  have hidle : ¬ SessionThread.idle.Stuck := fun h => nomatch h.1
  have hstart : Tested [] SessionThread.idle ∧ ¬ SessionThread.idle.Stuck := ⟨tested_idle, hidle⟩
  have hiff (now : List WakeEdge) (e : WakeEdge) (htakes : sessionThread.Takes e)
      (hbefore : Tested now e.before ∧ ¬ e.before.Stuck) : ¬ e.after.Stuck ↔ WaitsInTime now e := by
    rw [stuck_iff htakes hbefore.2]
    unfold WaitsInTime waits
    rw [Bool.and_eq_true, decide_eq_true_iff, decide_eq_true_iff, not_and, not_and_or, not_not]
    refine forall_congr' fun hwaits => or_congr (hbefore.1.seen hwaits.2) Iff.rfl
  calc (∀ s ∈ sessionThread.states .idle inputs, ¬ s.Stuck)
      ↔ Always (fun _ e => ¬ e.after.Stuck) (sessionThread.trace .idle inputs) := by
        rw [always_forall, Machine.states, List.forall_mem_cons, List.forall_mem_map]
        exact and_iff_right hidle
    _ ↔ Always WaitsInTime (sessionThread.trace .idle inputs) :=
        always_iff_under (H := fun past s => Tested past s ∧ ¬ s.Stuck) inputs hstart
          (fun past e htakes hC hp => ⟨tested_step htakes hp.1, (hiff past e htakes hp).mpr hC⟩) hiff

/-- A thread of an empty queue tests it, a task is posted, and the thread waits. -/
def signalLost (t : SessionTask) : List WakeInput := [.thread, .thread, .insert t, .signal 0, .thread]

/-- The task stays in the queue, and nothing is under way that would wake the thread. -/
theorem signal_lost :
    ¬ ∀ s ∈ sessionThread.states .idle (signalLost {fd := 7, action := .ctrlAccept}), ¬ s.Stuck := by
  intro h
  exact h {pc := .blocked, locked := false, pending := [{fd := 7, action := .ctrlAccept}], posting := []}
    (by decide +kernel) (by decide)

end HyperTransfer
