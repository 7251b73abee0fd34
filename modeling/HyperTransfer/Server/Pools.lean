import HyperTransfer.Common
import HyperTransfer.Lib.Dispatch
import HyperTransfer.Lib.History

/-! The worker a task is posted to.

Each pool has a thread and a queue for a number below its size, and a task goes to the queue
of its descriptor modulo a number of threads. `post_to_disk` takes the number of the session
threads for that of its own: every task reaches a worker exactly when the disk pool has a
queue of each number that comes of it (`tasks_reach_iff`). -/
namespace HyperTransfer
open CString History Dispatch

/-- `session_thread_num` and `disk_thread_num` of `g_config`. -/
structure ThreadNums where
  sessionThreadNum : Nat
  diskThreadNum : Nat
  session_pos : 0 < sessionThreadNum := by decide
  disk_pos : 0 < diskThreadNum := by decide

/-- `p_threads` of a pool: `max_num` threads, each with its queue. -/
structure Pool (A : Type) where
  maxNum : Nat
  pending : Nat → List A

namespace Pool
variable {A : Type}

def new (threadNum : Nat) : Pool A := {maxNum := threadNum, pending := fun _ => []}

/-- Insert a task at the tail of the queue of thread `i`; there is none behind the end of the array. -/
def tailqInsert (p : Pool A) (i : Nat) (t : A) : Except Fault (Pool A) :=
  if i < p.maxNum then .ok {p with pending := insertTail p.pending i t} else .error .overrun

/-- Thread `i` takes the first task out of its queue, or waits. The disk side's writes to the item
once more after deleting it; that this harms nothing is an idealisation. -/
def threadFunction (p : Pool A) (i : Nat) : Option A × Pool A :=
  let r := takeFirst p.pending i
  (r.1, {p with pending := r.2})

end Pool

/-- Both pools. -/
structure Pools where
  session : Pool SessionTask
  disk : Pool DiskTask

inductive PoolsInput where
  | postToSession (t : SessionTask)
  | postToDisk (t : DiskTask)
  | sessionThread (i : Nat)
  | diskThread (i : Nat)

/-- A thread has taken a task. -/
inductive PoolsEffect where
  | session (i : Nat) (t : SessionTask)
  | disk (i : Nat) (t : DiskTask)
deriving DecidableEq

namespace ThreadNums

def idle (c : ThreadNums) : Pools := {session := .new c.sessionThreadNum, disk := .new c.diskThreadNum}

/-- The thread `post_to_session` posts to. -/
def sessionIndex (c : ThreadNums) (t : SessionTask) : Nat := t.fd % c.sessionThreadNum

/-- The thread `post_to_disk` posts to. -/
def diskIndex (c : ThreadNums) (t : DiskTask) : Nat := t.ctrlFd % c.sessionThreadNum

end ThreadNums

/-- The queues of both pools, one call or one dequeue at a time. -/
def pools (c : ThreadNums) : Machine PoolsInput Pools PoolsEffect Fault where
  step i s :=
    match i with
    | .postToSession t => do return ({s with session := ← s.session.tailqInsert (c.sessionIndex t) t}, [])
    | .postToDisk t => do return ({s with disk := ← s.disk.tailqInsert (c.diskIndex t) t}, [])
    | .sessionThread i =>
      let r := s.session.threadFunction i
      .ok ({s with session := r.2}, (r.1.map (.session i)).toList)
    | .diskThread i =>
      let r := s.disk.threadFunction i
      .ok ({s with disk := r.2}, (r.1.map (.disk i)).toList)

abbrev PoolsEdge := Edge PoolsInput Pools PoolsEffect

/-- The queue a task is posted to is one of its pool. -/
def InArray (c : ThreadNums) (s : Pools) : PoolsInput → Prop
  | .postToSession t => c.sessionIndex t < s.session.maxNum
  | .postToDisk t => c.diskIndex t < s.disk.maxNum
  | _ => True

def PoolsInput.session? : PoolsInput → Option SessionTask
  | .postToSession t => some t
  | _ => none

def PoolsInput.disk? : PoolsInput → Option DiskTask
  | .postToDisk t => some t
  | _ => none

def PoolsEffect.session? : PoolsEffect → Option (Nat × SessionTask)
  | .session i t => some (i, t)
  | _ => none

def PoolsEffect.disk? : PoolsEffect → Option (Nat × DiskTask)
  | .disk i t => some (i, t)
  | _ => none

def sessionPosted (past : List PoolsEdge) : List SessionTask := past.filterMap fun e => e.input.session?

def diskPosted (past : List PoolsEdge) : List DiskTask := past.filterMap fun e => e.input.disk?

def sessionTaken (past : List PoolsEdge) : List (Nat × SessionTask) :=
  (past.flatMap Edge.effects).filterMap PoolsEffect.session?

def diskTaken (past : List PoolsEdge) : List (Nat × DiskTask) :=
  (past.flatMap Edge.effects).filterMap PoolsEffect.disk?

/-- The tasks of a descriptor are taken by one thread of the pool, each once and in the order in which
they were posted; those not taken yet are in its queue. -/
def InOrder {A : Type} (fd : A → Fd) (posted : List A) (taken : List (Nat × A)) (p : Pool A) : Prop :=
  ∀ a ∈ posted, ∃ i < p.maxNum, (∀ x ∈ taken, fd x.2 = fd a → x.1 = i) ∧
    (taken.map Prod.snd).filter (fun t => fd t = fd a) ++ (p.pending i).filter (fun t => fd t = fd a) =
      posted.filter fun t => fd t = fd a

/-- Every task reaches a thread of its pool, and those of a descriptor the same one in order. -/
structure Reaches (c : ThreadNums) (inputs : List PoolsInput) : Prop where
  array : ∀ a ∈ (pools c).attempts c.idle inputs, InArray c a.1 a.2
  session : Always (fun now e => InOrder SessionTask.fd (sessionPosted (now ++ [e])) (sessionTaken (now ++ [e]))
    e.after.session) ((pools c).trace c.idle inputs)
  disk : Always (fun now e => InOrder DiskTask.ctrlFd (diskPosted (now ++ [e])) (diskTaken (now ++ [e])) e.after.disk)
    ((pools c).trace c.idle inputs)

/-- What one step is for a pool: a task that is posted, a thread that takes its first task, or nothing. -/
inductive Pool.Step {A : Type} (index : A → Nat) (p : Pool A) : List A → List (Nat × A) → Pool A → Prop where
  | post (t : A) (h : index t < p.maxNum) : Step index p [t] [] {p with pending := insertTail p.pending (index t) t}
  | take (i : Nat) : Step index p [] ((p.threadFunction i).1.map fun t => (i, t)).toList (p.threadFunction i).2
  | stay : Step index p [] [] p

/-- A pool is as large as it was made, and what was posted to it is taken from it or in its queues. -/
structure Pool.Kept {A : Type} (index : A → Nat) (threadNum : Nat) (posted : List A) (taken : List (Nat × A))
    (p : Pool A) : Prop where
  size : p.maxNum = threadNum
  places : ∀ t ∈ posted, index t < threadNum
  books : Books index posted taken p.pending

section
variable {A : Type} {index : A → Nat} {threadNum : Nat} {posted new : List A} {taken out : List (Nat × A)} {p q : Pool A}

namespace Pool

theorem tailqInsert_ok {i : Nat} {t : A} :
    p.tailqInsert i t = .ok q ↔ i < p.maxNum ∧ {p with pending := insertTail p.pending i t} = q := by
  unfold tailqInsert
  split
  · rename_i hi
    simp [hi]
  · rename_i hi
    simp [hi]

theorem kept_new (index : A → Nat) (threadNum : Nat) : (Pool.new threadNum).Kept index threadNum [] [] :=
  ⟨rfl, fun _ h => (nomatch h), books_idle⟩

theorem kept_step (hp : p.Kept index threadNum posted taken) (h : Step index p new out q) :
    q.Kept index threadNum (posted ++ new) (taken ++ out) := by
  cases h with
  | post t ht =>
    rw [List.append_nil]
    refine ⟨hp.size, fun a ha => ?_, books_insert hp.books t⟩
    rcases List.mem_append.mp ha with ha | ha
    · exact hp.places a ha
    · rw [List.mem_singleton.mp ha, ← hp.size]
      exact ht
  | take i =>
    rw [List.append_nil]
    exact ⟨hp.size, hp.places, books_take hp.books i⟩
  | stay =>
    rw [List.append_nil, List.append_nil]
    exact hp

/-- The thread of a descriptor is that of its remainder. -/
theorem Kept.inOrder {n : Nat} {fd : A → Fd} (hp : p.Kept (fun t => fd t % n) threadNum posted taken) :
    InOrder fd posted taken p := by
  intro a ha
  refine ⟨fd a % n, ?_, books_key (· % n) (fun _ => rfl) hp.books (fd a)⟩
  rw [hp.size]
  exact hp.places a ha

end Pool
end

section
variable {past more : List PoolsEdge}

theorem sessionPosted_append : sessionPosted (past ++ more) = sessionPosted past ++ sessionPosted more :=
  List.filterMap_append

theorem diskPosted_append : diskPosted (past ++ more) = diskPosted past ++ diskPosted more := List.filterMap_append

theorem sessionTaken_append : sessionTaken (past ++ more) = sessionTaken past ++ sessionTaken more := by
  simp [sessionTaken]

theorem diskTaken_append : diskTaken (past ++ more) = diskTaken past ++ diskTaken more := by
  simp [diskTaken]

end

section
variable {c : ThreadNums} {s : Pools} {past : List PoolsEdge} {e : PoolsEdge} {i : PoolsInput}

/-- A step is a step of each pool. -/
theorem pools_step (h : (pools c).Takes e) :
    e.before.session.Step c.sessionIndex (sessionPosted [e]) (sessionTaken [e]) e.after.session ∧
      e.before.disk.Step c.diskIndex (diskPosted [e]) (diskTaken [e]) e.after.disk := by
  obtain ⟨s, input, s', es⟩ := e
  have h : (pools c).step input s = .ok (s', es) := h
  cases input with
  | postToSession t =>
    obtain ⟨q, hq, he⟩ := bind_eq_ok.mp h
    cases he
    obtain ⟨hi, rfl⟩ := Pool.tailqInsert_ok.mp hq
    exact ⟨.post t hi, .stay⟩
  | postToDisk t =>
    obtain ⟨q, hq, he⟩ := bind_eq_ok.mp h
    cases he
    obtain ⟨hi, rfl⟩ := Pool.tailqInsert_ok.mp hq
    exact ⟨.stay, .post t hi⟩
  | sessionThread i =>
    have he : (s', es) = _ := (Except.ok.inj h).symm
    cases he
    have htake : s.session.Step c.sessionIndex [] _ _ := .take i
    dsimp only at htake ⊢
    cases hfirst : (s.session.threadFunction i).1 with
    | none =>
      rw [hfirst] at htake
      exact ⟨htake, .stay⟩
    | some t =>
      rw [hfirst] at htake
      exact ⟨htake, .stay⟩
  | diskThread i =>
    have he : (s', es) = _ := (Except.ok.inj h).symm
    cases he
    have htake : s.disk.Step c.diskIndex [] _ _ := .take i
    dsimp only at htake ⊢
    cases hfirst : (s.disk.threadFunction i).1 with
    | none =>
      rw [hfirst] at htake
      exact ⟨.stay, htake⟩
    | some t =>
      rw [hfirst] at htake
      exact ⟨.stay, htake⟩

/-- Both pools after a part of a run. -/
def PoolsKept (c : ThreadNums) (past : List PoolsEdge) (s : Pools) : Prop :=
  s.session.Kept c.sessionIndex c.sessionThreadNum (sessionPosted past) (sessionTaken past) ∧
    s.disk.Kept c.diskIndex c.diskThreadNum (diskPosted past) (diskTaken past)

theorem poolsKept_step (h : (pools c).Takes e) (hp : PoolsKept c past e.before) : PoolsKept c (past ++ [e]) e.after := by
  obtain ⟨hsession, hdisk⟩ := pools_step h
  unfold PoolsKept
  rw [sessionPosted_append, sessionTaken_append, diskPosted_append, diskTaken_append]
  exact ⟨Pool.kept_step hp.1 hsession, Pool.kept_step hp.2 hdisk⟩

/-- A step is taken exactly where the queue is there. -/
theorem step_inArray (hs : s.session.maxNum = c.sessionThreadNum ∧ s.disk.maxNum = c.diskThreadNum)
    (h : InArray c s i) : ∃ s' es, (pools c).step i s = .ok (s', es) ∧
      s'.session.maxNum = c.sessionThreadNum ∧ s'.disk.maxNum = c.diskThreadNum := by
  cases i with
  | postToSession t => exact ⟨_, _, bind_eq_ok.mpr ⟨_, Pool.tailqInsert_ok.mpr ⟨h, rfl⟩, rfl⟩, hs⟩
  | postToDisk t => exact ⟨_, _, bind_eq_ok.mpr ⟨_, Pool.tailqInsert_ok.mpr ⟨h, rfl⟩, rfl⟩, hs⟩
  | sessionThread i => exact ⟨_, _, rfl, hs⟩
  | diskThread i => exact ⟨_, _, rfl, hs⟩

/-- The queues a run asks for are there exactly when those of its disk tasks are. -/
theorem attempts_inArray (hs : s.session.maxNum = c.sessionThreadNum ∧ s.disk.maxNum = c.diskThreadNum)
    (inputs : List PoolsInput) : (∀ a ∈ (pools c).attempts s inputs, InArray c a.1 a.2) ↔
      ∀ t, .postToDisk t ∈ inputs → c.diskIndex t < c.diskThreadNum := by
  induction inputs generalizing s with
  | nil => exact iff_of_true (fun a ha => (nomatch ha)) fun t ht => (nomatch ht)
  | cons i rest ih =>
    have hfirst : InArray c s i ↔ ∀ t, .postToDisk t = i → c.diskIndex t < c.diskThreadNum := by
      cases i with
      | postToSession t =>
        refine iff_of_true ?_ fun _ h => nomatch h
        show t.fd % c.sessionThreadNum < s.session.maxNum
        rw [hs.1]
        exact Nat.mod_lt _ c.session_pos
      | postToDisk t =>
        show c.diskIndex t < s.disk.maxNum ↔ _
        rw [hs.2]
        exact ⟨fun h t' ht' => by cases ht'; exact h, fun h => h t rfl⟩
      | sessionThread i => exact iff_of_true trivial fun _ h => nomatch h
      | diskThread i => exact iff_of_true trivial fun _ h => nomatch h
    rw [Machine.attempts, List.forall_mem_cons]
    constructor
    · intro h t ht
      obtain ⟨s', es, hstep, hs'⟩ := step_inArray hs h.1
      rw [hstep] at h
      rcases List.mem_cons.mp ht with ht | ht
      · exact hfirst.mp h.1 t ht
      · exact (ih hs').mp h.2 t ht
    · intro h
      have hin := hfirst.mpr fun t ht => h t (ht ▸ List.mem_cons_self ..)
      obtain ⟨s', es, hstep, hs'⟩ := step_inArray hs hin
      refine ⟨hin, ?_⟩
      rw [hstep]
      exact (ih hs').mpr fun t ht => h t (List.mem_cons_of_mem _ ht)

end

/-- **Every task reaches a thread of its pool, in order**, exactly when the threads of the disk pool that disk
tasks are posted to are there; whatever is posted, exactly when that pool is no smaller than the other. -/
theorem tasks_reach_iff (c : ThreadNums) :
    (∀ inputs, Reaches c inputs ↔ ∀ t, .postToDisk t ∈ inputs → t.ctrlFd % c.sessionThreadNum < c.diskThreadNum) ∧
      ((∀ inputs, Reaches c inputs) ↔ c.sessionThreadNum ≤ c.diskThreadNum) := by
  have hidle : PoolsKept c [] c.idle := ⟨Pool.kept_new _ _, Pool.kept_new _ _⟩
  have hrun (inputs : List PoolsInput) :
      Reaches c inputs ↔ ∀ t, .postToDisk t ∈ inputs → t.ctrlFd % c.sessionThreadNum < c.diskThreadNum := by
    have hkept := always_kept inputs hidle fun _ _ h hp => poolsKept_step h hp
    have hattempts := attempts_inArray (c := c) (s := c.idle) ⟨rfl, rfl⟩ inputs
    refine ⟨fun h => hattempts.mp h.array, fun h => ?_⟩
    refine ⟨hattempts.mpr h, fun now e rest hnow => ?_, fun now e rest hnow => ?_⟩
    · obtain ⟨htakes, hbefore⟩ := hkept now e rest hnow
      exact (poolsKept_step htakes hbefore).1.inOrder
    · obtain ⟨htakes, hbefore⟩ := hkept now e rest hnow
      exact (poolsKept_step htakes hbefore).2.inOrder
  have hpos := c.session_pos
  refine ⟨hrun, fun h => ?_, fun h inputs => (hrun inputs).mpr fun t _ => ?_⟩
  · -- the last of the remainders is that of its own descriptor
    have hlast : (c.sessionThreadNum - 1) % c.sessionThreadNum < c.diskThreadNum :=
      (hrun [.postToDisk {ctrlFd := c.sessionThreadNum - 1, action := .dele}]).mp (h _) _ (List.mem_singleton_self _)
    rw [Nat.mod_eq_of_lt (by omega)] at hlast
    omega
  · exact Nat.lt_of_lt_of_le (Nat.mod_lt _ hpos) h

/-- Three session threads, but two of the disk's. -/
def fewerDisk : ThreadNums := {sessionThreadNum := 3, diskThreadNum := 2}

/-- A download on descriptor 8 is posted to a third disk thread. -/
theorem posted_outside : ¬ Reaches fewerDisk [.postToDisk (.ofPath 8 .retrStart "/data/a".toList)] := by
  intro h
  have hin : 8 % 3 < 2 := h.array (fewerDisk.idle, _) (List.mem_cons_self ..)
  exact absurd hin (by decide)

end HyperTransfer
