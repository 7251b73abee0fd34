import HyperTransfer.Disk.Fsm
import HyperTransfer.Session.Handover
import HyperTransfer.Tcp.Events

/-! One connection and the three threads that serve it.

The event loop runs the client's callbacks, a session thread works off its tasks, and a disk
thread those of its transfers. They share two queues and a pipe: the client posts to both
queues, the session to the disk's queue and to the pipe, the disk thread to the session's
queue and to the pipe. A task is in its queue until it has been handled, and a step is one
callback, or one task. -/
namespace HyperTransfer
open CString

/-- The queues, the pipe and what each thread works on. A task in a queue is kept with the
number of data connections accepted by the time of what led to it, which the program does
not know. -/
structure Threads where
  client : Option Client
  session : Session
  disk : DiskManager
  accepts : Nat
  sessionQueue : List (Nat × SessionTask)
  diskQueue : List (Nat × DiskTask)
  pipe : List EventNotify

/-- What happens next: a callback of the client's is due, its control socket is read, it has
timed out, the loop reads the pipe, or the session's or the disk thread takes a task. -/
inductive ThreadsEvent where
  | callback (k : Callback)
  | read (r : CtrlReadResult)
  | timeout
  | notify (ports : List (Option (Fd × Int)))
  | session (fs : FileSystem)
  | disk (calls : DiskCalls)

inductive ThreadsEffect where
  | net (x : NetEffect)
  | session (x : Effect)
  | disk (x : DiskEffect)
deriving DecidableEq

/-! ### What the threads post to each other -/

def NetEffect.session? : NetEffect → Option SessionTask
  | .postToSession t => some t
  | _ => none

def NetEffect.disk? : NetEffect → Option DiskTask
  | .data (.postToDisk t) => some t
  | _ => none

/-- A data connection is accepted. -/
def NetEffect.accepts (x : NetEffect) : Bool := x.session?.any fun t => t.action = .dataAccept

/-- `post`, `post_transfer_ok` and `pasv_post`. -/
def Effect.notify? (fd : Fd) : Effect → Option EventNotify
  | .post buf len => some {fd := fd, action := .ctrlWrite, buf := buf, len := len}
  | .postTransferOk buf len => some {fd := fd, action := .transOk, buf := buf, len := len}
  | .pasvPost => some {fd := fd, action := .pasv}
  | _ => none

def DiskEffect.session? : DiskEffect → Option SessionTask
  | .postToSession t => some t
  | _ => none

/-- `data_post`. -/
def DiskEffect.notify? : DiskEffect → Option EventNotify
  | .dataPost fd buf len => some {fd := fd, action := .dataWrite, buf := buf, len := len}
  | _ => none

/-! ### Steps -/

/-- `on_read`, for the client it is about. -/
def Client.onRead (c : Client) : CtrlReadResult → Option Client × List NetEffect
  | .text bytes => (some c, [.postToSession {fd := c.ctrlSocket, action := .read, buf := bytes, bufLen := bytes.length}])
  | .closed => (none, [.postToSession {fd := c.ctrlSocket, action := .disconn}])
  | .failed => (none, [.postToSession {fd := c.ctrlSocket, action := .connErr, bufLen := -1}])

/-- `on_timeout`, for a client found idle. -/
def Client.onTimeout (c : Client) : Option Client × List NetEffect :=
  (none, [.postToSession {fd := c.ctrlSocket, action := .disconn}])

namespace Threads

/-- The event loop has run a callback. -/
def netActs (s : Threads) (r : Option Client × List NetEffect) : Threads × List ThreadsEffect :=
  let number := s.accepts + r.2.countP NetEffect.accepts
  ({s with
      client := r.1
      accepts := number
      sessionQueue := s.sessionQueue ++ (r.2.filterMap NetEffect.session?).map (number, ·)
      diskQueue := s.diskQueue ++ (r.2.filterMap NetEffect.disk?).map (number, ·) },
    r.2.map .net)

/-- The session's thread has handled the first of its tasks. -/
def sessionActs (s : Threads) (number : Nat) (rest : List (Nat × SessionTask)) (h : Handled) :
    Threads × List ThreadsEffect :=
  ({s with
      session := h.session
      sessionQueue := rest
      diskQueue := s.diskQueue ++ (h.effects.filterMap Effect.disk?).map (number, ·)
      pipe := s.pipe ++ h.effects.filterMap (Effect.notify? s.session.fd) },
    h.effects.map .session)

/-- The disk thread has handled the first of its tasks. -/
def diskActs (s : Threads) (number : Nat) (rest : List (Nat × DiskTask)) (h : DiskHandled) :
    Threads × List ThreadsEffect :=
  ({s with
      disk := h.manager
      sessionQueue := s.sessionQueue ++ (h.effects.filterMap DiskEffect.session?).map (number, ·)
      diskQueue := rest
      pipe := s.pipe ++ h.effects.filterMap DiskEffect.notify? },
    h.effects.map .disk)

/-- An event of the client's, while there is one. -/
def net (s : Threads) (run : Client → Except Halt (Option Client × List NetEffect)) :
    Except Halt (Threads × List ThreadsEffect) :=
  match s.client with
  | none => .ok (s, [])
  | some c => do return s.netActs (← run c)

end Threads

/-- A fault of a worker ends the server. -/
def halting {A : Type} : Except Fault A → Except Halt A
  | .error f => .error (.fault f)
  | .ok a => .ok a

def threads (env : Env) : Machine ThreadsEvent Threads ThreadsEffect Halt where
  step i s :=
    match i with
    | .callback k => s.net fun c => c.handle env.config (.callback k)
    | .read r => s.net fun c => .ok (c.onRead r)
    | .timeout => s.net fun c => .ok c.onTimeout
    | .notify ports =>
      match s.pipe with
      | [] => .ok (s, [])
      | n :: rest =>
        match s.client with
        | none => .error (.fault .nullPointer)
        | some c => do return {s with pipe := rest}.netActs (← c.handle env.config (.notify n ports))
    | .session fs =>
      match s.sessionQueue with
      | [] => .ok (s, [])
      | (number, t) :: rest => do
        let h ← halting (rollSession env fs t s.session)
        return s.sessionActs number rest h
    | .disk calls =>
      match s.diskQueue with
      | [] => .ok (s, [])
      | (number, t) :: rest => do
        let h ← halting (DiskFsm.rollStateMachine calls t s.disk)
        return s.diskActs number rest h

abbrev ThreadsEdge := Edge ThreadsEvent Threads ThreadsEffect

theorem halting_eq_ok {A : Type} {x : Except Fault A} {a : A} (h : halting x = .ok a) : x = .ok a := by
  cases x with
  | error f => exact nomatch h
  | ok b =>
    injection h with h
    rw [h]

/-- What an event makes the loop run for a client, with what is left in the pipe. -/
inductive Client.Runs (cfg : Config) (c : Client) (pipe : List EventNotify) :
    ThreadsEvent → List EventNotify → Option Client × List NetEffect → Prop where
  | callback (k : Callback) {r} (h : c.handle cfg (.callback k) = .ok r) : Runs cfg c pipe (.callback k) pipe r
  | notify (n : EventNotify) (ports : List (Option (Fd × Int))) (rest : List EventNotify) {r} (hpipe : pipe = n :: rest)
      (h : c.handle cfg (.notify n ports) = .ok r) : Runs cfg c pipe (.notify ports) rest r
  | read (r : CtrlReadResult) : Runs cfg c pipe (.read r) pipe (c.onRead r)
  | timeout : Runs cfg c pipe .timeout pipe c.onTimeout

/-- It happens in the event loop. -/
def ThreadsEvent.loops : ThreadsEvent → Bool
  | .session _ => false
  | .disk _ => false
  | _ => true

/-- What a step does. -/
inductive Threads.Acts (env : Env) (s : Threads) : ThreadsEvent → Threads × List ThreadsEffect → Prop where
  | gone (i : ThreadsEvent) (hi : i.loops = true) (hc : s.client = none) : Acts env s i (s, [])
  | netIdle (ports : List (Option (Fd × Int))) (hpipe : s.pipe = []) : Acts env s (.notify ports) (s, [])
  | net (i : ThreadsEvent) (c : Client) (pipe : List EventNotify) (r : Option Client × List NetEffect)
      (hi : i.loops = true) (hc : s.client = some c) (hruns : c.Runs env.config s.pipe i pipe r) :
      Acts env s i ({s with pipe := pipe}.netActs r)
  | sessionIdle (fs : FileSystem) (hqueue : s.sessionQueue = []) : Acts env s (.session fs) (s, [])
  | session (fs : FileSystem) (number : Nat) (t : SessionTask) (rest : List (Nat × SessionTask)) (h : Handled)
      (hqueue : s.sessionQueue = (number, t) :: rest) (hroll : rollSession env fs t s.session = .ok h) :
      Acts env s (.session fs) (s.sessionActs number rest h)
  | diskIdle (calls : DiskCalls) (hqueue : s.diskQueue = []) : Acts env s (.disk calls) (s, [])
  | disk (calls : DiskCalls) (number : Nat) (t : DiskTask) (rest : List (Nat × DiskTask)) (h : DiskHandled)
      (hqueue : s.diskQueue = (number, t) :: rest) (hroll : DiskFsm.rollStateMachine calls t s.disk = .ok h) :
      Acts env s (.disk calls) (s.diskActs number rest h)

section
variable {env : Env} {s : Threads} {i : ThreadsEvent} {r : Threads × List ThreadsEffect}

theorem net_acts (hi : i.loops = true) {run : Client → Except Halt (Option Client × List NetEffect)}
    (h : s.net run = .ok r)
    (hruns : ∀ c q, s.client = some c → run c = .ok q → c.Runs env.config s.pipe i s.pipe q) : s.Acts env i r := by
  unfold Threads.net at h
  split at h
  · cases h
    exact .gone i hi ‹_›
  · rename_i c hc
    obtain ⟨q, hq, hr⟩ := bind_eq_ok.mp h
    cases hr
    exact .net i c s.pipe q hi hc (hruns c q hc hq)

/-- A step is one of these. -/
theorem threads_acts (h : (threads env).step i s = .ok r) : s.Acts env i r := by
  unfold threads at h
  cases i with
  | callback k => exact net_acts rfl h fun c q _ hq => .callback k hq
  | read r =>
    apply net_acts rfl h
    intro c q _ hq
    cases hq
    exact .read r
  | timeout =>
    apply net_acts rfl h
    intro c q _ hq
    cases hq
    exact .timeout
  | notify ports =>
    dsimp only at h
    split at h
    · cases h
      exact .netIdle ports ‹_›
    · rename_i n rest hpipe
      split at h
      · exact nomatch h
      · rename_i c hc
        obtain ⟨q, hq, hr⟩ := bind_eq_ok.mp h
        cases hr
        exact .net (.notify ports) c rest q rfl hc (.notify n ports rest hpipe hq)
  | session fs =>
    dsimp only at h
    split at h
    · cases h
      exact .sessionIdle fs ‹_›
    · rename_i number t rest hqueue
      obtain ⟨g, hg, hr⟩ := bind_eq_ok.mp h
      cases hr
      exact .session fs number t rest g hqueue (halting_eq_ok hg)
  | disk calls =>
    dsimp only at h
    split at h
    · cases h
      exact .diskIdle calls ‹_›
    · rename_i number t rest hqueue
      obtain ⟨g, hg, hr⟩ := bind_eq_ok.mp h
      cases hr
      exact .disk calls number t rest g hqueue (halting_eq_ok hg)

end
end HyperTransfer
