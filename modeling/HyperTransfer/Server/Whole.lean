import HyperTransfer.Server.Pools
import HyperTransfer.Server.Threads
import HyperTransfer.Session.Manager

/-! The server, with all its connections and threads.

The event loop, the session threads and the disk threads share the maps of clients, sessions
and transfers, the queues of both pools and the pipe. A step is one callback of the event loop,
or one task that a thread takes from its queue and handles; any thread may come next. What is
posted on the way goes to the queues and to the pipe at once.

That what a thread does to a shared map or queue happens at once is an idealisation: `add_session`,
`seek_session` and `del_session`, their like of the disk side, `post_to_session` and `post_to_disk`
take no lock. -/
namespace HyperTransfer
open CString

structure Server where
  clients : Fd → Option Client
  accepted : Nat
  sessions : Manager
  disk : DiskManager
  pools : Pools
  pipe : List EventNotify

/-- What happens next: a connection is accepted, a control socket is read, a callback of a
client is due, a client is found idle, the loop reads the pipe, or a thread takes a task. -/
inductive ServerEvent where
  | accept (fd : Fd) (ip : List Char)
  | read (fd : Fd) (r : CtrlReadResult)
  | callback (fd : Fd) (k : Callback)
  | timeout (fd : Fd)
  | notify (ports : List (Option (Fd × Int)))
  | session (i : Nat) (fs : FileSystem) (garbage : List Char)
  | disk (i : Nat) (calls : DiskCalls)

/-- An effect, and the connection it is for. -/
structure ServerEffect where
  fd : Fd
  effect : ThreadsEffect
deriving DecidableEq

namespace ThreadsEffect

def session? : ThreadsEffect → Option SessionTask
  | .net x => x.session?
  | .disk x => x.session?
  | .session _ => none

def disk? : ThreadsEffect → Option DiskTask
  | .net x => x.disk?
  | .session x => x.disk?
  | .disk _ => none

def notify? (fd : Fd) : ThreadsEffect → Option EventNotify
  | .session x => x.notify? fd
  | .disk x => x.notify?
  | .net _ => none

end ThreadsEffect

/-- Insert tasks one after the other, each into the queue of its thread. -/
def Pool.tailqInsertAll {A : Type} (index : A → Nat) (p : Pool A) (ts : List A) : Except Fault (Pool A) :=
  ts.foldlM (fun p t => p.tailqInsert (index t) t) p

namespace Server

/-- Before the first connection. -/
def start (nums : ThreadNums) (files : Files (List Char) Char) : Server where
  clients _ := none
  accepted := 0
  sessions := .empty
  disk := .idle files
  pools := nums.idle
  pipe := []

/-- What was done for a connection is handed on: tasks to both pools, notifications to the loop. -/
def post (nums : ThreadNums) (s : Server) (fd : Fd) (es : List ThreadsEffect) :
    Except Halt (Server × List ServerEffect) := do
  let session ← halting (s.pools.session.tailqInsertAll nums.sessionIndex (es.filterMap ThreadsEffect.session?))
  let disk ← halting (s.pools.disk.tailqInsertAll nums.diskIndex (es.filterMap ThreadsEffect.disk?))
  return ({s with
      pools := {session := session, disk := disk}
      pipe := s.pipe ++ es.filterMap (ThreadsEffect.notify? fd) },
    es.map (⟨fd, ·⟩))

/-- The client of a connection as a callback leaves it, if at all. -/
def leave (s : Server) (fd : Fd) : Option Client → Server
  | some c => {s with clients := Registry.modify s.clients fd c}
  | none => {s with clients := Registry.erase s.clients fd}

/-- A callback of a client that is there. -/
def net (nums : ThreadNums) (s : Server) (fd : Fd) (run : Client → Except Halt (Option Client × List NetEffect)) :
    Except Halt (Server × List ServerEffect) :=
  match s.clients fd with
  | none => .ok (s, [])
  | some c => do
    let (c, es) ← run c
    (s.leave fd c).post nums fd (es.map .net)

/-- `on_accept`. -/
def onAccept (nums : ThreadNums) (s : Server) (fd : Fd) (ip : List Char) : Except Halt (Server × List ServerEffect) :=
  {s with clients := Registry.insert s.clients fd (.new s.accepted fd), accepted := s.accepted + 1}.post nums fd
    [.net (.postToSession {fd := fd, action := .ctrlAccept, buf := ip, bufLen := ipLen + 1})]

/-- `on_notify`. The client is told of the access before it is looked at. -/
def onNotify (cfg : Config) (nums : ThreadNums) (s : Server) (ports : List (Option (Fd × Int))) :
    Except Halt (Server × List ServerEffect) :=
  match s.pipe with
  | [] => .ok (s, [])
  | n :: rest =>
    match s.clients n.fd with
    | none => .error (.fault .nullPointer)
    | some _ => {s with pipe := rest}.net nums n.fd fun c => c.handle cfg (.notify n ports)

/-- `thread_function` of the session pool, for one task. What a session posts goes out under
the descriptor it is found under. -/
def sessionThread (env : Env) (nums : ThreadNums) (s : Server) (i : Nat) (fs : FileSystem) (garbage : List Char) :
    Except Halt (Server × List ServerEffect) :=
  match s.pools.session.threadFunction i with
  | (none, _) => .ok (s, [])
  | (some t, pool) => do
    let (sessions, es) ← halting (rollStateMachine env {fs := fs, task := t, garbage := garbage} s.sessions)
    {s with sessions := sessions, pools := {s.pools with session := pool}}.post nums t.fd (es.map .session)

/-- `thread_function` of the disk pool, for one task. -/
def diskThread (nums : ThreadNums) (s : Server) (i : Nat) (calls : DiskCalls) :
    Except Halt (Server × List ServerEffect) :=
  match s.pools.disk.threadFunction i with
  | (none, _) => .ok (s, [])
  | (some t, pool) => do
    let h ← halting (DiskFsm.rollStateMachine calls t s.disk)
    {s with disk := h.manager, pools := {s.pools with disk := pool}}.post nums t.ctrlFd (h.effects.map .disk)

end Server

def server (env : Env) (nums : ThreadNums) : Machine ServerEvent Server ServerEffect Halt where
  step i s :=
    match i with
    | .accept fd ip => s.onAccept nums fd ip
    | .read fd r => s.net nums fd fun c => .ok (c.onRead r)
    | .callback fd k => s.net nums fd fun c => c.handle env.config (.callback k)
    | .timeout fd => s.net nums fd fun c => .ok c.onTimeout
    | .notify ports => s.onNotify env.config nums ports
    | .session i fs garbage => s.sessionThread env nums i fs garbage
    | .disk i calls => s.diskThread nums i calls

abbrev ServerEdge := Edge ServerEvent Server ServerEffect

end HyperTransfer
