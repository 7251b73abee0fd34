import HyperTransfer.Lib.Machine
import HyperTransfer.Lib.Registry
import HyperTransfer.Tcp.Client

/-! The event loop of the network side.

One thread runs the callbacks, each to its end. A callback runs when its event is pending;
an event that is not persistent is removed before its callback runs, and adding one that is
pending has no effect. The workers hand the loop their replies through a pipe, as
notifications that name a descriptor; the descriptor of a connection that is gone is given
to the next one. -/
namespace HyperTransfer
open CString

/-- `DATASIZE`. -/
abbrev dataSize : Nat := 1460

/-- `FILEBUFWTIRESIZE`. -/
abbrev fileBufWriteSize : Nat := 1047116

/-- Why the server stops: a fault of the program, or its own `exit`. -/
inductive Halt where
  | fault (f : Fault)
  | exit (code : Int)
deriving DecidableEq

/-! ### Notifications -/

inductive NotifyAction where
  | ctrlWrite | pasv | transOk | dataWrite
  | other (code : Int)
deriving DecidableEq

/-- `_event_notify`. -/
structure EventNotify where
  fd : Fd
  action : NotifyAction
  buf : List Char := []
  len : Int := 0
deriving DecidableEq

/-! ### Clients -/

/-- `_buffer_q`. -/
structure CtrlBuffer where
  buf : List Char
  len : Int
  offset : Int
deriving DecidableEq

/-- `TCP_client`, with `write_q`, the descriptors of the data connection, and the part of
`file_buffer` that is filled; `buf_len` is its length. `writePending` is about `ev_write`,
`acceptPending` about `event_data_accept`; `event_data_read` is pending while there is a data
connection. -/
structure Client extends TcpClient where
  address : Nat
  writeQ : List CtrlBuffer
  writePending : Bool
  listenFd : Option Fd
  acceptPending : Bool
  dataFd : Option Fd
  fileBuffer : List Char
deriving DecidableEq

/-- What `read` does on the data socket: nothing left, an error, or up to `DATASIZE` bytes.
A read that brings nothing leaves `errno` alone; `again` says whether `errno` is `EINTR` or
`EAGAIN`. -/
inductive DataReadResult where
  | eof (again : Bool)
  | failed (again : Bool)
  | read (bytes : List Char) (pos : 0 < bytes.length) (le : bytes.length ≤ dataSize)
deriving DecidableEq

inductive NetEffect where
  | wroteCtrl (bytes : List Char)
  | data (e : TcpEffect)
  | postToSession (t : SessionTask)
deriving DecidableEq

/-- `set_new_file_buffer`: a task is given its buffer once, an array of `FILEBUFSIZE` characters. -/
def DiskTask.setNewFileBuffer (t : DiskTask) (buf : List Char) : Except Halt DiskTask :=
  if t.fileBuffer.isSome then .error (.exit 1)
  else if fileBufSize < buf.length then .error (.fault .overrun)
  else .ok {t with fileBuffer := some buf, bufLen := buf.length}

namespace Client

/-- The constructor. -/
def new (address : Nat) (fd : Fd) : Client where
  ctrlSocket := fd
  dataWriteQ := []
  dataWritePending := false
  address := address
  writeQ := []
  writePending := false
  listenFd := none
  acceptPending := false
  dataFd := none
  fileBuffer := []

def clearDatafd (c : Client) : Client :=
  let c := match c.listenFd with
    | none => c
    | some _ => {c with listenFd := none, acceptPending := false}
  match c.dataFd with
  | none => c
  | some _ => {c with dataFd := none, dataWritePending := false}

def copyData (bytes : List Char) (c : Client) : Client := {c with fileBuffer := c.fileBuffer ++ bytes}

def clearData (c : Client) : Client := {c with fileBuffer := []}

/-- A task with the whole buffer. -/
def bufferTask (action : DiskTaskAction) (c : Client) : DiskTask where
  ctrlFd := c.ctrlSocket
  action := action
  fileBuffer := some c.fileBuffer
  bufLen := c.fileBuffer.length

/-! #### Notifications -/

/-- A reply is queued, and `ev_write` added. -/
def queueReply (n : EventNotify) (c : Client) : Client :=
  {c with writeQ := c.writeQ ++ [{buf := n.buf, len := n.len, offset := 0}], writePending := true}

/-- `get_free_port` until the port is in range, given what its calls bring: a listening
socket and its port, or a failure. The last socket made is kept. -/
def getFreePort (cfg : Config) : List (Option (Fd × Int)) → Client → Option Int × Client
  | [], c => (none, c)
  | none :: _, c => (none, c)
  | some (fd, port) :: rest, c =>
    let c := {c with listenFd := some fd}
    if port < cfg.startPort ∨ port > cfg.endPort then getFreePort cfg rest c else (some port, c)

/-- `on_notify`, once the client is found. -/
def onNotify (cfg : Config) (ports : List (Option (Fd × Int))) (n : EventNotify) (c : Client) :
    Client × List NetEffect :=
  match n.action with
  | .ctrlWrite => (c.queueReply n, [])
  | .pasv =>
    match c.getFreePort cfg ports with
    | (none, c) => (c, [])
    | (some port, c) =>
      ({c with acceptPending := true}, [.postToSession {fd := n.fd, action := .pasv, bufLen := port}])
  | .transOk => ((c.queueReply n).clearDatafd, [])
  | .dataWrite =>
    ({c with toTcpClient := c.toTcpClient.onNotifyDataWrite {fd := n.fd, buf := n.buf, len := n.len}}, [])
  | .other _ => (c, [])

/-! #### Callbacks -/

/-- `on_write`. The client is deleted on any error. -/
def onWrite (r : WriteResult) (c : Client) : Option Client × List NetEffect :=
  let c := {c with writePending := false}
  match c.writeQ with
  | [] => (some c, [])
  | q :: rest =>
    match r with
    | .wrote count =>
      let len := min count (q.len - q.offset).toNat
      let bytes := (q.buf.drop q.offset.toNat).take len
      if q.offset + len < q.len then
        (some {c with writeQ := {q with offset := q.offset + len} :: rest, writePending := true}, [.wroteCtrl bytes])
      else (some {c with writeQ := rest}, [.wroteCtrl bytes])
    | _ => (none, [.postToSession {fd := c.ctrlSocket, action := .connErr, bufLen := commandSize}])

/-- `data_accept`: a connection that was there before is dropped without a close. -/
def dataAccept (r : Option Fd) (c : Client) : Client × List NetEffect :=
  match r with
  | none => (c, [])
  | some fd =>
    ({c with dataFd := some fd, dataWritePending := false},
      [.postToSession {fd := c.ctrlSocket, action := .dataAccept}])

/-- `data_read`. -/
def dataRead (r : DataReadResult) (c : Client) : Except Halt (Client × List NetEffect) :=
  match r with
  | .eof again =>
    if again then .ok (c, [])
    else do
      let t ← DiskTask.setNewFileBuffer {ctrlFd := c.ctrlSocket, action := .storOk} c.fileBuffer
      return (c.clearData.clearDatafd, [.data (.postToDisk t)])
  | .failed again => if again then .ok (c, []) else .ok (c.clearDatafd, [])
  | .read bytes _ _ =>
    if c.fileBuffer.length > fileBufWriteSize then .error (.exit 1)
    else
      let c := c.copyData bytes
      if c.fileBuffer.length ≤ fileBufWriteSize then .ok (c, [])
      else do
        let t ← DiskTask.setNewFileBuffer {ctrlFd := c.ctrlSocket, action := .storing} c.fileBuffer
        return (c.clearData, [.data (.postToDisk t)])

/-- `data_write`. -/
def dataWrite (r : WriteResult) (c : Client) : Client × List NetEffect :=
  let (t, es) := c.toTcpClient.dataWrite r
  ({c with toTcpClient := t}, es.map .data)

end Client

/-- A callback of one client's events, with what the call it makes brings. -/
inductive Callback where
  | write (r : WriteResult)
  | dataAccept (r : Option Fd)
  | dataRead (r : DataReadResult)
  | dataWrite (r : WriteResult)
deriving DecidableEq

/-- Its event is pending. -/
def Callback.fires (c : Client) : Callback → Bool
  | .write _ => c.writePending
  | .dataAccept _ => c.acceptPending
  | .dataRead _ => c.dataFd.isSome
  | .dataWrite _ => c.dataWritePending

/-- What happens to one client: a notification for it is read, or one of its callbacks is due. -/
inductive ClientEvent where
  | notify (n : EventNotify) (ports : List (Option (Fd × Int)))
  | callback (k : Callback)
deriving DecidableEq

/-- Nothing is left of a client that has been deleted. -/
def Client.handle (cfg : Config) (c : Client) : ClientEvent → Except Halt (Option Client × List NetEffect)
  | .notify n ports =>
    let (c, es) := c.onNotify cfg ports n
    .ok (some c, es)
  | .callback k =>
    if !k.fires c then .ok (some c, [])
    else
      match k with
      | .write r => .ok (c.onWrite r)
      | .dataAccept r =>
        let (c, es) := c.dataAccept r
        .ok (some c, es)
      | .dataRead r => do
        let (c, es) ← c.dataRead r
        return (some c, es)
      | .dataWrite r =>
        let (c, es) := c.dataWrite r
        .ok (some c, es)

section
variable {cfg : Config} {c : Client}

@[simp] theorem handle_notify (n : EventNotify) (ports : List (Option (Fd × Int))) :
    c.handle cfg (.notify n ports) = .ok (some (c.onNotify cfg ports n).1, (c.onNotify cfg ports n).2) := rfl

@[simp] theorem handle_idle {k : Callback} (h : k.fires c = false) : c.handle cfg (.callback k) = .ok (some c, []) := by
  simp [Client.handle, h]

@[simp] theorem handle_write (h : c.writePending = true) (r : WriteResult) :
    c.handle cfg (.callback (.write r)) = .ok (c.onWrite r) := by
  simp [Client.handle, Callback.fires, h]

@[simp] theorem handle_dataAccept (h : c.acceptPending = true) (r : Option Fd) :
    c.handle cfg (.callback (.dataAccept r)) = .ok (some (c.dataAccept r).1, (c.dataAccept r).2) := by
  simp [Client.handle, Callback.fires, h]

@[simp] theorem handle_dataRead (h : c.dataFd.isSome = true) (r : DataReadResult) :
    c.handle cfg (.callback (.dataRead r)) = (do let p ← c.dataRead r; return (some p.1, p.2)) := by
  simp [Client.handle, Callback.fires, h]

@[simp] theorem handle_dataWrite (h : c.dataWritePending = true) (r : WriteResult) :
    c.handle cfg (.callback (.dataWrite r)) = .ok (some (c.dataWrite r).1, (c.dataWrite r).2) := by
  simp [Client.handle, Callback.fires, h]

end

/-! #### What the callbacks leave alone -/

theorem clearDatafd_eq (c : Client) : ∃ accept write, c.clearDatafd =
    {c with listenFd := none, acceptPending := accept, dataFd := none, dataWritePending := write} := by
  obtain ⟨t, address, writeQ, writePending, listenFd, acceptPending, dataFd, fileBuffer⟩ := c
  cases listenFd <;> cases dataFd <;> exact ⟨_, _, rfl⟩

theorem clearDatafd_fields (c : Client) : c.clearDatafd.listenFd = none ∧ c.clearDatafd.dataFd = none := by
  obtain ⟨accept, write, h⟩ := clearDatafd_eq c
  rw [h]
  exact ⟨rfl, rfl⟩

theorem getFreePort_eq (cfg : Config) (ports : List (Option (Fd × Int))) (c : Client) :
    ∃ fd, (c.getFreePort cfg ports).2 = {c with listenFd := fd} := by
  induction ports generalizing c with
  | nil => exact ⟨_, rfl⟩
  | cons p rest ih =>
    cases p with
    | none => exact ⟨_, rfl⟩
    | some p =>
      obtain ⟨fd, port⟩ := p
      unfold Client.getFreePort
      dsimp only
      split
      · obtain ⟨fd', h⟩ := ih {c with listenFd := some fd}
        exact ⟨fd', h⟩
      · exact ⟨_, rfl⟩

/-- What a notification does: a reply is queued, there is a port to listen on or none, a
transfer is over, or data is queued. -/
inductive Client.Notified (n : EventNotify) (c : Client) : Client × List NetEffect → Prop where
  | reply (h : n.action = .ctrlWrite) : Notified n c (c.queueReply n, [])
  | port (h : n.action = .pasv) (fd : Option Fd) (accept : Bool) (es : List NetEffect)
      (hes : ∀ x ∈ es, ∃ port, x = .postToSession {fd := n.fd, action := .pasv, bufLen := port}) :
      Notified n c ({c with listenFd := fd, acceptPending := accept}, es)
  | transOk (h : n.action = .transOk) : Notified n c ((c.queueReply n).clearDatafd, [])
  | data (h : n.action = .dataWrite) : Notified n c
      ({c with toTcpClient := c.toTcpClient.onNotifyDataWrite {fd := n.fd, buf := n.buf, len := n.len}}, [])
  | unknown (code : Int) (h : n.action = .other code) : Notified n c (c, [])

theorem onNotify_cases (cfg : Config) (ports : List (Option (Fd × Int))) (n : EventNotify) (c : Client) :
    c.Notified n (c.onNotify cfg ports n) := by
  unfold Client.onNotify
  cases haction : n.action with
  | ctrlWrite => exact .reply haction
  | transOk => exact .transOk haction
  | dataWrite => exact .data haction
  | other code => exact .unknown code haction
  | pasv =>
    obtain ⟨fd, hkept⟩ := getFreePort_eq cfg ports c
    dsimp only
    cases hport : c.getFreePort cfg ports with
    | mk port d =>
      rw [hport] at hkept
      cases hkept
      cases port with
      | none => exact .port haction fd c.acceptPending [] (List.forall_mem_nil _)
      | some port => exact .port haction fd true _ (List.forall_mem_singleton.mpr ⟨port, rfl⟩)

/-- What reading the data connection does: nothing for now, its end, an error, or bytes that
are kept or fill the buffer. -/
inductive Client.Reads (c : Client) : DataReadResult → Client × List NetEffect → Prop where
  | again (r : DataReadResult) (hr : r = .eof true ∨ r = .failed true) : Reads c r (c, [])
  | ended : Reads c (.eof false) (c.clearData.clearDatafd, [.data (.postToDisk (c.bufferTask .storOk))])
  | failed : Reads c (.failed false) (c.clearDatafd, [])
  | kept (bytes pos le) (hfits : c.fileBuffer.length + bytes.length ≤ fileBufWriteSize) :
      Reads c (.read bytes pos le) (c.copyData bytes, [])
  | full (bytes pos le) (hfull : fileBufWriteSize < c.fileBuffer.length + bytes.length) :
      Reads c (.read bytes pos le)
        ((c.copyData bytes).clearData, [.data (.postToDisk ((c.copyData bytes).bufferTask .storing))])

theorem setNewFileBuffer_eq_ok {c : Client} {action : DiskTaskAction} {t : DiskTask} :
    DiskTask.setNewFileBuffer {ctrlFd := c.ctrlSocket, action := action} c.fileBuffer = .ok t ↔
      t = c.bufferTask action ∧ c.fileBuffer.length ≤ fileBufSize := by
  unfold DiskTask.setNewFileBuffer
  rw [if_neg (by exact Bool.false_ne_true)]
  split
  · rename_i hoverrun
    exact ⟨fun h => (nomatch h), fun h => absurd h.2 (Nat.not_le_of_lt hoverrun)⟩
  · rename_i hfits
    exact ⟨fun h => ⟨(Except.ok.inj h).symm, Nat.not_lt.mp hfits⟩, fun h => congrArg Except.ok h.1.symm⟩

theorem dataRead_cases {c : Client} {r : DataReadResult} {p : Client × List NetEffect} (h : c.dataRead r = .ok p) :
    c.Reads r p := by
  cases r with
  | eof again =>
    cases again with
    | true => cases h; exact .again _ (Or.inl rfl)
    | false =>
      obtain ⟨t, ht, h⟩ := bind_eq_ok.mp h
      cases h
      rw [(setNewFileBuffer_eq_ok.mp ht).1]
      exact .ended
  | failed again =>
    cases again with
    | true => cases h; exact .again _ (Or.inr rfl)
    | false => cases h; exact .failed
  | read bytes pos le =>
    have hlength : (c.copyData bytes).fileBuffer.length = c.fileBuffer.length + bytes.length := List.length_append
    unfold Client.dataRead at h
    dsimp only at h
    rw [hlength] at h
    split at h
    · exact nomatch h
    · split at h
      · cases h
        exact .kept bytes pos le ‹_›
      · obtain ⟨t, ht, h⟩ := bind_eq_ok.mp h
        cases h
        rw [(setNewFileBuffer_eq_ok.mp ht).1]
        exact .full bytes pos le (Nat.lt_of_not_le ‹_›)

/-- What holds of the client that is left, if one is. -/
theorem holds_left {P : Client → Prop} {c : Client} (h : P c) : ∀ d ∈ some c, P d := by
  intro d hd
  cases hd
  exact h

theorem holds_gone (P : Client → Prop) : ∀ d ∈ (none : Option Client), P d := by
  intro d hd
  cases hd

/-- One client, until it is deleted. -/
def tcpClient (cfg : Config) : Machine ClientEvent (Option Client) NetEffect Halt where
  step i s :=
    match s with
    | none => .ok (none, [])
    | some c => c.handle cfg i

abbrev ClientEdge := Edge ClientEvent (Option Client) NetEffect

/-! ### The loop -/

/-- `m_client_map`, the descriptors of the connections accepted so far, and the pipe. A
notification in the pipe is kept with the number of the connection it was posted for, which
the program does not know. -/
structure TcpManager where
  clients : Fd → Option Client
  accepted : List Fd
  pipe : List (Nat × EventNotify)

/-- What `read` does on a control socket. -/
inductive CtrlReadResult where
  | text (bytes : List Char)
  | closed | failed
deriving DecidableEq

/-- What happens next: a connection is accepted, a worker posts for a connection, the loop
reads the pipe or a control socket, a callback of a client's other events is due, or the
clients that have timed out are deleted. -/
inductive LoopEvent where
  | accept (fd : Fd) (ip : List Char)
  | post (conn : Nat) (action : NotifyAction) (buf : List Char) (len : Int)
  | notify (ports : List (Option (Fd × Int)))
  | read (fd : Fd) (r : CtrlReadResult)
  | callback (fd : Fd) (k : Callback)
  | timeout (fds : List Fd)
deriving DecidableEq

namespace TcpManager

def start : TcpManager := {clients := fun _ => none, accepted := [], pipe := []}

def addClient (m : TcpManager) (c : Client) : TcpManager :=
  {m with clients := Registry.insert m.clients c.ctrlSocket c}

def seekClient (m : TcpManager) (fd : Fd) : Option Client := m.clients fd

def delClient (m : TcpManager) (fd : Fd) : TcpManager := {m with clients := Registry.erase m.clients fd}

/-- A client worked on through the pointer found for `fd`, or deleted. -/
def leave (m : TcpManager) (fd : Fd) : Option Client → TcpManager
  | some c => {m with clients := Registry.modify m.clients fd c}
  | none => m.delClient fd

/-- `on_accept`. -/
def onAccept (m : TcpManager) (fd : Fd) (ip : List Char) : TcpManager × List NetEffect :=
  ({m with accepted := m.accepted ++ [fd]}.addClient (.new m.accepted.length fd),
    [.postToSession {fd := fd, action := .ctrlAccept, buf := ip, bufLen := ipLen + 1}])

/-- `post`, `post_transfer_ok`, `post_action` and `data_post` of a session or a transfer of
connection `conn`: the descriptor is all they know of it. -/
def post (m : TcpManager) (conn : Nat) (action : NotifyAction) (buf : List Char) (len : Int) : TcpManager :=
  match m.accepted[conn]? with
  | none => m
  | some fd => {m with pipe := m.pipe ++ [(conn, {fd := fd, action := action, buf := buf, len := len})]}

/-- `on_notify`. The client is told of the access before it is looked at. -/
def onNotify (cfg : Config) (m : TcpManager) (ports : List (Option (Fd × Int))) :
    Except Halt (TcpManager × List NetEffect) :=
  match m.pipe with
  | [] => .ok (m, [])
  | (_, n) :: rest =>
    match m.seekClient n.fd with
    | none => .error (.fault .nullPointer)
    | some c => do
      let (c, es) ← c.handle cfg (.notify n ports)
      return ({m with pipe := rest}.leave n.fd c, es)

/-- `on_read`. -/
def onRead (m : TcpManager) (fd : Fd) (r : CtrlReadResult) : TcpManager × List NetEffect :=
  match r with
  | .text bytes => (m, [.postToSession {fd := fd, action := .read, buf := bytes, bufLen := bytes.length}])
  | .closed => (m.delClient fd, [.postToSession {fd := fd, action := .disconn}])
  | .failed => (m.delClient fd, [.postToSession {fd := fd, action := .connErr, bufLen := -1}])

/-- `on_timeout`, for the clients found idle. -/
def onTimeout (m : TcpManager) (fds : List Fd) : TcpManager × List NetEffect :=
  (fds.foldl delClient m, fds.map fun fd => .postToSession {fd := fd, action := .disconn})

end TcpManager

/-- The event loop and the workers that post to it. -/
def eventLoop (cfg : Config) : Machine LoopEvent TcpManager NetEffect Halt where
  step i m :=
    match i with
    | .accept fd ip => .ok (m.onAccept fd ip)
    | .post conn action buf len => .ok (m.post conn action buf len, [])
    | .notify ports => m.onNotify cfg ports
    | .read fd r =>
      match m.seekClient fd with
      | none => .ok (m, [])
      | some _ => .ok (m.onRead fd r)
    | .callback fd k =>
      match m.seekClient fd with
      | none => .ok (m, [])
      | some c => do
        let (c, es) ← c.handle cfg (.callback k)
        return (m.leave fd c, es)
    | .timeout fds => .ok (m.onTimeout (fds.filter fun fd => (m.seekClient fd).isSome))

end HyperTransfer
