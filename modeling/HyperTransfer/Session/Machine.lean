import HyperTransfer.Lib.Machine
import HyperTransfer.Session.Commands

/-! One session: framing of the command stream, dispatch, and
`roll_state_machine` from the point where the session is known. -/
namespace HyperTransfer
open CString

/-! ### Dispatch -/

inductive Command where
  | user | pass | type | cwd | cdup | pwd | appe | size | rest | pasv | list | stor | retr
  | syst | feat | bad
deriving DecidableEq

/-- Which handler a command line goes to, and the text left for it. -/
def command (deal : List Char) : Command × List Char :=
  if strncmp deal "USER ".toList 5 then (.user, deal.drop 5)
  else if strncmp deal "PASS ".toList 5 then (.pass, deal.drop 5)
  else if strncmp deal "TYPE  ".toList 5 then (.type, deal.drop 5)
  else if strncmp deal "CWD".toList 3 then (.cwd, deal.drop 3)
  else if strncmp deal "CDUP".toList 4 then (.cdup, " ..".toList)
  else if strncmp deal "PWD".toList 3 then (.pwd, deal.drop 3)
  else if strncmp deal "APPE ".toList 5 then (.appe, deal.drop 5)
  else if strncmp deal "SIZE ".toList 5 then (.size, deal.drop 5)
  else if strncmp deal "REST".toList 4 then (.rest, deal.drop 4)
  else if strncmp deal "PASV".toList commandSize then (.pasv, deal.drop 4)
  else if strncmp deal "LIST".toList 4 then (.list, deal.drop 4)
  else if strncmp deal "STOR ".toList 5 then (.stor, deal.drop 5)
  else if strncmp deal "RETR ".toList 5 then (.retr, deal.drop 5)
  else if strncmp deal "SYST".toList 4 then (.syst, deal.drop 4)
  else if strncmp deal "FEAT".toList 4 then (.feat, deal.drop 4)
  else (.bad, deal)

/-- `CDUP` goes to the handler of `CWD` with an argument of its own. -/
theorem command_cdup {deal : List Char} (h : (command deal).1 = .cdup) :
    (command deal).2 = " ..".toList := by
  revert h
  fun_cases command deal with
  | case5 => exact fun _ => rfl
  | _ => exact fun h => nomatch h

def Command.handle (env : Env) (fs : FileSystem) (s : Session) : Command → Except Fault Handled
  | .user => comUSER env.users s
  | .pass => comPASS s
  | .type => .ok (comTYPE s)
  | .cwd => comCWD fs s
  | .cdup => comCWD fs s
  | .pwd => comPWD s
  | .appe => comAPPE fs s
  | .size => comSIZE fs s
  | .rest => comREST s
  | .pasv => .ok (comPASV s)
  | .list => .ok (comLIST s)
  | .stor => comSTOR fs s
  | .retr => comRETR fs s
  | .syst => .ok (comSYST env.unameOk s)
  | .feat => .ok (comFEAT s)
  | .bad => .ok (comBAD s)

/-- The dispatch part of `run_fsm_command`, on a complete line. -/
def dispatch (env : Env) (fs : FileSystem) (deal : List Char) (s : Session) :
    Except Fault Handled := do
  let (cmd, text) := command deal
  let h ← cmd.handle env fs ((s.setProcessingCommand deal).setProcessingCommand text)
  -- LIST, STOR and RETR alone hand on their return value
  let ret := if cmd = .list ∨ cmd = .stor ∨ cmd = .retr then h.ret else 0
  return {h with ret := ret, effects := .dispatch deal :: h.effects}

/-! ### Framing -/

/-- The framing part of `run_fsm_command`: the line taken from the receive buffer,
and the session with the line consumed. -/
def frame (s : Session) : Except Fault (Option (List Char × Session)) :=
  match s.getRecvCommand with
  | none => .error .nullPointer
  | some recv =>
    let bak := (strncpy commandSize recv).take (commandSize - 1)
    let deal := strtok bak Session.crlf
    if bak.length < deal.length + 2 then .ok none
    else if deal.length + 2 = bak.length then .ok (some (deal, s.resetRecvCommand bak.length))
    else
      match strstr bak Session.crlf with
      | some left => .ok (some (deal, s.setRecvCommand (left.drop 2)))
      | none => .error .nullPointer

/-- `run_fsm_command`. -/
def runFsmCommand (env : Env) (fs : FileSystem) (s : Session) : Except Fault Handled := do
  match ← frame s with
  | none => return {ret := -1, session := s}
  | some (deal, s) => dispatch env fs deal s

/-! ### Tasks -/

/-- `set_action(CTRL_WAITING)` after a zero return. -/
def Handled.wait (h : Handled) : Handled :=
  if h.ret = 0 then {h with session := h.session.setAction .waiting} else h

/-- `roll_state_machine` for a session that was found. -/
def rollSession (env : Env) (fs : FileSystem) (t : SessionTask) (s : Session) :
    Except Fault Handled :=
  match t.action with
  | .pasv => do
    let h ← runPasv env.config s t.bufLen
    if h.ret = 0 then
      return {h with
        session := (h.session.setAction .waiting).setDataAction .pasvOk
        effects := h.effects ++ [.setDataAction .pasvOk] }
    else return h
  | .dataAccept =>
    match s.dataAction with
    | .list => runListLoad s
    | .stor => runStorLoad s
    | .retr => runRetrLoad s
    | _ => .ok {session := s}
  | .storStart => runStorStart s
  | .transOk => .ok (runTransferOk s)
  | .read => do
    let s ← (s.setAction (.task .read)).catRecvCommand t.buf
    return (← runFsmCommand env fs s).wait
  | .disconn => .ok {ret := -1, session := s}
  | .connErr => .ok {ret := -1, session := s}
  -- an accept never gets here: it makes a session of its own
  | .ctrlAccept => .ok {ret := -1, session := s}
  | .other _ => .ok {ret := -1, session := s}

/-- A task, with the file system as it is while the task is handled. -/
structure SessionInput where
  fs : FileSystem
  task : SessionTask

/-- A read of `text` on the connection of `fd`. -/
def SessionInput.read (fs : FileSystem) (fd : Fd) (text : List Char) : SessionInput where
  fs := fs
  task := {fd := fd, action := .read, buf := text, bufLen := text.length}

/-- One session under a sequence of its tasks. -/
def session (env : Env) : Machine SessionInput Session Effect Fault where
  step i s := do
    let h ← rollSession env i.fs i.task s
    return (h.session, h.effects)

/-- `run_fsm_accept`: the server address and the greeting. -/
def runFsmAccept (cfg : Config) (s : Session) : Except Fault Handled := do
  let s ← s.setServerIp cfg
  return s.answer "220 Hyper Transfer is ready.\r\n".toList

/-- The task of an accepted connection: its descriptor and the client's address. -/
def SessionTask.accept (fd : Fd) (clientIp : List Char) : SessionTask where
  fd := fd
  action := .ctrlAccept
  buf := clientIp

/-- The session an accept makes. -/
def acceptSession (cfg : Config) (address : Nat) (garbage : List Char) (t : SessionTask) :
    Except Fault Handled := do
  let h ← runFsmAccept cfg (← Session.new cfg address garbage t)
  return {h with session := h.session.setAction .waiting}

/-- A user of the shipped list logs in. -/
def shareLogin : List SessionInput :=
  [.read (.constant none) 7 "USER share\r\n".toList, .read (.constant none) 7 "PASS share\r\n".toList]

end HyperTransfer
