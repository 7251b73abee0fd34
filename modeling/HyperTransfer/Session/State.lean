import HyperTransfer.Common

/-! The session object and what handling a task leaves behind.

Fields no modelled function reads are left out: the unused write queue, `path_len`,
`appe_size`, the lengths and times nothing consults. An object is told apart from
others by its `address`. A handler returns a `Handled`: its return value, the
session, and its effects in order. Besides what it posts to other threads, the
effects record which command line was dispatched, every `set_data_action` and
every path given to `stat` or `lstat`. -/
namespace HyperTransfer
open CString

/-- `data_action`. -/
inductive DataAction where
  | waiting | pasvOk | list | stor | retr | indexDownload | fileDownload
deriving DecidableEq

/-- `action`: `CTRL_WAITING`, `CTRL_PASV`, or the code of a task. -/
inductive CtrlAction where
  | waiting | pasv
  | task (a : SessionTaskAction)
deriving DecidableEq

structure Session where
  address : Nat
  fd : Fd
  action : CtrlAction
  dataAction : DataAction
  clientIp : List Char
  serverIp : List Char
  username : List Char
  password : List Char
  logIn : Bool
  userInfo : Option UserList
  uploadPer : Bool
  downloadPer : Bool
  delePer : Bool
  rootPath : List Char
  rootPathLen : Int
  curPath : List Char
  recvCommand : List Char
  recvCommandLen : Nat
  retCommand : List Char
  retCommandLen : Nat
  processingCommand : List Char
  fileName : List Char
  fileLen : Int
  restSize : Int
deriving DecidableEq

inductive Effect where
  | dispatch (line : List Char)
  | setDataAction (a : DataAction)
  | stat (path : List Char)
  | lstat (path : List Char)
  | post (buf : List Char) (len : Nat)
  | postTransferOk (buf : List Char) (len : Nat)
  | pasvPost
  | postToDisk (t : DiskTask)
deriving DecidableEq

structure Handled where
  ret : Int := 0
  session : Session
  effects : List Effect := []
deriving DecidableEq

/-- The same with earlier effects put in front. -/
def Handled.after (es : List Effect) (h : Handled) : Handled := {h with effects := es ++ h.effects}

namespace Session

/-- The constructor. `garbage` is what the allocator left in the password array;
the other arrays it does not initialise are never read before they are written. -/
def new (cfg : Config) (address : Nat) (garbage : List Char) (t : SessionTask) :
    Except Fault Session := do
  let root ← cstr pathSize (strncpy pathSize cfg.initPath)
  return {
    address := address, fd := t.fd, action := .task t.action, dataAction := .waiting
    clientIp := strncpy ipLen (terminated t.buf), serverIp := []
    username := [], password := garbage, logIn := false, userInfo := none
    uploadPer := false, downloadPer := false, delePer := false
    rootPath := root, rootPathLen := root.length - 1, curPath := strncpy pathSize cfg.initPath
    recvCommand := [], recvCommandLen := 0, retCommand := [], retCommandLen := 0
    processingCommand := [], fileName := [], fileLen := 0, restSize := 0 }

/-- The second number of a client address `172.x`, read up to the next dot. -/
def secondOctet (clientIp : List Char) : Except Fault Int :=
  let rest := clientIp.drop 4
  if '.' ∈ rest then
    .ok ((rest.takeWhile (· != '.')).foldl (fun a c => a * 10 + c.toNat - '0'.toNat) (0 : Int))
  else .error .overrun

/-- Clients of the private ranges are given the LAN address. -/
def setServerIp (cfg : Config) (s : Session) : Except Fault Session :=
  let lan := {s with serverIp := strncpy ipLen cfg.serverLanIp}
  let wan := {s with serverIp := strncpy ipLen cfg.serverWanIp}
  if strncmp s.clientIp "192.168".toList 7 then .ok lan
  else if strncmp s.clientIp "10.".toList 3 then .ok lan
  else if strncmp s.clientIp "172.".toList 4 then do
    let a ← secondOctet s.clientIp
    return if 16 ≤ a ∧ a ≤ 31 then lan else wan
  else .ok wan

def getServerIp (s : Session) : Except Fault (List Char) := cstr ipLen s.serverIp

/-! ### The receive buffer -/

def setRecvCommand (s : Session) (buf : List Char) : Session :=
  {s with recvCommand := strncpy commandSize buf, recvCommandLen := (strncpy commandSize buf).length}

/-- The bytes between `recv_command` and `ret_command`: three of padding and the length. -/
abbrev retCommandGap : Nat := 7

/-- The count given to `strncpy` is the whole array at an offset: the zeros it pads with
past the end fall on the length, set right after, and behind it on the first bytes of
`ret_command`. A string that does not end in the array is an overrun. -/
def catRecvCommand (s : Session) (buf : List Char) : Except Fault Session := do
  let text ← cstr commandSize
    (s.recvCommand.take s.recvCommandLen ++ strncpy commandSize (terminated buf))
  return {s with
    recvCommand := text, recvCommandLen := text.length
    retCommand := if s.recvCommandLen ≤ retCommandGap then s.retCommand else [] }

def crlf : List Char := ['\r', '\n']

def getRecvCommand (s : Session) : Option (List Char) :=
  let backup := strtok (s.recvCommand.take s.recvCommandLen) crlf
  if s.recvCommandLen = backup.length then none else some s.recvCommand

def resetRecvCommand (s : Session) (len : Nat) : Session := s.setRecvCommand (s.recvCommand.drop len)

/-! ### The command in hand and the reply -/

/-- Sets the length of the other command. -/
def setProcessingCommand (s : Session) (buf : List Char) : Session :=
  {s with
    processingCommand := strncpy commandSize buf
    retCommandLen := (strncpy commandSize buf).length }

def cmpProcessingCommand (s : Session) (buf : List Char) (len : Nat := commandSize) : Bool :=
  strncasecmp s.processingCommand buf len

def setRetCommand (s : Session) (buf : List Char) : Session :=
  {s with retCommand := strncpy commandSize buf, retCommandLen := (strncpy commandSize buf).length}

def post (s : Session) : Effect := .post s.retCommand s.retCommandLen

def postTransferOk (s : Session) : Effect := .postTransferOk s.retCommand s.retCommandLen

/-- `set_ret_command` and `post`. -/
def answer (s : Session) (text : List Char) (ret : Int := 0) : Handled :=
  let s := s.setRetCommand text
  {ret := ret, session := s, effects := [s.post]}

/-! ### Data connection -/

def setDataAction (s : Session) (a : DataAction) : Session := {s with dataAction := a}

def setAction (s : Session) (a : CtrlAction) : Session := {s with action := a}

def setRestSize (s : Session) (n : Int) : Session := {s with restSize := n}

def setFileLen (s : Session) (n : Int) : Session := {s with fileLen := n}

/-! ### Paths -/

def getCurPath (s : Session) : Except Fault (List Char) := cstr pathSize s.curPath

def setCurPath (s : Session) (path : List Char) : Session := {s with curPath := strncpy pathSize path}

def getRootPath (s : Session) : Except Fault (List Char) := cstr pathSize s.rootPath

def setFileName (s : Session) (path : List Char) : Session := {s with fileName := strncpy pathSize path}

def getFileName (s : Session) : Except Fault (List Char) := cstr pathSize s.fileName

def getRelativeName (s : Session) : Except Fault (List Char) := do
  advance (← s.getFileName) s.rootPathLen

/-! ### Users -/

def setUserInfo (s : Session) (u : UserList) : Session := {s with userInfo := some u}

def setUsername (s : Session) (name : List Char) : Session := {s with username := strncpy userLen name}

def cmpUsername (s : Session) (name : List Char) : Bool := strncasecmp s.username name userLen

/-- Copies the password of `user_info`. -/
def setPassword (s : Session) : Except Fault Session :=
  match s.userInfo with
  | some u => .ok {s with password := strncpy passLen u.pass}
  | none => .error .nullPointer

def cmpPassword (s : Session) : Bool := strncmp s.processingCommand s.password passLen

def setLogin (s : Session) (flag : Bool) : Session := {s with logIn := flag}

/-- Copies the permissions of `user_info`. -/
def setPermission (s : Session) : Except Fault Session :=
  match s.userInfo with
  | some u => .ok {s with uploadPer := u.uploadPer, downloadPer := u.downloadPer, delePer := u.delePer}
  | none => .error .nullPointer

end Session
end HyperTransfer
