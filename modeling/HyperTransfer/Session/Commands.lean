import HyperTransfer.Session.State
import HyperTransfer.Session.Path

/-! The command handlers: one definition for each `com_` function, and the
handlers of the data connection's events.

A handler that returns no value returns `0` here. Replies are composed in an array
of `COMMANDSIZE` characters; one that does not fit is an overrun. -/
namespace HyperTransfer
open CString

/-- What the handlers read besides the session. The users are in the order the map
iterates. -/
structure Env where
  config : Config
  users : List UserList
  unameOk : Bool := true

/-- The configuration of `conf/`, and the users of its list that the server keeps: the record
of the last line is freed once the list is loaded. -/
def Env.shipped : Env where
  config := {
    serverLanIp := "127.0.0.1".toList, serverWanIp := "127.0.0.1".toList
    initPath := "/home/chentianjian/data/".toList, startPort := 1024, endPort := 65536 }
  users := [
    {user := "share".toList, pass := "share".toList, uploadPer := true, downloadPer := true, delePer := true},
    {user := "test1".toList, pass := "123".toList, uploadPer := true, downloadPer := false, delePer := false}]

/-- `seek_user`: compares as many characters as the query has. -/
def seekUser (users : List UserList) (user : List Char) : Option UserList :=
  users.find? fun r => strncasecmp user r.user user.length

/-- A reply put together from parts. -/
def compose (parts : List (List Char)) : Except Fault (List Char) := concat commandSize parts

/-! ### Users -/

def comBAD (s : Session) : Handled := s.answer "501 Bad or missing parameters.\r\n".toList

def comUSER (users : List UserList) (s : Session) : Except Fault Handled :=
  let s :=
    if s.cmpProcessingCommand "Anonymous".toList then
      (s.setUsername "Anonymous".toList).setRetCommand "331 User name okay, need password.\r\n".toList
    else s
  if s.cmpProcessingCommand "BGIShare".toList then
    .ok ((s.setUsername "BGIShare".toList).answer "331 User name okay, need password.\r\n".toList)
  else
    match seekUser users s.processingCommand with
    | some u => do
      let s ← ((s.setUserInfo u).setUsername u.user).setPassword
      return s.answer (← compose
        ["331 Password required for ".toList, s.processingCommand, "\r\n".toList])
    | none => .ok (s.answer "530 Not logged in.\r\n".toList)

def comPASS (s : Session) : Except Fault Handled :=
  if s.cmpUsername "Anonymous".toList then
    .ok ((s.setLogin true).answer "230 User Anonymous logged in, proceed.\r\n".toList)
  else if !s.cmpUsername [] then
    if s.cmpPassword then do
      let s ← (s.setLogin true).setPermission
      return s.answer (← compose ["230 User ".toList, s.username, " logged in, proceed.\r\n".toList])
    else .ok (s.answer "530 Not logged in.\r\n".toList)
  else .ok (s.answer "530 Not logged in.\r\n".toList)

def comSYST (unameOk : Bool) (s : Session) : Handled :=
  s.answer (if unameOk then "215 UNIX Type: L8\r\n".toList else "215 \r\n".toList)

def comFEAT (s : Session) : Handled :=
  s.answer "211-Extensions supported:\r\n PASV\r\n SIZE\r\n REST\r\n APPE\r\n211 End.\r\n".toList

def comTYPE (s : Session) : Handled :=
  if s.cmpProcessingCommand "A".toList then s.answer "200 Type set to A.\r\n".toList
  else if s.cmpProcessingCommand "I".toList then s.answer "200 Type set to I.\r\n".toList
  else s.answer "504 Command not implemented for the specified argument.\r\n".toList

/-! ### Directories -/

/-- "If the path does not end in a slash, add one", in the array it is in. -/
def addSlash (path : List Char) : Except Fault (List Char) := do
  let last ← advance path (path.length - 1)
  if strncmp last "/".toList 1 then return path else strncat pathSize path "/".toList commandSize

def comCWD (fs : FileSystem) (s : Session) : Except Fault Handled :=
  if s.cmpProcessingCommand [] then
    .ok ((s.setCurPath s.rootPath).answer
      "504 Command not implemented for the specified argument.\r\n".toList)
  else if s.cmpProcessingCommand " ".toList 1 then do
    let jump ← cstr pathSize (strncpy pathSize (s.processingCommand.drop 1))
    let cur ← s.getCurPath
    let root ← s.getRootPath
    match ← changePath root cur jump with
    | none =>
      return s.answer (← compose
        ["550 CWD failed. \"".toList, jump, "\" : no such file or directory.\r\n".toList])
    | some a =>
      let jump := a.argument jump
      match fs.lstat a.path with
      | none =>
        return (s.answer (← compose
          ["550 CWD failed. \"".toList, jump,
            "\" : no such file or directory.\r\n".toList])).after [.lstat a.path]
      | some info =>
        if (strstr a.path root).isNone then
          return (s.answer (← compose
            ["550 CWD failed. \"".toList, jump, "\" : Permission denied.\r\n".toList])).after
              [.lstat a.path]
        else if info.isDir then do
          let path ← addSlash a.path
          -- the slash goes into the root path itself when that is what was returned
          let s := if a.buffer = .root then {s with rootPath := path} else s
          let s := s.setCurPath path
          let r ← advance path (s.rootPath.length - 1)
          return (s.answer (← compose
            ["250 CWD command successful. \"".toList, r,
              "\" is current directory.\r\n".toList])).after [.lstat a.path]
        else
          let r ← advance a.path root.length
          return (s.answer (← compose
            ["550 CWD failed. \"".toList, r,
              "\" : no such directory, maybe is file.\r\n".toList])).after [.lstat a.path]
  else .ok (s.answer "500 Unknown command.\r\n".toList)

def comPWD (s : Session) : Except Fault Handled :=
  if s.logIn then do
    let r ← advance (← s.getCurPath) s.rootPathLen
    return s.answer (← compose ["257 \"".toList, r, "\" is current directory.\r\n".toList])
  else .ok (s.answer "550 PWD failed.\r\n".toList)

/-! ### Sizes and offsets -/

def comSIZE (fs : FileSystem) (s : Session) : Except Fault Handled := do
  let path ← compose [← s.getCurPath, s.processingCommand]
  let s := s.setFileName path
  let name ← s.getFileName
  match fs.stat name with
  | some info =>
    if info.isDir then
      return (s.answer (← compose
        ["550 ".toList, ← s.getRelativeName, ": not a regular file\r\n".toList])).after [.stat name]
    else
      return ((s.setFileLen info.size).answer (← compose
        ["213 ".toList, decimal info.size, "\r\n".toList])).after [.stat name]
  | none =>
    return (s.answer (← compose
      ["550 Requested action not taken. \"".toList, ← s.getRelativeName,
        "\": no such file.\r\n".toList])).after [.stat name]

def comREST (s : Session) : Except Fault Handled :=
  if s.cmpProcessingCommand " ".toList 1 then do
    let argument := s.processingCommand.drop 1
    let s := s.setRestSize ((scanLong argument).getD 0)
    return s.answer (← compose
      ["350 Restarting at ".toList, argument,
        ". Send STOR or RETR to initiate transfer.\r\n".toList])
  else
    .ok ((s.setRestSize 0).answer
      "350 Restarting at 0. Send STOR or RETR to initiate transfer.\r\n".toList)

/-! ### Transfers -/

def comPASV (s : Session) : Handled :=
  if !s.logIn then s.answer "530 Not logged in.\r\n".toList (-1)
  else {session := s.setAction .pasv, effects := [.pasvPost]}

/-- The reply to a port the network side took, or a refusal. -/
def runPasv (cfg : Config) (s : Session) (port : Int) : Except Fault Handled :=
  if cfg.startPort < port ∧ port < cfg.endPort then do
    let serverIp ← s.getServerIp
    let hostIp := serverIp.map (fun c => if c != '.' then c else ',') ++ [',']
    return s.answer (← compose
      ["227 Entering Passive Mode (".toList, hostIp, (decimal (port >>> (8 : Nat))).take (portPartLen - 1),
        ",".toList, (decimal (port % 256)).take (portPartLen - 1), ").\r\n".toList])
  else .ok (s.answer "502 Server is busy now, Service not available.\r\n".toList (-1))

/-- Resolve a transfer's argument; the null pointer goes into `set_file_name`. -/
def transferPath (s : Session) : Except Fault (APath × List Char) := do
  let jump ← cstr pathSize (strncpy pathSize s.processingCommand)
  let cur ← s.getCurPath
  let root ← s.getRootPath
  match ← changePath root cur jump with
  | none => throw .nullPointer
  | some a => return (a, a.argument jump)

def comLIST (s : Session) : Handled :=
  if !s.logIn then s.answer "530 Not logged in.\r\n".toList (-1)
  else if s.dataAction ≠ .pasvOk then s.answer "425 Can't open data connection.\r\n".toList (-1)
  else {session := s.setDataAction .list, effects := [.setDataAction .list]}

def comSTOR (fs : FileSystem) (s : Session) : Except Fault Handled :=
  if !s.logIn then .ok (s.answer "530 Not logged in.\r\n".toList (-1))
  else if s.dataAction ≠ .pasvOk then .ok (s.answer "425 Can't open data connection.\r\n".toList (-1))
  else if !s.uploadPer then .ok (s.answer "550 Cannot STOR. No permission.\r\n".toList (-1))
  else do
    let (a, _) ← transferPath s
    let s := s.setFileName a.path
    match fs.stat a.path with
    | some _ =>
      return (s.answer (← compose
        ["550 Cannot STOR. \"".toList, a.path, "\": is exist.\r\n".toList]) (-1)).after [.stat a.path]
    | none =>
      return {session := s.setDataAction .stor, effects := [.stat a.path, .setDataAction .stor]}

def comAPPE (fs : FileSystem) (s : Session) : Except Fault Handled :=
  if !s.logIn then .ok (s.answer "530 Not logged in.\r\n".toList)
  else if !s.uploadPer then .ok (s.answer "550 Cannot APPE. No permission.\r\n".toList)
  else do
    let (a, _) ← transferPath s
    let s := s.setFileName a.path
    let s := match fs.stat a.path with
      | some info => s.setRestSize info.size
      | none => s.setRestSize 0
    return {session := s.setDataAction .stor, effects := [.stat a.path, .setDataAction .stor]}

def comRETR (fs : FileSystem) (s : Session) : Except Fault Handled :=
  if !s.logIn then .ok (s.answer "530 Not logged in.\r\n".toList (-1))
  else if s.dataAction ≠ .pasvOk then .ok (s.answer "425 Can't open data connection.\r\n".toList (-1))
  else if !s.downloadPer then .ok (s.answer "550 Cannot RETR. No permission.\r\n".toList (-1))
  else do
    let (a, jump) ← transferPath s
    let s := s.setFileName a.path
    match fs.stat a.path with
    | some info =>
      if info.isDir then
        return (s.answer (← compose
          ["550 ".toList, jump, ": not a regular file\r\n".toList]) (-1)).after [.stat a.path]
      else if s.restSize ≠ 0 ∧ info.size < s.restSize then
        return (s.answer (← compose
          ["554 ".toList, ← s.getRelativeName, ": invalid REST argument.\r\n".toList]) (-1)).after
            [.stat a.path]
      else
        return {
          session := (s.setFileLen info.size).setDataAction .retr
          effects := [.stat a.path, .setDataAction .retr] }
    | none =>
      return (s.answer (← compose
        ["550 Requested action not taken. \"".toList, ← s.getRelativeName,
          "\": no such file.\r\n".toList]) (-1)).after [.stat a.path]

/-- `run_list_load`: the data connection of a LIST is there. -/
def runListLoad (s : Session) : Except Fault Handled := do
  let text ← compose ["150 Data connection accepted from ".toList, ← s.getServerIp,
    ";transfer starting.\r\n".toList]
  let s := (s.setRetCommand text).setDataAction .indexDownload
  let path ← s.getCurPath
  return {
    session := s
    effects := [.setDataAction .indexDownload, s.post, .postToDisk (.ofPath s.fd .indexStart path)] }

/-- `run_stor_load`: the data connection of an upload is there. -/
def runStorLoad (s : Session) : Except Fault Handled := do
  let name ← s.getFileName
  return {session := s, effects := [.postToDisk (.ofPath s.fd .storStart name s.restSize)]}

/-- `run_stor_start`: the disk side has opened the file. -/
def runStorStart (s : Session) : Except Fault Handled := do
  return s.answer (← compose ["150 Data connection accepted from ".toList, ← s.getServerIp,
    ";transfer starting.\r\n".toList])

/-- `run_retr_load`: the data connection of a download is there. -/
def runRetrLoad (s : Session) : Except Fault Handled := do
  let text ← compose ["150 Data connection accepted from ".toList, ← s.getServerIp,
    ";transfer starting for".toList, ← s.getRelativeName, " (".toList, decimal s.fileLen,
    " bytes)\r\n".toList]
  let s := (s.setRetCommand text).setDataAction .fileDownload
  let name ← s.getFileName
  return {
    session := s
    effects := [.setDataAction .fileDownload, s.post,
      .postToDisk (.ofPath s.fd .retrStart name s.restSize)] }

/-- `run_transfer_ok`. -/
def runTransferOk (s : Session) : Handled :=
  let s := ((s.setRetCommand "226 Transfer ok.\r\n".toList).setAction .waiting).setDataAction .waiting
  {session := s, effects := [.setDataAction .waiting, s.postTransferOk]}

end HyperTransfer
