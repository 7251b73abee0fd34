import HyperTransfer.Lib.CString

/-! Sizes, configuration and the tasks the threads of the server hand each other.

A `char` is a `Char`, a `char` array the string it holds (`Lib/CString.lean`), an
`int` or `long` an `Int`, a descriptor a `Nat`. -/
namespace HyperTransfer

abbrev commandSize : Nat := 1461
abbrev portPartLen : Nat := 4
abbrev ipLen : Nat := 16
abbrev userLen : Nat := 16
abbrev passLen : Nat := 128
abbrev pathSize : Nat := 1024
abbrev fileBufSize : Nat := 1048576
abbrev indexSize : Nat := 10240

abbrev Fd := Nat

/-- The configuration the session side reads. -/
structure Config where
  serverLanIp : List Char
  serverWanIp : List Char
  initPath : List Char
  startPort : Int
  endPort : Int

/-- A record of the user list; both strings are terminated in their arrays. -/
structure UserList where
  user : List Char
  pass : List Char
  uploadPer : Bool
  downloadPer : Bool
  delePer : Bool
  user_lt : user.length < userLen := by decide
  pass_lt : pass.length < passLen := by decide
deriving DecidableEq

/-- What `stat` reports: whether it is a directory, and `st_size`. -/
structure FileInfo where
  isDir : Bool
  size : Nat
deriving DecidableEq

/-- The file system as the session threads see it during one task. -/
structure FileSystem where
  stat : List Char → Option FileInfo
  lstat : List Char → Option FileInfo

/-- A file system where every path leads to the same thing, or to nothing. -/
def FileSystem.constant (info : Option FileInfo) : FileSystem where
  stat _ := info
  lstat _ := info

/-! ### Tasks of the session threads -/

inductive SessionTaskAction where
  | ctrlAccept | read | pasv | dataAccept | storStart | transOk | disconn | connErr
  | other (code : Int)
deriving DecidableEq

/-- `buf` is the whole array behind the pointer; an unset length is `0`. -/
structure SessionTask where
  fd : Fd
  action : SessionTaskAction
  buf : List Char := []
  bufLen : Int := 0
deriving DecidableEq

/-! ### Tasks of the disk threads -/

inductive DiskTaskAction where
  | storStart | storing | storOk | writeDone | indexStart | retrStart | dele
  | other (code : Int)
deriving DecidableEq

/-- `fileBuffer` is `none` for the null pointer. -/
structure DiskTask where
  ctrlFd : Fd
  action : DiskTaskAction
  curPath : List Char := []
  restSize : Int := 0
  fileBuffer : Option (List Char) := none
  bufLen : Int := 0
deriving DecidableEq

namespace DiskTask

/-- `disk_task(fd, action, path)` and, with an offset, `disk_task(fd, action, path, offset)`. -/
def ofPath (fd : Fd) (action : DiskTaskAction) (path : List Char) (offset : Int := 0) : DiskTask :=
  {ctrlFd := fd, action := action, curPath := CString.strncpy pathSize path, restSize := offset}

/-- The bytes of a task that go into the file. -/
def payload (t : DiskTask) : List Char := (t.fileBuffer.getD []).take t.bufLen.toNat

/-- The offset is a `long`, its getter returns an `int`. -/
def getRestSize (t : DiskTask) : Int := CString.toInt t.restSize

end DiskTask
end HyperTransfer
