import HyperTransfer.Common
import HyperTransfer.Lib.Files

/-! The object of one transfer on the disk side.

A file handle is an `Option`, `none` for the `-1` of a failed `open`. The methods of
`disk_info` work on the object and on the files; what they ask of the operating system
is given in the `DiskCalls` of the task at hand. Fields no modelled function reads (the
length of the file, the times) are left out. -/
namespace HyperTransfer
open CString

/-- `data_action`: a `DISK_` code, or the code of the task that made the object. -/
inductive DiskAction where
  | storStart | storing | storDone | indexLoading | indexFinish | retrLoading | retrFinish
  | task (a : DiskTaskAction)
deriving DecidableEq

/-- The directories: what `readdir` goes through for a path, and for the path of an entry
the columns `get_dir` writes in front of its name, or nothing where `lstat` fails. An owner
or a group without a name is a null pointer, which is read. -/
structure Directories where
  entries : List Char → Option (List (List Char))
  columns : List Char → Except Fault (Option (List Char))

/-- What the operating system answers while a task is handled: the descriptor a file is
opened as, whether a seek succeeds, and how many bytes a read and a write move. -/
structure DiskCalls where
  opens : Option Nat := none
  seeks : Bool := true
  reads : Option Nat := none
  writes : Option Nat := none
  dirs : Directories := {entries := fun _ => none, columns := fun _ => .ok none}

/-- What handling a disk task does outside the disk side's own objects. -/
inductive DiskEffect where
  | opened (path : List Char) (handle : Option Nat)
  | read (path : Option (List Char)) (bytes : List Char)
  | wrote (path : Option (List Char)) (bytes : List Char)
  | closed (handle : Nat)
  | listed (path : List Char)
  | dataPost (fd : Fd) (buf : List Char) (len : Int)
  | postToSession (t : SessionTask)
deriving DecidableEq

structure DiskInfo where
  address : Nat
  fd : Fd
  dataAction : DiskAction
  curPath : List Char
  curDir : List (List Char)
  listInfo : List Char
  restSize : Int
  fileHandle : Option Nat
  fileBuffer : List Char
  bufLen : Int
deriving DecidableEq

/-- The constructor. The buffers and `buf_len` are not initialised; they are written
before they are read. -/
def DiskInfo.new (address : Nat) (t : DiskTask) : DiskInfo where
  address := address
  fd := t.ctrlFd
  dataAction := .task t.action
  curPath := strncpy pathSize t.curPath
  curDir := []
  listInfo := []
  restSize := t.getRestSize
  fileHandle := none
  fileBuffer := []
  bufLen := 0

/-! ### Directory listings -/

/-- `FILEINFOLEN`. -/
abbrev fileInfoLen : Nat := 320

/-- The rows of one page. -/
abbrev pageRows : Nat := 32

namespace Directories

/-- `get_dir_detail`: the entries without `.` and `..`. -/
def getDirDetail (dirs : Directories) (dirname : List Char) : List (List Char) :=
  ((dirs.entries dirname).getD []).filter fun name =>
    !(strncmp name ".".toList 2 || strncmp name "..".toList 3)

/-- The path of an entry, in an array of `PATHSIZE` characters. -/
def entryPath (pwd name : List Char) : Except Fault (List Char) := do
  let path := (strncpy pathSize pwd).take (pathSize - 1)
  let path ← strncat pathSize path "/".toList pathSize
  strncat pathSize path name pathSize

/-- `get_dir`, with `k` rows written: the entries left, and the rows. -/
def getDir (dirs : Directories) (pwd : List Char) :
    Nat → List (List Char) → List Char → Except Fault (List (List Char) × List Char)
  | _, [], info => .ok ([], info)
  | k, name :: rest, info => do
    match ← dirs.columns (← entryPath pwd name) with
    | none => getDir dirs pwd k rest info
    | some columns => do
      let row ← concat fileInfoLen [columns, name, "\r\n".toList]
      let info ← strncat indexSize info row fileInfoLen
      if k + 1 ≥ pageRows then return (rest, info) else getDir dirs pwd (k + 1) rest info

end Directories

/-! ### Methods -/

/-- An object, the files, and what has been done so far. -/
structure DiskWork where
  info : DiskInfo
  files : Files (List Char) Char
  effects : List DiskEffect := []

namespace DiskWork

def setDataAction (w : DiskWork) (a : DiskAction) : DiskWork := {w with info := {w.info with dataAction := a}}

def setRestSize (w : DiskWork) (n : Int) : DiskWork := {w with info := {w.info with restSize := n}}

/-- Open `cur_path`. -/
def openPath (c : DiskCalls) (create : Bool) (w : DiskWork) : DiskWork :=
  let r := w.files.openFile w.info.curPath create c.opens
  { info := {w.info with fileHandle := r.1}
    files := r.2
    effects := w.effects ++ [.opened w.info.curPath r.1] }

def openCreate (c : DiskCalls) (w : DiskWork) : DiskWork := w.openPath c true

def openWriteonly (c : DiskCalls) (w : DiskWork) : DiskWork := w.openPath c false

def openReadonly (c : DiskCalls) (w : DiskWork) : DiskWork := w.openPath c false

def seekFileHandle (c : DiskCalls) (w : DiskWork) : DiskWork :=
  match w.info.fileHandle with
  | none => w
  | some d => {w with files := w.files.seek d w.info.restSize c.seeks}

def readFromDisk (c : DiskCalls) (w : DiskWork) : Int × DiskWork :=
  match w.info.fileHandle with
  | none => (-1, {w with info := {w.info with bufLen := -1}})
  | some d =>
    match w.files.read d fileBufSize c.reads with
    | (none, files) => (-1, {w with info := {w.info with bufLen := -1}, files := files})
    | (some bytes, files) =>
      (bytes.length,
        { info := {w.info with
            fileBuffer := bytes ++ w.info.fileBuffer.drop bytes.length
            bufLen := bytes.length }
          files := files
          effects := w.effects ++ [.read (w.files.pathOf d) bytes] })

/-- The length of a task's buffer is never negative. -/
def writeToDisk (c : DiskCalls) (t : DiskTask) (w : DiskWork) : Int × DiskWork :=
  match w.info.fileHandle with
  | none => (-1, w)
  | some d =>
    let bytes := t.payload
    match w.files.write '\x00' d bytes c.writes with
    | (none, files) => (-1, {w with files := files})
    | (some n, files) =>
      (n, {w with files := files, effects := w.effects ++ [.wrote (w.files.pathOf d) (bytes.take n)]})

def closeFileHandle (w : DiskWork) : DiskWork :=
  match w.info.fileHandle with
  | none => w
  | some d => {w with files := w.files.close d, effects := w.effects ++ [.closed d]}

def clearListInfo (w : DiskWork) : DiskWork := {w with info := {w.info with bufLen := 0, listInfo := []}}

/-- A page of the listing, from `entries` on. -/
def listFrom (c : DiskCalls) (entries : List (List Char)) (w : DiskWork) :
    Except Fault (List (List Char) × DiskWork) := do
  let (rest, text) ← c.dirs.getDir w.info.curPath 0 entries []
  return (rest,
    {w with
      info := {w.info with curDir := rest, listInfo := text}
      effects := w.effects ++ [.listed w.info.curPath] })

/-- `get_list()`: the first page. -/
def getList (c : DiskCalls) (w : DiskWork) : Except Fault (List (List Char) × DiskWork) :=
  w.listFrom c (c.dirs.getDirDetail w.info.curPath)

/-- `get_list(int)`: the next page. -/
def getListNext (c : DiskCalls) (w : DiskWork) : Except Fault (List (List Char) × DiskWork) :=
  w.listFrom c w.info.curDir

/-- `data_post` on the object's connection. A negative length makes the allocation fail. -/
def dataPost (buf : List Char) (len : Int) (w : DiskWork) : Except Fault DiskWork :=
  if len < 0 then .error .overrun
  else .ok {w with effects := w.effects ++ [.dataPost w.info.fd (buf.take len.toNat) len]}

end DiskWork
end HyperTransfer
