import HyperTransfer.Common

/-! The network side's object of a client, as far as downloads go: its queue of data
buffers, and the callbacks that fill and drain it.

The write event is not persistent: it is removed when its callback runs, and the callback
adds it again where there is more to write. -/
namespace HyperTransfer

/-- `_event_notify` with the action `EVENT_NOTIFY_DATA_WRITE`. -/
structure DataNotify where
  fd : Fd
  buf : List Char
  len : Int
deriving DecidableEq

/-- `_data_buffer_q`. -/
structure DataBuffer where
  buf : List Char
  len : Int
  offset : Int
deriving DecidableEq

/-- `data_write_q`, and whether `event_data_write` is pending. -/
structure TcpClient where
  ctrlSocket : Fd
  dataWriteQ : List DataBuffer
  dataWritePending : Bool
deriving DecidableEq

/-- What `write` does on the data socket: `EINTR` or `EAGAIN`, another error, or up to
`count` of the bytes asked for. -/
inductive WriteResult where
  | again | failed
  | wrote (count : Nat)
deriving DecidableEq

inductive TcpEffect where
  | wrote (bytes : List Char)
  | postToDisk (t : DiskTask)
deriving DecidableEq

namespace TcpClient

/-- `on_notify` for `EVENT_NOTIFY_DATA_WRITE`, once the client is found. -/
def onNotifyDataWrite (n : DataNotify) (c : TcpClient) : TcpClient :=
  {c with
    dataWriteQ := c.dataWriteQ ++ [{buf := n.buf, len := n.len, offset := 0}]
    dataWritePending := true }

/-- `data_write`. -/
def dataWrite (r : WriteResult) (c : TcpClient) : TcpClient × List TcpEffect :=
  let c := {c with dataWritePending := false}
  match c.dataWriteQ with
  | [] => (c, [])
  | q :: rest =>
    match r with
    | .again => ({c with dataWritePending := true}, [])
    | .failed => (c, [])
    | .wrote count =>
      let len := min count (q.len - q.offset).toNat
      let bytes := (q.buf.drop q.offset.toNat).take len
      if q.offset + len < q.len then
        ({c with dataWriteQ := {q with offset := q.offset + len} :: rest, dataWritePending := true},
          [.wrote bytes])
      else
        ({c with dataWriteQ := rest},
          [.wrote bytes, .postToDisk {ctrlFd := c.ctrlSocket, action := .writeDone}])

end TcpClient
end HyperTransfer
