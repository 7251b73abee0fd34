import HyperTransfer.Disk.Closing
import HyperTransfer.Disk.Directions
import HyperTransfer.Disk.Failing
import HyperTransfer.Disk.Finished
import HyperTransfer.Disk.Offsets
import HyperTransfer.Disk.Rows
import HyperTransfer.Lib.Lexical
import HyperTransfer.Server.ConfigFile
import HyperTransfer.Server.Fetching
import HyperTransfer.Server.Integrity
import HyperTransfer.Server.Loading
import HyperTransfer.Server.Overtaking
import HyperTransfer.Server.Pools
import HyperTransfer.Server.Reading
import HyperTransfer.Server.Saving
import HyperTransfer.Server.Settings
import HyperTransfer.Server.Sight
import HyperTransfer.Server.Timing
import HyperTransfer.Server.Wakeups
import HyperTransfer.Session.Access
import HyperTransfer.Session.Announcing
import HyperTransfer.Session.Buffer
import HyperTransfer.Session.Confinement
import HyperTransfer.Session.Framing
import HyperTransfer.Session.Handover
import HyperTransfer.Session.Login
import HyperTransfer.Session.Manager
import HyperTransfer.Session.Passive
import HyperTransfer.Session.Returning
import HyperTransfer.Session.Transfers
import HyperTransfer.Tcp.Batching
import HyperTransfer.Tcp.Download
import HyperTransfer.Tcp.Errno
import HyperTransfer.Tcp.Notify
import HyperTransfer.Tcp.Replies
import HyperTransfer.Tcp.Sending
import HyperTransfer.Tcp.Sockets
import HyperTransfer.Util.Content
