import SyncAnywhere.Ipc.FileSize
import SyncAnywhere.Ipc.Messages
import SyncAnywhere.Daemon.Settings
import SyncAnywhere.Daemon.TaskQueue

/-!
# The daemon's message loop

`sync_listen` receives every datagram into one buffer that it never clears and
dispatches on the first byte.  One call of `syncListen` is one turn of that
loop.
-/

namespace SyncAnywhere.SyncListener

open SyncAnywhere.CMemory
open SyncAnywhere.FileSize
open SyncAnywhere.Messages
open SyncAnywhere.DaemonSettings
open SyncAnywhere.TaskQueue

/-- What a turn finds in its environment: the heap bytes behind the allocated
copy of the path, the files on disk, the outcomes of `get_file_size` and the
addresses of this machine. -/
structure ListenCalls where
  heap : List Byte
  files : List Byte → List Byte
  sizeCalls : SizeCalls
  interfaces : List (List Byte)

structure Daemon where
  buf : MsgBuffer
  settings : Settings
  repos : SyncRepos

/-- `case 1`: the copied path is not terminated, so the string functions read on
into the heap. -/
def addNewFile (calls : ListenCalls) (buf : MsgBuffer) (repos : SyncRepos) :
    CResult SyncRepos := do
  let copied ← getFilePathFromMsgBuf buf
  let filepathTmp := cstr (copied ++ calls.heap)
  let fileName := basename filepathTmp
  let fSizeTmp := getFileSize calls.sizeCalls (calls.files filepathTmp)
  pure (addItem2SyncRepos (isLocalIp calls.interfaces) fileName filepathTmp
    fSizeTmp repos)

/-- `case 2`: the port is rebuilt from its two bytes, and any protocol byte
other than TCP selects UDP. -/
def notifyProtocol (buf : MsgBuffer) (settings : Settings) : Settings :=
  let port := 256 * (buf.byteAt 3).toNat + (buf.byteAt 4).toNat
  if buf.byteAt 2 = transProtocolTcp then
    setTransferMode .tcp (setTcpPort port settings)
  else
    setTransferMode .udp (setUdpPort port settings)

/-- One turn of the loop; `none` stands for a failed `recvfrom`. -/
def syncListen (calls : ListenCalls) (daemon : Daemon)
    (datagram : Option (List Byte)) : CResult Daemon :=
  match datagram with
  | none => .exited
  | some bytes => do
      let buf ← receiveDatagram daemon.buf bytes
      let reqType : BitVec 32 := (buf.byteAt 0).signExtend 32
      if reqType = 1#32 then
        let repos ← addNewFile calls buf daemon.repos
        pure { daemon with buf := buf, repos := repos }
      else if reqType = 2#32 then
        pure { daemon with
          buf := buf
          settings := notifyProtocol buf daemon.settings }
      else
        pure { daemon with buf := buf }

theorem syncListen_addNewFile {calls : ListenCalls} {daemon : Daemon}
    {bytes : List Byte} {buf : MsgBuffer} {repos : SyncRepos}
    (hreceived : receiveDatagram daemon.buf bytes = .ok buf)
    (htype : buf.byteAt 0 = syawMsgAddSyncFile)
    (hadded : addNewFile calls buf daemon.repos = .ok repos) :
    syncListen calls daemon (some bytes) =
      .ok { daemon with buf := buf, repos := repos } := by
  simp only [syncListen, hreceived, CResult.ok_bind, htype, hadded]
  rfl

theorem syncListen_notifyProtocol {calls : ListenCalls} {daemon : Daemon}
    {bytes : List Byte} {buf : MsgBuffer}
    (hreceived : receiveDatagram daemon.buf bytes = .ok buf)
    (htype : buf.byteAt 0 = syawMsgNotifyProtocol) :
    syncListen calls daemon (some bytes) =
      .ok { daemon with
        buf := buf
        settings := notifyProtocol buf daemon.settings } := by
  simp only [syncListen, hreceived, CResult.ok_bind, htype]
  rfl

end SyncAnywhere.SyncListener
