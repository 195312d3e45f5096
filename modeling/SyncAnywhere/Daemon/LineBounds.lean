import SyncAnywhere.Daemon.FileSender
import SyncAnywhere.Daemon.PeerManage
import SyncAnywhere.Daemon.TcpServer
import SyncAnywhere.Daemon.UdpServer

/-!
# Where received strings are stripped

Four functions store a NUL at the received count and strip one line feed and one
carriage return, each in an array of its own size.  An empty string, a lone line
feed and a string that fills the array leave the array.
-/

namespace SyncAnywhere.LineBounds

open SyncAnywhere.CMemory
open SyncAnywhere.ReceivedLine
open SyncAnywhere.FilePaths
open SyncAnywhere.DaemonSettings
open SyncAnywhere.PeerManage
open SyncAnywhere.FileSender
open SyncAnywhere.TaskQueue
open SyncAnywhere.UdpServer

/-! ## The four places -/

theorem peerManange_defined_iff {calls : ManageCalls} {got : List Byte}
    (hgot : calls.got = some got) (settings : Settings) {manager : Manager}
    {udpPort tcpPort : ℕ} (hpc : manager.pc = .recv udpPort tcpPort) :
    (∃ next, peerManange calls settings manager = .ok next) ↔
      got.length < 100 ∧ Strippable got := by
  have hlength := calls.got_length got hgot
  rw [← receiveLine_defined_iff manager.requestCode hlength (by decide)]
  obtain ⟨accepted, received, hreceived⟩ := calls
  cases hgot
  rw [peerManange, hpc]
  simp only [CResult.bind_eq_ok_iff, CResult.pure_eq_ok, CResult.ok.injEq]
  constructor
  · rintro ⟨next, line, hline, -⟩
    exact ⟨line, hline⟩
  · rintro ⟨line, hline⟩
    exact ⟨_, line, hline, rfl⟩

/-- The first part of `TcpServer.serveConnection`. -/
def tcpReceiveName (filename : TcpServer.NameBuffer)
    (connection : TcpServer.Connection) : CResult TcpServer.NameBuffer :=
  match hrecv : connection.firstRecv with
  | none => .exited
  | some got =>
      receiveLine filename got (connection.firstRecv_length got hrecv)

theorem serveConnection_eq_bind (home : SyncHome)
    (filename : TcpServer.NameBuffer) (connection : TcpServer.Connection) :
    TcpServer.serveConnection home filename connection =
      tcpReceiveName filename connection >>= fun filename =>
        sprintfFilepath home 250 filename.text >>= fun filepath =>
          if connection.opened then
            .ok ⟨filename, filepath, TcpServer.okReply,
              ByteStream.joined connection.reads,
              TcpServer.receiveLoop (List.replicate 1000 0#8)
                connection.reads⟩
          else .undefined := by
  obtain ⟨firstRecv, opened, reads, hlength⟩ := connection
  cases firstRecv <;> rfl

theorem tcpReceiveName_defined_iff (filename : TcpServer.NameBuffer)
    {connection : TcpServer.Connection} {got : List Byte}
    (hgot : connection.firstRecv = some got) :
    (∃ line, tcpReceiveName filename connection = .ok line) ↔
      got.length < 25 ∧ Strippable got := by
  have hlength := connection.firstRecv_length got hgot
  rw [← receiveLine_defined_iff filename hlength (by decide)]
  obtain ⟨firstRecv, opened, reads, hfirst⟩ := connection
  cases hgot
  rfl

/-- The second step of a transfer: the reply is received over the name that was
printed into `buf[1000]`. -/
def receiveReply (filename : FileName) (reply : List Byte) :
    CResult (List Byte) := do
  let buf ← sprintf (List.replicate 1000 0#8) filename.bytes
  terminateAndStrip (overlay reply buf) reply.length

theorem receiveReply_defined_iff (filename : FileName) {reply : List Byte}
    (hlength : reply.length ≤ 1000) :
    (∃ line, receiveReply filename reply = .ok line) ↔
      reply.length < 1000 ∧ Strippable reply := by
  have hname := filename.length_lt
  have hbuf : (overlay (filename.bytes ++ [0#8])
      (List.replicate 1000 0#8)).length = 1000 := by
    rw [length_overlay, List.length_replicate]
    simp only [List.length_append, List.length_singleton,
      List.length_replicate]
    omega
  have hstrip := terminateAndStrip_defined_iff (hlength.trans_eq hbuf.symm)
    (by omega)
  rw [hbuf] at hstrip
  rw [receiveReply, sprintf, if_pos (by simp only [List.length_replicate]; omega),
    CResult.ok_bind]
  exact hstrip

/-- A transfer of either sender begins with this step once the name is
written. -/
theorem sendFileToRemotePeer_eq_bind {filename : FileName} {file : List Byte}
    (period : BitVec 32) (home : SyncHome) (destIp : List Byte)
    (port : BitVec 32) {calls : SendCalls filename file} (repos : SyncRepos)
    (hnamed : calls.nameSignalled = false) {reply : List Byte}
    (hreply : calls.reply = some reply) :
    sendFileToRemotePeer period home destIp port calls repos =
      receiveReply filename reply >>= fun _ =>
        sprintfFilepath home 200 filename.bytes >>= fun _ =>
          .ok (transferred period destIp port calls repos) := by
  have hname := filename.length_lt
  have hbuf : sprintf (List.replicate 1000 0#8) filename.bytes =
      .ok (overlay (filename.bytes ++ [0#8]) (List.replicate 1000 0#8)) := by
    rw [sprintf, if_pos (by simp only [List.length_replicate]; omega)]
  rw [sendFileToRemotePeer, receiveReply, hbuf, CResult.ok_bind,
    CResult.ok_bind, cstr_printed filename.nulFree, hreply, hnamed,
    transferred, loopEnd, loopStart, hnamed]
  rfl

/-! ## All four -/

/-- Each of the four arrays is left exactly by a string that fills it, an empty
string or a lone line feed. -/
theorem receivedStrings_inBounds_iff (got : List Byte) :
    (∀ (calls : ManageCalls) (settings : Settings) (manager : Manager)
        (udpPort tcpPort : ℕ), calls.got = some got →
        manager.pc = .recv udpPort tcpPort →
        ((∃ next, peerManange calls settings manager = .ok next) ↔
          got.length < 100 ∧ Strippable got)) ∧
      (∀ (filename : TcpServer.NameBuffer)
        (connection : TcpServer.Connection), connection.firstRecv = some got →
        ((∃ line, tcpReceiveName filename connection = .ok line) ↔
          got.length < 25 ∧ Strippable got)) ∧
      (∀ (home : SyncHome) (filename : UdpServer.NameBuffer)
        (request : Request), request.firstRecv = some got →
        ((∃ line, receiveName home filename request = .ok line) ↔
          got.length < 25 ∧ Strippable got)) ∧
      ∀ filename : FileName, got.length ≤ 1000 →
        ((∃ line, receiveReply filename got = .ok line) ↔
          got.length < 1000 ∧ Strippable got) := by
  refine ⟨?_, ?_, ?_, ?_⟩
  · intro calls settings manager udpPort tcpPort hgot hpc
    exact peerManange_defined_iff hgot settings hpc
  · intro filename connection hgot
    exact tcpReceiveName_defined_iff filename hgot
  · intro home filename request hgot
    exact receiveName_defined_iff home filename
      (request.firstRecv_length got hgot) hgot
  · intro filename hlength
    exact receiveReply_defined_iff filename hlength

/-- One letter arrives in each of the four places. -/
theorem receivedStrings_inBounds_short :
    (∃ next, peerManange
        ⟨true, some [0x61#8], fun _ hbytes =>
          Option.some_inj.mp hbytes ▸ Nat.le_add_left 1 99⟩
        daemonSettings ⟨.recv 30000 20000, CharArray.zero 100⟩ = .ok next) ∧
      (∃ line, tcpReceiveName (CharArray.zero 25)
        ⟨some [0x61#8], true, [], (letterRequest 0x61#8).request.firstRecv_length⟩ =
          .ok line) ∧
      (∃ line, receiveName sampleHome (CharArray.zero 25)
        (letterRequest 0x61#8).request = .ok line) ∧
      ∃ line, receiveReply sampleName.toFileName [0x61#8] = .ok line := by
  obtain ⟨hmanager, htcp, hudp, hreply⟩ :=
    receivedStrings_inBounds_iff [0x61#8]
  exact ⟨(hmanager _ _ _ 30000 20000 rfl rfl).mpr (by decide),
    (htcp _ _ rfl).mpr (by decide),
    (hudp _ _ _ rfl).mpr (by decide),
    (hreply _ (by decide)).mpr (by decide)⟩

/-- A peer that closes the connection without a request leaves an empty string,
and the index in front of it is outside of `request_code`. -/
theorem emptyRequest_outOfBounds :
    ¬ ∃ next, peerManange
      ⟨true, some [], fun _ hbytes => Option.some_inj.mp hbytes ▸ Nat.zero_le 100⟩
      daemonSettings ⟨.recv 30000 20000, CharArray.zero 100⟩ = .ok next := by
  rw [peerManange_defined_iff rfl daemonSettings rfl]
  decide

end SyncAnywhere.LineBounds
