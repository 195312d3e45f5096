import SyncAnywhere.Ipc.Messages
import SyncAnywhere.Daemon.Settings

/-!
# What the GUI sends to the daemon

A GUI action ends in one datagram.  Its bytes are determined by the action and
by the heap bytes that happen to follow the allocated message.
-/

namespace SyncAnywhere.IpcAgent

open SyncAnywhere.CMemory
open SyncAnywhere.Numeral
open SyncAnywhere.Messages
open SyncAnywhere.DaemonSettings

def protocolByte : SyncMode → Byte
  | .tcp => transProtocolTcp
  | .udp => transProtocolUdp

/-- The datagram of `add_file_to_sync_repos`, which always claims a length of
20000. -/
def addFileToSyncRepos (filepath heap : List Byte) : List Byte :=
  sentBytes (setAddSyncFileMsg filepath 20000#32) heap

def changeTcpUdpPort (mode : SyncMode) (port heap : List Byte) : List Byte :=
  sentBytes (setSetTransModeMsg (protocolByte mode) port) heap

inductive GuiAction where
  | addFile (path heap : List Byte)
  | selectMode (mode : SyncMode) (port : ℕ) (heap : List Byte)

namespace GuiAction

def datagram : GuiAction → List Byte
  | addFile path heap => addFileToSyncRepos path heap
  | selectMode mode port heap =>
      changeTcpUdpPort mode (digitText 10 port) heap

/-- The actions a user can take, with heap bytes that keep the datagram below
300 bytes. -/
def Valid : GuiAction → Prop
  | addFile path heap =>
      NulFree path ∧ 1 ≤ path.length ∧ path.length ≤ 117 ∧
        (addFileToSyncRepos path heap).length < 300
  | selectMode mode port heap =>
      1 ≤ port ∧ port ≤ 65535 ∧
        (changeTcpUdpPort mode (digitText 10 port) heap).length < 300

instance (action : GuiAction) : Decidable action.Valid := by
  cases action <;> unfold Valid <;> infer_instance

/-- The settings the user asked for. -/
def choose (settings : Settings) : GuiAction → Settings
  | addFile _ _ => settings
  | selectMode .tcp port _ => setTransferMode .tcp (setTcpPort port settings)
  | selectMode .udp port _ => setTransferMode .udp (setUdpPort port settings)

def selects (mode : SyncMode) : GuiAction → Bool
  | addFile _ _ => false
  | selectMode other _ _ => other = mode

end GuiAction

/-! ## The datagram of a mode message -/

/-- The bytes of a mode message behind the port. -/
def modeMsgRest : List Byte :=
  (hexField 2000#32).drop 3 ++ modeMsgFilepath

theorem setSetTransModeMsg_eq (mode : Byte) (port : ℕ) (hport : port ≤ 65535) :
    setSetTransModeMsg mode (digitText 10 port) =
      [syawMsgNotifyProtocol, 26#8, mode, BitVec.ofNat 8 (port / 256),
        BitVec.ofNat 8 port] ++ modeMsgRest := by
  have hpath : cstr modeMsgFilepath = modeMsgFilepath :=
    cstr_of_nulFree (by decide)
  have hlength : BitVec.ofNat 8 (10 + strlen modeMsgFilepath) = 26#8 := by
    decide
  rw [setSetTransModeMsg, atoi_digitText (by omega), BitVec.ofInt_natCast,
    hpath]
  simp only [hlength, highByte_ofNat hport, lowByte_ofNat]
  rfl

/-- The datagram ends at the first zero byte: behind the mode for a port below
256, behind the high byte for a multiple of 256. -/
theorem changeTcpUdpPort_eq (mode : SyncMode) {port : ℕ}
    (hport : port ≤ 65535) (heap : List Byte) :
    changeTcpUdpPort mode (digitText 10 port) heap =
      [syawMsgNotifyProtocol, 26#8, protocolByte mode] ++
        cstr (BitVec.ofNat 8 (port / 256) :: BitVec.ofNat 8 port ::
          (modeMsgRest ++ heap)) := by
  have hhead : NulFree [syawMsgNotifyProtocol, 26#8, protocolByte mode] := by
    cases mode <;> decide
  rw [changeTcpUdpPort, setSetTransModeMsg_eq _ port hport, sentBytes,
    ← cstr_append hhead]
  rfl

section Received

variable {buffer received : MsgBuffer} {mode : SyncMode} {port : ℕ}
variable {heap : List Byte}

/-- What a mode message leaves in the buffer.  For a port below 256 the low
byte of the port is not sent, and byte 4 stays as it was. -/
theorem received_selectMode (hport : port ≤ 65535)
    (hshort : (changeTcpUdpPort mode (digitText 10 port) heap).length < 300)
    (hreceived : receiveDatagram buffer
      (changeTcpUdpPort mode (digitText 10 port) heap) = .ok received) :
    received.byteAt 0 = syawMsgNotifyProtocol ∧
      received.byteAt 2 = protocolByte mode ∧
      received.byteAt 3 = BitVec.ofNat 8 (port / 256) ∧
      received.byteAt 4 =
        if 256 ≤ port then BitVec.ofNat 8 port else buffer.byteAt 4 := by
  have hbyte := byteAt_of_receiveDatagram hshort hreceived
  rw [changeTcpUdpPort_eq mode hport] at hbyte
  by_cases hhigh : 256 ≤ port
  · have hhighByte := highByte_ne_zero hhigh hport
    rw [cstr_cons hhighByte] at hbyte
    refine ⟨by simp [hbyte], by simp [hbyte], by simp [hbyte], ?_⟩
    rw [if_pos hhigh, hbyte]
    by_cases hlow : BitVec.ofNat 8 port = 0#8
    · simp [hlow]
    · simp [cstr_cons hlow]
  · have hzero : port / 256 = 0 := Nat.div_eq_of_lt (not_le.mp hhigh)
    rw [hzero, cstr_zero_cons] at hbyte
    rw [if_neg hhigh, hzero]
    refine ⟨by simp [hbyte], by simp [hbyte], by simp [hbyte], ?_⟩
    rw [hbyte]
    rfl

/-- Behind an add-file message byte 4 is a blank of the printed length. -/
theorem received_addFile {path : List Byte} (hfree : NulFree path)
    (hmax : path.length ≤ 199)
    (hshort : (addFileToSyncRepos path heap).length < 300)
    (hreceived : receiveDatagram buffer (addFileToSyncRepos path heap) =
      .ok received) :
    received.byteAt 0 = syawMsgAddSyncFile ∧ received.byteAt 4 = 0x20#8 := by
  obtain ⟨rest, hbytes⟩ := bytes_received_addFile hfree hmax hshort hreceived
  have hfield : hexField 20000#32 =
      [0x20#8, 0x20#8, 0x20#8, 0x20#8, 0x34#8, 0x65#8, 0x32#8, 0x30#8] := by
    decide
  rw [CharArray.byteAt, CharArray.byteAt, hbytes, hfield]
  exact ⟨rfl, rfl⟩

end Received

end SyncAnywhere.IpcAgent
