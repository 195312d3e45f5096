import SyncAnywhere.Core.Strtol
import SyncAnywhere.Ipc.ProgressMessage

/-!
# The GUI's message loop

`gui_listener_thread` receives every datagram into one buffer that it never
clears, and passes what it reads in a progress message to `set_progress_bar`.
One call of `guiListen` is one turn of that loop.
-/

namespace SyncAnywhere.GuiListener

open SyncAnywhere.CMemory
open SyncAnywhere.Numeral
open SyncAnywhere.Strtol
open SyncAnywhere.Messages
open SyncAnywhere.ProgressMessage

/-- Bytes 8 to 19 of the local arrays `byte_sent_hex` and `file_len_hex`.  The
loop that clears the arrays stands in front of the first `case` label, so the
`switch` jumps over it. -/
structure HexLeftovers where
  byteSentHex : CharArray 12
  fileLenHex : CharArray 12

/-- The arguments of `set_progress_bar`. -/
structure ProgressArgs where
  bytesSent : ℤ
  fileName : List Byte
  fileLength : ℤ
  port : ℕ
  deriving DecidableEq

/-- `case 1`.  The length byte is a signed `char`; `file_name` has 50 bytes, so
a name of 50 bytes or a length below 36 puts the NUL outside of it. -/
def notifyProgress (leftovers : HexLeftovers) (buf : MsgBuffer) :
    CResult ProgressArgs := do
  let portNum := 256 * (buf.byteAt 2).toNat + (buf.byteAt 3).toNat
  let msgLen := ((buf.byteAt 1).signExtend 32).toInt
  if 36 ≤ msgLen ∧ msgLen < 86 then
    let fileName := cstr ((buf.bytes.drop 36).take (msgLen - 36).toNat)
    let bytesSent ← strtolInt
      ((buf.bytes.drop 20).take 8 ++ leftovers.byteSentHex.bytes)
    let fileLen ← strtolInt
      ((buf.bytes.drop 28).take 8 ++ leftovers.fileLenHex.bytes)
    pure ⟨bytesSent, fileName, fileLen, portNum⟩
  else .undefined

/-- One turn of the loop; `none` stands for a failed `recvfrom`. -/
def guiListen (leftovers : HexLeftovers) (buf : MsgBuffer)
    (datagram : Option (List Byte)) :
    CResult (MsgBuffer × Option ProgressArgs) :=
  match datagram with
  | none => .exited
  | some bytes => do
      let buf ← receiveDatagram buf bytes
      let reqType : BitVec 32 := (buf.byteAt 0).signExtend 32
      if reqType = 1#32 then
        let args ← notifyProgress leftovers buf
        pure (buf, some args)
      else pure (buf, none)

section Turn

variable {leftovers : HexLeftovers} {buf received : MsgBuffer}
variable {bytes : List Byte}

theorem guiListen_notifyProgress
    (hreceived : receiveDatagram buf bytes = .ok received)
    (htype : received.byteAt 0 = guiMsgProgressNotify) :
    guiListen leftovers buf (some bytes) =
      notifyProgress leftovers received >>= fun args =>
        .ok (received, some args) := by
  simp only [guiListen, hreceived, CResult.ok_bind, htype]
  rfl

/-- A decoded message is the name and the two numbers that stand in the
buffer, and the port of bytes 2 and 3. -/
theorem notifyProgress_eq_ok_iff {length : ℕ} (hlength : length < 50)
    (hbyte : buf.byteAt 1 = BitVec.ofNat 8 (36 + length))
    (args : ProgressArgs) :
    notifyProgress leftovers buf = .ok args ↔
      strtolInt ((buf.bytes.drop 20).take 8 ++ leftovers.byteSentHex.bytes) =
          .ok args.bytesSent ∧
        cstr ((buf.bytes.drop 36).take length) = args.fileName ∧
        strtolInt ((buf.bytes.drop 28).take 8 ++ leftovers.fileLenHex.bytes) =
          .ok args.fileLength ∧
        256 * (buf.byteAt 2).toNat + (buf.byteAt 3).toNat = args.port := by
  have hlen : ((buf.byteAt 1).signExtend 32).toInt = 36 + length := by
    rw [hbyte, BitVec.toInt_signExtend_of_le (by decide),
      BitVec.toInt_eq_toNat_of_lt (by rw [BitVec.toNat_ofNat]; omega),
      BitVec.toNat_ofNat]
    omega
  have hcount : ((36 + length : ℤ) - 36).toNat = length := by omega
  rw [notifyProgress]
  simp only [hlen, hcount]
  rw [if_pos (by omega), CResult.bind_eq_ok_iff]
  constructor
  · rintro ⟨bytesSent, hsent, hrest⟩
    rw [CResult.bind_eq_ok_iff] at hrest
    obtain ⟨fileLen, hsize, hargs⟩ := hrest
    rw [← CResult.ok.inj hargs]
    exact ⟨hsent, rfl, hsize, rfl⟩
  · rintro ⟨hsent, hname, hsize, hport⟩
    refine ⟨args.bytesSent, hsent, ?_⟩
    rw [hsize, CResult.ok_bind, hname, hport]
    rfl

end Turn

end SyncAnywhere.GuiListener
