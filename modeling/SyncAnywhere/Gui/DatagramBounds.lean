import SyncAnywhere.Daemon.SyncListener
import SyncAnywhere.Gui.GuiListener

/-!
# Datagrams that are parsed within their arrays

Both listeners store a NUL at the received count, and the first message type of
each copies as many bytes as its length byte says: into a block of the heap for
the daemon, into `file_name[50]` for the GUI.
-/

namespace SyncAnywhere.DatagramBounds

open SyncAnywhere.CMemory
open SyncAnywhere.Strtol
open SyncAnywhere.Messages
open SyncAnywhere.ProgressMessage
open SyncAnywhere.GuiListener
open SyncAnywhere.SyncListener

/-! ## The file name of a progress message -/

/-- A store at an `int` index. -/
def storeAt (buffer : List Byte) (index : ℤ) (byte : Byte) :
    CResult (List Byte) :=
  if 0 ≤ index then store buffer index.toNat byte else .undefined

/-- The loop that copies `buf[i]` to `file_name[i-36]`, from `i` on. -/
def copyName (buf : List Byte) : ℕ → ℕ → List Byte → CResult (List Byte)
  | _, 0, fileName => .ok fileName
  | i, turns + 1, fileName => do
      let byte ← load buf i
      let fileName ← store fileName (i - 36) byte
      copyName buf (i + 1) turns fileName

/-- The copy up to `msg_len` and the NUL behind it. -/
def readFileName (fileName : CharArray 50) (buf : MsgBuffer) :
    CResult (List Byte) := do
  let msgLen := ((buf.byteAt 1).signExtend 32).toInt
  let fileName ← copyName buf.bytes 36 (msgLen - 36).toNat fileName.bytes
  storeAt fileName (msgLen - 36) 0#8

/-- One turn of the GUI's listener up to the end of the copies: the buffer, and
the array `file_name` behind a progress message. -/
def guiDecode (fileName : CharArray 50) (buf : MsgBuffer)
    (datagram : List Byte) : CResult (MsgBuffer × Option (List Byte)) := do
  let buf ← receiveDatagram buf datagram
  let reqType : BitVec 32 := (buf.byteAt 0).signExtend 32
  if reqType = 1#32 then
    let fileName ← readFileName fileName buf
    pure (buf, some fileName)
  else pure (buf, none)

/-- The loop copies within `file_name`, or leaves it. -/
theorem copyName_eq {buf fileName : List Byte} {offset turns : ℕ}
    (hoffset : offset ≤ fileName.length)
    (hbuf : 36 + offset + turns ≤ buf.length) :
    copyName buf (36 + offset) turns fileName =
      if offset + turns ≤ fileName.length then
        .ok (fileName.take offset ++ (buf.drop (36 + offset)).take turns ++
          fileName.drop (offset + turns))
      else .undefined := by
  induction turns generalizing offset fileName with
  | zero => simp [copyName, hoffset]
  | succ turns ih =>
      have hload := load_of_lt (show 36 + offset < buf.length by omega)
      rw [copyName, hload, CResult.ok_bind, Nat.add_sub_cancel_left]
      by_cases hroom : offset < fileName.length
      · have hnext := @ih (fileName.set offset buf[36 + offset]) (offset + 1)
          (by rw [List.length_set]; exact hroom) (by omega)
        have htake : (fileName.set offset buf[36 + offset]).take (offset + 1) =
            fileName.take offset ++ [buf[36 + offset]] := by
          rw [List.take_succ_eq_append_getElem (by simpa using hroom),
            List.take_set_of_le le_rfl, List.getElem_set_self]
        rw [store_of_lt _ hroom, CResult.ok_bind, Nat.add_assoc 36, hnext,
          htake, List.length_set, List.drop_set_of_lt (by omega),
          List.drop_eq_getElem_cons (show 36 + offset < buf.length by omega),
          List.take_succ_cons, Nat.add_right_comm, Nat.add_assoc offset]
        simp only [List.append_assoc, List.singleton_append]
        rfl
      · rw [store_of_le _ (not_lt.mp hroom), if_neg (by omega)]
        rfl

theorem length_byte_lt (byte : Byte) :
    (byte.signExtend 32).toInt < 128 := by
  rw [BitVec.toInt_signExtend_of_le (by decide)]
  exact BitVec.toInt_lt

/-- Spec of the copy: it stays in `file_name` exactly for lengths from 36 to
85. -/
theorem readFileName_eq (fileName : CharArray 50) (buf : MsgBuffer) :
    let msgLen := ((buf.byteAt 1).signExtend 32).toInt
    readFileName fileName buf =
      if 36 ≤ msgLen ∧ msgLen < 86 then
        .ok ((buf.bytes.drop 36).take (msgLen - 36).toNat ++
          0#8 :: fileName.bytes.drop ((msgLen - 36).toNat + 1))
      else .undefined := by
  intro msgLen
  have hmax : msgLen < 128 := length_byte_lt (buf.byteAt 1)
  have hsize := fileName.length_bytes
  have hbuf := buf.length_bytes
  have hcopy := @copyName_eq buf.bytes fileName.bytes 0 (msgLen - 36).toNat
    (Nat.zero_le _) (by omega)
  rw [readFileName, hcopy]
  simp only [List.take_zero, List.nil_append, zero_add, Nat.add_zero]
  by_cases hlow : 36 ≤ msgLen
  · have hcount : 0 ≤ msgLen - 36 := by omega
    have hlength : ((buf.bytes.drop 36).take (msgLen - 36).toNat).length =
        (msgLen - 36).toNat := by
      rw [List.length_take, List.length_drop]
      omega
    by_cases hhigh : msgLen < 86
    · have hroom : (msgLen - 36).toNat < fileName.bytes.length := by omega
      rw [if_pos hroom.le, CResult.ok_bind, storeAt, if_pos hcount,
        store_of_lt _ (by
          rw [List.length_append, hlength, List.length_drop]
          omega), if_pos ⟨hlow, hhigh⟩, List.set_append_right _ _ hlength.le,
        hlength, Nat.sub_self, List.drop_eq_getElem_cons hroom,
        List.set_cons_zero]
    · have hout : ¬ (36 ≤ msgLen ∧ msgLen < 86) := fun hboth => hhigh hboth.2
      rw [if_neg hout]
      by_cases hfull : (msgLen - 36).toNat ≤ fileName.bytes.length
      · rw [if_pos hfull, CResult.ok_bind, storeAt, if_pos hcount]
        apply store_of_le
        rw [List.length_append, hlength, List.length_drop]
        omega
      · rw [if_neg hfull]
        rfl
  · have hnegative : ¬ 0 ≤ msgLen - 36 := by omega
    have hout : ¬ (36 ≤ msgLen ∧ msgLen < 86) := fun hboth => hlow hboth.1
    rw [if_neg hout, if_pos (by omega), CResult.ok_bind, storeAt,
      if_neg hnegative]

/-- The rest of the turn reads the two numbers; the name it passes on is the
string in `file_name`. -/
theorem guiListen_eq_bind (leftovers : HexLeftovers) (fileName : CharArray 50)
    (buf : MsgBuffer) (datagram : List Byte) :
    guiListen leftovers buf (some datagram) =
      guiDecode fileName buf datagram >>= fun decoded =>
        match decoded.2 with
        | none => .ok (decoded.1, none)
        | some name =>
            strtolInt ((decoded.1.bytes.drop 20).take 8 ++
                leftovers.byteSentHex.bytes) >>= fun bytesSent =>
              strtolInt ((decoded.1.bytes.drop 28).take 8 ++
                  leftovers.fileLenHex.bytes) >>= fun fileLen =>
                .ok (decoded.1, some ⟨bytesSent, cstr name, fileLen,
                  256 * (decoded.1.byteAt 2).toNat +
                    (decoded.1.byteAt 3).toNat⟩) := by
  rw [guiListen, guiDecode]
  cases receiveDatagram buf datagram with
  | exited => rfl
  | undefined => rfl
  | ok received =>
      simp only [CResult.ok_bind]
      by_cases htype : (received.byteAt 0).signExtend 32 = 1#32
      · rw [if_pos htype, if_pos htype, readFileName_eq, notifyProgress]
        by_cases hin : 36 ≤ ((received.byteAt 1).signExtend 32).toInt ∧
            ((received.byteAt 1).signExtend 32).toInt < 86
        · simp only [if_pos hin, CResult.ok_bind, CResult.pure_eq_ok,
            cstr_append_zero, bind_assoc]
        · simp only [if_neg hin, CResult.undefined_bind]
      · rw [if_neg htype, if_neg htype]
        rfl

/-! ## One datagram -/

/-- The length byte of the message, 0 when it has none, lies in `low` to
`high`. -/
def LengthByteIn (low high : ℕ) (datagram : List Byte) : Prop :=
  low ≤ (datagram.getD 1 0#8).toNat ∧ (datagram.getD 1 0#8).toNat ≤ high

instance (low high : ℕ) (datagram : List Byte) :
    Decidable (LengthByteIn low high datagram) :=
  inferInstanceAs (Decidable (_ ∧ _))

theorem signExtend_eq_one_iff (byte : Byte) :
    byte.signExtend 32 = 1#32 ↔ byte = 1#8 := by
  have hall : ∀ code : Fin 256,
      (BitVec.ofFin code : Byte).signExtend 32 = 1#32 ↔
        (BitVec.ofFin code : Byte) = 1#8 := by
    decide +kernel
  exact hall byte.toFin

/-- The subtraction of 10 from a length byte below 10, or from a negative one,
gives a count far beyond the buffer. -/
theorem pathCount_le_iff (byte : Byte) :
    10 + (byte.signExtend 32 - 10#32).toNat ≤ 300 ↔
      10 ≤ byte.toNat ∧ byte.toNat ≤ 127 := by
  have hall : ∀ code : Fin 256,
      10 + ((BitVec.ofFin code : Byte).signExtend 32 - 10#32).toNat ≤ 300 ↔
        10 ≤ (BitVec.ofFin code : Byte).toNat ∧
          (BitVec.ofFin code : Byte).toNat ≤ 127 := by
    decide +kernel
  cases byte with
  | ofFin code => exact hall code

theorem nameLength_iff (byte : Byte) :
    36 ≤ (byte.signExtend 32).toInt ∧ (byte.signExtend 32).toInt < 86 ↔
      36 ≤ byte.toNat ∧ byte.toNat ≤ 85 := by
  have hall : ∀ code : Fin 256,
      (36 ≤ ((BitVec.ofFin code : Byte).signExtend 32).toInt ∧
        ((BitVec.ofFin code : Byte).signExtend 32).toInt < 86) ↔
        36 ≤ (BitVec.ofFin code : Byte).toNat ∧
          (BitVec.ofFin code : Byte).toNat ≤ 85 := by
    decide +kernel
  cases byte with
  | ofFin code => exact hall code

/-- The block the daemon copies lies in the buffer. -/
theorem getFilePath_defined_iff (buf : MsgBuffer) :
    (∃ path, getFilePathFromMsgBuf buf = .ok path) ↔
      10 ≤ (buf.byteAt 1).toNat ∧ (buf.byteAt 1).toNat ≤ 127 := by
  rw [← pathCount_le_iff, getFilePathFromMsgBuf]
  split_ifs with hfits
  · exact iff_of_true ⟨_, rfl⟩ hfits
  · apply iff_of_false _ hfits
    rintro ⟨_, hundefined⟩
    contradiction

theorem readFileName_defined_iff (fileName : CharArray 50) (buf : MsgBuffer) :
    (∃ name, readFileName fileName buf = .ok name) ↔
      36 ≤ (buf.byteAt 1).toNat ∧ (buf.byteAt 1).toNat ≤ 85 := by
  rw [← nameLength_iff, readFileName_eq]
  split_ifs with hfits
  · exact iff_of_true ⟨_, rfl⟩ hfits
  · apply iff_of_false _ hfits
    rintro ⟨_, hundefined⟩
    contradiction

section Datagram

variable {buf : MsgBuffer} {datagram : List Byte}

theorem receiveDatagram_defined_iff (buf : MsgBuffer) (datagram : List Byte) :
    (∃ received, receiveDatagram buf datagram = .ok received) ↔
      datagram.length < 300 := by
  constructor
  · rintro ⟨received, hreceived⟩
    by_contra hlong
    have htake : ¬ (datagram.take 300).length < 300 := by
      rw [List.length_take]
      omega
    rw [receiveDatagram] at hreceived
    simp only [dif_neg htake] at hreceived
    contradiction
  · exact exists_receiveDatagram buf

/-- The type and the length byte are those of the datagram, whatever the buffer
held before. -/
theorem header_received {received : MsgBuffer} {kind : Byte}
    (hkind : kind ≠ 0#8) (hshort : datagram.length < 300)
    (hreceived : receiveDatagram buf datagram = .ok received) :
    (received.byteAt 0 = kind ↔ datagram.head? = some kind) ∧
      (received.byteAt 0 = kind → received.byteAt 1 = datagram.getD 1 0#8) := by
  have hbyte := byteAt_of_receiveDatagram hshort hreceived
  rw [hbyte 0, hbyte 1]
  cases datagram with
  | nil => simp [hkind.symm]
  | cons first rest =>
      cases rest with
      | nil => simp
      | cons second rest => simp

/-- A listener that copies only for one message type is defined exactly on the
datagrams that leave room for the NUL and have that type with a good length. -/
theorem received_lengthByte_iff {kind : Byte} (hkind : kind ≠ 0#8)
    (low high : ℕ) :
    (∃ received, receiveDatagram buf datagram = .ok received ∧
        (received.byteAt 0 = kind → low ≤ (received.byteAt 1).toNat ∧
          (received.byteAt 1).toNat ≤ high)) ↔
      datagram.length < 300 ∧
        (datagram.head? = some kind → LengthByteIn low high datagram) := by
  rw [← receiveDatagram_defined_iff buf datagram, ← exists_and_right]
  apply exists_congr
  intro received
  apply and_congr_right
  intro hreceived
  obtain ⟨htype, hlength⟩ := header_received hkind
    ((receiveDatagram_defined_iff buf datagram).mp ⟨received, hreceived⟩)
    hreceived
  rw [← htype]
  apply imp_congr_right
  intro hfirst
  rw [hlength hfirst, LengthByteIn]

theorem syncListen_defined_iff (calls : ListenCalls) (daemon : Daemon) :
    (∃ next, syncListen calls daemon (some datagram) = .ok next) ↔
      ∃ received, receiveDatagram daemon.buf datagram = .ok received ∧
        (received.byteAt 0 = syawMsgAddSyncFile →
          ∃ path, getFilePathFromMsgBuf received = .ok path) := by
  simp only [syncListen, CResult.bind_eq_ok_iff]
  rw [exists_comm]
  apply exists_congr
  intro received
  rw [exists_and_left]
  apply and_congr_right
  intro _
  by_cases htype : received.byteAt 0 = syawMsgAddSyncFile
  · rw [if_pos ((signExtend_eq_one_iff _).mpr htype)]
    simp only [addNewFile, CResult.bind_eq_ok_iff]
    constructor
    · rintro ⟨_, _, ⟨path, hpath, -⟩, -⟩ -
      exact ⟨path, hpath⟩
    · intro hcopied
      obtain ⟨path, hpath⟩ := hcopied htype
      exact ⟨_, _, ⟨path, hpath, rfl⟩, rfl⟩
  · rw [if_neg (mt (signExtend_eq_one_iff _).mp htype)]
    apply iff_of_true _ (fun hfirst => absurd hfirst htype)
    split_ifs
    · exact ⟨_, rfl⟩
    · exact ⟨_, rfl⟩

theorem guiDecode_defined_iff (fileName : CharArray 50) :
    (∃ decoded, guiDecode fileName buf datagram = .ok decoded) ↔
      ∃ received, receiveDatagram buf datagram = .ok received ∧
        (received.byteAt 0 = guiMsgProgressNotify →
          ∃ name, readFileName fileName received = .ok name) := by
  simp only [guiDecode, CResult.bind_eq_ok_iff]
  rw [exists_comm]
  apply exists_congr
  intro received
  rw [exists_and_left]
  apply and_congr_right
  intro _
  by_cases htype : received.byteAt 0 = guiMsgProgressNotify
  · rw [if_pos ((signExtend_eq_one_iff _).mpr htype)]
    simp only [CResult.bind_eq_ok_iff]
    constructor
    · rintro ⟨_, name, hname, -⟩ -
      exact ⟨name, hname⟩
    · intro hcopied
      obtain ⟨name, hname⟩ := hcopied htype
      exact ⟨_, name, hname, rfl⟩
  · rw [if_neg (mt (signExtend_eq_one_iff _).mp htype)]
    exact iff_of_true ⟨_, rfl⟩ (fun hfirst => absurd hfirst htype)

end Datagram

/-- Each listener parses a datagram within its arrays exactly when the datagram
leaves room for its NUL and, if it is of the type that is copied, has a length
byte from 10 to 127, or from 36 to 85. -/
theorem datagram_inBounds_iff (calls : ListenCalls) (daemon : Daemon)
    (fileName : CharArray 50) (buf : MsgBuffer) (datagram : List Byte) :
    ((∃ next, syncListen calls daemon (some datagram) = .ok next) ↔
        datagram.length < 300 ∧
          (datagram.head? = some syawMsgAddSyncFile →
            LengthByteIn 10 127 datagram)) ∧
      ((∃ decoded, guiDecode fileName buf datagram = .ok decoded) ↔
        datagram.length < 300 ∧
          (datagram.head? = some guiMsgProgressNotify →
            LengthByteIn 36 85 datagram)) := by
  constructor
  · simp only [syncListen_defined_iff, getFilePath_defined_iff]
    exact received_lengthByte_iff (by decide) 10 127
  · simp only [guiDecode_defined_iff, readFileName_defined_iff]
    exact received_lengthByte_iff (by decide) 36 85

/-- A datagram of 300 bytes has no room for the NUL. -/
theorem fullDatagram_outOfBounds :
    ¬ ∃ decoded, guiDecode (CharArray.zero 50) (CharArray.zero 300)
      (List.replicate 300 0x61#8) = .ok decoded := by
  rw [guiDecode_defined_iff]
  rintro ⟨received, hreceived, -⟩
  have hshort := (receiveDatagram_defined_iff _ _).mp ⟨received, hreceived⟩
  rw [List.length_replicate] at hshort
  exact lt_irrefl 300 hshort

end SyncAnywhere.DatagramBounds
