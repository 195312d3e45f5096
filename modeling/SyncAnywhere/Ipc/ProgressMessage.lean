import SyncAnywhere.Ipc.Messages

/-!
# The progress message

`set_progress_notify_info` lays a report out at fixed offsets, with the two raw
bytes of the port in front.  A port with a zero byte ends the datagram there,
and nothing behind it is sent.
-/

namespace SyncAnywhere.ProgressMessage

open SyncAnywhere.CMemory
open SyncAnywhere.Numeral
open SyncAnywhere.Messages

def guiMsgProgressNotify : Byte := 1#8

/-- `pad` is the low byte of the address of the literal `" "`, which the source
stores in the sixteen bytes of the address before it copies the address.  Every
other byte of the block is overwritten. -/
def setProgressNotifyInfo (pad : Byte) (byteSend fileSize : BitVec 32)
    (filename : List Byte) (port : BitVec 32) (destIp : List Byte) :
    List Byte :=
  let msgLen := 36 + strlen filename
  [guiMsgProgressNotify, BitVec.ofNat 8 msgLen,
      (port.sshiftRight 8).setWidth 8, port.setWidth 8] ++
    (cstr destIp ++ List.replicate 16 pad).take 16 ++ hexField byteSend ++
    hexField fileSize ++ cstr filename

/-- The message behind the port. -/
def progressRest (pad : Byte) (byteSend fileSize : BitVec 32)
    (filename destIp : List Byte) : List Byte :=
  (destIp ++ List.replicate 16 pad).take 16 ++ hexField byteSend ++
    hexField fileSize ++ filename

/-- Neither byte of the port is zero. -/
def SentWhole (port : BitVec 32) : Prop :=
  256 ≤ port.toNat ∧ port.toNat % 256 ≠ 0

instance (port : BitVec 32) : Decidable (SentWhole port) :=
  inferInstanceAs (Decidable (_ ∧ _))

section Message

variable {pad : Byte} {byteSend fileSize port : BitVec 32}
variable {filename destIp heap : List Byte}

theorem setProgressNotifyInfo_eq (hname : NulFree filename)
    (hip : NulFree destIp) (hport : port.toNat ≤ 65535) :
    setProgressNotifyInfo pad byteSend fileSize filename port destIp =
      [guiMsgProgressNotify, BitVec.ofNat 8 (36 + filename.length)] ++
        BitVec.ofNat 8 (port.toNat / 256) :: BitVec.ofNat 8 port.toNat ::
          progressRest pad byteSend fileSize filename destIp := by
  have hhigh := highByte_ofNat hport
  have hlow := lowByte_ofNat port.toNat
  rw [BitVec.ofNat_toNat, BitVec.setWidth_eq] at hhigh hlow
  rw [setProgressNotifyInfo, strlen, cstr_of_nulFree hname,
    cstr_of_nulFree hip, hhigh, hlow]
  simp only [progressRest, List.append_assoc]
  rfl

theorem nulFree_progressRest (hpad : pad ≠ 0#8) (hname : NulFree filename)
    (hip : NulFree destIp) :
    NulFree (progressRest pad byteSend fileSize filename destIp) := by
  have hblank : NulFree (List.replicate 16 pad) := by
    intro byte hbyte
    rw [List.eq_of_mem_replicate hbyte]
    exact hpad
  have haddress : NulFree ((destIp ++ List.replicate 16 pad).take 16) :=
    fun byte hbyte => hip.append hblank byte (List.mem_of_mem_take hbyte)
  exact ((haddress.append (nulFree_hexField byteSend)).append
    (nulFree_hexField fileSize)).append hname

theorem length_addressField (destIp : List Byte) (pad : Byte) :
    ((destIp ++ List.replicate 16 pad).take 16).length = 16 := by
  rw [List.length_take, List.length_append, List.length_replicate]
  omega

/-- The two numbers and the name stand at fixed places behind the port. -/
theorem progressRest_fields (tail : List Byte) :
    ((progressRest pad byteSend fileSize filename destIp ++ tail).drop
        16).take 8 = hexField byteSend ∧
      ((progressRest pad byteSend fileSize filename destIp ++ tail).drop
        24).take 8 = hexField fileSize ∧
      (progressRest pad byteSend fileSize filename destIp ++ tail).drop 32 =
        filename ++ tail := by
  have haddress := length_addressField destIp pad
  have hsent := length_hexField byteSend
  have hsize := length_hexField fileSize
  rw [progressRest]
  refine ⟨?_, ?_, ?_⟩
  · rw [List.append_assoc, List.append_assoc, List.append_assoc,
      List.drop_left' haddress, List.take_left' hsent]
  · rw [List.append_assoc, List.append_assoc,
      List.drop_left' (by rw [List.length_append, haddress, hsent]),
      List.take_left' hsize]
  · rw [List.append_assoc]
    exact List.drop_left' (by
      rw [List.length_append, List.length_append, haddress, hsent, hsize])

end Message

/-! ## Received messages -/

section Received

variable {pad : Byte} {byteSend fileSize port : BitVec 32}
variable {filename destIp heap : List Byte} {buffer received : MsgBuffer}

theorem lowByte_eq_zero_iff (port : ℕ) :
    BitVec.ofNat 8 port = 0#8 ↔ port % 256 = 0 := by
  rw [← BitVec.toNat_inj, BitVec.toNat_ofNat, BitVec.toNat_ofNat]

/-- The datagram ends at the first zero byte of the port. -/
theorem sentBytes_progress (hpad : pad ≠ 0#8) (hname : NulFree filename)
    (hmax : filename.length ≤ 31) (hip : NulFree destIp)
    (hport : port.toNat ≤ 65535) (heap : List Byte) :
    sentBytes (setProgressNotifyInfo pad byteSend fileSize filename port
        destIp) heap =
      [guiMsgProgressNotify, BitVec.ofNat 8 (36 + filename.length)] ++
        if port.toNat < 256 then []
        else BitVec.ofNat 8 (port.toNat / 256) ::
          if port.toNat % 256 = 0 then []
          else BitVec.ofNat 8 port.toNat ::
            (progressRest pad byteSend fileSize filename destIp ++
              cstr heap) := by
  have hlength : BitVec.ofNat 8 (36 + filename.length) ≠ 0#8 := by
    rw [Ne, lowByte_eq_zero_iff]
    omega
  have hhead : NulFree
      [guiMsgProgressNotify, BitVec.ofNat 8 (36 + filename.length)] := by
    intro byte hbyte
    rcases List.mem_pair.mp hbyte with rfl | rfl
    · decide
    · exact hlength
  rw [sentBytes, setProgressNotifyInfo_eq hname hip hport, List.append_assoc,
    cstr_append hhead]
  congr 1
  by_cases hsmall : port.toNat < 256
  · rw [if_pos hsmall, Nat.div_eq_of_lt hsmall]
    exact cstr_zero_cons _
  · rw [if_neg hsmall, List.cons_append,
      cstr_cons (highByte_ne_zero (not_lt.mp hsmall) hport)]
    congr 1
    by_cases hlow : port.toNat % 256 = 0
    · rw [if_pos hlow, (lowByte_eq_zero_iff _).mpr hlow]
      exact cstr_zero_cons _
    · rw [if_neg hlow, List.cons_append,
        cstr_cons (mt (lowByte_eq_zero_iff _).mp hlow),
        cstr_append (nulFree_progressRest hpad hname hip)]

/-- What a report leaves in the buffer.  Of a message whose port has a zero
byte only the front is sent, and the buffer keeps its bytes from index 4 on, and
byte 3 as well when the high byte of the port is zero. -/
theorem bytes_received_progress (hpad : pad ≠ 0#8) (hname : NulFree filename)
    (hmax : filename.length ≤ 31) (hip : NulFree destIp)
    (hport : port.toNat ≤ 65535)
    (hshort : (sentBytes (setProgressNotifyInfo pad byteSend fileSize filename
      port destIp) heap).length < 300)
    (hreceived : receiveDatagram buffer (sentBytes (setProgressNotifyInfo pad
      byteSend fileSize filename port destIp) heap) = .ok received) :
    ∃ tail, received.bytes =
      [guiMsgProgressNotify, BitVec.ofNat 8 (36 + filename.length),
        BitVec.ofNat 8 (port.toNat / 256),
        if port.toNat < 256 then buffer.byteAt 3
        else BitVec.ofNat 8 port.toNat] ++
      if SentWhole port then
        progressRest pad byteSend fileSize filename destIp ++
          (cstr heap ++ 0#8 :: tail)
      else buffer.bytes.drop 4 := by
  have hbytes := bytes_of_receiveDatagram hshort hreceived
  have hsent : sentBytes (setProgressNotifyInfo pad byteSend fileSize filename
      port destIp) heap = _ := sentBytes_progress hpad hname hmax hip hport heap
  by_cases hwhole : SentWhole port
  · have hlarge : ¬ port.toNat < 256 := not_lt.mpr hwhole.1
    generalize buffer.bytes.drop _ = behind at hbytes
    rw [hsent, if_neg hlarge, if_neg hwhole.2] at hbytes
    refine ⟨behind, ?_⟩
    rw [hbytes, if_pos hwhole, if_neg hlarge]
    simp only [List.cons_append, List.nil_append, List.append_assoc]
  · refine ⟨[], ?_⟩
    rw [hbytes, hsent, if_neg hwhole]
    by_cases hsmall : port.toNat < 256
    · have hfits : 3 < buffer.bytes.length := by
        rw [buffer.length_bytes]
        decide
      have hthird : buffer.bytes.drop 3 =
          buffer.byteAt 3 :: buffer.bytes.drop 4 := by
        rw [List.drop_eq_getElem_cons hfits, CharArray.byteAt,
          List.getD_eq_getElem _ _ hfits]
      rw [if_pos hsmall, if_pos hsmall, Nat.div_eq_of_lt hsmall]
      exact congrArg (_ :: _ :: _ :: ·) hthird
    · have hlow : port.toNat % 256 = 0 := by
        by_contra hne
        exact hwhole ⟨not_lt.mp hsmall, hne⟩
      rw [if_neg hsmall, if_neg hsmall, if_pos hlow,
        (lowByte_eq_zero_iff _).mpr hlow]
      rfl

end Received

end SyncAnywhere.ProgressMessage
