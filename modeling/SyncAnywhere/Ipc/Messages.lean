import SyncAnywhere.Core.Numeral

/-!
# Messages between the GUI and the daemon

The messages have a binary layout at fixed offsets, but a sender passes
`strlen` of the message to `sendto`.  A datagram therefore ends at the first
zero byte of the layout, or runs on into the heap bytes behind the allocated
message when the layout has none.
-/

namespace SyncAnywhere.Messages

open SyncAnywhere.CMemory
open SyncAnywhere.Numeral

def syawMsgAddSyncFile : Byte := 1#8

def syawMsgNotifyProtocol : Byte := 2#8

def transProtocolTcp : Byte := 1#8

def transProtocolUdp : Byte := 2#8

/-- The message type, the total length in one byte, eight hexadecimal digits of
the file length and the path.  Nothing terminates it. -/
def setAddSyncFileMsg (filepath : List Byte) (fileLen : BitVec 32) :
    List Byte :=
  let msgLen := 10 + strlen filepath
  [syawMsgAddSyncFile, BitVec.ofNat 8 msgLen] ++ hexField fileLen ++
    cstr filepath

/-- The path that `set_set_trans_mode_msg` copies behind every mode message. -/
def modeMsgFilepath : List Byte :=
  "/home/aniu/zcd.c".toList.map charByte

/-- An add-file layout for a fixed path of length 2000, whose bytes 2 to 4 are
overwritten with the mode and the two bytes of the port. -/
def setSetTransModeMsg (mode : Byte) (port : List Byte) : List Byte :=
  let msgLen := 10 + strlen modeMsgFilepath
  let portNum := BitVec.ofInt 32 (atoi port)
  let res := [syawMsgNotifyProtocol, BitVec.ofNat 8 msgLen] ++
    hexField 2000#32 ++ cstr modeMsgFilepath
  ((res.set 2 mode).set 3 ((portNum.sshiftRight 8).setWidth 8)).set 4
    (portNum.setWidth 8)

/-- `sendto(sock, buf, strlen(buf), ...)` for a message followed by the heap
bytes `heap`. -/
def sentBytes (message heap : List Byte) : List Byte :=
  cstr (message ++ heap)

theorem sentBytes_of_nulFree {message : List Byte} (hfree : NulFree message)
    (heap : List Byte) : sentBytes message heap = message ++ cstr heap :=
  cstr_append hfree heap

/-! ## The two bytes of a port -/

theorem highByte_ofNat {port : ℕ} (hport : port ≤ 65535) :
    ((BitVec.ofNat 32 port).sshiftRight 8).setWidth 8 =
      BitVec.ofNat 8 (port / 256) := by
  have hsign : (BitVec.ofNat 32 port).msb = false := by
    rw [BitVec.msb_eq_decide, BitVec.toNat_ofNat, decide_eq_false_iff_not]
    omega
  rw [BitVec.sshiftRight_eq_of_msb_false hsign]
  apply BitVec.eq_of_toNat_eq
  rw [BitVec.toNat_setWidth, BitVec.toNat_ushiftRight, BitVec.toNat_ofNat,
    BitVec.toNat_ofNat, Nat.shiftRight_eq_div_pow]
  omega

theorem lowByte_ofNat (port : ℕ) :
    (BitVec.ofNat 32 port).setWidth 8 = BitVec.ofNat 8 port := by
  apply BitVec.eq_of_toNat_eq
  rw [BitVec.toNat_setWidth, BitVec.toNat_ofNat, BitVec.toNat_ofNat]
  omega

theorem highByte_ne_zero {port : ℕ} (hhigh : 256 ≤ port)
    (hport : port ≤ 65535) : BitVec.ofNat 8 (port / 256) ≠ 0#8 := by
  intro hzero
  have hvalue := congrArg BitVec.toNat hzero
  simp only [BitVec.toNat_ofNat] at hvalue
  omega

/-! ## The receive buffer -/

/-- `char buf[300]` of a listener. -/
abbrev MsgBuffer := CharArray 300

/-- `recvfrom` into the whole buffer, then `buf[cnt] = '\0'`.  A datagram of
300 bytes or more leaves `cnt` one past the end. -/
def receiveDatagram (buffer : MsgBuffer) (datagram : List Byte) :
    CResult MsgBuffer :=
  let got := datagram.take 300
  if hfits : got.length < 300 then
    .ok
      { bytes := (overlay got buffer.bytes).set got.length 0#8
        length_bytes := by
          rw [List.length_set, length_overlay
            (by rw [buffer.length_bytes]; exact hfits.le), buffer.length_bytes] }
  else .undefined

/-- The path copied out of an add-file message.  The length byte is a signed
`char`, the subtraction is modulo `2^32`, and the copy reads only defined bytes
while it stays inside the buffer. -/
def getFilePathFromMsgBuf (buffer : MsgBuffer) : CResult (List Byte) :=
  let bufLen : BitVec 32 := (buffer.byteAt 1).signExtend 32
  let count := (bufLen - 10#32).toNat
  if 10 + count ≤ 300 then .ok ((buffer.bytes.drop 10).take count)
  else .undefined

/-- `is_local_ip`: compare the address with every interface address. -/
def isLocalIp (interfaces : List (List Byte)) (ip : List Byte) : ℤ :=
  interfaces.foldl (fun res address => if address = ip then 1 else res) 0

/-- The part of a path behind its last slash. -/
def basename (filepath : List Byte) : List Byte :=
  (filepath.reverse.takeWhile (· ≠ 0x2f#8)).reverse

/-! ## The name of a path -/

theorem basename_isSuffix (filepath : List Byte) :
    basename filepath <:+ filepath := by
  rw [← List.reverse_prefix, basename, List.reverse_reverse]
  exact List.takeWhile_prefix _

theorem nulFree_basename {filepath : List Byte} (hfree : NulFree filepath) :
    NulFree (basename filepath) := by
  exact fun byte hbyte => hfree byte ((basename_isSuffix filepath).mem hbyte)

theorem slash_notMem_basename (filepath : List Byte) :
    0x2f#8 ∉ basename filepath := by
  intro hslash
  rw [basename, List.mem_reverse] at hslash
  simpa using List.mem_takeWhile_imp hslash

/-- A path is its name, or ends in a slash and its name. -/
theorem eq_basename_or_split (filepath : List Byte) :
    filepath = basename filepath ∨
      ∃ front, filepath = front ++ 0x2f#8 :: basename filepath := by
  have hsplit : filepath =
      (filepath.reverse.dropWhile (· ≠ 0x2f#8)).reverse ++
        basename filepath := by
    rw [basename, ← List.reverse_append, List.takeWhile_append_dropWhile,
      List.reverse_reverse]
  cases hrest : filepath.reverse.dropWhile (· ≠ 0x2f#8) with
  | nil =>
      rw [hrest, List.reverse_nil, List.nil_append] at hsplit
      exact Or.inl hsplit
  | cons slash front =>
      have hslash : slash = 0x2f#8 := by
        have hhead := List.head?_dropWhile_not (· ≠ 0x2f#8) filepath.reverse
        rw [hrest] at hhead
        simpa using hhead
      rw [hrest, hslash, List.reverse_cons, List.append_assoc,
        List.singleton_append] at hsplit
      exact Or.inr ⟨front.reverse, hsplit⟩

/-! ## Receiving -/

section Receiving

variable {buffer received : MsgBuffer} {datagram : List Byte}

/-- A datagram that fits is received in full and terminated. -/
theorem exists_receiveDatagram (buffer : MsgBuffer)
    (hshort : datagram.length < 300) :
    ∃ received, receiveDatagram buffer datagram = .ok received := by
  have htake : datagram.take 300 = datagram := List.take_of_length_le hshort.le
  rw [receiveDatagram]
  simp only [htake, dif_pos hshort]
  exact ⟨_, rfl⟩

theorem bytes_of_receiveDatagram (hshort : datagram.length < 300)
    (hreceived : receiveDatagram buffer datagram = .ok received) :
    received.bytes =
      datagram ++ 0#8 :: buffer.bytes.drop (datagram.length + 1) := by
  have htake : datagram.take 300 = datagram := List.take_of_length_le hshort.le
  rw [receiveDatagram] at hreceived
  simp only [htake, dif_pos hshort, CResult.ok.injEq] at hreceived
  rw [← hreceived]
  exact set_overlay_terminator (by rw [buffer.length_bytes]; exact hshort)

/-- The bytes of the datagram, its terminator, and behind it whatever earlier
messages left. -/
theorem byteAt_of_receiveDatagram (hshort : datagram.length < 300)
    (hreceived : receiveDatagram buffer datagram = .ok received) (index : ℕ) :
    received.byteAt index =
      if index < datagram.length then datagram.getD index 0#8
      else if index = datagram.length then 0#8
      else buffer.byteAt index := by
  rw [CharArray.byteAt, bytes_of_receiveDatagram hshort hreceived,
    List.getD_eq_getElem?_getD]
  rcases lt_trichotomy index datagram.length with hinside | hend | hbehind
  · rw [if_pos hinside, List.getElem?_append_left hinside,
      List.getD_eq_getElem?_getD]
  · subst hend
    simp
  · obtain ⟨offset, rfl⟩ := Nat.exists_eq_add_of_lt hbehind
    rw [if_neg (by omega), if_neg (by omega),
      List.getElem?_append_right (by omega), CharArray.byteAt,
      List.getD_eq_getElem?_getD]
    have hindex : datagram.length + offset + 1 - datagram.length =
        offset + 1 := by omega
    rw [hindex, List.getElem?_cons_succ, List.getElem?_drop]
    congr 2
    omega

end Receiving

/-! ## The add-file message -/

section AddFile

variable {path : List Byte}

theorem setAddSyncFileMsg_of_nulFree (hfree : NulFree path)
    (fileLen : BitVec 32) :
    setAddSyncFileMsg path fileLen =
      [syawMsgAddSyncFile, BitVec.ofNat 8 (10 + path.length)] ++
        hexField fileLen ++ path := by
  rw [setAddSyncFileMsg, strlen, cstr_of_nulFree hfree]

/-- The length byte is zero only for lengths that are multiples of 256. -/
theorem nulFree_setAddSyncFileMsg (hfree : NulFree path)
    (hmax : path.length ≤ 199) (fileLen : BitVec 32) :
    NulFree (setAddSyncFileMsg path fileLen) := by
  have hlength : BitVec.ofNat 8 (10 + path.length) ≠ 0#8 := by
    intro hzero
    have hvalue := congrArg BitVec.toNat hzero
    simp only [BitVec.toNat_ofNat] at hvalue
    omega
  rw [setAddSyncFileMsg_of_nulFree hfree]
  refine ((NulFree.append ?_ (nulFree_hexField fileLen))).append hfree
  intro byte hbyte
  rcases List.mem_cons.mp hbyte with rfl | hbyte
  · decide
  · rw [List.mem_singleton.mp hbyte]
    exact hlength

/-- The length byte as the decoder widens it. -/
theorem toNat_signExtend_lengthByte {length : ℕ} (hlength : length < 256) :
    ((BitVec.ofNat 8 length).signExtend 32).toNat =
      if length < 128 then length else length + (2 ^ 32 - 2 ^ 8) := by
  rw [BitVec.toNat_signExtend, BitVec.msb_eq_decide, BitVec.toNat_setWidth,
    BitVec.toNat_ofNat, Nat.mod_eq_of_lt (show length < 2 ^ 8 from hlength),
    Nat.mod_eq_of_lt (by omega)]
  by_cases hsmall : length < 128
  · rw [if_pos hsmall, if_neg (by simpa using hsmall), Nat.add_zero]
  · rw [if_neg hsmall, if_pos (by simpa using hsmall)]

/-- What the decoder computes for the number of path bytes. -/
theorem toNat_pathCount {length : ℕ} (hlength : length ≤ 199) :
    ((BitVec.ofNat 8 (10 + length)).signExtend 32 - 10#32).toNat =
      if length ≤ 117 then length else length + (2 ^ 32 - 2 ^ 8) := by
  rw [BitVec.toNat_sub, toNat_signExtend_lengthByte (by omega)]
  by_cases hsmall : length ≤ 117
  · rw [if_pos hsmall, if_pos (by omega)]
    simp only [BitVec.toNat_ofNat]
    omega
  · rw [if_neg hsmall, if_neg (by omega)]
    simp only [BitVec.toNat_ofNat]
    omega

/-- A received add-file message holds the layout at the start of the buffer,
whatever was there before. -/
theorem bytes_received_addFile {buffer received : MsgBuffer}
    {heap : List Byte} {fileLen : BitVec 32} (hfree : NulFree path)
    (hmax : path.length ≤ 199)
    (hshort : (sentBytes (setAddSyncFileMsg path fileLen) heap).length < 300)
    (hreceived : receiveDatagram buffer
      (sentBytes (setAddSyncFileMsg path fileLen) heap) = .ok received) :
    ∃ rest, received.bytes =
      [syawMsgAddSyncFile, BitVec.ofNat 8 (10 + path.length)] ++
        hexField fileLen ++ path ++ rest := by
  have hmessage := nulFree_setAddSyncFileMsg hfree hmax fileLen
  rw [bytes_of_receiveDatagram hshort hreceived,
    sentBytes_of_nulFree hmessage, setAddSyncFileMsg_of_nulFree hfree]
  exact ⟨_, List.append_assoc _ _ _⟩

/-- Decoding a received add-file message: up to 117 bytes the path comes back,
from 118 bytes on the length byte is negative and the copy leaves the
buffer. -/
theorem getFilePath_received {buffer received : MsgBuffer} {heap : List Byte}
    {fileLen : BitVec 32} (hfree : NulFree path) (hmax : path.length ≤ 199)
    (hshort : (sentBytes (setAddSyncFileMsg path fileLen) heap).length < 300)
    (hreceived : receiveDatagram buffer
      (sentBytes (setAddSyncFileMsg path fileLen) heap) = .ok received) :
    getFilePathFromMsgBuf received =
      if path.length ≤ 117 then .ok path else .undefined := by
  obtain ⟨rest, hbytes⟩ :=
    bytes_received_addFile hfree hmax hshort hreceived
  have hlengthByte : received.byteAt 1 = BitVec.ofNat 8 (10 + path.length) := by
    rw [CharArray.byteAt, hbytes]
    rfl
  have hdrop : received.bytes.drop 10 = path ++ rest := by
    have hhead : ([syawMsgAddSyncFile, BitVec.ofNat 8 (10 + path.length)] ++
        hexField fileLen).length = 10 := by
      rw [List.length_append, length_hexField]
      rfl
    rw [hbytes, List.append_assoc]
    exact List.drop_left' hhead
  rw [getFilePathFromMsgBuf, hlengthByte]
  simp only [toNat_pathCount hmax, hdrop]
  by_cases hsmall : path.length ≤ 117
  · rw [if_pos hsmall, if_pos (by omega), if_pos hsmall, List.take_left]
  · rw [if_neg hsmall, if_neg (by omega), if_neg hsmall]

/-- Add-file message round trip: the decoder copies exactly the path when, and
only when, the path has at most 117 bytes. -/
theorem addFile_path_roundTrip_iff (buffer : MsgBuffer) (heap : List Byte)
    (fileLen : BitVec 32) (hfree : NulFree path) (_hpos : 1 ≤ path.length)
    (hmax : path.length ≤ 199)
    (hshort : (sentBytes (setAddSyncFileMsg path fileLen) heap).length < 300) :
    (receiveDatagram buffer (sentBytes (setAddSyncFileMsg path fileLen) heap)
        >>= getFilePathFromMsgBuf) = .ok path ↔ path.length ≤ 117 := by
  obtain ⟨received, hreceived⟩ := exists_receiveDatagram buffer hshort
  rw [hreceived, CResult.ok_bind,
    getFilePath_received hfree hmax hshort hreceived]
  by_cases hsmall : path.length ≤ 117
  · simp [hsmall]
  · simp [hsmall]

end AddFile

theorem addFile_path_roundTrip_home :
    (receiveDatagram (CharArray.zero 300)
        (sentBytes (setAddSyncFileMsg ("/home/a".toList.map charByte) 20000#32)
          [0x21#8]) >>= getFilePathFromMsgBuf) =
      .ok ("/home/a".toList.map charByte) :=
  (addFile_path_roundTrip_iff (CharArray.zero 300) [0x21#8] 20000#32 (by decide)
    (by decide) (by decide) (by decide)).mpr (by decide)

/-- A path of 118 bytes makes the length byte `-128`; the copy leaves the
buffer. -/
theorem addFile_path_118_lost :
    (receiveDatagram (CharArray.zero 300)
        (sentBytes (setAddSyncFileMsg (List.replicate 118 0x61#8) 20000#32)
          []) >>= getFilePathFromMsgBuf) ≠
      .ok (List.replicate 118 0x61#8) := by
  decide +kernel

end SyncAnywhere.Messages
