import SyncAnywhere.Gui.ReportDelivery

/-!
# The two numbers of a progress message

Each number is printed with `"%8x"`, so the two fields always fill eight bytes,
stand side by side and hold no NUL.  The listener copies each of them into an
array of twenty bytes that it means to clear: the clearing loop stands in front
of the first `case` label and never runs.  So `strtol` reads on into whatever
twelve bytes stand there.
-/

namespace SyncAnywhere.HexFields

open SyncAnywhere.CMemory
open SyncAnywhere.Numeral
open SyncAnywhere.Strtol
open SyncAnywhere.Messages
open SyncAnywhere.ProgressMessage
open SyncAnywhere.FileSender
open SyncAnywhere.GuiListener
open SyncAnywhere.ReportDelivery

/-- The eight bytes of a message from `start` on. -/
def field (start : ℕ) (message : List Byte) : List Byte :=
  (message.drop start).take 8

section Fields

variable {pad : Byte} {byteSend fileSize port : BitVec 32}
variable {filename destIp : List Byte}

/-- The fields of a message stand side by side behind the address. -/
theorem setProgressNotifyInfo_fields :
    field 20 (setProgressNotifyInfo pad byteSend fileSize filename port
        destIp) = hexField byteSend ∧
      field 28 (setProgressNotifyInfo pad byteSend fileSize filename port
        destIp) = hexField fileSize := by
  obtain ⟨hsent, hsize, -⟩ := @progressRest_fields pad byteSend fileSize
    (cstr filename) (cstr destIp) []
  rw [List.append_nil] at hsent hsize
  rw [← hsent, ← hsize, setProgressNotifyInfo, progressRest]
  simp only [List.append_assoc, List.cons_append, List.nil_append]
  exact ⟨rfl, rfl⟩

end Fields

/-- The bytes of one field of a message: eight, and no NUL among them. -/
def FilledField (start : ℕ) (message : List Byte) : Prop :=
  (field start message).length = 8 ∧ NulFree (field start message)

/-- The codec of the two numbers of a report, from `set_progress_notify_info` to
the call of `set_progress_bar`. -/
structure RoundTrip (pad : Byte) (buf : MsgBuffer) (event : ReportEvent) :
    Prop where
  fields : ∀ start ∈ [20, 28], FilledField start
    (setProgressNotifyInfo pad event.report.byteSend event.report.fileSize
      event.report.filename event.report.port event.report.destIp)
  decoded : ∃ received args,
    guiListen event.leftovers buf (some (event.datagram pad)) =
        .ok (received, some args) ∧
      args.bytesSent = event.report.byteSend.toNat ∧
      args.fileLength = event.report.fileSize.toNat

theorem filledField_hexField {message : List Byte} {start : ℕ}
    {value : BitVec 32} (hfield : field start message = hexField value) :
    FilledField start message := by
  rw [FilledField, hfield]
  exact ⟨length_hexField value, nulFree_hexField value⟩

theorem decoded_iff {pad : Byte} (hpad : pad ≠ 0#8) {buf : MsgBuffer}
    {event : ReportEvent} (hvalid : event.Valid pad)
    (hwhole : SentWhole event.report.port) :
    (∃ received args,
        guiListen event.leftovers buf (some (event.datagram pad)) =
            .ok (received, some args) ∧
          args.bytesSent = event.report.byteSend.toNat ∧
          args.fileLength = event.report.fileSize.toNat) ↔
      NumbersEnd event := by
  obtain ⟨received, hreceived⟩ := exists_receiveDatagram buf hvalid.short
  rw [← @readable_iff_of_sentWhole pad buf event hvalid hwhole,
    ← guiListen_eq_ok_iff hpad hvalid hreceived]
  constructor
  · rintro ⟨other, args, hargs, hsent, hsize⟩
    obtain ⟨_, hpair⟩ := exists_of_guiListen hpad hvalid hreceived hargs
    obtain rfl : other = received := congrArg Prod.fst hpair
    have hdecodes := (guiListen_decodes_iff hpad hvalid hreceived args).mp hargs
    rw [guiListen_decodes_iff hpad hvalid hreceived]
    simp only [if_pos hwhole] at hdecodes ⊢
    rw [hsent, hsize] at hdecodes
    refine ⟨?_, rfl, ?_, ?_⟩
    · rw [hdecodes.1, ← hvalid.toInt_byteSend]
      rfl
    · rw [hdecodes.2.2.1, ← hvalid.toInt_fileSize]
      rfl
    · exact (receivedPort_eq_iff hvalid.port_le _).mpr
        fun hlow => absurd hwhole.1 (not_le.mpr hlow)
  · intro hargs
    exact ⟨received, _, hargs, hvalid.toInt_byteSend, hvalid.toInt_fileSize⟩

/-- The two numbers of a message that is sent whole come through exactly when
the bytes behind each in its array leave it as it is. -/
theorem hexFields_roundTrip_iff {pad : Byte} (hpad : pad ≠ 0#8)
    (buf : MsgBuffer) (event : ReportEvent) (hvalid : event.Valid pad)
    (hwhole : SentWhole event.report.port) :
    RoundTrip pad buf event ↔ NumbersEnd event := by
  rw [← @decoded_iff pad hpad buf event hvalid hwhole]
  constructor
  · exact fun hround => hround.decoded
  · intro hdecoded
    refine ⟨?_, hdecoded⟩
    intro start hstart
    obtain ⟨hsent, hsize⟩ := @setProgressNotifyInfo_fields pad
      event.report.byteSend event.report.fileSize event.report.port
      event.report.filename event.report.destIp
    rcases List.mem_pair.mp hstart with rfl | rfl
    · exact filledField_hexField hsent
    · exact filledField_hexField hsize

theorem ends_zero : Ends (CharArray.zero 12).bytes :=
  ⟨0#8, List.replicate 11 0#8, rfl, by decide⟩

/-- Arrays that were cleared end every number. -/
theorem numbersEnd_of_cleared {event : ReportEvent}
    (hcleared : event.leftovers = ⟨CharArray.zero 12, CharArray.zero 12⟩) :
    NumbersEnd event := by
  rw [NumbersEnd, hcleared]
  exact ⟨readsAs_of_ends ends_zero event.report.byteSend.isLt,
    readsAs_of_ends ends_zero event.report.fileSize.isLt⟩

theorem hexFields_roundTrip_cleared :
    RoundTrip 0x20#8 (CharArray.zero 300) (sampleReport 20000#32) :=
  (hexFields_roundTrip_iff (by decide) (CharArray.zero 300)
    (sampleReport 20000#32) (by decide) (by decide)).mpr
      (numbersEnd_of_cleared rfl)

/-- The sample report when a digit stands behind the first number. -/
def digitLeft : ReportEvent :=
  { sampleReport 20000#32 with
    leftovers := ⟨⟨0x30#8 :: List.replicate 11 0#8, rfl⟩, CharArray.zero 12⟩ }

/-- Five bytes sent become eighty. -/
theorem digitLeft_misread :
    digitLeft.Valid 0x20#8 ∧ SentWhole digitLeft.report.port ∧
      (guiListen digitLeft.leftovers (CharArray.zero 300)
          (some (digitLeft.datagram 0x20#8)) >>= fun turn => .ok turn.2) =
        .ok (some ⟨80, [0x61#8], 7, 20000⟩) ∧
      ¬ RoundTrip 0x20#8 (CharArray.zero 300) digitLeft := by
  refine ⟨by decide, by decide, by decide +kernel, fun hround => ?_⟩
  have hends := (decoded_iff (by decide) (by decide) (by decide)).mp
    hround.decoded
  exact absurd hends (by decide)

end SyncAnywhere.HexFields
