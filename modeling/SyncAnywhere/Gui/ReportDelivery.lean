import SyncAnywhere.Core.Run
import SyncAnywhere.Daemon.FileSender
import SyncAnywhere.Gui.GuiListener

/-!
# Progress reports on their way to the progress bar

A run of reports is received into one buffer.  A report whose port has a zero
byte loses everything behind it on the way, and the listener reads in its place
what the last whole report left.
-/

namespace SyncAnywhere.ReportDelivery

open SyncAnywhere.CMemory
open SyncAnywhere.Numeral
open SyncAnywhere.Strtol
open SyncAnywhere.Run
open SyncAnywhere.Messages
open SyncAnywhere.ProgressMessage
open SyncAnywhere.FileSender
open SyncAnywhere.GuiListener

/-- One report, the heap bytes behind its message, and what the turn of the
listener for it finds in its arrays. -/
structure ReportEvent where
  report : ProgressReport
  heap : List Byte
  leftovers : HexLeftovers

/-- The arguments of `set_progress_bar` that say what the report says. -/
def reportArgs (report : ProgressReport) : ProgressArgs where
  bytesSent := report.byteSend.toInt
  fileName := report.filename
  fileLength := report.fileSize.toInt
  port := report.port.toNat

namespace ReportEvent

/-- `send_msg_to_gui` of the report's message. -/
def datagram (pad : Byte) (event : ReportEvent) : List Byte :=
  sentBytes (setProgressNotifyInfo pad event.report.byteSend
    event.report.fileSize event.report.filename event.report.port
    event.report.destIp) event.heap

structure Valid (pad : Byte) (event : ReportEvent) : Prop where
  byteSend_lt : event.report.byteSend.toNat < 2 ^ 31
  fileSize_lt : event.report.fileSize.toNat < 2 ^ 31
  name_free : NulFree event.report.filename
  name_pos : 1 ≤ event.report.filename.length
  name_le : event.report.filename.length ≤ 31
  port_le : event.report.port.toNat ≤ 65535
  ip_free : NulFree event.report.destIp
  short : (event.datagram pad).length < 300

end ReportEvent

/-- The listener receives the reports in order; the result is what it passes to
`set_progress_bar`. -/
def listenAll (pad : Byte) : MsgBuffer → List ReportEvent →
    CResult (List ProgressArgs)
  | _, [] => .ok []
  | buf, event :: events => do
      let turn ← guiListen event.leftovers buf (some (event.datagram pad))
      let rest ← listenAll pad turn.1 events
      pure (turn.2.toList ++ rest)

/-- What the listener reads for a report is the report.  It reads the report's
own bytes when the whole message is sent; otherwise it reads the buffer as the
reports before left it.  Behind the eight bytes of each number stand the bytes
that nothing initialised. -/
def Readable (buf : MsgBuffer) (event : ReportEvent) : Prop :=
  let report := event.report
  let sent := if SentWhole report.port then hexField report.byteSend
    else (buf.bytes.drop 20).take 8
  let size := if SentWhole report.port then hexField report.fileSize
    else (buf.bytes.drop 28).take 8
  (report.port.toNat < 256 → (buf.byteAt 3).toNat = report.port.toNat) ∧
    (¬ SentWhole report.port →
      cstr ((buf.bytes.drop 36).take report.filename.length) =
        report.filename) ∧
    strtolInt (sent ++ event.leftovers.byteSentHex.bytes) =
      .ok report.byteSend.toInt ∧
    strtolInt (size ++ event.leftovers.fileLenHex.bytes) =
      .ok report.fileSize.toInt

/-- The buffer behind one more report. -/
def receive (pad : Byte) (buf : CResult MsgBuffer) (event : ReportEvent) :
    CResult MsgBuffer :=
  buf >>= fun buf => receiveDatagram buf (event.datagram pad)

section Turn

variable {pad : Byte} {buf received : MsgBuffer} {event : ReportEvent}

/-- The port comes back when its high byte is not zero, or the stale low byte is
the right one. -/
theorem receivedPort_eq_iff {port : ℕ} (hport : port ≤ 65535) (stale : Byte) :
    256 * (BitVec.ofNat 8 (port / 256)).toNat +
        (if port < 256 then stale else BitVec.ofNat 8 port).toNat = port ↔
      (port < 256 → stale.toNat = port) := by
  by_cases hsmall : port < 256
  · rw [if_pos hsmall, Nat.div_eq_of_lt hsmall]
    simp [hsmall]
  · rw [if_neg hsmall, BitVec.toNat_ofNat, BitVec.toNat_ofNat]
    exact iff_of_true (by omega) fun hlt => absurd hlt hsmall

/-- The places the listener reads, in the received buffer. -/
theorem received_fields {head behind : List Byte} (hhead : head.length = 4)
    (hbytes : received.bytes = head ++ behind) :
    (received.bytes.drop 20).take 8 = (behind.drop 16).take 8 ∧
      (received.bytes.drop 28).take 8 = (behind.drop 24).take 8 ∧
      received.bytes.drop 36 = behind.drop 32 := by
  have hdrop : ∀ count, received.bytes.drop (4 + count) = behind.drop count := by
    intro count
    rw [hbytes, ← List.drop_drop, List.drop_left' hhead]
  exact ⟨congrArg (List.take 8) (hdrop 16), congrArg (List.take 8) (hdrop 24),
    hdrop 32⟩

/-- Spec of one turn: what it passes on is read from the report's own bytes
when its whole message is sent, and else from the bytes in the buffer. -/
theorem guiListen_decodes_iff (hpad : pad ≠ 0#8) (hvalid : event.Valid pad)
    (hreceived : receiveDatagram buf (event.datagram pad) = .ok received)
    (args : ProgressArgs) :
    guiListen event.leftovers buf (some (event.datagram pad)) =
        .ok (received, some args) ↔
      strtolInt ((if SentWhole event.report.port then
          hexField event.report.byteSend else (buf.bytes.drop 20).take 8) ++
            event.leftovers.byteSentHex.bytes) = .ok args.bytesSent ∧
        (if SentWhole event.report.port then event.report.filename
          else cstr ((buf.bytes.drop 36).take event.report.filename.length)) =
            args.fileName ∧
        strtolInt ((if SentWhole event.report.port then
          hexField event.report.fileSize else (buf.bytes.drop 28).take 8) ++
            event.leftovers.fileLenHex.bytes) = .ok args.fileLength ∧
        256 * (BitVec.ofNat 8 (event.report.port.toNat / 256)).toNat +
          (if event.report.port.toNat < 256 then buf.byteAt 3
            else BitVec.ofNat 8 event.report.port.toNat).toNat = args.port := by
  obtain ⟨tail, hbytes⟩ := bytes_received_progress hpad hvalid.name_free
    hvalid.name_le hvalid.ip_free hvalid.port_le hvalid.short hreceived
  obtain ⟨hsent, hsize, hrest⟩ := received_fields rfl hbytes
  have htype : received.byteAt 0 = guiMsgProgressNotify := by
    rw [CharArray.byteAt, hbytes]
    rfl
  have hlength : received.byteAt 1 =
      BitVec.ofNat 8 (36 + event.report.filename.length) := by
    rw [CharArray.byteAt, hbytes]
    rfl
  have hhigh : received.byteAt 2 =
      BitVec.ofNat 8 (event.report.port.toNat / 256) := by
    rw [CharArray.byteAt, hbytes]
    rfl
  have hthird : received.byteAt 3 = if event.report.port.toNat < 256 then
      buf.byteAt 3 else BitVec.ofNat 8 event.report.port.toNat := by
    rw [CharArray.byteAt, hbytes]
    rfl
  have hargs : guiListen event.leftovers buf (some (event.datagram pad)) =
        .ok (received, some args) ↔
      notifyProgress event.leftovers received = .ok args := by
    rw [guiListen_notifyProgress hreceived htype, CResult.bind_eq_ok_iff]
    simp
  have hname := hvalid.name_le
  rw [hargs, notifyProgress_eq_ok_iff (by omega) hlength, hhigh, hthird, hsent,
    hsize, hrest]
  by_cases hwhole : SentWhole event.report.port
  · obtain ⟨hsentField, hsizeField, hnameField⟩ := @progressRest_fields pad
      event.report.byteSend event.report.fileSize event.report.filename
      event.report.destIp (cstr event.heap ++ 0#8 :: tail)
    simp only [if_pos hwhole, hsentField, hsizeField, hnameField,
      List.take_left, cstr_of_nulFree hvalid.name_free]
  · simp only [if_neg hwhole, List.drop_drop]

/-- It passes on the report exactly when the report is readable. -/
theorem guiListen_eq_ok_iff (hpad : pad ≠ 0#8) (hvalid : event.Valid pad)
    (hreceived : receiveDatagram buf (event.datagram pad) = .ok received) :
    guiListen event.leftovers buf (some (event.datagram pad)) =
        .ok (received, some (reportArgs event.report)) ↔
      Readable buf event := by
  rw [guiListen_decodes_iff hpad hvalid hreceived, Readable]
  simp only [reportArgs, receivedPort_eq_iff hvalid.port_le]
  by_cases hwhole : SentWhole event.report.port
  · simp only [if_pos hwhole, true_and]
    constructor
    · rintro ⟨hsent, hsize, hport⟩
      exact ⟨hport, fun hcut => absurd hwhole hcut, hsent, hsize⟩
    · rintro ⟨hport, -, hsent, hsize⟩
      exact ⟨hsent, hsize, hport⟩
  · simp only [if_neg hwhole]
    constructor
    · rintro ⟨hsent, hname, hsize, hport⟩
      exact ⟨hport, fun _ => hname, hsent, hsize⟩
    · rintro ⟨hport, hname, hsent, hsize⟩
      exact ⟨hsent, hname hwhole, hsize, hport⟩

/-- A turn for a report, whatever it reads, keeps the received buffer. -/
theorem exists_of_guiListen (hpad : pad ≠ 0#8) (hvalid : event.Valid pad)
    (hreceived : receiveDatagram buf (event.datagram pad) = .ok received)
    {turn : MsgBuffer × Option ProgressArgs}
    (hturn : guiListen event.leftovers buf (some (event.datagram pad)) =
      .ok turn) :
    ∃ args, turn = (received, some args) := by
  obtain ⟨tail, hbytes⟩ := bytes_received_progress hpad hvalid.name_free
    hvalid.name_le hvalid.ip_free hvalid.port_le hvalid.short hreceived
  have htype : received.byteAt 0 = guiMsgProgressNotify := by
    rw [CharArray.byteAt, hbytes]
    rfl
  rw [guiListen_notifyProgress hreceived htype, CResult.bind_eq_ok_iff]
    at hturn
  obtain ⟨args, -, hargs⟩ := hturn
  exact ⟨args, (CResult.ok.inj hargs).symm⟩

theorem listenAll_cons_eq_ok_iff (hpad : pad ≠ 0#8)
    (hvalid : event.Valid pad) (events : List ReportEvent)
    (hreceived : receiveDatagram buf (event.datagram pad) = .ok received) :
    listenAll pad buf (event :: events) =
        .ok ((event :: events).map fun event => reportArgs event.report) ↔
      Readable buf event ∧ listenAll pad received events =
        .ok (events.map fun event => reportArgs event.report) := by
  rw [← guiListen_eq_ok_iff hpad hvalid hreceived, listenAll,
    CResult.bind_eq_ok_iff]
  constructor
  · rintro ⟨turn, hturn, hrest⟩
    obtain ⟨args, rfl⟩ := exists_of_guiListen hpad hvalid hreceived hturn
    obtain ⟨rest, hlisten, hargs⟩ := (CResult.bind_eq_ok_iff _ _ _).mp hrest
    obtain ⟨hfirst, hothers⟩ := List.cons.inj (CResult.ok.inj hargs)
    rw [← hothers, hturn, hfirst]
    exact ⟨rfl, hlisten⟩
  · rintro ⟨hturn, hlisten⟩
    refine ⟨_, hturn, ?_⟩
    rw [hlisten]
    rfl

theorem ReportEvent.Valid.toInt_byteSend (hvalid : event.Valid pad) :
    event.report.byteSend.toInt = event.report.byteSend.toNat :=
  BitVec.toInt_eq_toNat_of_lt (by have := hvalid.byteSend_lt; omega)

theorem ReportEvent.Valid.toInt_fileSize (hvalid : event.Valid pad) :
    event.report.fileSize.toInt = event.report.fileSize.toNat :=
  BitVec.toInt_eq_toNat_of_lt (by have := hvalid.fileSize_lt; omega)

/-- Two printed numbers are read as those of the report. -/
theorem readsAs_iff (hvalid : event.Valid pad) (sent size : BitVec 32) :
    (strtolInt (hexField sent ++ event.leftovers.byteSentHex.bytes) =
          .ok event.report.byteSend.toInt ↔
        ReadsAs sent.toNat event.leftovers.byteSentHex.bytes
          event.report.byteSend.toNat) ∧
      (strtolInt (hexField size ++ event.leftovers.fileLenHex.bytes) =
          .ok event.report.fileSize.toInt ↔
        ReadsAs size.toNat event.leftovers.fileLenHex.bytes
          event.report.fileSize.toNat) := by
  rw [hvalid.toInt_byteSend, hvalid.toInt_fileSize]
  exact ⟨strtolInt_hexField_eq_ok_iff sent _ hvalid.byteSend_lt,
    strtolInt_hexField_eq_ok_iff size _ hvalid.fileSize_lt⟩

/-- The bytes behind the two numbers of the report leave them as they are. -/
def NumbersEnd (event : ReportEvent) : Prop :=
  ReadsAs event.report.byteSend.toNat event.leftovers.byteSentHex.bytes
      event.report.byteSend.toNat ∧
    ReadsAs event.report.fileSize.toNat event.leftovers.fileLenHex.bytes
      event.report.fileSize.toNat

instance (event : ReportEvent) : Decidable (NumbersEnd event) :=
  inferInstanceAs (Decidable (_ ∧ _))

/-- A whole message is readable exactly when its numbers end. -/
theorem readable_iff_of_sentWhole (hvalid : event.Valid pad)
    (hwhole : SentWhole event.report.port) :
    Readable buf event ↔ NumbersEnd event := by
  obtain ⟨hsent, hsize⟩ := readsAs_iff hvalid event.report.byteSend
    event.report.fileSize
  rw [Readable, if_pos hwhole, if_pos hwhole, hsent, hsize,
    forall_prop_of_false (not_lt.mpr hwhole.1), true_and,
    forall_prop_of_false (not_not.mpr hwhole), true_and]
  rfl

end Turn

/-! ## What earlier reports leave -/

/-- Byte 3 of the buffer behind one more report. -/
def leavePortByte (stale : Byte) (event : ReportEvent) : Byte :=
  if event.report.port.toNat < 256 then stale
  else BitVec.ofNat 8 event.report.port.toNat

/-- Byte 3 of the buffer behind a list of reports. -/
def stalePortByte (initial : Byte) (events : List ReportEvent) : Byte :=
  events.foldl leavePortByte initial

/-- The last report of a list whose whole message is sent. -/
def lastWhole (events : List ReportEvent) : Option ReportEvent :=
  (events.filter fun event => SentWhole event.report.port).getLast?

theorem stalePortByte_concat (initial : Byte) (events : List ReportEvent)
    (event : ReportEvent) :
    stalePortByte initial (events ++ [event]) =
      leavePortByte (stalePortByte initial events) event := by
  simp [stalePortByte]

theorem lastWhole_concat (events : List ReportEvent) (event : ReportEvent) :
    lastWhole (events ++ [event]) =
      if SentWhole event.report.port then some event else lastWhole events := by
  rw [lastWhole, List.filter_append]
  by_cases hwhole : SentWhole event.report.port
  · simp [hwhole]
  · simp [hwhole, lastWhole]

/-- The message of `whole` behind its port. -/
def ReportEvent.rest (pad : Byte) (whole : ReportEvent) : List Byte :=
  progressRest pad whole.report.byteSend whole.report.fileSize
    whole.report.filename whole.report.destIp

/-- What the reports `front` have left in the buffer. -/
structure Left (pad : Byte) (initial : MsgBuffer) (front : List ReportEvent)
    (now : MsgBuffer) : Prop where
  portByte : now.byteAt 3 = stalePortByte (initial.byteAt 3) front
  untouched : lastWhole front = none →
    now.bytes.drop 4 = initial.bytes.drop 4
  overwritten : ∀ whole, lastWhole front = some whole →
    ∃ tail, now.bytes.drop 4 =
      whole.rest pad ++ (cstr whole.heap ++ 0#8 :: tail)

theorem Left.nil (pad : Byte) (initial : MsgBuffer) :
    Left pad initial [] initial where
  portByte := rfl
  untouched := fun _ => rfl
  overwritten := nofun

/-- Step lemma: one more report. -/
theorem Left.step {pad : Byte} (hpad : pad ≠ 0#8) {initial now next : MsgBuffer}
    {front : List ReportEvent} (hleft : Left pad initial front now)
    {event : ReportEvent} (hvalid : event.Valid pad)
    (hreceived : receiveDatagram now (event.datagram pad) = .ok next) :
    Left pad initial (front ++ [event]) next := by
  obtain ⟨tail, hbytes⟩ := bytes_received_progress hpad hvalid.name_free
    hvalid.name_le hvalid.ip_free hvalid.port_le hvalid.short hreceived
  have hthird : next.byteAt 3 = leavePortByte (now.byteAt 3) event := by
    rw [CharArray.byteAt, hbytes]
    rfl
  have hbehind : next.bytes.drop 4 = if SentWhole event.report.port then
      event.rest pad ++ (cstr event.heap ++ 0#8 :: tail)
      else now.bytes.drop 4 := by
    rw [hbytes]
    rfl
  constructor
  · rw [stalePortByte_concat, hthird, hleft.portByte]
  · intro hnone
    rw [lastWhole_concat] at hnone
    by_cases hwhole : SentWhole event.report.port
    · rw [if_pos hwhole] at hnone
      contradiction
    · rw [if_neg hwhole] at hnone
      rw [hbehind, if_neg hwhole]
      exact hleft.untouched hnone
  · intro whole hsome
    rw [lastWhole_concat] at hsome
    by_cases hwhole : SentWhole event.report.port
    · rw [if_pos hwhole] at hsome
      rw [hbehind, if_pos hwhole, ← Option.some_inj.mp hsome]
      exact ⟨tail, rfl⟩
    · rw [if_neg hwhole] at hsome
      rw [hbehind, if_neg hwhole]
      exact hleft.overwritten whole hsome

/-! ## Runs -/

/-- A port below 256 equals the byte that earlier reports left at index 3. -/
def PortSurvives (initial : MsgBuffer) (front : List ReportEvent)
    (event : ReportEvent) : Prop :=
  event.report.port.toNat < 256 →
    (stalePortByte (initial.byteAt 3) front).toNat = event.report.port.toNat

/-- The numbers and the name of the report stand behind index 3: they are those
of `whole`, or nothing has been stored there yet.  Each number is read on into
the bytes behind its eight digits. -/
def TextStands (initial : MsgBuffer) (event : ReportEvent) :
    Option ReportEvent → Prop
  | some whole =>
      ReadsAs whole.report.byteSend.toNat event.leftovers.byteSentHex.bytes
          event.report.byteSend.toNat ∧
        ReadsAs whole.report.fileSize.toNat event.leftovers.fileLenHex.bytes
          event.report.fileSize.toNat ∧
        event.report.filename <+: whole.report.filename ++ cstr whole.heap
  | none =>
      Spells ((initial.bytes.drop 20).take 8 ++
          event.leftovers.byteSentHex.bytes) event.report.byteSend.toNat ∧
        Spells ((initial.bytes.drop 28).take 8 ++
          event.leftovers.fileLenHex.bytes) event.report.fileSize.toNat ∧
        event.report.filename <+: initial.bytes.drop 36

/-- The text stands in the last whole report, which is the report itself when
its port has no zero byte. -/
def TextSurvives (initial : MsgBuffer) (front : List ReportEvent)
    (event : ReportEvent) : Prop :=
  TextStands initial event (lastWhole (front ++ [event]))

instance (initial : MsgBuffer) (front : List ReportEvent)
    (event : ReportEvent) : Decidable (PortSurvives initial front event) :=
  inferInstanceAs (Decidable (_ → _))

instance (initial : MsgBuffer) (event : ReportEvent)
    (source : Option ReportEvent) :
    Decidable (TextStands initial event source) :=
  match source with
  | some _ => inferInstanceAs (Decidable (_ ∧ _))
  | none => inferInstanceAs (Decidable (_ ∧ _))

instance (initial : MsgBuffer) (front : List ReportEvent)
    (event : ReportEvent) : Decidable (TextSurvives initial front event) :=
  inferInstanceAs (Decidable (TextStands _ _ _))

theorem textSurvives_of_whole {initial : MsgBuffer} {front : List ReportEvent}
    {event : ReportEvent} (hwhole : SentWhole event.report.port) :
    TextSurvives initial front event ↔ NumbersEnd event := by
  have hname : event.report.filename <+:
      event.report.filename ++ cstr event.heap := List.prefix_append _ _
  rw [TextSurvives, lastWhole_concat, if_pos hwhole, TextStands,
    and_iff_left hname]
  rfl

/-- A report is readable in the buffer that earlier reports left exactly when
its port and its text survive. -/
theorem readable_iff {pad : Byte} {event : ReportEvent}
    (hvalid : event.Valid pad) {initial now : MsgBuffer}
    {front : List ReportEvent} (hleft : Left pad initial front now) :
    Readable now event ↔
      PortSurvives initial front event ∧ TextSurvives initial front event := by
  have hdrop : ∀ count, now.bytes.drop (4 + count) =
      (now.bytes.drop 4).drop count := fun count => List.drop_drop.symm
  have hname := hvalid.name_free
  by_cases hwhole : SentWhole event.report.port
  · rw [readable_iff_of_sentWhole hvalid hwhole, textSurvives_of_whole hwhole,
      PortSurvives, forall_prop_of_false (not_lt.mpr hwhole.1), true_and]
  · rw [Readable, PortSurvives, hleft.portByte, if_neg hwhole, if_neg hwhole,
      forall_prop_of_true hwhole, cstr_take_eq_iff hname, TextSurvives,
      lastWhole_concat, if_neg hwhole]
    apply and_congr_right
    intro _
    cases hlast : lastWhole front with
    | none =>
        have hrest := hleft.untouched hlast
        rw [TextStands, hdrop 16, hdrop 24, hdrop 32, hrest, List.drop_drop,
          List.drop_drop, List.drop_drop, hvalid.toInt_byteSend,
          hvalid.toInt_fileSize, strtolInt_eq_ok_iff _ hvalid.byteSend_lt,
          strtolInt_eq_ok_iff _ hvalid.fileSize_lt]
        exact and_rotate
    | some whole =>
        obtain ⟨tail, hrest⟩ := hleft.overwritten whole hlast
        obtain ⟨hsentField, hsizeField, hnameField⟩ := @progressRest_fields pad
          whole.report.byteSend whole.report.fileSize whole.report.filename
          whole.report.destIp (cstr whole.heap ++ 0#8 :: tail)
        obtain ⟨hsent, hsize⟩ := readsAs_iff hvalid whole.report.byteSend
          whole.report.fileSize
        rw [TextStands, hdrop 16, hdrop 24, hdrop 32, hrest,
          ReportEvent.rest, hsentField, hsizeField, hnameField, hsent, hsize,
          ← List.append_assoc, isPrefix_append_zero_iff hname]
        exact and_rotate

/-- The listener passes on every report of a run as it was built exactly when
each of them is readable in the buffer the reports before it left. -/
theorem listenAll_exact_iff_along {pad : Byte} (hpad : pad ≠ 0#8)
    (buf : MsgBuffer) (events : List ReportEvent)
    (hvalid : ∀ event ∈ events, event.Valid pad) :
    listenAll pad buf events =
        .ok (events.map fun event => reportArgs event.report) ↔
      Along (receive pad) (fun buf event =>
        buf.IfOk fun buf => Readable buf event) (.ok buf) events := by
  induction events generalizing buf with
  | nil => exact iff_of_true rfl trivial
  | cons event events ih =>
      obtain ⟨hfirst, hothers⟩ := List.forall_mem_cons.mp hvalid
      obtain ⟨received, hreceived⟩ :=
        exists_receiveDatagram buf hfirst.short
      have hnext : receive pad (.ok buf) event = .ok received := hreceived
      rw [listenAll_cons_eq_ok_iff hpad hfirst events hreceived,
        ih received hothers, Along, hnext]
      rfl

/-- Run lemma: what a list of reports leaves in the buffer. -/
theorem exists_left {pad : Byte} (hpad : pad ≠ 0#8) (initial : MsgBuffer)
    (front : List ReportEvent) (hvalid : ∀ event ∈ front, event.Valid pad) :
    ∃ now, run (receive pad) (.ok initial) front = .ok now ∧
      Left pad initial front now := by
  induction front using List.reverseRecOn with
  | nil => exact ⟨initial, rfl, Left.nil pad initial⟩
  | append_singleton front event ih =>
      obtain ⟨now, hnow, hleft⟩ :=
        ih fun earlier hearlier => hvalid earlier (by simp [hearlier])
      have hevent : event.Valid pad := hvalid event (by simp)
      obtain ⟨next, hnext⟩ := exists_receiveDatagram now hevent.short
      refine ⟨next, ?_, hleft.step hpad hevent hnext⟩
      rw [run_append, hnow]
      exact hnext

/-- The listener passes on every report of a run as it was built exactly when
for each of them the port survives its message, and so do the numbers and the
name. -/
theorem listenAll_exact_iff {pad : Byte} (hpad : pad ≠ 0#8)
    (initial : MsgBuffer) (events : List ReportEvent)
    (hvalid : ∀ event ∈ events, event.Valid pad) :
    listenAll pad initial events =
        .ok (events.map fun event => reportArgs event.report) ↔
      ∀ front event back, events = front ++ event :: back →
        PortSurvives initial front event ∧
          TextSurvives initial front event := by
  rw [listenAll_exact_iff_along hpad initial events hvalid,
    along_iff_forall_split]
  apply forall_congr'
  intro front
  apply forall_congr'
  intro event
  apply forall_congr'
  intro back
  apply imp_congr_right
  rintro rfl
  obtain ⟨now, hnow, hleft⟩ := exists_left hpad initial front
    fun earlier hearlier => hvalid earlier (List.mem_append_left _ hearlier)
  have hevent : event.Valid pad :=
    hvalid event (List.mem_append_right front List.mem_cons_self)
  rw [hnow, ← readable_iff hevent hleft]
  rfl

/-- Five of seven bytes of the file "a" are on their way to port `port`. -/
def sampleReport (port : BitVec 32) : ReportEvent where
  report := ⟨5#32, 7#32, [0x61#8], port, "10.0.0.7".toList.map charByte⟩
  heap := []
  leftovers := ⟨CharArray.zero 12, CharArray.zero 12⟩

instance (pad : Byte) (event : ReportEvent) :
    Decidable (event.Valid pad) :=
  decidable_of_iff
    (event.report.byteSend.toNat < 2 ^ 31 ∧
      event.report.fileSize.toNat < 2 ^ 31 ∧
      NulFree event.report.filename ∧ 1 ≤ event.report.filename.length ∧
      event.report.filename.length ≤ 31 ∧
      event.report.port.toNat ≤ 65535 ∧ NulFree event.report.destIp ∧
      (event.datagram pad).length < 300)
    ⟨fun ⟨hsent, hsize, hname, hpos, hle, hport, hip, hshort⟩ =>
      ⟨hsent, hsize, hname, hpos, hle, hport, hip, hshort⟩,
    fun ⟨hsent, hsize, hname, hpos, hle, hport, hip, hshort⟩ =>
      ⟨hsent, hsize, hname, hpos, hle, hport, hip, hshort⟩⟩

/-- The low byte of port 20000 is 32: the report for port 32 behind it finds
its port and its text in the buffer. -/
theorem listenAll_exact_port32 :
    listenAll 0x20#8 (CharArray.zero 300)
        [sampleReport 20000#32, sampleReport 32#32] =
      .ok [⟨5, [0x61#8], 7, 20000⟩, ⟨5, [0x61#8], 7, 32⟩] := by
  refine (listenAll_exact_iff (by decide) (CharArray.zero 300)
    [sampleReport 20000#32, sampleReport 32#32] (by decide)).mpr ?_
  intro front event back hsplit
  match front with
  | [] =>
      rw [← (List.cons.inj hsplit).1]
      decide +kernel
  | [first] =>
      obtain ⟨rfl, hrest⟩ := List.cons.inj hsplit
      rw [← (List.cons.inj hrest).1]
      decide +kernel
  | first :: second :: rest =>
      have hlength := congrArg List.length hsplit
      simp at hlength

/-- The high byte of port 80 is zero: in a buffer of zeros the listener reads no
name, no bytes and no port. -/
theorem listenAll_port80_empty :
    (sampleReport 80#32).Valid 0x20#8 ∧
      listenAll 0x20#8 (CharArray.zero 300) [sampleReport 80#32] =
        .ok [⟨0, [], 0, 0⟩] := by
  refine ⟨by decide, by decide +kernel⟩

end SyncAnywhere.ReportDelivery
