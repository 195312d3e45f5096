import SyncAnywhere.Daemon.ProgressReports

/-!
# One transfer by either sender

The TCP and the UDP sender write the same bytes; their periodic reports differ
in the period.  Behind `2 ^ 31` chunks the counter `i` is negative, and the two
periods no longer fall into step.
-/

namespace SyncAnywhere.SenderEquivalence

open SyncAnywhere.CMemory
open SyncAnywhere.ByteStream
open SyncAnywhere.Multiples
open SyncAnywhere.FilePaths
open SyncAnywhere.TaskQueue
open SyncAnywhere.FileSender
open SyncAnywhere.LostReports
open SyncAnywhere.ProgressReports

/-- The first number of chunks that is due for the UDP sender while the counter
is negative. -/
def firstNegativeDue : ℕ := 2147483796

/-! ## Where the periods fall into step -/

section Periods

variable {reads count : ℕ}

/-- Between the overflow of the counter and its first due value nothing is
due. -/
theorem not_due_of_lt_firstNegativeDue (hlow : 2 ^ 31 ≤ reads)
    (hhigh : reads < firstNegativeDue) :
    ¬ Due 500#32 reads ∧ ¬ Due 1500#32 reads := by
  rw [firstNegativeDue] at hhigh
  have hcounter : (BitVec.ofNat 32 reads).toInt = (reads : ℤ) - 2 ^ 32 := by
    rw [toInt_counter (by omega), if_neg (by omega)]
  have hudp := due_iff_dvd_toInt (show 500 < 2 ^ 31 by decide) reads
  have htcp := due_iff_dvd_toInt (show 1500 < 2 ^ 31 by decide) reads
  rw [hcounter] at hudp htcp
  constructor
  · rw [hudp]
    omega
  · rw [htcp]
    omega

theorem dueReads_of_overflow {period : ℕ} (hperiod : period < 2 ^ 31)
    (hnone : ∀ reads, 2 ^ 31 ≤ reads → reads < firstNegativeDue →
      ¬ Due (BitVec.ofNat 32 period) reads)
    (hlow : 2 ^ 31 ≤ count) (hhigh : count < firstNegativeDue) :
    dueReads (BitVec.ofNat 32 period) count = multiples period (2 ^ 31 - 1) := by
  obtain ⟨later, rfl⟩ := Nat.exists_eq_add_of_le
    (show 2 ^ 31 - 1 ≤ count by omega)
  have hfilter : (List.range' (1 + (2 ^ 31 - 1)) later).filter
      (fun reads => decide (Due (BitVec.ofNat 32 period) reads)) = [] := by
    rw [List.filter_eq_nil_iff]
    intro reads hreads
    have hrange := List.mem_range'_1.mp hreads
    simpa using hnone reads (by omega) (by omega)
  rw [dueReads_append, hfilter, List.append_nil,
    dueReads_eq_multiples hperiod (by decide)]

/-- While the periods are in step, a TCP report is due with every third UDP
report. -/
theorem dueReads_everyThird (hcount : count < firstNegativeDue) :
    dueReads 1500#32 count = everyThird (dueReads 500#32 count) := by
  have htcp : (1500 : ℕ) < 2 ^ 31 := by decide
  have hudp : (500 : ℕ) < 2 ^ 31 := by decide
  by_cases hsmall : count < 2 ^ 31
  · have hleft := dueReads_eq_multiples htcp hsmall
    have hright := dueReads_eq_multiples hudp hsmall
    rw [hleft, hright, everyThird_multiples]
  · have hleft := dueReads_of_overflow htcp
      (fun _ hlow hhigh => (not_due_of_lt_firstNegativeDue hlow hhigh).2)
      (not_lt.mp hsmall) hcount
    have hright := dueReads_of_overflow hudp
      (fun _ hlow hhigh => (not_due_of_lt_firstNegativeDue hlow hhigh).1)
      (not_lt.mp hsmall) hcount
    rw [hleft, hright, everyThird_multiples]

/-- The UDP sender makes its third report behind `firstNegativeDue` chunks out
of turn with the TCP sender. -/
theorem dueReads_udp_firstNegativeDue (hcount : firstNegativeDue ≤ count) :
    (everyThird (dueReads 500#32 count))[1431655]? = some firstNegativeDue := by
  have hpos : 1 ≤ firstNegativeDue := by decide
  obtain ⟨later, hlater⟩ := Nat.exists_eq_add_of_le hcount
  have hsplit : count = firstNegativeDue - 1 + (later + 1) := by omega
  have hfirst : dueReads 500#32 (firstNegativeDue - 1) =
      multiples 500 (2 ^ 31 - 1) :=
    dueReads_of_overflow (by decide)
      (fun _ hlow hhigh => (not_due_of_lt_firstNegativeDue hlow hhigh).1)
      (by decide) (by decide)
  have hdue : decide (Due 500#32 (1 + (firstNegativeDue - 1))) = true := by
    decide
  have hlength : (multiples 500 (2 ^ 31 - 1)).length = 4294967 :=
    (length_multiples 500 (2 ^ 31 - 1)).trans (by decide)
  rw [getElem?_everyThird, hsplit, dueReads_append, hfirst, List.range'_succ,
    List.filter_cons, if_pos hdue, List.getElem?_append_right (by omega),
    hlength]
  rfl

theorem dueReads_tcp_firstNegativeDue :
    dueReads 1500#32 firstNegativeDue = multiples 1500 (2 ^ 31 - 1) := by
  have hpos : firstNegativeDue = firstNegativeDue - 1 + 1 := by decide
  have hfirst : dueReads 1500#32 (firstNegativeDue - 1) =
      multiples 1500 (2 ^ 31 - 1) :=
    dueReads_of_overflow (by decide)
      (fun _ hlow hhigh => (not_due_of_lt_firstNegativeDue hlow hhigh).2)
      (by decide) (by decide)
  have hlast : (List.range' (1 + (firstNegativeDue - 1)) 1).filter
      (fun reads => decide (Due 1500#32 reads)) = [] := by
    decide
  rw [hpos, dueReads_append, hfirst, hlast, List.append_nil]

theorem dueReads_everyThird_iff :
    dueReads 1500#32 count = everyThird (dueReads 500#32 count) ↔
      count < firstNegativeDue := by
  constructor
  · intro heq
    by_contra hcount
    have hmem := List.mem_of_getElem?
      (dueReads_udp_firstNegativeDue (not_lt.mp hcount))
    rw [← heq, dueReads] at hmem
    exact absurd (List.mem_filter.mp hmem).2 (by decide)
  · exact dueReads_everyThird

end Periods

/-! ## Two runs -/

section Transfer

variable {filename : FileName} {file : List Byte}

/-- The same outcomes on another clock. -/
def atTimes (start finish : BitVec 32) (calls : SendCalls filename file) :
    SendCalls filename file :=
  { calls with start := start, finish := finish }

/-- The GUI can be reached at every point of the transfer. -/
structure GuiReachable (calls : SendCalls filename file) : Prop where
  inLoop : ∀ turn ∈ calls.turns, turn.reportDelivered = true
  atEnd : calls.finalReportDelivered = true

/-- The turns up to the first whose `write` raises `SIGPIPE`. -/
def untilSignal : List Turn → List Turn
  | [] => []
  | turn :: turns =>
      if turn.signalled then [turn] else turn :: untilSignal turns

/-- The reports a run made in its loop: behind them stands the final one unless
a signal ended the run. -/
def loopReports (calls : SendCalls filename file) (final : SendState) :
    List ProgressReport :=
  if Signalled calls then final.reports else final.reports.dropLast

/-- What a run of each sender leaves, the UDP sender running from `start` to
`finish`. -/
structure SameOnTheWire (calls : SendCalls filename file)
    (start finish : BitVec 32) (repos : SyncRepos) (tcp udp : SendState) :
    Prop where
  tcpWrites : tcp.writes = filename.bytes ::
    (untilSignal calls.turns).map fun turn => turn.data.bytes
  udpWrites : udp.writes = tcp.writes
  byteSend : udp.byteSend = tcp.byteSend
  tcpRemoval : tcp.repos =
    if Signalled calls then repos else removeItemFromSyncRepos repos
  udpRemoval : udp.repos = tcp.repos
  running : udp.running = tcp.running
  finalReport : ¬ Signalled calls →
    calls.finish - calls.start = finish - start →
      udp.reports.getLast? = tcp.reports.getLast?
  /-- Every third report of the UDP sender stands behind the same chunk as one
  of the TCP sender. -/
  points : reportPoints 1500#32 0 0#32 (beforeSignal calls.turns) =
    everyThird (reportPoints 500#32 0 0#32 (beforeSignal calls.turns))
  contents : loopReports calls tcp = everyThird (loopReports calls udp)

def Interchangeable (home : SyncHome) (destIp : List Byte) (port : BitVec 32)
    (calls : SendCalls filename file) (start finish : BitVec 32)
    (repos : SyncRepos) : Prop :=
  ∃ tcp udp,
    tcpsendFileToRemotePeer home destIp port calls repos = .ok tcp ∧
      udpsendFileToRemotePeer home destIp port (atTimes start finish calls)
        repos = .ok udp ∧
      SameOnTheWire calls start finish repos tcp udp

/-- When every report arrives, only a signal ends the loop. -/
theorem executed_of_delivered {turns : List Turn}
    (hturns : ∀ turn ∈ turns, turn.reportDelivered = true)
    (period i : BitVec 32) :
    executed period i turns = untilSignal turns := by
  induction turns generalizing i with
  | nil => rfl
  | cons turn turns ih =>
      obtain ⟨hturn, hrest⟩ := List.forall_mem_cons.mp hturns
      cases hsignal : turn.signalled with
      | true =>
          have hends : ¬ turn.Passes period i := by
            rintro ⟨hnot, -⟩
            exact absurd (hsignal.symm.trans hnot) (by decide)
          rw [executed_cons_of_not_passes turns hends, untilSignal, hsignal]
          rfl
      | false =>
          have hpasses : turn.Passes period i := ⟨hsignal, fun _ => hturn⟩
          rw [executed_cons_of_passes turns hpasses, ih hrest, untilSignal,
            hsignal]
          rfl

theorem lostInLoop_of_delivered {turns : List Turn}
    (hturns : ∀ turn ∈ turns, turn.reportDelivered = true)
    (period i : BitVec 32) :
    lostInLoop period i turns = none := by
  induction turns generalizing i with
  | nil => rfl
  | cons turn turns ih =>
      obtain ⟨hturn, hrest⟩ := List.forall_mem_cons.mp hturns
      cases hsignal : turn.signalled with
      | true => exact lostInLoop_cons_of_signalled period turns hsignal
      | false =>
          rw [lostInLoop_cons_of_passes period turns
            ⟨hsignal, fun _ => hturn⟩, ih hrest]
          rfl

theorem beforeSignal_untilSignal (turns : List Turn) :
    beforeSignal (untilSignal turns) = beforeSignal turns := by
  induction turns with
  | nil => rfl
  | cons turn turns ih =>
      cases hsignal : turn.signalled with
      | true =>
          rw [untilSignal, hsignal, if_pos rfl,
            beforeSignal_cons_of_signalled _ hsignal,
            beforeSignal_cons_of_signalled _ hsignal]
      | false =>
          rw [untilSignal, hsignal, if_neg Bool.false_ne_true,
            beforeSignal_cons_of_not_signalled _ hsignal, ih,
            beforeSignal_cons_of_not_signalled _ hsignal]

/-- A run whose reports all arrive. -/
structure Reported (period : BitVec 32) (destIp : List Byte)
    (port : BitVec 32) (calls : SendCalls filename file) (repos : SyncRepos)
    (final : SendState) : Prop where
  writes : final.writes = filename.bytes ::
    (untilSignal calls.turns).map fun turn => turn.data.bytes
  byteSend : final.byteSend =
    BitVec.ofNat 32 (countedTotal (untilSignal calls.turns))
  repos : final.repos =
    if Signalled calls then repos else removeItemFromSyncRepos repos
  running : final.running = true ↔ ¬ Signalled calls
  reports : final.reports =
    (reportPoints period 0 0#32 (beforeSignal calls.turns)).map
      (fun point => ⟨point.byteSend, calls.fileSize, filename.bytes, port,
        destIp⟩) ++
    if Signalled calls then []
    else [⟨BitVec.ofNat 32 (countedTotal calls.turns),
      calls.finish - calls.start, filename.bytes, port, destIp⟩]

theorem Reported.loopReports {period : BitVec 32} {destIp : List Byte}
    {port : BitVec 32} {calls : SendCalls filename file} {repos : SyncRepos}
    {final : SendState}
    (hreported : Reported period destIp port calls repos final) :
    loopReports calls final =
      (reportPoints period 0 0#32 (beforeSignal calls.turns)).map
        (fun point => ⟨point.byteSend, calls.fileSize, filename.bytes, port,
          destIp⟩) := by
  rw [SenderEquivalence.loopReports, hreported.reports]
  by_cases hsignal : Signalled calls
  · rw [if_pos hsignal, if_pos hsignal, List.append_nil]
  · rw [if_neg hsignal, if_neg hsignal, List.dropLast_concat]

theorem reported_of_run {calls : SendCalls filename file}
    (hgui : GuiReachable calls) {period : BitVec 32} {home : SyncHome}
    {destIp : List Byte} {port : BitVec 32} {repos : SyncRepos}
    {final : SendState}
    (hfinal : sendFileToRemotePeer period home destIp port calls repos =
      .ok final) :
    Reported period destIp port calls repos final := by
  have hloop := lostInLoop_of_delivered hgui.inLoop period 0#32
  have hexecuted := executed_of_delivered hgui.inLoop period 0#32
  have hlost : lostAfter period calls = none := by
    rw [lostAfter, hloop, if_pos (Or.inr hgui.atEnd)]
    rfl
  have hcompletes : Completes period calls ↔ ¬ Signalled calls := by
    rw [completes_iff, hlost, and_iff_right rfl]
  have hheard : heardPoints period 0 0#32 calls.turns =
      reportPoints period 0 0#32 (beforeSignal calls.turns) := by
    rw [← beforeSignal_untilSignal, ← hexecuted]
    exact if_pos hloop
  have hreports := reports_of_run repos hfinal
  obtain ⟨-, rfl⟩ := (sendFileToRemotePeer_eq_ok_iff ..).mp hfinal
  obtain ⟨hwrites, hbytes, -⟩ := @loopEnd_fields _ _ period calls repos
    destIp port
  rw [hexecuted] at hwrites hbytes
  refine ⟨?_, ?_, ?_, ?_, ?_⟩
  · rw [transferred, endTransfer_writes, hwrites]
  · rw [transferred, endTransfer_byteSend, hbytes]
  · by_cases hsignal : Signalled calls
    · rw [if_pos hsignal]
      exact repos_of_not_completes destIp port repos
        fun hends => hcompletes.mp hends hsignal
    · rw [if_neg hsignal]
      exact repos_of_completes destIp port repos (hcompletes.mpr hsignal)
  · rw [transferred_running_iff, hcompletes]
  · rw [hreports, hheard, hlost]
    simp only [true_and, ite_not]

theorem reads_reportPoints (period byteSend : BitVec 32)
    (turns : List Turn) :
    (reportPoints period 0 byteSend turns).map ReportPoint.reads =
      dueReads period turns.length := by
  rw [reportPoints_eq_map_dueReads, List.map_map]
  exact List.map_id _

/-- The reports of the two senders stand behind the same chunks exactly while
the periods are in step. -/
theorem reportPoints_everyThird_iff (byteSend : BitVec 32)
    (turns : List Turn) :
    reportPoints 1500#32 0 byteSend turns =
        everyThird (reportPoints 500#32 0 byteSend turns) ↔
      turns.length < firstNegativeDue := by
  constructor
  · intro hpoints
    have hreads := congrArg (List.map ReportPoint.reads) hpoints
    rw [← everyThird_map, reads_reportPoints, reads_reportPoints] at hreads
    exact dueReads_everyThird_iff.mp hreads
  · intro hcount
    rw [reportPoints_eq_map_dueReads, reportPoints_eq_map_dueReads,
      everyThird_map, dueReads_everyThird hcount]

theorem sameOnTheWire_iff {calls : SendCalls filename file}
    {start finish : BitVec 32} {destIp : List Byte} {port : BitVec 32}
    {repos : SyncRepos} {tcp udp : SendState}
    (htcp : Reported 1500#32 destIp port calls repos tcp)
    (hudp : Reported 500#32 destIp port (atTimes start finish calls) repos
      udp) :
    SameOnTheWire calls start finish repos tcp udp ↔
      (beforeSignal calls.turns).length < firstNegativeDue := by
  have hiff := reportPoints_everyThird_iff 0#32 (beforeSignal calls.turns)
  constructor
  · exact fun hsame => hiff.mp hsame.points
  · intro hcount
    have hpoints := hiff.mpr hcount
    exact {
      tcpWrites := htcp.writes
      udpWrites := hudp.writes.trans htcp.writes.symm
      byteSend := hudp.byteSend.trans htcp.byteSend.symm
      tcpRemoval := htcp.repos
      udpRemoval := hudp.repos.trans htcp.repos.symm
      running := Bool.eq_iff_iff.mpr (hudp.running.trans htcp.running.symm)
      finalReport := by
        intro hsignal hduration
        have hnot : ¬ Signalled (atTimes start finish calls) := hsignal
        rw [htcp.reports, hudp.reports, if_neg hsignal, if_neg hnot,
          List.getLast?_concat, List.getLast?_concat, hduration]
        rfl
      points := hpoints
      contents := by
        have hudpReports : loopReports calls udp = _ := hudp.loopReports
        rw [htcp.loopReports, hudpReports, everyThird_map, hpoints]
        rfl }

/-- When every report arrives, the senders are interchangeable exactly when the
transfer stays in bounds and fewer than `firstNegativeDue` chunks are written. -/
theorem senders_interchangeable_iff {calls : SendCalls filename file}
    (hgui : GuiReachable calls) (home : SyncHome) (destIp : List Byte)
    (port start finish : BitVec 32) (repos : SyncRepos) :
    Interchangeable home destIp port calls start finish repos ↔
      StaysInBounds home calls ∧
        (beforeSignal calls.turns).length < firstNegativeDue := by
  have hguiUdp : GuiReachable (atTimes start finish calls) :=
    ⟨hgui.inLoop, hgui.atEnd⟩
  have hsame : ∀ tcp udp,
      tcpsendFileToRemotePeer home destIp port calls repos = .ok tcp →
      udpsendFileToRemotePeer home destIp port (atTimes start finish calls)
        repos = .ok udp →
      (SameOnTheWire calls start finish repos tcp udp ↔
        (beforeSignal calls.turns).length < firstNegativeDue) := by
    intro tcp udp htcp hudp
    exact sameOnTheWire_iff (reported_of_run hgui htcp)
      (reported_of_run hguiUdp hudp)
  constructor
  · rintro ⟨tcp, udp, htcp, hudp, hwire⟩
    obtain ⟨hbounds, -⟩ := (sendFileToRemotePeer_eq_ok_iff ..).mp htcp
    exact ⟨hbounds, (hsame tcp udp htcp hudp).mp hwire⟩
  · rintro ⟨hbounds, hcount⟩
    have htcp := (sendFileToRemotePeer_eq_ok_iff 1500#32 home destIp port
      calls repos _).mpr ⟨hbounds, rfl⟩
    have hudp := (sendFileToRemotePeer_eq_ok_iff 500#32 home destIp port
      (atTimes start finish calls) repos _).mpr ⟨hbounds, rfl⟩
    exact ⟨_, _, htcp, hudp, (hsame _ _ htcp hudp).mpr hcount⟩

end Transfer

/-! ## Files read byte by byte -/

/-- A file of equal bytes is read byte by byte and sent in full. -/
def oneByteTurns (count : ℕ) : List Turn :=
  List.replicate count (byteTurn 0x62#8 true)

theorem joined_oneByteTurns (count : ℕ) :
    joined ((oneByteTurns count).map Turn.data) =
      List.replicate count 0x62#8 := by
  induction count with
  | zero => rfl
  | succ count ih =>
      rw [oneByteTurns, List.replicate_succ, List.map_cons, joined_cons,
        List.replicate_succ, ← ih]
      rfl

def byteByByte (count : ℕ) :
    SendCalls sampleName.toFileName (List.replicate count 0x62#8) :=
  wholeCalls sampleName.toFileName (oneByteTurns count)
    (joined_oneByteTurns count) true

theorem byteByByte_reachable (count : ℕ) : GuiReachable (byteByByte count) where
  inLoop := by
    intro turn hturn
    rw [List.eq_of_mem_replicate hturn]
    rfl
  atEnd := rfl

theorem byteByByte_inBounds (count : ℕ) :
    StaysInBounds sampleHome (byteByByte count) :=
  Or.inr ⟨⟨[0x4f#8, 0x4b#8], rfl, by decide, by decide, by decide⟩,
    sampleName_inBounds⟩

theorem byteByByte_completes (count : ℕ) (period : BitVec 32) :
    Completes period (byteByByte count) := by
  have hnone : ∀ turn ∈ oneByteTurns count, turn.signalled = false := by
    intro turn hturn
    rw [List.eq_of_mem_replicate hturn]
    rfl
  exact ⟨rfl, (loopCompletes_iff period 0#32 _).mpr
    ⟨lostInLoop_of_delivered (byteByByte_reachable count).inLoop period 0#32,
      hnone⟩, rfl⟩

theorem senders_interchangeable_oneByte :
    Interchangeable sampleHome [] 20000#32 (byteByByte 1) 0#32 0#32
      daemonRepos :=
  (senders_interchangeable_iff (byteByByte_reachable 1) sampleHome [] 20000#32
    0#32 0#32 daemonRepos).mpr ⟨byteByByte_inBounds 1, by decide⟩

/-- A file of `firstNegativeDue` bytes is read byte by byte: the UDP report
behind the last of them is a third one, but the TCP sender makes no report
there. -/
theorem senders_differ_byteByByte :
    ∃ tcp udp, tcpsendFileToRemotePeer sampleHome [] 20000#32
        (byteByByte firstNegativeDue) daemonRepos = .ok tcp ∧
      udpsendFileToRemotePeer sampleHome [] 20000#32
        (byteByByte firstNegativeDue) daemonRepos = .ok udp ∧
      tcp.reports.dropLast ≠ everyThird udp.reports.dropLast := by
  have hlength : (byteByByte firstNegativeDue).turns.length =
      firstNegativeDue := List.length_replicate
  obtain ⟨tcp, htcp⟩ := @exists_sampleRun _ (byteByByte firstNegativeDue) rfl
    1500#32 daemonRepos
  obtain ⟨udp, hudp⟩ := @exists_sampleRun _ (byteByByte firstNegativeDue) rfl
    500#32 daemonRepos
  refine ⟨tcp, udp, htcp, hudp, ?_⟩
  intro heq
  rw [(completed_of_completes daemonRepos (byteByByte_completes _ _)
      htcp).reports,
    (completed_of_completes daemonRepos (byteByByte_completes _ _)
      hudp).reports, List.dropLast_concat, List.dropLast_concat,
    everyThird_map, reportPoints_eq_map_dueReads,
    reportPoints_eq_map_dueReads, everyThird_map, hlength,
    dueReads_tcp_firstNegativeDue] at heq
  have hindex := congrArg (fun reports => reports[1431655]?) heq
  have hbeyond : (multiples 1500 (2 ^ 31 - 1))[1431655]? = none := by
    rw [List.getElem?_eq_none_iff, length_multiples]
    decide
  simp only [List.getElem?_map, hbeyond,
    dueReads_udp_firstNegativeDue le_rfl, Option.map_none, Option.map_some,
    reduceCtorEq] at hindex

end SyncAnywhere.SenderEquivalence
