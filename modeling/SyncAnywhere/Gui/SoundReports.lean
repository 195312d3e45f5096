import SyncAnywhere.Daemon.SenderEquivalence
import SyncAnywhere.Gui.ProgressBar
import SyncAnywhere.Gui.ReportDelivery

/-!
# Sound periodic reports

The byte counts of the periodic reports never decrease and never exceed what
was read.  They stay below the file size as long as `get_file_size` could find
it: it opens the file for reading and writing, and returns an indeterminate
number for a file that may only be read.  Every transfer of such a file that is
long enough for a periodic report may go wrong.
-/

namespace SyncAnywhere.SoundReports

open SyncAnywhere.CMemory
open SyncAnywhere.ByteStream
open SyncAnywhere.Multiples
open SyncAnywhere.FilePaths
open SyncAnywhere.FileSize
open SyncAnywhere.TaskQueue
open SyncAnywhere.FileSender
open SyncAnywhere.GuiListener
open SyncAnywhere.LostReports
open SyncAnywhere.ProgressReports
open SyncAnywhere.SenderEquivalence
open SyncAnywhere.ReportDelivery
open SyncAnywhere.ProgressBar

/-! ## Counted bytes -/

theorem countedTotal_append (front back : List Turn) :
    countedTotal (front ++ back) = countedTotal front + countedTotal back := by
  rw [countedTotal, List.map_append, List.sum_append]
  rfl

theorem countedTotal_take_mono (turns : List Turn) {less more : ℕ}
    (hle : less ≤ more) :
    countedTotal (turns.take less) ≤ countedTotal (turns.take more) := by
  have hinitial : turns.take less <+: turns.take more :=
    List.take_prefix_take_left hle
  obtain ⟨back, hback⟩ := hinitial
  rw [← hback, countedTotal_append]
  exact Nat.le_add_right _ _

theorem countedTotal_le_joined (turns : List Turn) :
    countedTotal turns ≤ (joined (turns.map Turn.data)).length := by
  apply sum_le_length_joined
  intro turn
  rw [countedBytes]
  by_cases hfull : turn.written = turn.data.bytes.length
  · exact (if_pos hfull).le
  · rw [if_neg hfull]
    exact Nat.zero_le _

section Transfer

variable {filename : FileName} {file : List Byte}
variable {calls : SendCalls filename file}

/-! ## The periodic reports of a transfer -/

theorem countedTurns_of_none {period i : BitVec 32} {turns : List Turn}
    (hnone : lostInLoop period i turns = none) :
    countedTurns period i turns = beforeSignal turns := by
  induction turns generalizing i with
  | nil => rfl
  | cons turn turns ih =>
      by_cases hturn : turn.Passes period i
      · rw [lostInLoop_cons_of_passes period turns hturn,
          Option.map_eq_none_iff] at hnone
        rw [countedTurns_cons_of_passes period turns hturn, ih hnone,
          beforeSignal_cons_of_not_signalled turns hturn.1]
      · rcases signalled_or_lost period hturn with hsignal | ⟨hsignal, hends⟩
        · rw [countedTurns_cons_of_signalled period turns hsignal,
            beforeSignal_cons_of_signalled turns hsignal]
        · rw [lostInLoop_cons_of_lost period turns hsignal hends] at hnone
          contradiction

theorem countedTurns_isPrefix_beforeSignal (period i : BitVec 32)
    (turns : List Turn) :
    countedTurns period i turns <+: beforeSignal turns := by
  cases hlost : lostInLoop period i turns with
  | none => rw [countedTurns_of_none hlost]
  | some count =>
      rw [countedTurns, executed_of_lost period hlost]
      exact (List.takeWhile_prefix _).trans (List.take_prefix _ _)

theorem countedTotal_take_lt (hsize : file.length < 2 ^ 31) (count : ℕ) :
    countedTotal (calls.turns.take count) < 2 ^ 31 := by
  have hall := countedTotal_take_mono calls.turns
    (le_max_left count calls.turns.length)
  rw [List.take_of_length_le (le_max_right _ _)] at hall
  have hread := calls.turns_isPrefix.length_le
  exact (hall.trans (countedTotal_le_joined _)).trans_lt (hread.trans_lt hsize)

/-- The counter of the reads does not overflow. -/
theorem length_turns_lt (hsize : file.length < 2 ^ 31) :
    calls.turns.length < 2 ^ 31 :=
  ((length_le_joined calls.turns).trans
    calls.turns_isPrefix.length_le).trans_lt hsize

/-- Nor does `byteSend`. -/
theorem toInt_pointAt (hsize : file.length < 2 ^ 31) (reads : ℕ) :
    (pointAt 0 0#32 calls.turns reads).byteSend.toInt =
      countedTotal (calls.turns.take reads) := by
  have hlt := @countedTotal_take_lt _ _ calls hsize reads
  rw [pointAt, BitVec.zero_add, Nat.sub_zero, toInt_counter (by omega),
    if_pos hlt]

theorem periodicReports_eq (hsize : file.length < 2 ^ 31) {period : ℕ}
    (hperiod : period < 2 ^ 31) :
    periodicReports (BitVec.ofNat 32 period) calls =
      (multiples period
        (countedTurns (BitVec.ofNat 32 period) 0#32 calls.turns).length).map
          (pointAt 0 0#32 calls.turns) := by
  have hinitial := countedTurns_isPrefix (BitVec.ofNat 32 period) 0#32
    calls.turns
  have hcount := hinitial.length_le.trans_lt (length_turns_lt hsize)
  rw [periodicReports, reportPoints_eq_map_dueReads,
    dueReads_eq_multiples hperiod hcount]
  apply List.map_congr_left
  intro reads hreads
  have hrange := List.mem_range'_1.mp (List.mem_filter.mp hreads).1
  have htake : (countedTurns (BitVec.ofNat 32 period) 0#32 calls.turns).take
      (reads - 0) = calls.turns.take (reads - 0) := by
    rw [List.prefix_iff_eq_take.mp hinitial, List.take_take,
      Nat.min_eq_left (by omega)]
  rw [pointAt, pointAt, htake]

/-- A report the loop makes. -/
def reportAt (calls : SendCalls filename file) (destIp : List Byte)
    (port : BitVec 32) (point : ReportPoint) : ProgressReport :=
  ⟨point.byteSend, calls.fileSize, filename.bytes, port, destIp⟩

/-- The law of the periodic reports of one transfer; `points` are the calls of
`send_msg_to_gui` in the loop, one of which may be lost and end the daemon. -/
structure SoundRun (period : BitVec 32) (destIp : List Byte)
    (port : BitVec 32) (calls : SendCalls filename file) (final : SendState)
    (points : List ReportPoint) : Prop where
  sent : (if lostInLoop period 0#32 calls.turns = none then points
    else points.dropLast).map (reportAt calls destIp port) <+: final.reports
  nonDecreasing : points.Pairwise fun earlier later =>
    earlier.byteSend.toInt ≤ later.byteSend.toInt
  atMostRead : ∀ point ∈ points, point.byteSend.toInt ≤
    (joined ((calls.turns.take point.reads).map Turn.data)).length
  atMostSize : ∀ point ∈ points,
    point.byteSend.toInt ≤ calls.fileSize.toInt
  count : points.length =
    (countedTurns period 0#32 calls.turns).length / period.toNat
  unfinished : ∀ point ∈ points,
    ¬ FinishedTask (reportArgs (reportAt calls destIp port point))

/-- The same calls when the structure of `get_file_size` happens to hold
`garbage`. -/
def withGarbage (garbage : BitVec 64) (calls : SendCalls filename file) :
    SendCalls filename file :=
  { calls with
    sizeCalls := { calls.sizeCalls with uninitialized := garbage } }

/-- The transfer stays in bounds and its periodic reports are sound, whatever
`get_file_size` finds in its structure. -/
def SoundForAny (period : BitVec 32) (destIp : List Byte) (port : BitVec 32)
    (calls : SendCalls filename file)
    (send : SendCalls filename file → CResult SendState) : Prop :=
  ∀ garbage, ∃ final,
    send (withGarbage garbage calls) = .ok final ∧
      SoundRun period destIp port (withGarbage garbage calls) final
        (periodicReports period calls)

/-- The size of the file can be found, or the transfer is too short for a
periodic report. -/
def SizeKnownInTime (period : BitVec 32) (calls : SendCalls filename file) :
    Prop :=
  calls.sizeCalls.known = true ∨
    (beforeSignal calls.turns).length < period.toNat

section Points

variable {period : ℕ}

theorem toNat_period (hperiod : period < 2 ^ 31) :
    (BitVec.ofNat 32 period).toNat = period := by
  rw [BitVec.toNat_ofNat]
  exact Nat.mod_eq_of_lt (by omega)

/-- The number of chunks the loop counts. -/
abbrev readCount (period : ℕ) (calls : SendCalls filename file) : ℕ :=
  (countedTurns (BitVec.ofNat 32 period) 0#32 calls.turns).length

theorem mem_periodicReports_iff (hsize : file.length < 2 ^ 31)
    (hperiod : period < 2 ^ 31) {point : ReportPoint} :
    point ∈ periodicReports (BitVec.ofNat 32 period) calls ↔
      ∃ index < readCount period calls / period,
        pointAt 0 0#32 calls.turns (period * (index + 1)) = point := by
  rw [periodicReports_eq hsize hperiod, multiples_eq_map, List.map_map]
  simp only [List.mem_map, List.mem_range, Function.comp_apply]

theorem periodicReports_nonDecreasing (hsize : file.length < 2 ^ 31)
    (hperiod : period < 2 ^ 31) :
    (periodicReports (BitVec.ofNat 32 period) calls).Pairwise
      fun earlier later => earlier.byteSend.toInt ≤ later.byteSend.toInt := by
  rw [periodicReports_eq hsize hperiod, multiples_eq_map, List.map_map,
    List.pairwise_map]
  apply List.pairwise_lt_range.imp
  intro earlier later hlt
  have hreads : period * (earlier + 1) ≤ period * (later + 1) :=
    Nat.mul_le_mul_left period (by omega)
  simp only [Function.comp_apply, toInt_pointAt hsize]
  exact_mod_cast countedTotal_take_mono calls.turns hreads

theorem periodicReports_atMostRead (hsize : file.length < 2 ^ 31)
    (hperiod : period < 2 ^ 31) {point : ReportPoint}
    (hpoint : point ∈ periodicReports (BitVec.ofNat 32 period) calls) :
    point.byteSend.toInt ≤
      (joined ((calls.turns.take point.reads).map Turn.data)).length := by
  obtain ⟨index, -, rfl⟩ := (mem_periodicReports_iff hsize hperiod).mp hpoint
  rw [toInt_pointAt hsize]
  exact_mod_cast countedTotal_le_joined _

theorem length_periodicReports (hsize : file.length < 2 ^ 31)
    (hperiod : period < 2 ^ 31) :
    (periodicReports (BitVec.ofNat 32 period) calls).length =
      readCount period calls / period := by
  rw [periodicReports_eq hsize hperiod, List.length_map, length_multiples]

/-- A known size bounds the counts. -/
theorem periodicReports_atMostSize (hsize : file.length < 2 ^ 31)
    (hperiod : period < 2 ^ 31) (hknown : calls.sizeCalls.known = true)
    {point : ReportPoint}
    (hpoint : point ∈ periodicReports (BitVec.ofNat 32 period) calls) :
    point.byteSend.toInt ≤ calls.fileSize.toInt := by
  have htoInt : calls.fileSize.toInt = file.length := by
    rw [SendCalls.fileSize, getFileSize_of_known hknown,
      toInt_counter (by omega), if_pos hsize]
  have hread := periodicReports_atMostRead hsize hperiod hpoint
  have hwhole : joined ((calls.turns.take point.reads).map Turn.data) <+:
      file := by
    refine List.IsPrefix.trans ?_ calls.turns_isPrefix
    have hsplit := List.take_append_drop point.reads calls.turns
    rw [← hsplit, List.map_append, joined, joined, List.flatMap_append, hsplit]
    exact List.prefix_append _ _
  rw [htoInt]
  exact hread.trans (by exact_mod_cast hwhole.length_le)

/-- No periodic report is made exactly when too few chunks are written. -/
theorem periodicReports_eq_nil_iff (hsize : file.length < 2 ^ 31)
    (hpos : 0 < period) (hperiod : period < 2 ^ 31) :
    periodicReports (BitVec.ofNat 32 period) calls = [] ↔
      (beforeSignal calls.turns).length < period := by
  rw [← List.length_eq_zero_iff, length_periodicReports hsize hperiod,
    Nat.div_eq_zero_iff, or_iff_right hpos.ne']
  constructor
  · intro hfew
    have hnone : lostInLoop (BitVec.ofNat 32 period) 0#32 calls.turns =
        none := by
      by_contra hlost
      have hreports := @reportPoints_ne_nil_of_lost (BitVec.ofNat 32 period) 0
        calls.turns 0#32 hlost
      apply hreports
      have hlength := @length_periodicReports _ _ calls period hsize hperiod
      rw [Nat.div_eq_of_lt hfew] at hlength
      exact List.length_eq_zero_iff.mp hlength
    rwa [readCount, countedTurns_of_none hnone] at hfew
  · intro hfew
    exact (countedTurns_isPrefix_beforeSignal _ _ _).length_le.trans_lt hfew

end Points

/-- As an `int`, the least size there is. -/
def leastSize : BitVec 64 := 0x80000000#64

/-- A size that is not known may be less than any count. -/
theorem toInt_fileSize_withGarbage (hunknown : calls.sizeCalls.known = false) :
    (withGarbage leastSize calls).fileSize.toInt = -2 ^ 31 := by
  have hsame : (withGarbage leastSize calls).sizeCalls.known = false := hunknown
  rw [SendCalls.fileSize, getFileSize_of_not_known hsame]
  rfl

theorem soundForAny_iff (hsize : file.length < 2 ^ 31) {period : ℕ}
    (hpos : 0 < period) (hperiod : period < 2 ^ 31) {home : SyncHome}
    {destIp : List Byte} {port : BitVec 32} {repos : SyncRepos} :
    SoundForAny (BitVec.ofNat 32 period) destIp port calls
        (sendFileToRemotePeer (BitVec.ofNat 32 period) home destIp port ·
          repos) ↔
      StaysInBounds home calls ∧
        SizeKnownInTime (BitVec.ofNat 32 period) calls := by
  rw [SizeKnownInTime, toNat_period hperiod,
    ← periodicReports_eq_nil_iff hsize hpos hperiod]
  constructor
  · intro hsound
    obtain ⟨final, hfinal, hrun⟩ := hsound leastSize
    refine ⟨((sendFileToRemotePeer_eq_ok_iff ..).mp hfinal).1, ?_⟩
    cases hknown : calls.sizeCalls.known with
    | true => exact Or.inl rfl
    | false =>
        right
        by_contra hsome
        obtain ⟨point, hpoint⟩ := List.exists_mem_of_ne_nil _ hsome
        have hcount := hrun.atMostSize point hpoint
        obtain ⟨index, -, rfl⟩ :=
          (mem_periodicReports_iff hsize hperiod).mp hpoint
        rw [toInt_fileSize_withGarbage hknown, toInt_pointAt hsize] at hcount
        omega
  · rintro ⟨hbounds, hsizes⟩ garbage
    have hfinal := (sendFileToRemotePeer_eq_ok_iff (BitVec.ofNat 32 period) home
      destIp port (withGarbage garbage calls) repos _).mpr ⟨hbounds, rfl⟩
    have hcovered : ∀ point ∈ periodicReports (BitVec.ofNat 32 period) calls,
        point.byteSend.toInt ≤ (withGarbage garbage calls).fileSize.toInt := by
      intro point hpoint
      rcases hsizes with hknown | hnone
      · exact @periodicReports_atMostSize _ _ (withGarbage garbage calls) _
          hsize hperiod hknown _ hpoint
      · rw [hnone] at hpoint
        exact absurd hpoint List.not_mem_nil
    refine ⟨_, hfinal, ?_⟩
    exact {
      sent := by
        rw [reports_of_run repos hfinal]
        exact List.prefix_append _ _
      nonDecreasing := periodicReports_nonDecreasing hsize hperiod
      atMostRead := fun _ => periodicReports_atMostRead hsize hperiod
      atMostSize := hcovered
      count := by
        rw [toNat_period hperiod]
        exact length_periodicReports hsize hperiod
      unfinished := fun point hpoint => not_lt.mpr (hcovered point hpoint) }

/-- The periodic reports of either sender are sound exactly when the file may be
read and written, so that its size is known, or is too short for a report. -/
theorem senders_sound_iff (hsize : file.length < 2 ^ 31) (home : SyncHome)
    (destIp : List Byte) (port : BitVec 32)
    (calls : SendCalls filename file) (repos : SyncRepos) :
    (SoundForAny 1500#32 destIp port calls
          (tcpsendFileToRemotePeer home destIp port · repos) ↔
        StaysInBounds home calls ∧ SizeKnownInTime 1500#32 calls) ∧
      (SoundForAny 500#32 destIp port calls
          (udpsendFileToRemotePeer home destIp port · repos) ↔
        StaysInBounds home calls ∧ SizeKnownInTime 500#32 calls) :=
  ⟨soundForAny_iff hsize (by decide) (by decide),
    soundForAny_iff hsize (by decide) (by decide)⟩

end Transfer

theorem senders_sound_byteByByte :
    SoundForAny 500#32 [] 20000#32 (byteByByte 500)
      (udpsendFileToRemotePeer sampleHome [] 20000#32 · daemonRepos) := by
  have hsize : (List.replicate 500 0x62#8).length < 2 ^ 31 := by
    rw [List.length_replicate]
    decide
  exact (senders_sound_iff hsize sampleHome [] 20000#32 (byteByByte 500)
    daemonRepos).2.mpr ⟨byteByByte_inBounds 500, Or.inl rfl⟩

/-- The file may only be read, and the structure holds zeros. -/
def readOnlySize : SizeCalls where
  opened := false
  known := false
  uninitialized := 0#64
  opened_of_known := nofun

def readOnlyCalls :
    SendCalls sampleName.toFileName (List.replicate 500 0x62#8) :=
  { byteByByte 500 with sizeCalls := readOnlySize }

/-- The periodic report of the file looks like a finished transfer. -/
theorem readOnlyFile_looksFinished :
    (udpsendFileToRemotePeer sampleHome [] 20000#32 readOnlyCalls
        daemonRepos >>= fun final =>
          .ok (final.reports.head?.map reportArgs)) =
      .ok (some ⟨500, [0x61#8], 0, 20000⟩) ∧
    FinishedTask ⟨500, [0x61#8], 0, 20000⟩ := by
  refine ⟨?_, by decide⟩
  decide +kernel

end SyncAnywhere.SoundReports
