import SyncAnywhere.Core.Multiples
import SyncAnywhere.Daemon.LostReports

/-!
# The periodic progress reports of a transfer

The loop of a sender reports the bytes of the chunks that were written in full.
Its reports are listed with the number of chunks read before each of them.
-/

namespace SyncAnywhere.ProgressReports

open SyncAnywhere.CMemory
open SyncAnywhere.ByteStream
open SyncAnywhere.Multiples
open SyncAnywhere.FilePaths
open SyncAnywhere.TaskQueue
open SyncAnywhere.FileSender
open SyncAnywhere.LostReports

/-- What a turn adds to `byteSend`. -/
def countedBytes (turn : Turn) : ℕ :=
  if turn.written = turn.data.bytes.length then turn.data.bytes.length else 0

def countedTotal (turns : List Turn) : ℕ :=
  (turns.map countedBytes).sum

/-- When every chunk is written in full, every byte read is counted. -/
theorem countedTotal_of_full {turns : List Turn}
    (hfull : ∀ turn ∈ turns, turn.written = turn.data.bytes.length) :
    countedTotal turns = (joined (turns.map Turn.data)).length := by
  induction turns with
  | nil => rfl
  | cons turn turns ih =>
      obtain ⟨hturn, hrest⟩ := List.forall_mem_cons.mp hfull
      rw [countedTotal, List.map_cons, List.sum_cons, countedBytes,
        if_pos hturn, List.map_cons, joined_cons, List.length_append, ← ih hrest]
      rfl

/-- A report of the loop and the number of chunks read before it. -/
structure ReportPoint where
  reads : ℕ
  byteSend : BitVec 32
  deriving DecidableEq

/-- `i % period == 0` behind `reads` chunks. -/
def Due (period : BitVec 32) (reads : ℕ) : Prop :=
  (BitVec.ofNat 32 reads).srem period = 0#32

instance (period : BitVec 32) : DecidablePred (Due period) :=
  fun _ => inferInstanceAs (Decidable (_ = _))

/-- One chunk more on the counter `i`. -/
theorem counter_succ (reads : ℕ) :
    BitVec.ofNat 32 reads + 1#32 = BitVec.ofNat 32 (reads + 1) :=
  (BitVec.ofNat_add reads 1).symm

/-- The reports of the loop, `reads` chunks being read and `byteSend` counted
before the turns. -/
def reportPoints (period : BitVec 32) :
    ℕ → BitVec 32 → List Turn → List ReportPoint
  | _, _, [] => []
  | reads, byteSend, turn :: turns =>
      let byteSend := byteSend + BitVec.ofNat 32 (countedBytes turn)
      let later := reportPoints period (reads + 1) byteSend turns
      if Due period (reads + 1) then ⟨reads + 1, byteSend⟩ :: later else later

section Loop

variable (period : BitVec 32) (report : BitVec 32 → ProgressReport)

theorem countChunk_byteSend (turn : Turn) (state : SendState) :
    (countChunk turn state).byteSend =
      state.byteSend + BitVec.ofNat 32 (countedBytes turn) := by
  by_cases hfull : turn.written = turn.data.bytes.length
  · simp [countChunk, countedBytes, hfull]
  · simp [countChunk, countedBytes, hfull]

/-- A `write` that raises `SIGPIPE` is not a full one. -/
theorem countedBytes_of_signalled {turn : Turn}
    (hsignal : turn.signalled = true) : countedBytes turn = 0 := by
  apply if_neg
  rw [turn.written_of_signalled hsignal]
  omega

@[simp]
theorem sendTurn_byteSend (turn : Turn) (state : SendState) :
    (sendTurn period report turn state).byteSend =
      state.byteSend + BitVec.ofNat 32 (countedBytes turn) := by
  cases hsignal : turn.signalled with
  | true =>
      rw [sendTurn_of_signalled period report hsignal,
        countedBytes_of_signalled hsignal]
      exact (BitVec.add_zero _).symm
  | false =>
      rw [sendTurn_of_not_signalled period report hsignal,
        apply_ite SendState.byteSend, sendMsgToGui_byteSend, ite_self,
        countChunk_byteSend]
      rfl

theorem foldl_sendTurn_writes (turns : List Turn) (state : SendState) :
    (turns.foldl (fun state turn => sendTurn period report turn state)
        state).writes = state.writes ++ turns.map fun turn => turn.data.bytes := by
  rw [List.map_eq_flatMap]
  exact Run.view_run_append _ SendState.writes
    (fun state turn => sendTurn_writes period report turn state) state turns

theorem foldl_sendTurn_byteSend (turns : List Turn) (state : SendState) :
    (turns.foldl (fun state turn => sendTurn period report turn state)
        state).byteSend =
      state.byteSend + BitVec.ofNat 32 (countedTotal turns) := by
  induction turns generalizing state with
  | nil => simp [countedTotal]
  | cons turn turns ih =>
      rw [List.foldl_cons, ih, sendTurn_byteSend, countedTotal, countedTotal,
        List.map_cons, List.sum_cons, BitVec.ofNat_add, BitVec.add_assoc]

theorem sendTurn_reports_of_due {turn : Turn} {state : SendState}
    (hturn : turn.Passes period state.i)
    (hdue : (state.i + 1#32).srem period = 0#32) :
    (sendTurn period report turn state).reports = state.reports ++
      [report (state.byteSend + BitVec.ofNat 32 (countedBytes turn))] := by
  have hi : (countChunk turn (writeSocket turn.data.bytes turn.written
      state)).i.srem period = 0#32 := hdue
  rw [sendTurn_of_not_signalled period report hturn.1, if_pos hi,
    sendMsgToGui, if_pos (hturn.2 hdue), countChunk_byteSend]
  rfl

theorem sendTurn_reports_of_not_due {turn : Turn} {state : SendState}
    (hturn : turn.Passes period state.i)
    (hdue : ¬ (state.i + 1#32).srem period = 0#32) :
    (sendTurn period report turn state).reports = state.reports := by
  have hi : ¬ (countChunk turn (writeSocket turn.data.bytes turn.written
      state)).i.srem period = 0#32 := hdue
  rw [sendTurn_of_not_signalled period report hturn.1, if_neg hi]
  rfl

theorem sendTurn_reports_of_not_passes {turn : Turn} {state : SendState}
    (hends : ¬ turn.Passes period state.i) :
    (sendTurn period report turn state).reports = state.reports := by
  rcases signalled_or_lost period hends with hsignal | ⟨hsignal, -, hlost⟩
  · rw [sendTurn_of_signalled period report hsignal]
    rfl
  · rw [sendTurn_of_not_signalled period report hsignal,
      apply_ite SendState.reports, hlost]
    exact ite_self _

/-- The turns in which the loop counts the chunk: all it goes through, but for
one that ends with `SIGPIPE`. -/
def countedTurns (i : BitVec 32) (turns : List Turn) : List Turn :=
  beforeSignal (executed period i turns)

theorem countedTurns_cons_of_passes {i : BitVec 32} {turn : Turn}
    (turns : List Turn) (hturn : turn.Passes period i) :
    countedTurns period i (turn :: turns) =
      turn :: countedTurns period (i + 1#32) turns := by
  rw [countedTurns, executed_cons_of_passes turns hturn,
    beforeSignal_cons_of_not_signalled _ hturn.1]
  rfl

theorem countedTurns_cons_of_signalled {i : BitVec 32} {turn : Turn}
    (turns : List Turn) (hsignal : turn.signalled = true) :
    countedTurns period i (turn :: turns) = [] := by
  have hends : ¬ turn.Passes period i := by
    rintro ⟨hnot, -⟩
    exact absurd (hsignal.symm.trans hnot) (by decide)
  rw [countedTurns, executed_cons_of_not_passes turns hends]
  exact beforeSignal_cons_of_signalled [] hsignal

theorem countedTurns_cons_of_lost {i : BitVec 32} {turn : Turn}
    (turns : List Turn) (hsignal : turn.signalled = false)
    (hends : ¬ turn.Passes period i) :
    countedTurns period i (turn :: turns) = [turn] := by
  rw [countedTurns, executed_cons_of_not_passes turns hends]
  exact beforeSignal_cons_of_not_signalled [] hsignal

theorem countedTurns_of_completes {i : BitVec 32} {turns : List Turn}
    (hcompletes : LoopCompletes period i turns) :
    countedTurns period i turns = turns := by
  rw [countedTurns, executed_of_completes hcompletes]
  exact beforeSignal_eq_self ((loopCompletes_iff period i turns).mp
    hcompletes).2

theorem countedTurns_isPrefix (i : BitVec 32) (turns : List Turn) :
    countedTurns period i turns <+: turns :=
  (List.takeWhile_prefix _).trans (executed_isPrefix period i turns)

theorem reportPoints_ne_nil_of_lost {reads : ℕ} {turns : List Turn}
    (byteSend : BitVec 32)
    (hlost : lostInLoop period (BitVec.ofNat 32 reads) turns ≠ none) :
    reportPoints period reads byteSend
      (countedTurns period (BitVec.ofNat 32 reads) turns) ≠ [] := by
  induction turns generalizing reads byteSend with
  | nil => exact absurd rfl hlost
  | cons turn turns ih =>
      have hnext := counter_succ reads
      by_cases hturn : turn.Passes period (BitVec.ofNat 32 reads)
      · rw [lostInLoop_cons_of_passes period turns hturn, hnext, ne_eq,
          Option.map_eq_none_iff] at hlost
        rw [countedTurns_cons_of_passes period turns hturn, hnext,
          reportPoints]
        by_cases hdue : Due period (reads + 1)
        · rw [if_pos hdue]
          exact List.cons_ne_nil _ _
        · rw [if_neg hdue]
          exact ih _ hlost
      · rcases signalled_or_lost period hturn with hsignal | ⟨hsignal, hends⟩
        · exact absurd (lostInLoop_cons_of_signalled period turns hsignal) hlost
        · have hdue : Due period (reads + 1) := by
            rw [Due, ← hnext]
            exact hends.1
          rw [countedTurns_cons_of_lost period turns hsignal hturn,
            reportPoints, if_pos hdue]
          exact List.cons_ne_nil _ _

/-- The points of the reports that reach the GUI: the one whose loss ends the
daemon is the last. -/
def heardPoints (reads : ℕ) (byteSend : BitVec 32) (turns : List Turn) :
    List ReportPoint :=
  let points := reportPoints period reads byteSend
    (countedTurns period (BitVec.ofNat 32 reads) turns)
  if lostInLoop period (BitVec.ofNat 32 reads) turns = none then points
  else points.dropLast

theorem heardPoints_cons_of_passes {reads : ℕ} {turn : Turn}
    (byteSend : BitVec 32) (turns : List Turn)
    (hturn : turn.Passes period (BitVec.ofNat 32 reads)) :
    heardPoints period reads byteSend (turn :: turns) =
      (if Due period (reads + 1) then
          [⟨reads + 1, byteSend + BitVec.ofNat 32 (countedBytes turn)⟩]
        else []) ++
      heardPoints period (reads + 1)
        (byteSend + BitVec.ofNat 32 (countedBytes turn)) turns := by
  have hnext := counter_succ reads
  rw [heardPoints, lostInLoop_cons_of_passes period turns hturn,
    countedTurns_cons_of_passes period turns hturn, hnext, heardPoints,
    reportPoints]
  simp only [Option.map_eq_none_iff]
  by_cases hdue : Due period (reads + 1)
  · rw [if_pos hdue, if_pos hdue]
    by_cases hlost : lostInLoop period (BitVec.ofNat 32 (reads + 1)) turns =
        none
    · rw [if_pos hlost, if_pos hlost]
      rfl
    · have hne := reportPoints_ne_nil_of_lost period
        (byteSend + BitVec.ofNat 32 (countedBytes turn)) hlost
      rw [if_neg hlost, if_neg hlost, List.dropLast_cons_of_ne_nil hne]
      rfl
  · rw [if_neg hdue, if_neg hdue, List.nil_append]

theorem heardPoints_cons_of_not_passes {reads : ℕ} {turn : Turn}
    (byteSend : BitVec 32) (turns : List Turn)
    (hends : ¬ turn.Passes period (BitVec.ofNat 32 reads)) :
    heardPoints period reads byteSend (turn :: turns) = [] := by
  rcases signalled_or_lost period hends with hsignal | ⟨hsignal, hlost⟩
  · rw [heardPoints, lostInLoop_cons_of_signalled period turns hsignal,
      countedTurns_cons_of_signalled period turns hsignal]
    rfl
  · have hdue : Due period (reads + 1) := by
      rw [Due, ← counter_succ reads]
      exact hlost.1
    rw [heardPoints, lostInLoop_cons_of_lost period turns hsignal hlost,
      countedTurns_cons_of_lost period turns hsignal hends, reportPoints,
      if_pos hdue]
    rfl

theorem heardPoints_of_completes {reads : ℕ} {turns : List Turn}
    (byteSend : BitVec 32)
    (hcompletes : LoopCompletes period (BitVec.ofNat 32 reads) turns) :
    heardPoints period reads byteSend turns =
      reportPoints period reads byteSend turns := by
  rw [heardPoints, countedTurns_of_completes period hcompletes]
  exact if_pos ((loopCompletes_iff period _ _).mp hcompletes).1

/-- The GUI gets the reports of the loop in order, but for the one whose loss
ends the daemon. -/
theorem sendLoop_reports {turns : List Turn} {state : SendState} {reads : ℕ}
    (hrunning : state.running = true) (hi : state.i = BitVec.ofNat 32 reads) :
    (sendLoop period report turns state).reports = state.reports ++
      (heardPoints period reads state.byteSend turns).map
        fun point => report point.byteSend := by
  induction turns generalizing state reads with
  | nil =>
      simp [sendLoop, heardPoints, countedTurns, executed, beforeSignal,
        reportPoints]
  | cons turn turns ih =>
      have hnext : state.i + 1#32 = BitVec.ofNat 32 (reads + 1) := by
        rw [hi, counter_succ]
      have hdueIff : (state.i + 1#32).srem period = 0#32 ↔
          Due period (reads + 1) := by
        rw [hnext, Due]
      by_cases hturn : turn.Passes period state.i
      · have hpoints := heardPoints_cons_of_passes period state.byteSend
          turns (hi ▸ hturn)
        have hloop := @ih (sendTurn period report turn state) (reads + 1)
          ((sendTurn_running_iff period report turn hrunning).mpr hturn)
          ((sendTurn_i period report hturn.1 state).trans hnext)
        rw [sendLoop_cons_of_passes period report turns hrunning hturn,
          hloop, sendTurn_byteSend, hpoints, List.map_append,
          ← List.append_assoc]
        by_cases hdue : (state.i + 1#32).srem period = 0#32
        · rw [sendTurn_reports_of_due period report hturn hdue,
            if_pos (hdueIff.mp hdue)]
          rfl
        · rw [sendTurn_reports_of_not_due period report hturn hdue,
            if_neg (mt hdueIff.mpr hdue), List.map_nil, List.append_nil]
      · rw [sendLoop_cons_of_not_passes period report turns hrunning hturn,
          sendTurn_reports_of_not_passes period report hturn,
          heardPoints_cons_of_not_passes period state.byteSend turns
            (hi ▸ hturn), List.map_nil, List.append_nil]

end Loop

/-! ## Where the reports stand -/

/-- The report behind `reads` chunks, when `first` of them were read before the
turns. -/
def pointAt (first : ℕ) (byteSend : BitVec 32) (turns : List Turn)
    (reads : ℕ) : ReportPoint :=
  ⟨reads, byteSend +
    BitVec.ofNat 32 (countedTotal (turns.take (reads - first)))⟩

theorem reportPoints_eq_map (period : BitVec 32) (first : ℕ)
    (byteSend : BitVec 32) (turns : List Turn) :
    reportPoints period first byteSend turns =
      ((List.range' (first + 1) turns.length).filter
        fun reads => decide (Due period reads)).map
          (pointAt first byteSend turns) := by
  induction turns generalizing first byteSend with
  | nil => rfl
  | cons turn turns ih =>
      have hlater : ∀ reads ∈ (List.range' (first + 2) turns.length).filter
          (fun reads => decide (Due period reads)),
          pointAt (first + 1)
              (byteSend + BitVec.ofNat 32 (countedBytes turn)) turns reads =
            pointAt first byteSend (turn :: turns) reads := by
        intro reads hreads
        have hrange := (List.mem_range'_1.mp (List.mem_filter.mp hreads).1).1
        have hsub : reads - first = reads - (first + 1) + 1 := by omega
        rw [pointAt, pointAt, hsub, List.take_succ_cons, countedTotal,
          countedTotal, List.map_cons, List.sum_cons, BitVec.ofNat_add,
          BitVec.add_assoc]
      have hfirst : pointAt first byteSend (turn :: turns) (first + 1) =
          ⟨first + 1, byteSend + BitVec.ofNat 32 (countedBytes turn)⟩ := by
        simp [pointAt, countedTotal]
      rw [reportPoints, ih, List.map_congr_left hlater, List.length_cons,
        List.range'_succ, List.filter_cons]
      by_cases hdue : Due period (first + 1)
      · rw [if_pos hdue, if_pos (decide_eq_true hdue), List.map_cons, hfirst]
      · rw [if_neg hdue, if_neg (by simpa using hdue)]

/-- The reads before the reports of a transfer of `count` chunks. -/
def dueReads (period : BitVec 32) (count : ℕ) : List ℕ :=
  (List.range' 1 count).filter fun reads => decide (Due period reads)

theorem reportPoints_eq_map_dueReads (period byteSend : BitVec 32)
    (turns : List Turn) :
    reportPoints period 0 byteSend turns =
      (dueReads period turns.length).map (pointAt 0 byteSend turns) :=
  reportPoints_eq_map period 0 byteSend turns

/-- The report behind `count` turns is one of the loop's and the daemon survives
the turns up to it, `first` chunks being read before the turns. -/
structure Heard (period : BitVec 32) (first : ℕ) (turns : List Turn)
    (count : ℕ) : Prop where
  pos : 0 < count
  le_length : count ≤ turns.length
  due : Due period (first + count)
  completes : LoopCompletes period (BitVec.ofNat 32 first) (turns.take count)

theorem heard_one_iff {period : BitVec 32} {first : ℕ} {turn : Turn}
    {turns : List Turn} :
    Heard period first (turn :: turns) 1 ↔
      Due period (first + 1) ∧
        turn.Passes period (BitVec.ofNat 32 first) := by
  constructor
  · intro hheard
    exact ⟨hheard.due, hheard.completes.1⟩
  · rintro ⟨hdue, hturn⟩
    exact ⟨Nat.one_pos, by simp, hdue, hturn, trivial⟩

theorem heard_succ_iff {period : BitVec 32} {first count : ℕ} {turn : Turn}
    {turns : List Turn} (hpos : 0 < count) :
    Heard period first (turn :: turns) (count + 1) ↔
      turn.Passes period (BitVec.ofNat 32 first) ∧
        Heard period (first + 1) turns count := by
  have hnext := counter_succ first
  have hsum : first + (count + 1) = first + 1 + count := by omega
  constructor
  · rintro ⟨-, hle, hdue, hturn, hrest⟩
    rw [hnext] at hrest
    rw [hsum] at hdue
    exact ⟨hturn, hpos, Nat.le_of_succ_le_succ hle, hdue, hrest⟩
  · rintro ⟨hturn, -, hle, hdue, hrest⟩
    rw [← hsum] at hdue
    rw [← hnext] at hrest
    exact ⟨count.succ_pos, Nat.succ_le_succ hle, hdue, hturn, hrest⟩

theorem exists_heard_cons_iff {period : BitVec 32} {first : ℕ} {turn : Turn}
    {turns : List Turn} {property : ℕ → Prop} :
    (∃ count, Heard period first (turn :: turns) count ∧ property count) ↔
      turn.Passes period (BitVec.ofNat 32 first) ∧
        (Due period (first + 1) ∧ property 1 ∨
          ∃ count, Heard period (first + 1) turns count ∧
            property (count + 1)) := by
  constructor
  · rintro ⟨count, hheard, hproperty⟩
    obtain ⟨count, rfl⟩ := Nat.exists_eq_succ_of_ne_zero hheard.pos.ne'
    rcases Nat.eq_zero_or_pos count with rfl | hcount
    · obtain ⟨hdue, hturn⟩ := heard_one_iff.mp hheard
      exact ⟨hturn, Or.inl ⟨hdue, hproperty⟩⟩
    · obtain ⟨hturn, hlater⟩ := (heard_succ_iff hcount).mp hheard
      exact ⟨hturn, Or.inr ⟨count, hlater, hproperty⟩⟩
  · rintro ⟨hturn, ⟨hdue, hproperty⟩ | ⟨count, hlater, hproperty⟩⟩
    · exact ⟨1, heard_one_iff.mpr ⟨hdue, hturn⟩, hproperty⟩
    · exact ⟨count + 1, (heard_succ_iff hlater.pos).mpr ⟨hturn, hlater⟩,
        hproperty⟩

/-- The reports that reach the GUI are the ones the daemon lives to send. -/
theorem mem_heardPoints_iff {period : BitVec 32} {first : ℕ}
    {byteSend : BitVec 32} {turns : List Turn} {point : ReportPoint} :
    point ∈ heardPoints period first byteSend turns ↔
      ∃ count, Heard period first turns count ∧
        point = ⟨first + count, byteSend +
          BitVec.ofNat 32 (countedTotal (turns.take count))⟩ := by
  induction turns generalizing first byteSend with
  | nil =>
      apply iff_of_false List.not_mem_nil
      rintro ⟨count, hheard, -⟩
      exact absurd hheard.le_length (not_le.mpr hheard.pos)
  | cons turn turns ih =>
      have hone : countedTotal ((turn :: turns).take 1) =
          countedBytes turn := by
        simp [countedTotal]
      have hmore : ∀ count, (⟨first + (count + 1), byteSend + BitVec.ofNat 32
          (countedTotal ((turn :: turns).take (count + 1)))⟩ : ReportPoint) =
          ⟨first + 1 + count,
            byteSend + BitVec.ofNat 32 (countedBytes turn) +
              BitVec.ofNat 32 (countedTotal (turns.take count))⟩ := by
        intro count
        rw [List.take_succ_cons, countedTotal, List.map_cons, List.sum_cons,
          BitVec.ofNat_add, BitVec.add_assoc, Nat.add_comm count,
          Nat.add_assoc]
        rfl
      simp only [exists_heard_cons_iff, hmore, hone]
      by_cases hturn : turn.Passes period (BitVec.ofNat 32 first)
      · rw [heardPoints_cons_of_passes period byteSend turns hturn,
          List.mem_append, ih, and_iff_right hturn]
        apply or_congr_left
        by_cases hdue : Due period (first + 1)
        · rw [if_pos hdue, List.mem_singleton, and_iff_right hdue]
        · rw [if_neg hdue]
          exact iff_of_false List.not_mem_nil fun hboth => hdue hboth.1
      · rw [heardPoints_cons_of_not_passes period byteSend turns hturn]
        exact iff_of_false List.not_mem_nil fun hboth => hturn hboth.1

theorem dueReads_append (period : BitVec 32) (first later : ℕ) :
    dueReads period (first + later) = dueReads period first ++
      (List.range' (1 + first) later).filter
        fun reads => decide (Due period reads) := by
  rw [dueReads, ← List.range'_append_1, List.filter_append]
  rfl

/-- The counter `i` behind `reads` chunks. -/
theorem toInt_counter {reads : ℕ} (hreads : reads < 2 ^ 32) :
    (BitVec.ofNat 32 reads).toInt =
      if reads < 2 ^ 31 then (reads : ℤ) else reads - 2 ^ 32 := by
  have htoNat : (BitVec.ofNat 32 reads).toNat = reads := by
    rw [BitVec.toNat_ofNat]
    exact Nat.mod_eq_of_lt hreads
  rw [BitVec.toInt_eq_toNat_cond, htoNat]
  by_cases hsmall : reads < 2 ^ 31
  · rw [if_pos (by omega), if_pos hsmall]
  · rw [if_neg (by omega), if_neg hsmall]
    rfl

theorem due_iff_dvd_toInt {period : ℕ} (hperiod : period < 2 ^ 31)
    (reads : ℕ) :
    Due (BitVec.ofNat 32 period) reads ↔
      (period : ℤ) ∣ (BitVec.ofNat 32 reads).toInt := by
  have htoInt : (BitVec.ofNat 32 period).toInt = period := by
    rw [toInt_counter (by omega), if_pos hperiod]
  rw [Due, ← BitVec.toInt_inj, BitVec.toInt_srem, htoInt, BitVec.toInt_zero,
    ← Int.dvd_iff_tmod_eq_zero]

/-- Before the counter overflows, the due turns are the multiples of the
period. -/
theorem dueReads_eq_multiples {period count : ℕ} (hperiod : period < 2 ^ 31)
    (hcount : count < 2 ^ 31) :
    dueReads (BitVec.ofNat 32 period) count = multiples period count := by
  apply List.filter_congr
  intro reads hreads
  have hle := (List.mem_range'_1.mp hreads).2
  rw [decide_eq_decide, due_iff_dvd_toInt hperiod,
    toInt_counter (by omega), if_pos (by omega), Int.natCast_dvd_natCast]

/-! ## A transfer that the daemon survives -/

section Transfer

variable {filename : FileName} {file : List Byte} {period : BitVec 32}
variable {calls : SendCalls filename file} (repos : SyncRepos)

/-- The reports a transfer makes in its loop, the lost one included. -/
def periodicReports (period : BitVec 32) (calls : SendCalls filename file) :
    List ReportPoint :=
  reportPoints period 0 0#32 (countedTurns period 0#32 calls.turns)

/-- What the loop leaves. -/
theorem loopEnd_fields (destIp : List Byte) (port : BitVec 32) :
    (loopEnd period destIp port calls repos).writes = filename.bytes ::
        (executed period 0#32 calls.turns).map (fun turn => turn.data.bytes) ∧
      (loopEnd period destIp port calls repos).byteSend = BitVec.ofNat 32
        (countedTotal (executed period 0#32 calls.turns)) ∧
      (loopEnd period destIp port calls repos).reports =
        (heardPoints period 0 0#32 calls.turns).map fun point =>
          ⟨point.byteSend, calls.fileSize, filename.bytes, port, destIp⟩ := by
  refine ⟨?_, ?_, ?_⟩
  · rw [loopEnd_eq_foldl, foldl_sendTurn_writes]
    rfl
  · rw [loopEnd_eq_foldl, foldl_sendTurn_byteSend]
    exact BitVec.zero_add _
  · cases hsignal : calls.nameSignalled with
    | true =>
        rw [loopEnd, calls.turns_of_nameSignalled hsignal]
        rfl
    | false =>
        have hstart : (loopStart calls repos).running = true := by
          rw [loopStart, hsignal]
          rfl
        exact @sendLoop_reports period _ calls.turns (loopStart calls repos) 0
          hstart rfl

/-- A transfer that returned. -/
structure Completed (period : BitVec 32) (destIp : List Byte)
    (port : BitVec 32) (calls : SendCalls filename file) (repos : SyncRepos)
    (final : SendState) : Prop where
  writes : final.writes = filename.bytes ::
    calls.turns.map fun turn => turn.data.bytes
  byteSend : final.byteSend = BitVec.ofNat 32 (countedTotal calls.turns)
  repos : final.repos = removeItemFromSyncRepos repos
  reports : final.reports = (reportPoints period 0 0#32 calls.turns).map
      (fun point => ⟨point.byteSend, calls.fileSize, filename.bytes, port,
        destIp⟩) ++
    [⟨BitVec.ofNat 32 (countedTotal calls.turns),
      calls.finish - calls.start, filename.bytes, port, destIp⟩]

theorem completed_of_completes (hcompletes : Completes period calls)
    {home : SyncHome} {destIp : List Byte} {port : BitVec 32}
    {final : SendState}
    (hfinal : sendFileToRemotePeer period home destIp port calls repos =
      .ok final) :
    Completed period destIp port calls repos final := by
  obtain ⟨-, rfl⟩ := (sendFileToRemotePeer_eq_ok_iff ..).mp hfinal
  have hloop := hcompletes.2.1
  obtain ⟨hwrites, hbytes, hreports⟩ := @loopEnd_fields _ _ period calls repos
    destIp port
  rw [executed_of_completes hloop] at hwrites hbytes
  rw [heardPoints_of_completes period _ hloop] at hreports
  refine ⟨?_, ?_, repos_of_completes destIp port repos hcompletes, ?_⟩
  · rw [transferred, endTransfer_writes, hwrites]
  · rw [transferred, endTransfer_byteSend, hbytes]
  · rw [transferred, endTransfer_reports,
      if_pos ((completes_iff_loopEnd destIp port repos).mpr hcompletes),
      hreports, hbytes]

/-- The reports that reach the GUI: those of the loop but for a lost one, and
the final one when the daemon survives. -/
theorem reports_of_run {home : SyncHome} {destIp : List Byte}
    {port : BitVec 32} {final : SendState}
    (hfinal : sendFileToRemotePeer period home destIp port calls repos =
      .ok final) :
    final.reports =
      (heardPoints period 0 0#32 calls.turns).map
          (fun point => ⟨point.byteSend, calls.fileSize, filename.bytes, port,
            destIp⟩) ++
        if lostAfter period calls = none ∧ ¬ Signalled calls then
          [⟨BitVec.ofNat 32 (countedTotal calls.turns),
            calls.finish - calls.start, filename.bytes, port, destIp⟩]
        else [] := by
  have hiff := completes_iff period calls
  by_cases hcompletes : Completes period calls
  · rw [(completed_of_completes repos hcompletes hfinal).reports,
      if_pos (hiff.mp hcompletes),
      heardPoints_of_completes period _ hcompletes.2.1]
  · obtain ⟨-, rfl⟩ := (sendFileToRemotePeer_eq_ok_iff ..).mp hfinal
    rw [transferred, endTransfer_reports,
      if_neg (mt (completes_iff_loopEnd destIp port repos).mp hcompletes),
      if_neg (mt hiff.mpr hcompletes), List.append_nil,
      (loopEnd_fields repos destIp port).2.2]

end Transfer

end SyncAnywhere.ProgressReports
