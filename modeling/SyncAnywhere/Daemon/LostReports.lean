import SyncAnywhere.Daemon.TaskRetention

/-!
# Transfers whose progress reports are lost

`send_msg_to_gui` ends the daemon when it cannot send a report.  Two runs of a
transfer that differ only in the reports that arrive are compared by the number
of chunks that are sent when the first report is lost.  A `SIGPIPE` ends both
of them at the same `write`.
-/

namespace SyncAnywhere.LostReports

open SyncAnywhere.CMemory
open SyncAnywhere.ByteStream
open SyncAnywhere.Run
open SyncAnywhere.FilePaths
open SyncAnywhere.TaskQueue
open SyncAnywhere.FileSender
open SyncAnywhere.TaskRetention

/-- The number of chunks sent when the loop loses a report, if it loses one;
`i` is the counter in front of the turns. -/
def lostInLoop (period : BitVec 32) : BitVec 32 → List Turn → Option ℕ
  | _, [] => none
  | i, turn :: turns =>
      if turn.signalled then none
      else if (i + 1#32).srem period = 0#32 ∧ turn.reportDelivered = false then
        some 1
      else (lostInLoop period (i + 1#32) turns).map Nat.succ

/-- The turns in front of the first whose `write` raises `SIGPIPE`. -/
def beforeSignal (turns : List Turn) : List Turn :=
  turns.takeWhile fun turn => !turn.signalled

theorem beforeSignal_cons_of_signalled {turn : Turn} (turns : List Turn)
    (hsignal : turn.signalled = true) : beforeSignal (turn :: turns) = [] := by
  simp [beforeSignal, hsignal]

theorem beforeSignal_cons_of_not_signalled {turn : Turn} (turns : List Turn)
    (hsignal : turn.signalled = false) :
    beforeSignal (turn :: turns) = turn :: beforeSignal turns := by
  simp [beforeSignal, hsignal]

theorem beforeSignal_eq_self {turns : List Turn}
    (hnone : ∀ turn ∈ turns, turn.signalled = false) :
    beforeSignal turns = turns := by
  rw [beforeSignal, List.takeWhile_eq_self_iff]
  intro turn hturn
  rw [hnone turn hturn]
  rfl

theorem taken_of_signalled {turn : Turn} (hsignal : turn.signalled = true) :
    taken turn.data.bytes turn.written = [] := by
  rw [turn.written_of_signalled hsignal]
  rfl

section Loop

variable (period : BitVec 32)

/-- A turn that the daemon does not survive ends with `SIGPIPE` or with a lost
report. -/
theorem signalled_or_lost {i : BitVec 32} {turn : Turn}
    (hends : ¬ turn.Passes period i) :
    turn.signalled = true ∨ turn.signalled = false ∧
      (i + 1#32).srem period = 0#32 ∧ turn.reportDelivered = false := by
  rw [Turn.Passes, not_and, Classical.not_imp] at hends
  cases hsignal : turn.signalled with
  | true => exact Or.inl rfl
  | false =>
      obtain ⟨hdue, hdelivered⟩ := hends hsignal
      exact Or.inr ⟨rfl, hdue, Bool.eq_false_of_not_eq_true hdelivered⟩

theorem lostInLoop_cons_of_signalled {i : BitVec 32} {turn : Turn}
    (turns : List Turn) (hsignal : turn.signalled = true) :
    lostInLoop period i (turn :: turns) = none :=
  if_pos hsignal

theorem lostInLoop_cons_of_lost {i : BitVec 32} {turn : Turn}
    (turns : List Turn) (hsignal : turn.signalled = false)
    (hlost : (i + 1#32).srem period = 0#32 ∧ turn.reportDelivered = false) :
    lostInLoop period i (turn :: turns) = some 1 := by
  rw [lostInLoop, hsignal, if_neg Bool.false_ne_true, if_pos hlost]

theorem lostInLoop_cons_of_passes {i : BitVec 32} {turn : Turn}
    (turns : List Turn) (hturn : turn.Passes period i) :
    lostInLoop period i (turn :: turns) =
      (lostInLoop period (i + 1#32) turns).map Nat.succ := by
  have hnot : ¬ ((i + 1#32).srem period = 0#32 ∧
      turn.reportDelivered = false) := by
    rintro ⟨hdue, hdelivered⟩
    rw [hturn.2 hdue] at hdelivered
    contradiction
  rw [lostInLoop, hturn.1, if_neg Bool.false_ne_true, if_neg hnot]

theorem loopCompletes_iff (i : BitVec 32) (turns : List Turn) :
    LoopCompletes period i turns ↔
      lostInLoop period i turns = none ∧
        ∀ turn ∈ turns, turn.signalled = false := by
  induction turns generalizing i with
  | nil => exact iff_of_true trivial ⟨rfl, by simp⟩
  | cons turn turns ih =>
      rw [LoopCompletes, List.forall_mem_cons]
      by_cases hturn : turn.Passes period i
      · rw [lostInLoop_cons_of_passes period turns hturn,
          Option.map_eq_none_iff, ih, and_iff_right hturn,
          and_iff_right hturn.1]
      · rcases signalled_or_lost period hturn with hsignal | ⟨hsignal, hlost⟩
        · simp [hturn, hsignal]
        · rw [lostInLoop_cons_of_lost period turns hsignal hlost]
          simp [hturn]

/-- The loop ends behind the lost report. -/
theorem executed_of_lost {i : BitVec 32} {turns : List Turn} {count : ℕ}
    (hlost : lostInLoop period i turns = some count) :
    executed period i turns = (beforeSignal turns).take count := by
  induction turns generalizing i count with
  | nil => contradiction
  | cons turn turns ih =>
      by_cases hturn : turn.Passes period i
      · rw [lostInLoop_cons_of_passes period turns hturn,
          Option.map_eq_some_iff] at hlost
        obtain ⟨less, hless, rfl⟩ := hlost
        rw [executed_cons_of_passes turns hturn, ih hless,
          beforeSignal_cons_of_not_signalled turns hturn.1,
          List.take_succ_cons]
      · rcases signalled_or_lost period hturn with hsignal | ⟨hsignal, hends⟩
        · rw [lostInLoop_cons_of_signalled period turns hsignal] at hlost
          contradiction
        · rw [lostInLoop_cons_of_lost period turns hsignal hends] at hlost
          obtain rfl : 1 = count := Option.some_inj.mp hlost
          rw [executed_cons_of_not_passes turns hturn,
            beforeSignal_cons_of_not_signalled turns hsignal]
          rfl

/-- Without a lost report it takes the bytes in front of the first
`SIGPIPE`. -/
theorem takenBytes_executed_of_none {i : BitVec 32} {turns : List Turn}
    (hnone : lostInLoop period i turns = none) :
    takenBytes (executed period i turns) = takenBytes (beforeSignal turns) := by
  induction turns generalizing i with
  | nil => rfl
  | cons turn turns ih =>
      by_cases hturn : turn.Passes period i
      · rw [lostInLoop_cons_of_passes period turns hturn,
          Option.map_eq_none_iff] at hnone
        rw [executed_cons_of_passes turns hturn,
          beforeSignal_cons_of_not_signalled turns hturn.1, takenBytes,
          takenBytes, List.flatMap_cons, List.flatMap_cons]
        exact congrArg _ (ih hnone)
      · rcases signalled_or_lost period hturn with hsignal | ⟨hsignal, hends⟩
        · rw [executed_cons_of_not_passes turns hturn,
            beforeSignal_cons_of_signalled turns hsignal, takenBytes,
            List.flatMap_singleton, taken_of_signalled hsignal]
          rfl
        · rw [lostInLoop_cons_of_lost period turns hsignal hends] at hnone
          contradiction

end Loop

/-! ## What a transfer leaves -/

/-- What the peer, the queue and the daemon see of a transfer. -/
structure Effect where
  socket : List Byte
  repos : SyncRepos
  running : Bool

def effect (transfer : CResult SendState) : CResult Effect :=
  transfer >>= fun final => .ok ⟨final.socket, final.repos, final.running⟩

section Transfer

variable {filename : FileName} {file : List Byte}

/-- A `write` of the transfer raises `SIGPIPE` unless a lost report comes
first. -/
def Signalled (calls : SendCalls filename file) : Prop :=
  calls.nameSignalled = true ∨ ∃ turn ∈ calls.turns, turn.signalled = true

instance (calls : SendCalls filename file) : Decidable (Signalled calls) :=
  inferInstanceAs (Decidable (_ ∨ _))

/-- The number of chunks sent when a report is lost; `none` when the transfer
loses no report. -/
def lostAfter (period : BitVec 32) (calls : SendCalls filename file) :
    Option ℕ :=
  (lostInLoop period 0#32 calls.turns).or
    (if Signalled calls ∨ calls.finalReportDelivered = true then none
      else some calls.turns.length)

/-- A transfer without a lost report, and one that loses a report behind
`count` chunks. -/
def effectAfter (calls : SendCalls filename file) (repos : SyncRepos) :
    Option ℕ → Effect
  | none => ⟨taken filename.bytes calls.nameWritten ++
        takenBytes (beforeSignal calls.turns),
      if Signalled calls then repos else removeItemFromSyncRepos repos,
      decide (¬ Signalled calls)⟩
  | some count => ⟨taken filename.bytes calls.nameWritten ++
      takenBytes ((beforeSignal calls.turns).take count), repos, false⟩

theorem not_signalled_iff {calls : SendCalls filename file} :
    ¬ Signalled calls ↔ calls.nameSignalled = false ∧
      ∀ turn ∈ calls.turns, turn.signalled = false := by
  simp [Signalled]

/-- The daemon survives a transfer that loses no report and raises no
signal. -/
theorem completes_iff (period : BitVec 32) (calls : SendCalls filename file) :
    Completes period calls ↔
      lostAfter period calls = none ∧ ¬ Signalled calls := by
  rw [Completes, loopCompletes_iff, lostAfter]
  by_cases hsignal : Signalled calls
  · apply iff_of_false
    · rintro ⟨hname, ⟨-, hturns⟩, -⟩
      exact not_signalled_iff.mpr ⟨hname, hturns⟩ hsignal
    · exact fun hboth => hboth.2 hsignal
  · obtain ⟨hname, hturns⟩ := not_signalled_iff.mp hsignal
    rw [and_iff_right hname, Option.or_eq_none_iff, and_iff_left hturns]
    cases calls.finalReportDelivered <;> simp [hsignal]

theorem effectAfter_lostAfter_of_none {period : BitVec 32}
    {calls : SendCalls filename file} (repos : SyncRepos)
    (hloop : lostInLoop period 0#32 calls.turns = none)
    (hends : ¬ Completes period calls) :
    effectAfter calls repos (lostAfter period calls) =
      ⟨taken filename.bytes calls.nameWritten ++
        takenBytes (beforeSignal calls.turns), repos, false⟩ := by
  by_cases hsignal : Signalled calls
  · have hlost : lostAfter period calls = none := by
      rw [lostAfter, hloop, if_pos (Or.inl hsignal)]
      rfl
    rw [hlost, effectAfter, if_pos hsignal, decide_eq_false (not_not.mpr
      hsignal)]
  · have hfinal : calls.finalReportDelivered = false := by
      rw [completes_iff, lostAfter, hloop] at hends
      simpa [hsignal] using hends
    have hlost : lostAfter period calls = some calls.turns.length := by
      rw [lostAfter, hloop, hfinal]
      simp [hsignal]
    have hall : beforeSignal calls.turns = calls.turns :=
      beforeSignal_eq_self (not_signalled_iff.mp hsignal).2
    rw [hlost, effectAfter, hall, List.take_length]

/-- The first lost report or signal decides what a transfer leaves. -/
theorem effect_of_transfer {period : BitVec 32} (destIp : List Byte)
    (port : BitVec 32) {calls : SendCalls filename file} (repos : SyncRepos) :
    let final := transferred period destIp port calls repos
    (⟨final.socket, final.repos, final.running⟩ : Effect) =
      effectAfter calls repos (lostAfter period calls) := by
  intro final
  have hsocket : final.socket = _ := transferred_socket destIp port repos
  have hrunning := @transferred_running_iff _ _ period destIp port calls repos
  by_cases hcompletes : Completes period calls
  · obtain ⟨hnone, hsignal⟩ := (completes_iff period calls).mp hcompletes
    have hall : beforeSignal calls.turns = calls.turns :=
      beforeSignal_eq_self (not_signalled_iff.mp hsignal).2
    rw [hnone, effectAfter, if_neg hsignal, decide_eq_true hsignal, hall,
      hsocket, executed_of_completes hcompletes.2.1,
      repos_of_completes destIp port repos hcompletes, hrunning.mpr hcompletes]
  · have hrepos : final.repos = repos :=
      repos_of_not_completes destIp port repos hcompletes
    have hends : final.running = false :=
      Bool.eq_false_of_not_eq_true (mt hrunning.mp hcompletes)
    rw [hsocket, hrepos, hends]
    cases hloop : lostInLoop period 0#32 calls.turns with
    | none =>
        rw [effectAfter_lostAfter_of_none repos hloop hcompletes,
          takenBytes_executed_of_none period hloop]
    | some count =>
        have hlost : lostAfter period calls = some count := by
          rw [lostAfter, hloop]
          rfl
        rw [hlost, effectAfter, executed_of_lost period hloop]

theorem effect_send_eq_ok_iff (period : BitVec 32) (home : SyncHome)
    (destIp : List Byte) (port : BitVec 32) (calls : SendCalls filename file)
    (repos : SyncRepos) (result : Effect) :
    effect (sendFileToRemotePeer period home destIp port calls repos) =
        .ok result ↔
      StaysInBounds home calls ∧
        result = effectAfter calls repos (lostAfter period calls) := by
  rw [effect, CResult.bind_eq_ok_iff]
  simp only [sendFileToRemotePeer_eq_ok_iff, CResult.ok.injEq]
  constructor
  · rintro ⟨final, ⟨hbounds, rfl⟩, rfl⟩
    exact ⟨hbounds, effect_of_transfer destIp port repos⟩
  · rintro ⟨hbounds, rfl⟩
    exact ⟨_, ⟨hbounds, rfl⟩, effect_of_transfer destIp port repos⟩

/-! ## Two runs -/

/-- What a turn does to the socket. -/
def chunkOf (turn : Turn) : Part 1000 × ℤ × Bool :=
  (turn.data, turn.written, turn.signalled)

/-- The two runs differ at most in which reports can be sent. -/
structure SameButReports (left right : SendCalls filename file) : Prop where
  connected : left.connected = right.connected
  nameWritten : left.nameWritten = right.nameWritten
  nameSignalled : left.nameSignalled = right.nameSignalled
  reply : left.reply = right.reply
  opened : left.opened = right.opened
  chunks : left.turns.map chunkOf = right.turns.map chunkOf
  readFailed : left.readFailed = right.readFailed
  sizeCalls : left.sizeCalls = right.sizeCalls
  start : left.start = right.start
  finish : left.finish = right.finish

/-- The law of two runs of one sender, `period` being its report period: they
leave the same when they lose their first report behind the same number of
chunks, or lose none; the run that goes on only adds bytes to what the other one
wrote; a lost report ends the daemon with the queue as it was, and so does a
`SIGPIPE`. -/
structure AgreeUpToLoss (period : BitVec 32)
    (left right : SendCalls filename file) (repos : SyncRepos)
    (leftRun rightRun : CResult Effect) : Prop where
  defined : (∃ leftEnd, leftRun = .ok leftEnd) ↔
    ∃ rightEnd, rightRun = .ok rightEnd
  same : lostAfter period left = lostAfter period right →
    ∀ result, leftRun = .ok result ↔ rightRun = .ok result
  comparable : ∀ leftEnd rightEnd, leftRun = .ok leftEnd →
    rightRun = .ok rightEnd →
      leftEnd.socket <+: rightEnd.socket ∨ rightEnd.socket <+: leftEnd.socket
  exits : ∀ leftEnd, leftRun = .ok leftEnd →
    (leftEnd.running = true ↔
        lostAfter period left = none ∧ ¬ Signalled left) ∧
      (leftEnd.running = false → leftEnd.repos = repos)

theorem takenBytes_eq_of_chunks {left right : List Turn}
    (hchunks : left.map chunkOf = right.map chunkOf) :
    takenBytes left = takenBytes right := by
  have htaken : ∀ turns : List Turn, takenBytes turns =
      (turns.map chunkOf).flatMap fun chunk =>
        taken chunk.1.bytes chunk.2.1 := by
    intro turns
    rw [List.flatMap_map]
    rfl
  rw [htaken, htaken, hchunks]

theorem map_chunkOf_beforeSignal (turns : List Turn) :
    (beforeSignal turns).map chunkOf =
      (turns.map chunkOf).takeWhile fun chunk => !chunk.2.2 := by
  rw [List.takeWhile_map]
  rfl

theorem exists_signalled_iff (turns : List Turn) :
    (∃ turn ∈ turns, turn.signalled = true) ↔
      ∃ chunk ∈ turns.map chunkOf, chunk.2.2 = true := by
  simp [chunkOf]

theorem takenBytes_isPrefix {front turns : List Turn} (hfront : front <+: turns) :
    takenBytes front <+: takenBytes turns := by
  obtain ⟨back, rfl⟩ := hfront
  rw [takenBytes, takenBytes, List.flatMap_append]
  exact List.prefix_append _ _

theorem exists_effectAfter_socket (calls : SendCalls filename file)
    (repos : SyncRepos) (lost : Option ℕ) :
    ∃ front, front <+: beforeSignal calls.turns ∧
      (effectAfter calls repos lost).socket =
        taken filename.bytes calls.nameWritten ++ takenBytes front := by
  cases lost with
  | none => exact ⟨beforeSignal calls.turns, List.prefix_rfl, rfl⟩
  | some count =>
      exact ⟨(beforeSignal calls.turns).take count, List.take_prefix _ _, rfl⟩

namespace SameButReports

variable {left right : SendCalls filename file}

theorem staysInBounds_iff (hsame : SameButReports left right)
    (home : SyncHome) : StaysInBounds home left ↔ StaysInBounds home right := by
  rw [StaysInBounds, StaysInBounds, ReplyInBounds, ReplyInBounds,
    hsame.nameSignalled, hsame.reply]

theorem signalled_iff (hsame : SameButReports left right) :
    Signalled left ↔ Signalled right := by
  rw [Signalled, Signalled, exists_signalled_iff, exists_signalled_iff,
    hsame.nameSignalled, hsame.chunks]

theorem beforeSignal_chunks (hsame : SameButReports left right) :
    (beforeSignal left.turns).map chunkOf =
      (beforeSignal right.turns).map chunkOf := by
  rw [map_chunkOf_beforeSignal, map_chunkOf_beforeSignal, hsame.chunks]

theorem effectAfter_eq (hsame : SameButReports left right)
    (repos : SyncRepos) (lost : Option ℕ) :
    effectAfter left repos lost = effectAfter right repos lost := by
  have hreturned := hsame.beforeSignal_chunks
  cases lost with
  | none =>
      simp only [effectAfter, hsame.nameWritten,
        takenBytes_eq_of_chunks hreturned, hsame.signalled_iff]
  | some count =>
      have htake : ((beforeSignal left.turns).take count).map chunkOf =
          ((beforeSignal right.turns).take count).map chunkOf := by
        rw [List.map_take, List.map_take, hreturned]
      rw [effectAfter, effectAfter, hsame.nameWritten,
        takenBytes_eq_of_chunks htake]

theorem socket_comparable (hsame : SameButReports left right)
    (repos : SyncRepos) (leftLost rightLost : Option ℕ) :
    (effectAfter left repos leftLost).socket <+:
        (effectAfter right repos rightLost).socket ∨
      (effectAfter right repos rightLost).socket <+:
        (effectAfter left repos leftLost).socket := by
  rw [hsame.effectAfter_eq]
  obtain ⟨leftFront, hleft, hleftSocket⟩ :=
    exists_effectAfter_socket right repos leftLost
  obtain ⟨rightFront, hright, hrightSocket⟩ :=
    exists_effectAfter_socket right repos rightLost
  rw [hleftSocket, hrightSocket, List.prefix_append_right_inj,
    List.prefix_append_right_inj]
  exact (List.prefix_or_prefix_of_prefix hleft hright).imp
    takenBytes_isPrefix takenBytes_isPrefix

theorem agreeUpToLoss (hsame : SameButReports left right) (period : BitVec 32)
    (home : SyncHome) (destIp : List Byte) (port : BitVec 32)
    (repos : SyncRepos) :
    AgreeUpToLoss period left right repos
      (effect (sendFileToRemotePeer period home destIp port left repos))
      (effect (sendFileToRemotePeer period home destIp port right repos)) where
  defined := by
    simp only [effect_send_eq_ok_iff, exists_and_left,
      hsame.staysInBounds_iff, exists_eq, and_true]
  same := by
    intro hlost result
    rw [effect_send_eq_ok_iff, effect_send_eq_ok_iff, hsame.staysInBounds_iff,
      hsame.effectAfter_eq, hlost]
  comparable := by
    intro leftEnd rightEnd hleft hright
    obtain ⟨-, rfl⟩ := (effect_send_eq_ok_iff ..).mp hleft
    obtain ⟨-, rfl⟩ := (effect_send_eq_ok_iff ..).mp hright
    exact hsame.socket_comparable repos _ _
  exits := by
    intro leftEnd hleft
    obtain ⟨-, rfl⟩ := (effect_send_eq_ok_iff ..).mp hleft
    cases lostAfter period left with
    | none =>
        refine ⟨by simp [effectAfter], fun hexited => ?_⟩
        exact if_pos (of_not_not (of_decide_eq_false hexited))
    | some count => exact ⟨by simp [effectAfter], fun _ => rfl⟩

end SameButReports

/-- Two runs of a sender that differ only in the reports that can be sent agree
up to the first lost report. -/
theorem senders_agree_upToLoss {left right : SendCalls filename file}
    (hsame : SameButReports left right) (home : SyncHome)
    (destIp : List Byte) (port : BitVec 32) (repos : SyncRepos) :
    AgreeUpToLoss 1500#32 left right repos
        (effect (tcpsendFileToRemotePeer home destIp port left repos))
        (effect (tcpsendFileToRemotePeer home destIp port right repos)) ∧
      AgreeUpToLoss 500#32 left right repos
        (effect (udpsendFileToRemotePeer home destIp port left repos))
        (effect (udpsendFileToRemotePeer home destIp port right repos)) :=
  ⟨hsame.agreeUpToLoss 1500#32 home destIp port repos,
    hsame.agreeUpToLoss 500#32 home destIp port repos⟩

end Transfer

/-- A file of one byte is sent in full; the flags say whether the GUI can be
reached in the turn of its chunk and at the end. -/
def oneByteCalls (inTurn atEnd : Bool) :
    SendCalls sampleName.toFileName [0x62#8] :=
  wholeCalls sampleName.toFileName [byteTurn 0x62#8 inTurn] rfl atEnd

theorem oneByteCalls_same (leftTurn leftEnd rightTurn rightEnd : Bool) :
    SameButReports (oneByteCalls leftTurn leftEnd)
      (oneByteCalls rightTurn rightEnd) :=
  ⟨rfl, rfl, rfl, rfl, rfl, rfl, rfl, rfl, rfl, rfl⟩

theorem senders_agree_oneByte :
    AgreeUpToLoss 1500#32 (oneByteCalls true true) (oneByteCalls true false)
        pendingRepos
        (effect (tcpsendFileToRemotePeer sampleHome [] 20000#32
          (oneByteCalls true true) pendingRepos))
        (effect (tcpsendFileToRemotePeer sampleHome [] 20000#32
          (oneByteCalls true false) pendingRepos)) ∧
      AgreeUpToLoss 500#32 (oneByteCalls true true) (oneByteCalls true false)
        pendingRepos
        (effect (udpsendFileToRemotePeer sampleHome [] 20000#32
          (oneByteCalls true true) pendingRepos))
        (effect (udpsendFileToRemotePeer sampleHome [] 20000#32
          (oneByteCalls true false) pendingRepos)) :=
  senders_agree_upToLoss (oneByteCalls_same true true true false) sampleHome []
    20000#32 pendingRepos

/-- The file is sent in full, but without the GUI the daemon exits and the task
stays in the queue. -/
theorem senders_lostFinalReport_exit :
    SameButReports (oneByteCalls true true) (oneByteCalls true false) ∧
      (tcpsendFileToRemotePeer sampleHome [] 20000#32 (oneByteCalls true true)
          pendingRepos >>= fun final =>
            .ok (final.repos.queueTail, final.running)) = .ok (1, true) ∧
      (tcpsendFileToRemotePeer sampleHome [] 20000#32 (oneByteCalls true false)
          pendingRepos >>= fun final =>
            .ok (final.repos.queueTail, final.running)) = .ok (0, false) ∧
      (udpsendFileToRemotePeer sampleHome [] 20000#32 (oneByteCalls true true)
          pendingRepos >>= fun final =>
            .ok (final.repos.queueTail, final.running)) = .ok (1, true) ∧
      (udpsendFileToRemotePeer sampleHome [] 20000#32 (oneByteCalls true false)
          pendingRepos >>= fun final =>
            .ok (final.repos.queueTail, final.running)) = .ok (0, false) := by
  refine ⟨oneByteCalls_same true true true false, ?_, ?_, ?_, ?_⟩
  all_goals decide +kernel

end SyncAnywhere.LostReports
