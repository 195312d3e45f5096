import SyncAnywhere.Core.ByteStream
import SyncAnywhere.Core.ReceivedLine
import SyncAnywhere.Core.Run
import SyncAnywhere.Ipc.FilePaths
import SyncAnywhere.Ipc.FileSize
import SyncAnywhere.Daemon.TaskQueue

/-!
# Sending a file to a peer

`tcpsend_file_to_remote_peer` and `udpsend_file_to_remote_peer` are the same
transfer over a stream socket; they differ in how many chunks pass between two
progress reports.
-/

namespace SyncAnywhere.FileSender

open SyncAnywhere.CMemory
open SyncAnywhere.ByteStream
open SyncAnywhere.ReceivedLine
open SyncAnywhere.Run
open SyncAnywhere.FilePaths
open SyncAnywhere.FileSize
open SyncAnywhere.TaskQueue

/-! ## The environment of a transfer -/

/-- One turn of the transfer loop: what `read` delivers, what `write` returns or
that its `SIGPIPE` ends the daemon, and whether a progress report that falls due
in this turn reaches the GUI. -/
structure Turn where
  data : Part 1000
  written : ℤ
  signalled : Bool
  reportDelivered : Bool
  neg_one_le_written : -1 ≤ written
  written_le : written ≤ data.bytes.length
  written_of_signalled : signalled = true → written = -1

/-- The outcomes of the system calls of one transfer of `file`, whose bytes do
not change meanwhile.  A failing `write` either returns or raises `SIGPIPE`,
which the daemon does not catch; on a socket that is not connected it always
raises it. -/
structure SendCalls (filename : FileName) (file : List Byte) where
  connected : Bool
  nameWritten : ℤ
  nameSignalled : Bool
  /-- `none` when `recv` returns `-1`. -/
  reply : Option (List Byte)
  opened : Bool
  turns : List Turn
  /-- The `read` that ends the loop returns `-1` and not `0`. -/
  readFailed : Bool
  sizeCalls : SizeCalls
  start : BitVec 32
  finish : BitVec 32
  finalReportDelivered : Bool
  neg_one_le_nameWritten : -1 ≤ nameWritten
  nameWritten_le : nameWritten ≤ filename.bytes.length
  written_of_nameSignalled : nameSignalled = true → nameWritten = -1
  nameSignalled_of_not_connected : connected = false → nameSignalled = true
  reply_length : ∀ bytes ∈ reply, bytes.length ≤ 1000
  turns_isPrefix : joined (turns.map Turn.data) <+: file
  turns_of_nameSignalled : nameSignalled = true → turns = []
  turns_of_not_opened : opened = false → turns = []
  turns_all : opened = true → readFailed = false →
    joined (turns.map Turn.data) = file

/-- The size in the reports. -/
def SendCalls.fileSize {filename : FileName} {file : List Byte}
    (calls : SendCalls filename file) : BitVec 32 :=
  getFileSize calls.sizeCalls file

/-! ## The transfer -/

/-- The arguments of one `set_progress_notify_info`; `fileSize` carries the
duration in the final report. -/
structure ProgressReport where
  byteSend : BitVec 32
  fileSize : BitVec 32
  filename : List Byte
  port : BitVec 32
  destIp : List Byte
  deriving DecidableEq

structure SendState where
  /-- The bytes the socket took, in order. -/
  socket : List Byte
  /-- The byte strings passed to `write`, in order. -/
  writes : List (List Byte)
  reports : List ProgressReport
  byteSend : BitVec 32
  i : BitVec 32
  repos : SyncRepos
  /-- Cleared by `exit` and by `SIGPIPE`. -/
  running : Bool

def writeSocket (bytes : List Byte) (written : ℤ) (state : SendState) :
    SendState :=
  { state with
    socket := state.socket ++ taken bytes written
    writes := state.writes ++ [bytes] }

/-- A report that cannot be sent ends the daemon. -/
def sendMsgToGui (delivered : Bool) (report : ProgressReport)
    (state : SendState) : SendState :=
  if delivered then { state with reports := state.reports ++ [report] }
  else { state with running := false }

/-- What follows the `write` of a chunk up to `i++`: only a full write counts as
sent. -/
def countChunk (turn : Turn) (state : SendState) : SendState :=
  let numRead := turn.data.bytes.length
  { state with
    byteSend :=
      if turn.written = numRead then state.byteSend + BitVec.ofNat 32 numRead
      else state.byteSend
    i := state.i + 1#32 }

/-- One turn of the loop, with a report in every `period`-th turn. -/
def sendTurn (period : BitVec 32) (report : BitVec 32 → ProgressReport)
    (turn : Turn) (state : SendState) : SendState :=
  let state := writeSocket turn.data.bytes turn.written state
  if turn.signalled then { state with running := false }
  else
    let state := countChunk turn state
    if state.i.srem period = 0#32 then
      sendMsgToGui turn.reportDelivered (report state.byteSend) state
    else state

def sendLoop (period : BitVec 32) (report : BitVec 32 → ProgressReport) :
    List Turn → SendState → SendState
  | [], state => state
  | turn :: turns, state =>
      let state := sendTurn period report turn state
      if state.running then sendLoop period report turns state else state

/-- What follows the loop: the final report, then the removal. -/
def endTransfer (delivered : Bool) (report : BitVec 32 → ProgressReport)
    (state : SendState) : SendState :=
  if state.running then
    let state := sendMsgToGui delivered (report state.byteSend) state
    if state.running then
      { state with repos := removeItemFromSyncRepos state.repos }
    else state
  else state

section Transfer

variable {filename : FileName} {file : List Byte}

/-- A transfer up to the return of the function, to `exit` or to `SIGPIPE`.  The
outcomes of `connect`, of `open` and of the comparison with `"OK"` are only
printed; a refused `connect` shows in the `write` of the name. -/
def sendFileToRemotePeer (period : BitVec 32) (home : SyncHome)
    (destIp : List Byte) (port : BitVec 32) (calls : SendCalls filename file)
    (repos : SyncRepos) : CResult SendState := do
  let buf ← sprintf (List.replicate 1000 0#8) filename.bytes
  let state := writeSocket (cstr buf) calls.nameWritten
    ⟨[], [], [], 0#32, 0#32, repos, true⟩
  if calls.nameSignalled then pure { state with running := false }
  else
    match calls.reply with
    | none => .undefined
    | some reply => do
        let _ ← terminateAndStrip (overlay reply buf) reply.length
        let _ ← sprintfFilepath home 200 filename.bytes
        let report := fun size byteSend =>
          ⟨byteSend, size, filename.bytes, port, destIp⟩
        let state := sendLoop period (report calls.fileSize) calls.turns state
        pure (endTransfer calls.finalReportDelivered
          (report (calls.finish - calls.start)) state)

def tcpsendFileToRemotePeer (home : SyncHome) (destIp : List Byte)
    (port : BitVec 32) (calls : SendCalls filename file) (repos : SyncRepos) :
    CResult SendState :=
  sendFileToRemotePeer 1500#32 home destIp port calls repos

def udpsendFileToRemotePeer (home : SyncHome) (destIp : List Byte)
    (port : BitVec 32) (calls : SendCalls filename file) (repos : SyncRepos) :
    CResult SendState :=
  sendFileToRemotePeer 500#32 home destIp port calls repos

end Transfer

/-! ## The loop -/

/-- The daemon survives a turn in front of which the counter is `i`: no
`SIGPIPE` in its `write`, and its report, if it is due, is delivered. -/
def Turn.Passes (period i : BitVec 32) (turn : Turn) : Prop :=
  turn.signalled = false ∧
    ((i + 1#32).srem period = 0#32 → turn.reportDelivered = true)

instance (period i : BitVec 32) (turn : Turn) :
    Decidable (turn.Passes period i) :=
  inferInstanceAs (Decidable (_ ∧ _))

/-- The daemon survives the loop. -/
def LoopCompletes (period : BitVec 32) : BitVec 32 → List Turn → Prop
  | _, [] => True
  | i, turn :: turns =>
      turn.Passes period i ∧ LoopCompletes period (i + 1#32) turns

/-- The turns the loop goes through: the one that ends the daemon is the
last. -/
def executed (period : BitVec 32) : BitVec 32 → List Turn → List Turn
  | _, [] => []
  | i, turn :: turns =>
      if turn.Passes period i then turn :: executed period (i + 1#32) turns
      else [turn]

/-- The bytes the socket takes in a list of turns. -/
def takenBytes (turns : List Turn) : List Byte :=
  turns.flatMap fun turn => taken turn.data.bytes turn.written

theorem executed_cons_of_passes {period i : BitVec 32} {turn : Turn}
    (turns : List Turn) (hturn : turn.Passes period i) :
    executed period i (turn :: turns) =
      turn :: executed period (i + 1#32) turns :=
  if_pos hturn

theorem executed_cons_of_not_passes {period i : BitVec 32} {turn : Turn}
    (turns : List Turn) (hends : ¬ turn.Passes period i) :
    executed period i (turn :: turns) = [turn] :=
  if_neg hends

theorem executed_isPrefix (period i : BitVec 32) (turns : List Turn) :
    executed period i turns <+: turns := by
  induction turns generalizing i with
  | nil => exact List.nil_prefix
  | cons turn turns ih =>
      by_cases hturn : turn.Passes period i
      · rw [executed_cons_of_passes turns hturn, List.prefix_cons_inj]
        exact ih (i + 1#32)
      · rw [executed_cons_of_not_passes turns hturn]
        exact List.prefix_append [turn] turns

/-- The loop goes through all turns when the daemon survives all but the
last. -/
theorem executed_eq_self_iff (period i : BitVec 32) (turns : List Turn) :
    executed period i turns = turns ↔
      LoopCompletes period i turns.dropLast := by
  induction turns generalizing i with
  | nil => exact iff_of_true rfl trivial
  | cons turn turns ih =>
      by_cases hturn : turn.Passes period i
      · rw [executed_cons_of_passes turns hturn, List.cons_inj_right, ih]
        cases turns with
        | nil => exact iff_of_true trivial trivial
        | cons next rest =>
            rw [List.dropLast_cons_of_ne_nil (List.cons_ne_nil next rest),
              LoopCompletes, and_iff_right hturn]
      · rw [executed_cons_of_not_passes turns hturn]
        cases turns with
        | nil => exact iff_of_true rfl trivial
        | cons next rest =>
            rw [List.dropLast_cons_of_ne_nil (List.cons_ne_nil next rest)]
            exact iff_of_false (by simp) fun hcompletes => hturn hcompletes.1

theorem LoopCompletes.dropLast {period i : BitVec 32} {turns : List Turn}
    (hcompletes : LoopCompletes period i turns) :
    LoopCompletes period i turns.dropLast := by
  induction turns generalizing i with
  | nil => exact trivial
  | cons turn turns ih =>
      obtain ⟨hturn, hrest⟩ := hcompletes
      cases turns with
      | nil => exact trivial
      | cons next rest =>
          rw [List.dropLast_cons_of_ne_nil (List.cons_ne_nil next rest)]
          exact ⟨hturn, ih hrest⟩

theorem executed_of_completes {period i : BitVec 32} {turns : List Turn}
    (hcompletes : LoopCompletes period i turns) :
    executed period i turns = turns :=
  (executed_eq_self_iff period i turns).mpr hcompletes.dropLast

section SendMsg

variable (delivered : Bool) (report : ProgressReport) (state : SendState)

@[simp]
theorem sendMsgToGui_repos :
    (sendMsgToGui delivered report state).repos = state.repos := by
  cases delivered <;> rfl

@[simp]
theorem sendMsgToGui_i :
    (sendMsgToGui delivered report state).i = state.i := by
  cases delivered <;> rfl

@[simp]
theorem sendMsgToGui_socket :
    (sendMsgToGui delivered report state).socket = state.socket := by
  cases delivered <;> rfl

@[simp]
theorem sendMsgToGui_writes :
    (sendMsgToGui delivered report state).writes = state.writes := by
  cases delivered <;> rfl

@[simp]
theorem sendMsgToGui_byteSend :
    (sendMsgToGui delivered report state).byteSend = state.byteSend := by
  cases delivered <;> rfl

@[simp]
theorem sendMsgToGui_running :
    (sendMsgToGui delivered report state).running =
      (delivered && state.running) := by
  cases delivered <;> rfl

end SendMsg

section Loop

variable (period : BitVec 32) (report : BitVec 32 → ProgressReport)

@[simp]
theorem sendTurn_repos (turn : Turn) (state : SendState) :
    (sendTurn period report turn state).repos = state.repos := by
  rw [sendTurn, apply_ite SendState.repos, apply_ite SendState.repos,
    sendMsgToGui_repos, ite_self]
  exact ite_self _

@[simp]
theorem sendTurn_socket (turn : Turn) (state : SendState) :
    (sendTurn period report turn state).socket =
      state.socket ++ taken turn.data.bytes turn.written := by
  rw [sendTurn, apply_ite SendState.socket, apply_ite SendState.socket,
    sendMsgToGui_socket, ite_self]
  exact ite_self _

@[simp]
theorem sendTurn_writes (turn : Turn) (state : SendState) :
    (sendTurn period report turn state).writes =
      state.writes ++ [turn.data.bytes] := by
  rw [sendTurn, apply_ite SendState.writes, apply_ite SendState.writes,
    sendMsgToGui_writes, ite_self]
  exact ite_self _

/-- A turn whose `write` returns. -/
theorem sendTurn_of_not_signalled {turn : Turn}
    (hsignal : turn.signalled = false) (state : SendState) :
    sendTurn period report turn state =
      let state := countChunk turn
        (writeSocket turn.data.bytes turn.written state)
      if state.i.srem period = 0#32 then
        sendMsgToGui turn.reportDelivered (report state.byteSend) state
      else state := by
  rw [sendTurn, hsignal]
  rfl

theorem sendTurn_of_signalled {turn : Turn} (hsignal : turn.signalled = true)
    (state : SendState) :
    sendTurn period report turn state =
      { writeSocket turn.data.bytes turn.written state with
        running := false } := by
  rw [sendTurn, hsignal]
  rfl

theorem sendTurn_i {turn : Turn} (hsignal : turn.signalled = false)
    (state : SendState) :
    (sendTurn period report turn state).i = state.i + 1#32 := by
  rw [sendTurn_of_not_signalled period report hsignal, apply_ite SendState.i,
    sendMsgToGui_i, ite_self]
  rfl

theorem sendTurn_running_iff (turn : Turn) {state : SendState}
    (hrunning : state.running = true) :
    (sendTurn period report turn state).running = true ↔
      turn.Passes period state.i := by
  rw [Turn.Passes]
  cases hsignal : turn.signalled with
  | true =>
      rw [sendTurn_of_signalled period report hsignal]
      simp
  | false =>
      have hcounted : (countChunk turn (writeSocket turn.data.bytes
        turn.written state)).running = true := hrunning
      have hi : (countChunk turn (writeSocket turn.data.bytes turn.written
        state)).i = state.i + 1#32 := rfl
      rw [sendTurn_of_not_signalled period report hsignal,
        apply_ite SendState.running, sendMsgToGui_running, hcounted, hi]
      by_cases hdue : (state.i + 1#32).srem period = 0#32
      · simp [hdue]
      · simp [hdue]

/-- The loop goes on behind a turn that the daemon survives. -/
theorem sendLoop_cons_of_passes {turn : Turn} {state : SendState}
    (turns : List Turn) (hrunning : state.running = true)
    (hturn : turn.Passes period state.i) :
    sendLoop period report (turn :: turns) state =
      sendLoop period report turns (sendTurn period report turn state) :=
  if_pos ((sendTurn_running_iff period report turn hrunning).mpr hturn)

/-- Any other turn is its last. -/
theorem sendLoop_cons_of_not_passes {turn : Turn} {state : SendState}
    (turns : List Turn) (hrunning : state.running = true)
    (hends : ¬ turn.Passes period state.i) :
    sendLoop period report (turn :: turns) state =
      sendTurn period report turn state :=
  if_neg (mt (sendTurn_running_iff period report turn hrunning).mp hends)

theorem sendLoop_repos (turns : List Turn) (state : SendState) :
    (sendLoop period report turns state).repos = state.repos := by
  induction turns generalizing state with
  | nil => rfl
  | cons turn turns ih =>
      rw [sendLoop, apply_ite SendState.repos, ih, sendTurn_repos, ite_self]

theorem sendLoop_running_iff (turns : List Turn) {state : SendState}
    (hrunning : state.running = true) :
    (sendLoop period report turns state).running = true ↔
      LoopCompletes period state.i turns := by
  induction turns generalizing state with
  | nil => exact iff_of_true hrunning trivial
  | cons turn turns ih =>
      have hnext := sendTurn_running_iff period report turn hrunning
      rw [LoopCompletes]
      by_cases hturn : turn.Passes period state.i
      · rw [sendLoop_cons_of_passes period report turns hrunning hturn,
          ih (hnext.mpr hturn), sendTurn_i period report hturn.1,
          and_iff_right hturn]
      · rw [sendLoop_cons_of_not_passes period report turns hrunning hturn,
          hnext]
        exact iff_of_false hturn fun hcompletes => hturn hcompletes.1

theorem sendLoop_eq_foldl (turns : List Turn) {state : SendState}
    (hrunning : state.running = true) :
    sendLoop period report turns state =
      (executed period state.i turns).foldl
        (fun state turn => sendTurn period report turn state) state := by
  induction turns generalizing state with
  | nil => rfl
  | cons turn turns ih =>
      by_cases hturn : turn.Passes period state.i
      · have hnext : (sendTurn period report turn state).running = true :=
          (sendTurn_running_iff period report turn hrunning).mpr hturn
        rw [sendLoop_cons_of_passes period report turns hrunning hturn,
          ih hnext, sendTurn_i period report hturn.1,
          executed_cons_of_passes turns hturn, List.foldl_cons]
      · rw [sendLoop_cons_of_not_passes period report turns hrunning hturn,
          executed_cons_of_not_passes turns hturn]
        rfl

@[simp]
theorem endTransfer_socket (delivered : Bool) (state : SendState) :
    (endTransfer delivered report state).socket = state.socket := by
  rw [endTransfer]
  simp only [apply_ite SendState.socket, sendMsgToGui_socket, ite_self]

@[simp]
theorem endTransfer_writes (delivered : Bool) (state : SendState) :
    (endTransfer delivered report state).writes = state.writes := by
  rw [endTransfer]
  simp only [apply_ite SendState.writes, sendMsgToGui_writes, ite_self]

@[simp]
theorem endTransfer_byteSend (delivered : Bool) (state : SendState) :
    (endTransfer delivered report state).byteSend = state.byteSend := by
  rw [endTransfer]
  simp only [apply_ite SendState.byteSend, sendMsgToGui_byteSend, ite_self]

@[simp]
theorem endTransfer_running (delivered : Bool) (state : SendState) :
    (endTransfer delivered report state).running = true ↔
      state.running = true ∧ delivered = true := by
  cases hrunning : state.running
  · simp [endTransfer, hrunning]
  · cases delivered
    · simp [endTransfer, hrunning]
    · simp [endTransfer, hrunning]

theorem endTransfer_repos (delivered : Bool) (state : SendState) :
    (endTransfer delivered report state).repos =
      if state.running = true ∧ delivered = true then
        removeItemFromSyncRepos state.repos
      else state.repos := by
  cases hrunning : state.running
  · simp [endTransfer, hrunning]
  · cases delivered
    · simp [endTransfer, hrunning]
    · simp [endTransfer, hrunning]

theorem endTransfer_reports (delivered : Bool) (state : SendState) :
    (endTransfer delivered report state).reports =
      if state.running = true ∧ delivered = true then
        state.reports ++ [report state.byteSend]
      else state.reports := by
  cases hrunning : state.running
  · simp [endTransfer, hrunning]
  · cases delivered
    · simp [endTransfer, hrunning, sendMsgToGui]
    · simp [endTransfer, hrunning, sendMsgToGui]

end Loop

/-! ## The whole transfer -/

section Transfer

variable {filename : FileName} {file : List Byte}

/-- The reply leaves room for its NUL and keeps at least one character while
its line end is stripped. -/
def ReplyInBounds (calls : SendCalls filename file) : Prop :=
  ∃ reply, calls.reply = some reply ∧ reply.length < 1000 ∧
    cstr reply ≠ [] ∧ cstr reply ≠ [0x0a#8]

def PathInBounds (home : SyncHome) (filename : FileName) : Prop :=
  home.path.length + filename.bytes.length + 1 < 200

/-- The transfer ends at the `write` of the name, or the reply and the path stay
in bounds. -/
def StaysInBounds (home : SyncHome) (calls : SendCalls filename file) : Prop :=
  calls.nameSignalled = true ∨
    ReplyInBounds calls ∧ PathInBounds home filename

/-- The daemon survives the transfer. -/
def Completes (period : BitVec 32) (calls : SendCalls filename file) : Prop :=
  calls.nameSignalled = false ∧ LoopCompletes period 0#32 calls.turns ∧
    calls.finalReportDelivered = true

/-- The state behind the `write` of the name. -/
def loopStart (calls : SendCalls filename file) (repos : SyncRepos) :
    SendState :=
  writeSocket filename.bytes calls.nameWritten
    ⟨[], [], [], 0#32, 0#32, repos, !calls.nameSignalled⟩

/-- The state behind the loop. -/
def loopEnd (period : BitVec 32) (destIp : List Byte) (port : BitVec 32)
    (calls : SendCalls filename file) (repos : SyncRepos) : SendState :=
  sendLoop period (⟨·, calls.fileSize, filename.bytes, port, destIp⟩)
    calls.turns (loopStart calls repos)

/-- The state in which a transfer ends. -/
def transferred (period : BitVec 32) (destIp : List Byte) (port : BitVec 32)
    (calls : SendCalls filename file) (repos : SyncRepos) : SendState :=
  endTransfer calls.finalReportDelivered
    (⟨·, calls.finish - calls.start, filename.bytes, port, destIp⟩)
    (loopEnd period destIp port calls repos)

theorem transferred_of_nameSignalled {period : BitVec 32} (destIp : List Byte)
    (port : BitVec 32) {calls : SendCalls filename file} (repos : SyncRepos)
    (hsignal : calls.nameSignalled = true) :
    transferred period destIp port calls repos = loopStart calls repos := by
  rw [transferred, loopEnd, calls.turns_of_nameSignalled hsignal, sendLoop,
    endTransfer, loopStart, writeSocket, hsignal]
  rfl

/-- Spec of the transfer. -/
theorem sendFileToRemotePeer_eq_ok_iff (period : BitVec 32) (home : SyncHome)
    (destIp : List Byte) (port : BitVec 32) (calls : SendCalls filename file)
    (repos : SyncRepos) (final : SendState) :
    sendFileToRemotePeer period home destIp port calls repos = .ok final ↔
      StaysInBounds home calls ∧
        final = transferred period destIp port calls repos := by
  have hname := filename.length_lt
  have hbuf : sprintf (List.replicate 1000 0#8) filename.bytes =
      .ok (overlay (filename.bytes ++ [0#8]) (List.replicate 1000 0#8)) := by
    rw [sprintf, if_pos (by simp only [List.length_replicate]; omega)]
  have hlength : (overlay (filename.bytes ++ [0#8])
      (List.replicate 1000 0#8)).length = 1000 := by
    rw [length_overlay, List.length_replicate]
    simp only [List.length_append, List.length_singleton,
      List.length_replicate]
    omega
  rw [sendFileToRemotePeer, hbuf, CResult.ok_bind,
    cstr_printed filename.nulFree, StaysInBounds]
  cases hsignal : calls.nameSignalled with
  | true =>
      rw [transferred_of_nameSignalled destIp port repos hsignal, if_pos rfl,
        and_iff_right (Or.inl rfl), CResult.pure_eq_ok, CResult.ok.injEq,
        eq_comm, loopStart, hsignal]
      rfl
  | false =>
      have hstart : loopStart calls repos = writeSocket filename.bytes
          calls.nameWritten ⟨[], [], [], 0#32, 0#32, repos, true⟩ := by
        rw [loopStart, hsignal]
        rfl
      rw [if_neg Bool.false_ne_true, or_iff_right Bool.false_ne_true,
        transferred, loopEnd, hstart]
      cases hreply : calls.reply with
      | none => simp [ReplyInBounds, hreply]
      | some reply =>
          have hmax := calls.reply_length reply hreply
          have hstrip := terminateAndStrip_defined_iff
            (hmax.trans_eq hlength.symm) (by omega)
          rw [hlength] at hstrip
          have hbounds : ReplyInBounds calls ↔ ∃ text, terminateAndStrip
              (overlay reply (overlay (filename.bytes ++ [0#8])
                (List.replicate 1000 0#8))) reply.length = .ok text := by
            rw [hstrip, ReplyInBounds, hreply]
            simp
          rw [hbounds, CResult.bind_eq_ok_iff, ← exists_and_right,
            ← exists_and_right]
          apply exists_congr
          intro text
          rw [and_assoc]
          apply and_congr_right
          intro _
          rw [sprintfFilepath_eq home filename.nulFree, PathInBounds]
          by_cases hfits : home.path.length + filename.bytes.length + 1 < 200
          · rw [if_pos hfits, CResult.ok_bind, and_iff_right hfits,
              CResult.pure_eq_ok, CResult.ok.injEq, eq_comm]
          · simp [hfits]

/-- Every write is accepted in full and the reads return the whole file. -/
def SentInFull (calls : SendCalls filename file) : Prop :=
  (filename.bytes = [] ∨ calls.nameWritten = filename.bytes.length) ∧
    (∀ turn ∈ calls.turns, turn.written = turn.data.bytes.length) ∧
    joined (calls.turns.map Turn.data) = file

section Ending

variable {period : BitVec 32} (destIp : List Byte) (port : BitVec 32)
variable {calls : SendCalls filename file} (repos : SyncRepos)

theorem loopEnd_running_iff :
    (loopEnd period destIp port calls repos).running = true ↔
      calls.nameSignalled = false ∧ LoopCompletes period 0#32 calls.turns := by
  cases hsignal : calls.nameSignalled with
  | true =>
      have hturns := calls.turns_of_nameSignalled hsignal
      simp [loopEnd, hturns, sendLoop, loopStart, writeSocket, hsignal]
  | false =>
      have hstart : (loopStart calls repos).running = true := by
        rw [loopStart, hsignal]
        rfl
      rw [loopEnd, sendLoop_running_iff period _ calls.turns hstart,
        and_iff_right rfl]
      rfl

/-- The loop goes through its turns, which are none when the `write` of the name
ends the daemon. -/
theorem loopEnd_eq_foldl :
    loopEnd period destIp port calls repos =
      (executed period 0#32 calls.turns).foldl
        (fun state turn => sendTurn period
          (⟨·, calls.fileSize, filename.bytes, port, destIp⟩) turn state)
        (loopStart calls repos) := by
  cases hsignal : calls.nameSignalled with
  | true =>
      rw [loopEnd, calls.turns_of_nameSignalled hsignal]
      rfl
  | false =>
      have hstart : (loopStart calls repos).running = true := by
        rw [loopStart, hsignal]
        rfl
      exact sendLoop_eq_foldl period _ calls.turns hstart

theorem completes_iff_loopEnd :
    (loopEnd period destIp port calls repos).running = true ∧
        calls.finalReportDelivered = true ↔ Completes period calls := by
  rw [loopEnd_running_iff, and_assoc, Completes]

theorem transferred_running_iff :
    (transferred period destIp port calls repos).running = true ↔
      Completes period calls := by
  rw [transferred, endTransfer_running, completes_iff_loopEnd]

/-- A transfer that the daemon survives removes the task. -/
theorem repos_of_completes (hcompletes : Completes period calls) :
    (transferred period destIp port calls repos).repos =
      removeItemFromSyncRepos repos := by
  rw [transferred, endTransfer_repos,
    if_pos ((completes_iff_loopEnd destIp port repos).mpr hcompletes), loopEnd,
    sendLoop_repos]
  rfl

/-- Any other leaves the queue as it was. -/
theorem repos_of_not_completes (hends : ¬ Completes period calls) :
    (transferred period destIp port calls repos).repos = repos := by
  rw [transferred, endTransfer_repos,
    if_neg (mt (completes_iff_loopEnd destIp port repos).mp hends), loopEnd,
    sendLoop_repos]
  rfl

theorem transferred_socket :
    (transferred period destIp port calls repos).socket =
      taken filename.bytes calls.nameWritten ++
        takenBytes (executed period 0#32 calls.turns) := by
  rw [transferred, endTransfer_socket, loopEnd_eq_foldl]
  exact view_run_append _ SendState.socket
    (fun state turn => sendTurn_socket period _ turn state) _ _

end Ending

/-! ## What the socket takes -/

/-- What is at most the length of each chunk is in sum at most the number of
bytes read. -/
theorem sum_le_length_joined {count : Turn → ℕ}
    (hcount : ∀ turn, count turn ≤ turn.data.bytes.length)
    (turns : List Turn) :
    (turns.map count).sum ≤ (joined (turns.map Turn.data)).length := by
  rw [joined, List.flatMap_map, List.length_flatMap]
  apply List.sum_le_sum
  intro turn _
  exact hcount turn

theorem length_takenBytes_le (turns : List Turn) :
    (takenBytes turns).length ≤ (joined (turns.map Turn.data)).length := by
  rw [takenBytes, List.length_flatMap]
  apply sum_le_length_joined
  intro turn
  exact length_taken_le turn.data.bytes turn.written

theorem takenBytes_of_full {turns : List Turn}
    (hfull : ∀ turn ∈ turns, turn.written = turn.data.bytes.length) :
    takenBytes turns = joined (turns.map Turn.data) := by
  induction turns with
  | nil => rfl
  | cons turn turns ih =>
      have hturn := hfull turn List.mem_cons_self
      have hrest := ih fun other hother =>
        hfull other (List.mem_cons_of_mem turn hother)
      rw [takenBytes, List.flatMap_cons, hturn, taken_all, List.map_cons,
        joined_cons, ← hrest]
      rfl

/-- No byte is missing only when every write took its whole chunk. -/
theorem length_takenBytes_eq_iff (turns : List Turn) :
    (takenBytes turns).length = (joined (turns.map Turn.data)).length ↔
      ∀ turn ∈ turns, turn.written = turn.data.bytes.length := by
  constructor
  · intro heq
    induction turns with
    | nil => simp
    | cons turn turns ih =>
        have hrest := length_takenBytes_le turns
        have hhead := length_taken_le turn.data.bytes turn.written
        simp only [takenBytes, List.flatMap_cons, List.length_append,
          List.map_cons, joined_cons] at ih heq hrest
        have hturn := (length_taken_eq_iff
          (List.length_pos_iff.mp turn.data.length_pos) turn.written_le).mp
            (by omega)
        have htail := ih (by omega)
        simpa using ⟨hturn, htail⟩
  · intro hfull
    rw [takenBytes_of_full hfull]

theorem taken_name_eq_iff (calls : SendCalls filename file) :
    (taken filename.bytes calls.nameWritten).length =
        filename.bytes.length ↔
      filename.bytes = [] ∨ calls.nameWritten = filename.bytes.length := by
  by_cases hempty : filename.bytes = []
  · simp [hempty, taken]
  · rw [length_taken_eq_iff hempty calls.nameWritten_le]
    simp [hempty]

/-- The socket has the name and the file exactly when every write was full. -/
theorem socket_eq_iff (calls : SendCalls filename file) :
    taken filename.bytes calls.nameWritten ++ takenBytes calls.turns =
        filename.bytes ++ file ↔ SentInFull calls := by
  have hname := length_taken_le filename.bytes calls.nameWritten
  have hturns := length_takenBytes_le calls.turns
  have hread := calls.turns_isPrefix.length_le
  constructor
  · intro heq
    have hlength := congrArg List.length heq
    rw [List.length_append, List.length_append] at hlength
    refine ⟨(taken_name_eq_iff calls).mp (by omega),
      (length_takenBytes_eq_iff calls.turns).mp (by omega), ?_⟩
    exact calls.turns_isPrefix.eq_of_length (by omega)
  · rintro ⟨hfullName, hfullTurns, hall⟩
    rw [takenBytes_of_full hfullTurns, hall]
    rcases hfullName with hempty | hwritten
    · rw [hempty, taken, List.take_nil]
    · rw [hwritten, taken_all]

/-- Every read delivers a byte. -/
theorem length_le_joined (turns : List Turn) :
    turns.length ≤ (joined (turns.map Turn.data)).length := by
  have hsum := @sum_le_length_joined (fun _ => 1)
    (fun turn => turn.data.length_pos) turns
  rwa [List.map_const', List.sum_replicate, smul_eq_mul, mul_one] at hsum

/-- Only all turns take as many bytes as were read. -/
theorem eq_of_length_takenBytes {front turns : List Turn}
    (hinitial : front <+: turns)
    (hlength : (joined (turns.map Turn.data)).length ≤
      (takenBytes front).length) :
    front = turns := by
  obtain ⟨back, rfl⟩ := hinitial
  have hfront := length_takenBytes_le front
  have hback := length_le_joined back
  simp only [joined, List.map_append, List.flatMap_append,
    List.length_append] at hlength hfront hback
  have hnone : back = [] := List.length_eq_zero_iff.mp (by omega)
  rw [hnone, List.append_nil]

/-- The socket has the name and the file exactly when every write was full and
the loop went through all chunks. -/
theorem socket_executed_eq_iff (period : BitVec 32)
    (calls : SendCalls filename file) :
    taken filename.bytes calls.nameWritten ++
          takenBytes (executed period 0#32 calls.turns) =
        filename.bytes ++ file ↔
      SentInFull calls ∧ LoopCompletes period 0#32 calls.turns.dropLast := by
  rw [← executed_eq_self_iff]
  constructor
  · intro heq
    have hname := length_taken_le filename.bytes calls.nameWritten
    have hread := calls.turns_isPrefix.length_le
    have hlength := congrArg List.length heq
    rw [List.length_append, List.length_append] at hlength
    have hall := eq_of_length_takenBytes
      (executed_isPrefix period 0#32 calls.turns) (by omega)
    rw [hall] at heq
    exact ⟨(socket_eq_iff calls).mp heq, hall⟩
  · rintro ⟨hfull, hall⟩
    rw [hall]
    exact (socket_eq_iff calls).mpr hfull

end Transfer

/-- A transfer of a file of one chunk, in which only the write of the chunk may
fail or fall short. -/
def oneChunkCalls (filename : FileName) (chunk : Part 1000) (written : ℤ)
    (hmin : -1 ≤ written) (hmax : written ≤ chunk.bytes.length) :
    SendCalls filename chunk.bytes where
  connected := true
  nameWritten := filename.bytes.length
  nameSignalled := false
  reply := some [0x4f#8, 0x4b#8]
  opened := true
  turns := [⟨chunk, written, false, true, hmin, hmax, nofun⟩]
  readFailed := false
  sizeCalls := knownSize
  start := 0#32
  finish := 0#32
  finalReportDelivered := true
  neg_one_le_nameWritten := by omega
  nameWritten_le := le_rfl
  written_of_nameSignalled := nofun
  nameSignalled_of_not_connected := nofun
  reply_length := by simp
  turns_isPrefix := by simp
  turns_of_nameSignalled := nofun
  turns_of_not_opened := by simp
  turns_all := by simp

/-- A byte that is read alone and written. -/
def byteTurn (byte : Byte) (reportDelivered : Bool) : Turn where
  data := ⟨[byte], by simp, by simp⟩
  written := [byte].length
  signalled := false
  reportDelivered := reportDelivered
  neg_one_le_written := by omega
  written_le := le_rfl
  written_of_signalled := nofun

/-- The name and all chunks of the file are written, and the peer agrees. -/
def wholeCalls (filename : FileName) {file : List Byte} (turns : List Turn)
    (hturns : joined (turns.map Turn.data) = file)
    (finalReportDelivered : Bool) : SendCalls filename file where
  connected := true
  nameWritten := filename.bytes.length
  nameSignalled := false
  reply := some [0x4f#8, 0x4b#8]
  opened := true
  turns := turns
  readFailed := false
  sizeCalls := knownSize
  start := 0#32
  finish := 0#32
  finalReportDelivered := finalReportDelivered
  neg_one_le_nameWritten := by omega
  nameWritten_le := le_rfl
  written_of_nameSignalled := nofun
  nameSignalled_of_not_connected := nofun
  reply_length := by simp
  turns_isPrefix := by rw [hturns]
  turns_of_nameSignalled := nofun
  turns_of_not_opened := by simp
  turns_all := fun _ _ => hturns

theorem sampleName_inBounds :
    PathInBounds sampleHome sampleName.toFileName := by
  unfold PathInBounds
  decide

/-- The sample transfers, whose peer answers OK, return. -/
theorem exists_sampleRun {file : List Byte}
    {calls : SendCalls sampleName.toFileName file}
    (hreply : calls.reply = some [0x4f#8, 0x4b#8]) (period : BitVec 32)
    (repos : SyncRepos) :
    ∃ final, sendFileToRemotePeer period sampleHome [] 20000#32 calls repos =
      .ok final := by
  have hbounds : ReplyInBounds calls :=
    ⟨[0x4f#8, 0x4b#8], hreply, by decide, by decide, by decide⟩
  exact ⟨_, (sendFileToRemotePeer_eq_ok_iff period sampleHome [] 20000#32
    calls repos _).mpr ⟨Or.inr ⟨hbounds, sampleName_inBounds⟩, rfl⟩⟩

end SyncAnywhere.FileSender
