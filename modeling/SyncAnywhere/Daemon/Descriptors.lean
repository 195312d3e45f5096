import SyncAnywhere.Core.Handles
import SyncAnywhere.Core.Run
import SyncAnywhere.Daemon.ProgressReports
import SyncAnywhere.Daemon.Settings

/-!
# Descriptors of the daemon

The descriptors the daemon has open, through the calls that open and close
them.  `get_file_size` and `send_msg_to_gui` open one and never close it.
-/

namespace SyncAnywhere.Descriptors

open SyncAnywhere.CMemory
open SyncAnywhere.Handles
open SyncAnywhere.Run
open SyncAnywhere.FilePaths
open SyncAnywhere.FileSize
open SyncAnywhere.TaskQueue
open SyncAnywhere.FileSender
open SyncAnywhere.ProgressReports
open SyncAnywhere.DaemonSettings

abbrev OpenFds := Finset ℕ

/-- `open`, `socket` and `accept` return the lowest descriptor that is not in
use. -/
def openFd (fds : OpenFds) : OpenFds :=
  lowest.take fds

/-- The descriptor the next `open`, `socket` or `accept` returns. -/
def nextFd (fds : OpenFds) : ℕ :=
  lowest.next fds

def closeFd (fd : ℕ) (fds : OpenFds) : OpenFds :=
  fds.erase fd

/-! ## The functions that open descriptors -/

/-- The descriptor of a file that can be opened for reading and writing stays
open. -/
def getFileSize (calls : SizeCalls) (fds : OpenFds) : OpenFds :=
  if calls.opened then openFd fds else fds

def sendMsgToGui (fds : OpenFds) : OpenFds :=
  openFd fds

/-- `get_tcp_port`; `get_udp_port` is the same but for the request. -/
def getPort (fds : OpenFds) : OpenFds :=
  let sd := nextFd fds
  closeFd sd (openFd fds)

/-- The transfer loop, with a report in every `period`-th turn. -/
def sendLoop (period : BitVec 32) :
    BitVec 32 → List Turn → OpenFds → OpenFds
  | _, [], fds => fds
  | i, _ :: turns, fds =>
      sendLoop period (i + 1#32) turns
        (if (i + 1#32).srem period = 0#32 then sendMsgToGui fds else fds)

def tcpsendFileToRemotePeer (sizeCalls : SizeCalls) (turns : List Turn)
    (fds : OpenFds) : OpenFds :=
  let sd := nextFd fds
  let fds := getFileSize sizeCalls (openFd fds)
  let inputFd := nextFd fds
  let fds := sendLoop 1500#32 0#32 turns (openFd fds)
  closeFd sd (closeFd inputFd (sendMsgToGui fds))

/-- Here the file is opened before its size is asked for. -/
def udpsendFileToRemotePeer (sizeCalls : SizeCalls) (turns : List Turn)
    (fds : OpenFds) : OpenFds :=
  let sd := nextFd fds
  let fds := openFd fds
  let inputFd := nextFd fds
  let fds := getFileSize sizeCalls (openFd fds)
  let fds := sendLoop 500#32 0#32 turns fds
  closeFd sd (closeFd inputFd (sendMsgToGui fds))

/-- One connection accepted by `peer_manange`. -/
def peerManange (fds : OpenFds) : OpenFds :=
  let desc := nextFd fds
  closeFd desc (openFd fds)

/-! ## Events -/

/-- How many chunks pass between two reports of the sender of a mode. -/
def reportPeriod : SyncMode → BitVec 32
  | .tcp => 1500#32
  | .udp => 500#32

/-- A transfer in which every call succeeds in full; whether `get_file_size`
can open the file for writing as well does not matter for it. -/
structure CompleteTransfer where
  mode : SyncMode
  filename : FileName
  file : List Byte
  calls : SendCalls filename file
  opened : calls.opened = true
  inFull : SentInFull calls
  completes : Completes (reportPeriod mode) calls

/-- What the daemon handles: an add-file message, a task of one of the clients,
or a query of another peer. -/
inductive Event where
  | addFile (sizeCalls : SizeCalls)
  | transfer (transfer : CompleteTransfer)
  | query

/-- The client asks for the port and sends the file. -/
def CompleteTransfer.run (transfer : CompleteTransfer) (fds : OpenFds) :
    OpenFds :=
  match transfer.mode with
  | .tcp => tcpsendFileToRemotePeer transfer.calls.sizeCalls
      transfer.calls.turns (getPort fds)
  | .udp => udpsendFileToRemotePeer transfer.calls.sizeCalls
      transfer.calls.turns (getPort fds)

def step (fds : OpenFds) : Event → OpenFds
  | .addFile sizeCalls => getFileSize sizeCalls fds
  | .transfer transfer => transfer.run fds
  | .query => peerManange fds

/-- The event opens nothing, or closes what it opens. -/
def Clean : Event → Prop
  | .addFile sizeCalls => sizeCalls.opened = false
  | .transfer _ => False
  | .query => True

instance (event : Event) : Decidable (Clean event) :=
  match event with
  | .addFile _ => inferInstanceAs (Decidable (_ = _))
  | .transfer _ => inferInstanceAs (Decidable False)
  | .query => inferInstanceAs (Decidable True)

/-! ## What the functions leave open -/

theorem getFileSize_leaks (calls : SizeCalls) (fds : OpenFds) :
    Leaks calls.opened.toNat fds (getFileSize calls fds) := by
  rw [getFileSize]
  cases calls.opened with
  | true => exact Leaks.take lowest fds
  | false => exact Leaks.refl fds

theorem sendMsgToGui_leaks (fds : OpenFds) :
    Leaks 1 fds (sendMsgToGui fds) :=
  Leaks.take lowest fds

theorem getPort_leaks (fds : OpenFds) : Leaks 0 fds (getPort fds) :=
  (Leaks.refl (openFd fds)).giveBack

theorem peerManange_leaks (fds : OpenFds) :
    Leaks 0 fds (peerManange fds) :=
  (Leaks.refl (openFd fds)).giveBack

/-- Each report of the loop leaves a socket open. -/
theorem sendLoop_leaks (period : BitVec 32) (reads : ℕ) (byteSend : BitVec 32)
    (turns : List Turn) (fds : OpenFds) :
    Leaks (reportPoints period reads byteSend turns).length fds
      (sendLoop period (BitVec.ofNat 32 reads) turns fds) := by
  induction turns generalizing reads byteSend fds with
  | nil => exact Leaks.refl fds
  | cons turn turns ih =>
      rw [reportPoints, sendLoop, counter_succ]
      by_cases hdue : Due period (reads + 1)
      · have hi : (BitVec.ofNat 32 (reads + 1)).srem period = 0#32 := hdue
        rw [if_pos hdue, if_pos hi, List.length_cons, Nat.add_comm]
        exact (sendMsgToGui_leaks fds).trans (ih _ _ _)
      · have hi : ¬ (BitVec.ofNat 32 (reads + 1)).srem period = 0#32 := hdue
        rw [if_neg hdue, if_neg hi]
        exact ih _ _ _

/-- The loop and the final report leave one socket open for each report. -/
theorem reports_leak (period : BitVec 32) (turns : List Turn) (fds : OpenFds) :
    Leaks ((reportPoints period 0 0#32 turns).length + 1) fds
      (sendMsgToGui (sendLoop period 0#32 turns fds)) :=
  (sendLoop_leaks period 0 0#32 turns fds).trans (sendMsgToGui_leaks _)

theorem tcpsend_leaks (sizeCalls : SizeCalls) (turns : List Turn)
    (fds : OpenFds) :
    Leaks (sizeCalls.opened.toNat +
        ((reportPoints 1500#32 0 0#32 turns).length + 1)) fds
      (tcpsendFileToRemotePeer sizeCalls turns fds) := by
  have hreports := reports_leak 1500#32 turns
    (openFd (getFileSize sizeCalls (openFd fds)))
  have hinput := (getFileSize_leaks sizeCalls (openFd fds)).trans
    hreports.giveBack
  exact hinput.giveBack

theorem udpsend_leaks (sizeCalls : SizeCalls) (turns : List Turn)
    (fds : OpenFds) :
    Leaks (sizeCalls.opened.toNat +
        ((reportPoints 500#32 0 0#32 turns).length + 1)) fds
      (udpsendFileToRemotePeer sizeCalls turns fds) := by
  have hinput := ((getFileSize_leaks sizeCalls (openFd (openFd fds))).trans
    (reports_leak 500#32 turns _)).giveBack
  exact hinput.giveBack

/-- The descriptors an event leaves open. -/
def leaked : Event → ℕ
  | .addFile sizeCalls => sizeCalls.opened.toNat
  | .transfer transfer => transfer.calls.sizeCalls.opened.toNat +
      ((reportPoints (reportPeriod transfer.mode) 0 0#32
        transfer.calls.turns).length + 1)
  | .query => 0

/-- Step lemma: what an event leaves open. -/
theorem step_leaks (fds : OpenFds) (event : Event) :
    Leaks (leaked event) fds (step fds event) := by
  cases event with
  | addFile sizeCalls => exact getFileSize_leaks sizeCalls fds
  | query => exact peerManange_leaks fds
  | transfer transfer =>
      have hport := getPort_leaks fds
      rw [leaked, ← zero_add (_ + _), step, CompleteTransfer.run]
      cases transfer.mode with
      | tcp => exact hport.trans (tcpsend_leaks _ _ _)
      | udp => exact hport.trans (udpsend_leaks _ _ _)

/-- A transfer leaves a socket open for each report the GUI gets. -/
theorem leaked_transfer (transfer : CompleteTransfer) {home : SyncHome}
    {destIp : List Byte} {port : BitVec 32} {repos : SyncRepos}
    {final : SendState}
    (hfinal : sendFileToRemotePeer (reportPeriod transfer.mode) home destIp
      port transfer.calls repos = .ok final) :
    leaked (.transfer transfer) =
      transfer.calls.sizeCalls.opened.toNat + final.reports.length := by
  rw [(completed_of_completes repos transfer.completes hfinal).reports,
    List.length_append, List.length_map, List.length_singleton, leaked]

theorem leaked_eq_zero_iff (event : Event) :
    leaked event = 0 ↔ Clean event := by
  cases event with
  | addFile sizeCalls =>
      rw [leaked, Clean]
      cases sizeCalls.opened <;> simp
  | transfer transfer => simp [leaked, Clean]
  | query => exact iff_of_true rfl trivial

/-! ## Runs -/

/-- Run lemma: the descriptors in use grow by what each event leaves open. -/
theorem run_leaks (fds : OpenFds) (events : List Event) :
    Leaks (events.map leaked).sum fds (Run.run step fds events) := by
  induction events generalizing fds with
  | nil => exact Leaks.refl fds
  | cons event events ih =>
      rw [List.map_cons, List.sum_cons, run_cons]
      exact (step_leaks fds event).trans (ih _)

/-- The open descriptors are the same after each event of a run as before it
exactly when the run has no transfer and no file whose size `get_file_size` can
ask for. -/
theorem descriptors_kept_iff (fds : OpenFds) (events : List Event) :
    Along step (fun fds event => step fds event = fds) fds events ↔
      ∀ event ∈ events, Clean event := by
  induction events generalizing fds with
  | nil => simp [Along]
  | cons event events ih =>
      rw [Along, List.forall_mem_cons, (step_leaks fds event).eq_iff,
        leaked_eq_zero_iff, ih]

/-- A file is added to a daemon that has its three standard streams open. -/
theorem addFile_leaks_descriptor :
    step {0, 1, 2} (.addFile knownSize) = {0, 1, 2, 3} ∧
      ¬ Along step (fun fds event => step fds event = fds) {0, 1, 2}
        [.addFile knownSize] := by
  decide

end SyncAnywhere.Descriptors
