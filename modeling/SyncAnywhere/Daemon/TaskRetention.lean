import SyncAnywhere.Daemon.FileSender

/-!
# When a failed transfer keeps its task

The removal at the end of a transfer is unconditional: only an `exit` or a
`SIGPIPE` before it leaves the task in the queue, and with it the daemon that
would try again is gone.
-/

namespace SyncAnywhere.TaskRetention

open SyncAnywhere.CMemory
open SyncAnywhere.ByteStream
open SyncAnywhere.FilePaths
open SyncAnywhere.TaskQueue
open SyncAnywhere.FileSender

variable {filename : FileName} {file : List Byte}

/-- The task is removed only when the socket took the name and the whole file,
and otherwise it waits in the queue of a daemon that still runs. -/
def KeepsTask (filename : FileName) (file : List Byte) (repos : SyncRepos)
    (transfer : CResult SendState) : Prop :=
  ∃ final, transfer = .ok final ∧
    (final.repos ≠ repos → final.socket = filename.bytes ++ file) ∧
    (final.socket ≠ filename.bytes ++ file →
      final.repos = repos ∧ final.running = true)

/-- The same without a word on the daemon, whose queue is gone with it. -/
def KeepsQueue (filename : FileName) (file : List Byte) (repos : SyncRepos)
    (transfer : CResult SendState) : Prop :=
  ∃ final, transfer = .ok final ∧
    (final.repos ≠ repos → final.socket = filename.bytes ++ file)

theorem removeItemFromSyncRepos_ne (repos : SyncRepos) :
    removeItemFromSyncRepos repos ≠ repos := by
  intro heq
  have htail := congrArg SyncRepos.queueTail heq
  simp only [removeItemFromSyncRepos] at htail
  by_cases hwrap : repos.queueTail + 1 = maxReposNum
  · rw [if_pos hwrap] at htail
    rw [← htail] at hwrap
    exact absurd hwrap (by decide)
  · rw [if_neg hwrap] at htail
    exact absurd htail (Nat.succ_ne_self _)

/-! ## The queue after a transfer -/

section Transfer

variable {period : BitVec 32} {home : SyncHome} {destIp : List Byte}
variable {port : BitVec 32} {calls : SendCalls filename file}
variable {repos : SyncRepos}

/-- The daemon lasts until the last chunk is written: no report is lost and no
`write` raises `SIGPIPE` while chunks are left. -/
def LastsToLastChunk (period : BitVec 32) (calls : SendCalls filename file) :
    Prop :=
  LoopCompletes period 0#32 calls.turns.dropLast

theorem socket_eq_whole_iff :
    (transferred period destIp port calls repos).socket =
        filename.bytes ++ file ↔
      SentInFull calls ∧ LastsToLastChunk period calls := by
  rw [transferred_socket]
  exact socket_executed_eq_iff period calls

theorem keepsTask_iff :
    KeepsTask filename file repos
        (sendFileToRemotePeer period home destIp port calls repos) ↔
      StaysInBounds home calls ∧ SentInFull calls ∧
        LastsToLastChunk period calls := by
  rw [← @socket_eq_whole_iff _ _ period destIp port calls repos]
  simp only [KeepsTask, sendFileToRemotePeer_eq_ok_iff]
  constructor
  · rintro ⟨_, ⟨hbounds, rfl⟩, -, hwaits⟩
    refine ⟨hbounds, ?_⟩
    by_contra hmissing
    obtain ⟨hsame, hrunning⟩ := hwaits hmissing
    have hcompletes := (transferred_running_iff destIp port repos).mp hrunning
    rw [repos_of_completes destIp port repos hcompletes] at hsame
    exact removeItemFromSyncRepos_ne repos hsame
  · rintro ⟨hbounds, hsocket⟩
    exact ⟨_, ⟨hbounds, rfl⟩, fun _ => hsocket,
      fun hmissing => absurd hsocket hmissing⟩

theorem keepsQueue_iff :
    KeepsQueue filename file repos
        (sendFileToRemotePeer period home destIp port calls repos) ↔
      StaysInBounds home calls ∧
        (Completes period calls → SentInFull calls) := by
  simp only [KeepsQueue, sendFileToRemotePeer_eq_ok_iff]
  constructor
  · rintro ⟨_, ⟨hbounds, rfl⟩, hsent⟩
    refine ⟨hbounds, fun hcompletes => ?_⟩
    rw [repos_of_completes destIp port repos hcompletes,
      socket_eq_whole_iff] at hsent
    exact (hsent (removeItemFromSyncRepos_ne repos)).1
  · rintro ⟨hbounds, hfull⟩
    refine ⟨_, ⟨hbounds, rfl⟩, fun hremoved => ?_⟩
    by_cases hcompletes : Completes period calls
    · exact socket_eq_whole_iff.mpr
        ⟨hfull hcompletes, hcompletes.2.1.dropLast⟩
    · exact absurd (repos_of_not_completes destIp port repos hcompletes)
        hremoved

end Transfer

/-- Both senders keep the task of a failed transfer exactly when none fails: no
call falls short and no report is lost while chunks are left.  The queue alone
survives also when the daemon does not. -/
theorem senders_keepTask_iff (home : SyncHome) (destIp : List Byte)
    (port : BitVec 32) (calls : SendCalls filename file)
    (repos : SyncRepos) :
    ((KeepsTask filename file repos
          (tcpsendFileToRemotePeer home destIp port calls repos) ↔
        StaysInBounds home calls ∧ SentInFull calls ∧
          LastsToLastChunk 1500#32 calls) ∧
      (KeepsTask filename file repos
          (udpsendFileToRemotePeer home destIp port calls repos) ↔
        StaysInBounds home calls ∧ SentInFull calls ∧
          LastsToLastChunk 500#32 calls)) ∧
    ((KeepsQueue filename file repos
          (tcpsendFileToRemotePeer home destIp port calls repos) ↔
        StaysInBounds home calls ∧
          (Completes 1500#32 calls → SentInFull calls)) ∧
      (KeepsQueue filename file repos
          (udpsendFileToRemotePeer home destIp port calls repos) ↔
        StaysInBounds home calls ∧
          (Completes 500#32 calls → SentInFull calls))) :=
  ⟨⟨keepsTask_iff, keepsTask_iff⟩, keepsQueue_iff, keepsQueue_iff⟩

/-! ## A chunk that is not written -/

/-- The file of one byte is pending for the two peers of the built-in list. -/
def pendingRepos : SyncRepos :=
  addItem2SyncRepos (fun _ => 0) [0x61#8] [0x61#8] 1#32 daemonRepos

/-- The only chunk of the file is not written, while every other call
succeeds. -/
def failedWriteCalls : SendCalls sampleName.toFileName [0x62#8] :=
  oneChunkCalls _ ⟨[0x62#8], by decide, by decide⟩ (-1) (by decide) (by decide)

/-- Both senders remove the task although the socket took no byte of its
file. -/
theorem failedWrite_removes_task :
    (tcpsendFileToRemotePeer sampleHome [] 20000#32 failedWriteCalls
        pendingRepos >>= fun final =>
          .ok (final.socket, final.repos.queueTail, final.running)) =
      .ok ([0x61#8], 1, true) ∧
    (udpsendFileToRemotePeer sampleHome [] 20000#32 failedWriteCalls
        pendingRepos >>= fun final =>
          .ok (final.socket, final.repos.queueTail, final.running)) =
      .ok ([0x61#8], 1, true) ∧
    hasMoreItemInSyncRepos pendingRepos = 0 ∧
    pendingRepos.queueTail = 0 := by
  refine ⟨?_, ?_, by decide, by decide⟩
  · decide +kernel
  · decide +kernel

end SyncAnywhere.TaskRetention
