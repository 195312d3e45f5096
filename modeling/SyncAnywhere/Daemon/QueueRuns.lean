import SyncAnywhere.Core.Run
import SyncAnywhere.Daemon.TaskQueue

/-!
# Runs of the task queue

The mutex makes every queue call atomic, so a run of any number of threads is a
list of calls.  Such a run is related to the records it enqueued, to its number
of removals and, while the writer stays within one turn of the reader, to an
unbounded queue.
-/

namespace SyncAnywhere.QueueRuns

open SyncAnywhere.CMemory
open SyncAnywhere.Numeral
open SyncAnywhere.RingLog
open SyncAnywhere.Run
open SyncAnywhere.TaskQueue

inductive QueueCall where
  | addItem2SyncRepos (isLocalIp : List Byte → ℤ)
      (filename filepath : List Byte) (fileLen : BitVec 32)
  | removeItemFromSyncRepos

def applyCall (repos : SyncRepos) : QueueCall → SyncRepos
  | .addItem2SyncRepos isLocalIp filename filepath fileLen =>
      addItem2SyncRepos isLocalIp filename filepath fileLen repos
  | .removeItemFromSyncRepos => removeItemFromSyncRepos repos

/-- The records enqueued by a list of calls, in order. -/
def enqueued (peerList : Fin maxPeerNum → PeerIp) :
    List QueueCall → List SyncTask
  | [] => []
  | .addItem2SyncRepos isLocalIp filename filepath fileLen :: calls =>
      acceptedTasks isLocalIp filename filepath fileLen peerList ++
        enqueued peerList calls
  | .removeItemFromSyncRepos :: calls => enqueued peerList calls

def removals : List QueueCall → ℕ
  | [] => 0
  | .addItem2SyncRepos _ _ _ _ :: calls => removals calls
  | .removeItemFromSyncRepos :: calls => removals calls + 1

/-- One call on the unbounded queue. -/
def fifoCall (peerList : Fin maxPeerNum → PeerIp) (queue : List SyncTask) :
    QueueCall → List SyncTask
  | .addItem2SyncRepos isLocalIp filename filepath fileLen =>
      queue ++ acceptedTasks isLocalIp filename filepath fileLen peerList
  | .removeItemFromSyncRepos => queue.tail

/-- Throughout the calls, no more removals than records and never more than 29
records ahead. -/
def WithinTurn (peerList : Fin maxPeerNum → PeerIp)
    (calls : List QueueCall) : Prop :=
  ∀ front ∈ calls.inits,
    removals front ≤ (enqueued peerList front).length ∧
      (enqueued peerList front).length ≤ removals front + 29

instance (peerList : Fin maxPeerNum → PeerIp) (calls : List QueueCall) :
    Decidable (WithinTurn peerList calls) :=
  inferInstanceAs (Decidable (∀ front ∈ calls.inits, _ ∧ _))

theorem enqueued_append (peerList : Fin maxPeerNum → PeerIp)
    (front back : List QueueCall) :
    enqueued peerList (front ++ back) =
      enqueued peerList front ++ enqueued peerList back := by
  induction front with
  | nil => rfl
  | cons call front ih => cases call <;> simp [enqueued, ih]

theorem removals_append (front back : List QueueCall) :
    removals (front ++ back) = removals front + removals back := by
  induction front with
  | nil => simp [removals]
  | cons call front ih =>
      cases call with
      | addItem2SyncRepos => simpa [removals] using ih
      | removeItemFromSyncRepos =>
          simp only [List.cons_append, removals, ih]
          ring

theorem WithinTurn.of_append {peerList : Fin maxPeerNum → PeerIp}
    {front back : List QueueCall} (hturn : WithinTurn peerList (front ++ back)) :
    WithinTurn peerList front := by
  intro part hpart
  have hfront := (List.mem_inits part front).mp hpart
  exact hturn part ((List.mem_inits _ _).mpr
    (hfront.trans (List.prefix_append front back)))

/-- Run lemma: the queue law after any list of calls. -/
theorem queueLaw_run {repos : SyncRepos} {tasks : List SyncTask} {removed : ℕ}
    (hlaw : QueueLaw repos tasks removed) (calls : List QueueCall) :
    QueueLaw (run applyCall repos calls)
      (tasks ++ enqueued repos.peerList calls) (removed + removals calls) := by
  induction calls generalizing repos tasks removed with
  | nil => simpa [enqueued, removals] using hlaw
  | cons call calls ih =>
      cases call with
      | addItem2SyncRepos isLocalIp filename filepath fileLen =>
          have hnext := ih (hlaw.addItem isLocalIp filename filepath fileLen)
          simpa [applyCall, enqueued, removals] using hnext
      | removeItemFromSyncRepos =>
          have hnext := ih hlaw.removeItem
          rw [add_assoc, Nat.add_comm 1] at hnext
          exact hnext

/-- The unbounded queue holds the enqueued records less the removed ones. -/
theorem fifo_run_eq_pending {peerList : Fin maxPeerNum → PeerIp}
    {calls : List QueueCall} (hturn : WithinTurn peerList calls) :
    run (fifoCall peerList) [] calls =
      pending (enqueued peerList calls) (removals calls) := by
  induction calls using List.reverseRecOn with
  | nil => rfl
  | append_singleton calls call ih =>
      have hbefore := ih hturn.of_append
      have hread := (hturn calls ((List.mem_inits _ _).mpr
        (List.prefix_append calls [call]))).1
      rw [run_append, hbefore, run_cons, run_nil, enqueued_append,
        removals_append]
      cases call with
      | addItem2SyncRepos isLocalIp filename filepath fileLen =>
          simpa [fifoCall, enqueued, removals] using
            (pending_append hread _).symm
      | removeItemFromSyncRepos =>
          simpa [fifoCall, enqueued, removals] using tail_pending _ _

/-- The exact law of the ring queue, from `initializeSyncRepos` through any
sequence of adds and removals. -/
theorem ringQueue_law (repos : SyncRepos) (calls : List QueueCall) :
    let final := run applyCall (initializeSyncRepos repos) calls
    let tasks := enqueued repos.peerList calls
    let removed := removals calls
    (final.queueHead = tasks.length % maxReposNum ∧
      final.queueTail = removed % maxReposNum) ∧
    (final.queueHead < maxReposNum ∧ final.queueTail < maxReposNum) ∧
    (hasMoreItemInSyncRepos final = 1 ↔
      tasks.length ≡ removed [MOD maxReposNum]) ∧
    (∀ slot index task, tasks[index]? = some task →
      index % maxReposNum = slot →
      (∀ other < tasks.length, other % maxReposNum = slot → other ≤ index) →
      (final.syncfileRepos slot).toSyncTask = task) ∧
    (WithinTurn repos.peerList calls →
      let queue := run (fifoCall repos.peerList) [] calls
      hasMoreItemInSyncRepos final = (if queue = [] then 1 else 0) ∧
      (∀ task, queue.head? = some task →
        getCurrentUnsyncedFile final =
          (task.filename, task.fileSize, task.destIp)) ∧
      (∀ task, tasks[removed]? = some task →
        getCurrentUnsyncedFile final =
          (task.filename, task.fileSize, task.destIp))) := by
  intro final tasks removed
  have hlaw : QueueLaw final tasks removed := by
    have hrun := queueLaw_run (QueueLaw.start repos) calls
    rwa [initializeSyncRepos_peerList, List.nil_append, Nat.zero_add] at hrun
  refine ⟨⟨hlaw.head, hlaw.tail⟩, ⟨?_, ?_⟩, hlaw.hasMore_eq_one_iff, ?_, ?_⟩
  · rw [hlaw.head]
    exact Nat.mod_lt _ (by decide)
  · rw [hlaw.tail]
    exact Nat.mod_lt _ (by decide)
  · rintro slot index task htask rfl hlatest
    exact hlaw.slots index task htask ((latest_iff (by decide)).mp hlatest)
  · intro hturn queue
    have hqueue : queue = pending tasks removed := fifo_run_eq_pending hturn
    obtain ⟨hread, hahead⟩ :=
      hturn calls ((List.mem_inits _ _).mpr List.prefix_rfl)
    have hfront : ∀ task, queue.head? = some task →
        getCurrentUnsyncedFile final =
          (task.filename, task.fileSize, task.destIp) := by
      intro task htask
      rw [hqueue] at htask
      exact hlaw.getCurrent_eq (hahead.trans (Nat.add_le_add_left (by decide) _))
        htask
    refine ⟨?_, hfront, ?_⟩
    · rw [hqueue]
      exact hlaw.hasMore_eq hread
        (lt_of_le_of_lt hahead (Nat.add_lt_add_left (by decide) _))
    · intro task htask
      apply hfront
      rw [hqueue, head?_pending, htask]

/-- One file for the two peers of a fresh daemon, then one removal. -/
theorem ringQueue_law_secondPeer :
    let path := "/home/a".toList.map charByte
    let name := "a".toList.map charByte
    let calls : List QueueCall :=
      [.addItem2SyncRepos (fun _ => 0) name path 7#32,
        .removeItemFromSyncRepos]
    getCurrentUnsyncedFile
        (run applyCall (initializeSyncRepos daemonRepos) calls) =
      (name, 7#32, "131.96.49.204".toList.map charByte) := by
  intro path name calls
  have hturn : WithinTurn daemonRepos.peerList calls := by decide
  exact ((ringQueue_law daemonRepos calls).2.2.2.2 hturn).2.2
    ⟨name, path, 7#32, "131.96.49.204".toList.map charByte⟩ (by decide)

end SyncAnywhere.QueueRuns
