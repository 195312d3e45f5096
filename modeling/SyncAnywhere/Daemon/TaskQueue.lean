import SyncAnywhere.Core.Numeral
import SyncAnywhere.Core.RingLog
import SyncAnywhere.Core.Run

/-!
# The task queue of the daemon

The queue of files waiting for transfer is a ring of `maxReposNum` records with
a head index that only `addItem2SyncRepos` moves and a tail index that only
`removeItemFromSyncRepos` moves.  Every function here holds the queue mutex in
the source, except `getCurrentUnsyncedFile`, so each is one atomic step.
-/

namespace SyncAnywhere.TaskQueue

open SyncAnywhere.CMemory
open SyncAnywhere.Numeral
open SyncAnywhere.RingLog

abbrev maxReposNum : ℕ := 30

abbrev maxPeerNum : ℕ := 10

/-- What `addItem2SyncRepos` stores about one file for one peer. -/
structure SyncTask where
  filename : List Byte
  filepath : List Byte
  fileSize : BitVec 32
  destIp : List Byte
  deriving DecidableEq

structure SyncReposItem extends SyncTask where
  isUsed : ℤ
  deriving DecidableEq

/-- `isUsed = 0` marks a valid entry. -/
structure PeerIp where
  ip : List Byte
  isUsed : ℤ
  deriving DecidableEq

/-- The queue globals.  The record array is indexed by position; both indices
stay below `maxReposNum`. -/
structure SyncRepos where
  syncfileRepos : ℕ → SyncReposItem
  peerList : Fin maxPeerNum → PeerIp
  queueHead : ℕ
  queueTail : ℕ

def initializeSyncRepos (repos : SyncRepos) : SyncRepos :=
  { repos with queueHead := 0, queueTail := 0 }

def initializePeerList (repos : SyncRepos) : SyncRepos :=
  { repos with
    peerList := fun index =>
      if index = 0 then ⟨"131.96.49.139".toList.map charByte, 0⟩
      else if index = 1 then ⟨"131.96.49.204".toList.map charByte, 0⟩
      else ⟨(repos.peerList index).ip, 1⟩ }

/-- The zero-initialised globals of the program. -/
def staticRepos : SyncRepos where
  syncfileRepos := fun _ => ⟨⟨[], [], 0, []⟩, 0⟩
  peerList := fun _ => ⟨[], 0⟩
  queueHead := 0
  queueTail := 0

/-- The queue as `main` and `startDaemon` leave it before the threads start. -/
def daemonRepos : SyncRepos :=
  initializePeerList (initializeSyncRepos staticRepos)

/-- Fill the record at the head and advance the head with its wrap test. -/
def writeTask (repos : SyncRepos) (task : SyncTask) : SyncRepos :=
  let item := { repos.syncfileRepos repos.queueHead with
    filename := task.filename
    filepath := task.filepath
    destIp := task.destIp
    fileSize := task.fileSize }
  let next := repos.queueHead + 1
  { repos with
    syncfileRepos := Function.update repos.syncfileRepos repos.queueHead item
    queueHead := if next = maxReposNum then 0 else next }

/-- One record for every peer that is valid and not this machine, in the order
of the peer list. -/
def addItem2SyncRepos (isLocalIp : List Byte → ℤ)
    (filename filepath : List Byte) (fileLen : BitVec 32)
    (repos : SyncRepos) : SyncRepos :=
  (List.ofFn repos.peerList).foldl
    (fun repos peer =>
      if peer.isUsed = 0 ∧ isLocalIp peer.ip = 0 then
        writeTask repos ⟨filename, filepath, fileLen, peer.ip⟩
      else repos)
    repos

/-- File name, file length and destination address of the record at the
tail. -/
def getCurrentUnsyncedFile (repos : SyncRepos) :
    List Byte × BitVec 32 × List Byte :=
  let item := repos.syncfileRepos repos.queueTail
  (item.filename, item.fileSize, item.destIp)

def removeItemFromSyncRepos (repos : SyncRepos) : SyncRepos :=
  let next := repos.queueTail + 1
  { repos with queueTail := if next = maxReposNum then 0 else next }

/-- `0` when there are unsynced items, `1` when there are none. -/
def hasMoreItemInSyncRepos (repos : SyncRepos) : ℤ :=
  if repos.queueHead = repos.queueTail then 1 else 0

/-! ## Specifications of the queue operations -/

/-- The records one call enqueues. -/
def acceptedTasks (isLocalIp : List Byte → ℤ)
    (filename filepath : List Byte) (fileLen : BitVec 32)
    (peerList : Fin maxPeerNum → PeerIp) : List SyncTask :=
  ((List.ofFn peerList).filter
    fun peer => peer.isUsed = 0 ∧ isLocalIp peer.ip = 0).map
      fun peer => ⟨filename, filepath, fileLen, peer.ip⟩

theorem length_acceptedTasks_le (isLocalIp : List Byte → ℤ)
    (filename filepath : List Byte) (fileLen : BitVec 32)
    (peerList : Fin maxPeerNum → PeerIp) :
    (acceptedTasks isLocalIp filename filepath fileLen peerList).length ≤
      maxPeerNum := by
  rw [acceptedTasks, List.length_map]
  exact (List.length_filter_le _ _).trans (by rw [List.length_ofFn])

/-- The loop over the peer list writes exactly the accepted records, in
order. -/
theorem addItem2SyncRepos_eq_foldl (isLocalIp : List Byte → ℤ)
    (filename filepath : List Byte) (fileLen : BitVec 32)
    (repos : SyncRepos) :
    addItem2SyncRepos isLocalIp filename filepath fileLen repos =
      (acceptedTasks isLocalIp filename filepath fileLen
        repos.peerList).foldl writeTask repos := by
  rw [addItem2SyncRepos, acceptedTasks, List.foldl_map, List.foldl_filter]
  simp only [decide_eq_true_eq]

@[simp]
theorem writeTask_peerList (repos : SyncRepos) (task : SyncTask) :
    (writeTask repos task).peerList = repos.peerList := rfl

/-- Seen as records, a write replaces the record at the head and no other. -/
theorem toSyncTask_writeTask (repos : SyncRepos) (task : SyncTask) :
    (fun slot => ((writeTask repos task).syncfileRepos slot).toSyncTask) =
      Function.update (fun slot => (repos.syncfileRepos slot).toSyncTask)
        repos.queueHead task := by
  funext slot
  by_cases hslot : slot = repos.queueHead
  · subst hslot
    simp [writeTask]
  · simp [writeTask, hslot]

theorem foldl_writeTask_peerList (repos : SyncRepos) (tasks : List SyncTask) :
    (tasks.foldl writeTask repos).peerList = repos.peerList :=
  Run.view_run_eq writeTask SyncRepos.peerList writeTask_peerList repos tasks

@[simp]
theorem addItem2SyncRepos_peerList (isLocalIp : List Byte → ℤ)
    (filename filepath : List Byte) (fileLen : BitVec 32)
    (repos : SyncRepos) :
    (addItem2SyncRepos isLocalIp filename filepath fileLen repos).peerList =
      repos.peerList := by
  rw [addItem2SyncRepos_eq_foldl, foldl_writeTask_peerList]

@[simp]
theorem removeItemFromSyncRepos_peerList (repos : SyncRepos) :
    (removeItemFromSyncRepos repos).peerList = repos.peerList := rfl

@[simp]
theorem initializeSyncRepos_peerList (repos : SyncRepos) :
    (initializeSyncRepos repos).peerList = repos.peerList := rfl

/-- The law that ties the queue globals to the records enqueued so far and to
the number of removals: both indices count modulo `maxReposNum`, and each slot
holds the last record written to it. -/
structure QueueLaw (repos : SyncRepos) (tasks : List SyncTask)
    (removed : ℕ) : Prop where
  head : repos.queueHead = tasks.length % maxReposNum
  tail : repos.queueTail = removed % maxReposNum
  slots : Holds maxReposNum
    (fun slot => (repos.syncfileRepos slot).toSyncTask) tasks

namespace QueueLaw

variable {repos : SyncRepos} {tasks : List SyncTask} {removed : ℕ}

theorem start (repos : SyncRepos) :
    QueueLaw (initializeSyncRepos repos) [] 0 :=
  ⟨rfl, rfl, Holds.nil _ _⟩

theorem writeTask (hlaw : QueueLaw repos tasks removed) (task : SyncTask) :
    QueueLaw (TaskQueue.writeTask repos task) (tasks ++ [task]) removed where
  head := by
    rw [List.length_append, List.length_singleton,
      ← wrap_succ_mod (by decide), ← hlaw.head]
    rfl
  tail := hlaw.tail
  slots := by
    rw [toSyncTask_writeTask, hlaw.head]
    exact hlaw.slots.write task

theorem foldl_writeTask (hlaw : QueueLaw repos tasks removed)
    (added : List SyncTask) :
    QueueLaw (added.foldl TaskQueue.writeTask repos) (tasks ++ added)
      removed := by
  induction added generalizing repos tasks with
  | nil => simpa using hlaw
  | cons task added ih => simpa using ih (hlaw.writeTask task)

theorem addItem (hlaw : QueueLaw repos tasks removed)
    (isLocalIp : List Byte → ℤ) (filename filepath : List Byte)
    (fileLen : BitVec 32) :
    QueueLaw (addItem2SyncRepos isLocalIp filename filepath fileLen repos)
      (tasks ++
        acceptedTasks isLocalIp filename filepath fileLen repos.peerList)
      removed := by
  rw [addItem2SyncRepos_eq_foldl]
  exact hlaw.foldl_writeTask _

theorem removeItem (hlaw : QueueLaw repos tasks removed) :
    QueueLaw (removeItemFromSyncRepos repos) tasks (removed + 1) where
  head := hlaw.head
  tail := by
    rw [← wrap_succ_mod (by decide), ← hlaw.tail]
    rfl
  slots := hlaw.slots

theorem hasMore_eq_one_iff (hlaw : QueueLaw repos tasks removed) :
    hasMoreItemInSyncRepos repos = 1 ↔
      tasks.length ≡ removed [MOD maxReposNum] := by
  rw [hasMoreItemInSyncRepos, hlaw.head, hlaw.tail, Nat.ModEq]
  simp

/-- Within one turn `hasMoreItemInSyncRepos` tells an empty queue from a
non-empty one. -/
theorem hasMore_eq (hlaw : QueueLaw repos tasks removed)
    (hremoved : removed ≤ tasks.length)
    (hturn : tasks.length < removed + maxReposNum) :
    hasMoreItemInSyncRepos repos =
      if pending tasks removed = [] then 1 else 0 := by
  have hsame := mod_eq_mod_iff hremoved hturn
  have hempty : pending tasks removed = [] ↔ tasks.length = removed := by
    rw [pending_eq_nil_iff]
    omega
  rw [hasMoreItemInSyncRepos, hlaw.head, hlaw.tail]
  simp only [hsame, hempty]

/-- Within one turn the record at the tail is the front of the queue. -/
theorem getCurrent_eq (hlaw : QueueLaw repos tasks removed)
    (hturn : tasks.length ≤ removed + maxReposNum) {task : SyncTask}
    (hfront : (pending tasks removed).head? = some task) :
    getCurrentUnsyncedFile repos =
      (task.filename, task.fileSize, task.destIp) := by
  have hslot := hlaw.slots.front hturn hfront
  rw [← hslot, ← hlaw.tail]
  rfl

end QueueLaw

end SyncAnywhere.TaskQueue
