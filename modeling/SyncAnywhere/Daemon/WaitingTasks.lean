import SyncAnywhere.Daemon.TaskQueue

/-!
# The tasks waiting in the ring

The records from the tail to the head, read off the queue globals alone.  While
fewer than 30 wait, they are an unbounded queue.
-/

namespace SyncAnywhere.WaitingTasks

open SyncAnywhere.CMemory
open SyncAnywhere.RingLog
open SyncAnywhere.TaskQueue

/-- How far the head is ahead of the tail. -/
def ringCount (repos : SyncRepos) : ℕ :=
  (repos.queueHead + maxReposNum - repos.queueTail) % maxReposNum

def waiting (repos : SyncRepos) : List SyncTask :=
  (List.range (ringCount repos)).map fun index =>
    (repos.syncfileRepos
      ((repos.queueTail + index) % maxReposNum)).toSyncTask

/-- What `getCurrentUnsyncedFile` copies of a task. -/
def taskFile (task : SyncTask) : List Byte × BitVec 32 × List Byte :=
  (task.filename, task.fileSize, task.destIp)

/-- Both indices are inside the ring. -/
structure InRing (repos : SyncRepos) : Prop where
  head_lt : repos.queueHead < maxReposNum
  tail_lt : repos.queueTail < maxReposNum

/-- The queue globals with a history that explains them. -/
structure Explained (repos : SyncRepos) (tasks : List SyncTask)
    (removed : ℕ) : Prop where
  law : QueueLaw repos tasks removed
  removed_le : removed ≤ tasks.length
  turn : tasks.length < removed + maxReposNum

section Explained

variable {repos : SyncRepos} {tasks : List SyncTask} {removed : ℕ}

theorem Explained.inRing (hexplained : Explained repos tasks removed) :
    InRing repos where
  head_lt := by
    rw [hexplained.law.head]
    exact Nat.mod_lt _ (by decide)
  tail_lt := by
    rw [hexplained.law.tail]
    exact Nat.mod_lt _ (by decide)

theorem Explained.ringCount_eq (hexplained : Explained repos tasks removed) :
    ringCount repos = tasks.length - removed := by
  have hremoved := hexplained.removed_le
  have hturn := hexplained.turn
  rw [ringCount, hexplained.law.head, hexplained.law.tail]
  simp only [maxReposNum] at hturn ⊢
  omega

/-- Within one turn the records between the indices are the tasks that were not
removed. -/
theorem Explained.waiting_eq (hexplained : Explained repos tasks removed) :
    waiting repos = pending tasks removed := by
  apply List.ext_getElem?
  intro index
  rw [waiting, hexplained.ringCount_eq, List.getElem?_map, pending,
    List.getElem?_drop]
  by_cases hindex : index < tasks.length - removed
  · have hlt : removed + index < tasks.length := by omega
    have hslot := hexplained.law.slots (removed + index) _
      (List.getElem?_eq_getElem hlt)
      (by have := hexplained.turn; omega)
    rw [List.getElem?_range hindex, Option.map_some,
      List.getElem?_eq_getElem hlt, hexplained.law.tail, Nat.mod_add_mod]
    exact congrArg some hslot
  · rw [List.getElem?_eq_none (by simpa using hindex),
      List.getElem?_eq_none (by omega)]
    rfl

/-- A ring with both indices inside is explained by the records it has. -/
theorem InRing.exists_explained (hring : InRing repos) :
    ∃ tasks removed, Explained repos tasks removed := by
  have hhead := hring.head_lt
  have htail := hring.tail_lt
  let log := (List.range (repos.queueTail + ringCount repos)).map
    fun index => (repos.syncfileRepos (index % maxReposNum)).toSyncTask
  have hlength : log.length = repos.queueTail + ringCount repos := by
    simp [log]
  refine ⟨log, repos.queueTail, ⟨?_, ?_, ?_⟩, ?_, ?_⟩
  · rw [hlength, ringCount]
    simp only [maxReposNum] at hhead htail ⊢
    omega
  · exact (Nat.mod_eq_of_lt htail).symm
  · intro index entry hentry _
    have hindex := (List.getElem?_eq_some_iff.mp hentry).1
    rw [hlength] at hindex
    simpa [log, hindex] using hentry
  · rw [hlength]
    exact Nat.le_add_right _ _
  · rw [hlength]
    exact Nat.add_lt_add_left (Nat.mod_lt _ (by decide)) _

end Explained

/-! ## The queue operations -/

section Operations

variable {repos : SyncRepos}

theorem length_waiting (repos : SyncRepos) :
    (waiting repos).length = ringCount repos := by
  rw [waiting, List.length_map, List.length_range]

/-- With room for them, the new tasks line up behind those that wait. -/
theorem waiting_addItem (hring : InRing repos) (isLocalIp : List Byte → ℤ)
    (filename filepath : List Byte) (fileLen : BitVec 32)
    (hroom : (waiting repos).length +
      (acceptedTasks isLocalIp filename filepath fileLen
        repos.peerList).length < maxReposNum) :
    InRing (addItem2SyncRepos isLocalIp filename filepath fileLen repos) ∧
      waiting (addItem2SyncRepos isLocalIp filename filepath fileLen repos) =
        waiting repos ++
          acceptedTasks isLocalIp filename filepath fileLen repos.peerList := by
  obtain ⟨tasks, removed, hexplained⟩ := hring.exists_explained
  have hwaiting := hexplained.waiting_eq
  have hadded : Explained
      (addItem2SyncRepos isLocalIp filename filepath fileLen repos)
      (tasks ++ acceptedTasks isLocalIp filename filepath fileLen
        repos.peerList) removed := by
    refine ⟨hexplained.law.addItem isLocalIp filename filepath fileLen, ?_, ?_⟩
    · rw [List.length_append]
      exact hexplained.removed_le.trans (Nat.le_add_right _ _)
    · rw [length_waiting, hexplained.ringCount_eq] at hroom
      rw [List.length_append]
      have := hexplained.removed_le
      omega
  refine ⟨hadded.inRing, ?_⟩
  rw [hadded.waiting_eq, hwaiting, pending_append hexplained.removed_le]

theorem waiting_removeItem (hring : InRing repos) {task : SyncTask}
    {rest : List SyncTask} (hwaiting : waiting repos = task :: rest) :
    InRing (removeItemFromSyncRepos repos) ∧
      waiting (removeItemFromSyncRepos repos) = rest := by
  obtain ⟨tasks, removed, hexplained⟩ := hring.exists_explained
  have hpending := hexplained.waiting_eq
  have hlength := congrArg List.length hwaiting
  rw [length_waiting, hexplained.ringCount_eq, List.length_cons] at hlength
  have hturn := hexplained.turn
  have hremoved : Explained (removeItemFromSyncRepos repos) tasks
      (removed + 1) :=
    ⟨hexplained.law.removeItem, by omega, by omega⟩
  refine ⟨hremoved.inRing, ?_⟩
  rw [hremoved.waiting_eq, ← tail_pending, ← hpending, hwaiting,
    List.tail_cons]

theorem hasMore_eq_one_iff (hring : InRing repos) :
    hasMoreItemInSyncRepos repos = 1 ↔ waiting repos = [] := by
  obtain ⟨tasks, removed, hexplained⟩ := hring.exists_explained
  rw [hexplained.law.hasMore_eq hexplained.removed_le hexplained.turn,
    hexplained.waiting_eq]
  by_cases hempty : pending tasks removed = []
  · simp [hempty]
  · simp [hempty]

theorem getCurrent_of_waiting (hring : InRing repos) {task : SyncTask}
    {rest : List SyncTask} (hwaiting : waiting repos = task :: rest) :
    getCurrentUnsyncedFile repos = taskFile task := by
  obtain ⟨tasks, removed, hexplained⟩ := hring.exists_explained
  apply hexplained.law.getCurrent_eq hexplained.turn.le
  rw [← hexplained.waiting_eq, hwaiting, List.head?_cons]

end Operations

end SyncAnywhere.WaitingTasks
