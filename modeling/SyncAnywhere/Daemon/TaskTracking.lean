import SyncAnywhere.Daemon.TaskQueue

/-!
# Following tasks through the ring

Two records may be equal as values, so the numbers of the enqueued tasks are
kept beside the ring: `owner` remembers which task was last written to a slot.
The numbers are not part of the program; erasing them gives back its queue.
-/

namespace SyncAnywhere.TaskTracking

open SyncAnywhere.CMemory
open SyncAnywhere.RingLog
open SyncAnywhere.TaskQueue

structure Tracked where
  repos : SyncRepos
  owner : ℕ → Option ℕ
  tasks : List SyncTask
  removed : ℕ

namespace Tracked

def start (repos : SyncRepos) : Tracked :=
  ⟨initializeSyncRepos repos, fun _ => none, [], 0⟩

def write (state : Tracked) (task : SyncTask) : Tracked where
  repos := writeTask state.repos task
  owner := Function.update state.owner state.repos.queueHead
    (some state.tasks.length)
  tasks := state.tasks ++ [task]
  removed := state.removed

def addItem (state : Tracked) (isLocalIp : List Byte → ℤ)
    (filename filepath : List Byte) (fileLen : BitVec 32) : Tracked :=
  (acceptedTasks isLocalIp filename filepath fileLen
    state.repos.peerList).foldl write state

def removeItem (state : Tracked) : Tracked :=
  { state with
    repos := removeItemFromSyncRepos state.repos
    removed := state.removed + 1 }

/-- Task `number` is in the ring, with the record it was enqueued with. -/
def Stored (state : Tracked) (number : ℕ) : Prop :=
  ∃ slot < maxReposNum, state.owner slot = some number ∧
    state.tasks[number]? = some (state.repos.syncfileRepos slot).toSyncTask

instance (state : Tracked) (number : ℕ) : Decidable (state.Stored number) :=
  inferInstanceAs (Decidable (∃ slot < maxReposNum, _ ∧ _))

/-! ## Erasing the numbers -/

theorem foldl_write_repos (state : Tracked) (tasks : List SyncTask) :
    (tasks.foldl write state).repos = tasks.foldl writeTask state.repos := by
  induction tasks generalizing state with
  | nil => rfl
  | cons task tasks ih => exact ih (state.write task)

theorem addItem_repos (state : Tracked) (isLocalIp : List Byte → ℤ)
    (filename filepath : List Byte) (fileLen : BitVec 32) :
    (state.addItem isLocalIp filename filepath fileLen).repos =
      addItem2SyncRepos isLocalIp filename filepath fileLen state.repos := by
  rw [addItem, foldl_write_repos, addItem2SyncRepos_eq_foldl]

theorem foldl_write_tasks (state : Tracked) (tasks : List SyncTask) :
    (tasks.foldl write state).tasks = state.tasks ++ tasks := by
  have happend := @Run.view_run_append _ _ write _ Tracked.tasks
    (fun task => [task]) (fun _ _ => rfl) state tasks
  rwa [List.flatMap_singleton'] at happend

theorem foldl_write_removed (state : Tracked) (tasks : List SyncTask) :
    (tasks.foldl write state).removed = state.removed :=
  Run.view_run_eq write Tracked.removed (fun _ _ => rfl) state tasks

@[simp]
theorem addItem_tasks (state : Tracked) (isLocalIp : List Byte → ℤ)
    (filename filepath : List Byte) (fileLen : BitVec 32) :
    (state.addItem isLocalIp filename filepath fileLen).tasks =
      state.tasks ++ acceptedTasks isLocalIp filename filepath fileLen
        state.repos.peerList :=
  foldl_write_tasks state _

@[simp]
theorem addItem_removed (state : Tracked) (isLocalIp : List Byte → ℤ)
    (filename filepath : List Byte) (fileLen : BitVec 32) :
    (state.addItem isLocalIp filename filepath fileLen).removed =
      state.removed :=
  foldl_write_removed state _

/-! ## The law of the tracked ring -/

/-- The queue law, together with: slots are owned by the tasks the law says
they hold, and no slot is owned by a task of another slot. -/
structure Law (state : Tracked) : Prop where
  queue : QueueLaw state.repos state.tasks state.removed
  owned : Holds maxReposNum state.owner
    ((List.range state.tasks.length).map some)
  origin : ∀ slot number, state.owner slot = some number →
    number < state.tasks.length ∧ slot = number % maxReposNum

namespace Law

variable {state : Tracked}

theorem start (repos : SyncRepos) : (Tracked.start repos).Law where
  queue := QueueLaw.start repos
  owned := Holds.nil _ _
  origin := by
    intro slot number howner
    cases howner

theorem write (hlaw : state.Law) (task : SyncTask) :
    (state.write task).Law where
  queue := hlaw.queue.writeTask task
  owned := by
    have hnext := hlaw.owned.write (some state.tasks.length)
    rw [List.length_map, List.length_range, ← hlaw.queue.head] at hnext
    simpa [Tracked.write, List.range_succ] using hnext
  origin := by
    intro slot number howner
    simp only [Tracked.write, List.length_append, List.length_singleton]
    by_cases hslot : slot = state.repos.queueHead
    · subst hslot
      have hnumber : state.tasks.length = number := by
        simpa [Tracked.write] using howner
      subst hnumber
      exact ⟨Nat.lt_succ_self _, hlaw.queue.head⟩
    · have hold : state.owner slot = some number := by
        simpa [Tracked.write, hslot] using howner
      obtain ⟨hnumber, hplace⟩ := hlaw.origin slot number hold
      exact ⟨Nat.lt_succ_of_lt hnumber, hplace⟩

theorem addItem (hlaw : state.Law) (isLocalIp : List Byte → ℤ)
    (filename filepath : List Byte) (fileLen : BitVec 32) :
    (state.addItem isLocalIp filename filepath fileLen).Law := by
  rw [Tracked.addItem]
  generalize acceptedTasks isLocalIp filename filepath fileLen
    state.repos.peerList = added
  induction added generalizing state with
  | nil => exact hlaw
  | cons task added ih => exact ih (hlaw.write task)

theorem removeItem (hlaw : state.Law) : state.removeItem.Law where
  queue := hlaw.queue.removeItem
  owned := hlaw.owned
  origin := hlaw.origin

/-- The slot of a task, while the writer has not come round to it. -/
theorem owner_eq (hlaw : state.Law) {number : ℕ}
    (hnumber : number < state.tasks.length)
    (hturn : state.tasks.length ≤ number + maxReposNum) :
    state.owner (number % maxReposNum) = some number := by
  apply hlaw.owned number (some number)
  · simp [hnumber]
  · simpa using hturn

/-- A task is still in the ring exactly while fewer than a full turn of tasks
was enqueued behind it. -/
theorem stored_iff (hlaw : state.Law) {number : ℕ}
    (hnumber : number < state.tasks.length) :
    state.Stored number ↔ state.tasks.length ≤ number + maxReposNum := by
  constructor
  · rintro ⟨slot, -, howner, -⟩
    obtain ⟨-, hslot⟩ := hlaw.origin slot number howner
    obtain ⟨latest, hle, hlatest, hturn, hsame⟩ :=
      exists_latest (show 0 < maxReposNum by decide) hnumber
    have hlast := hlaw.owner_eq hlatest hturn
    rw [hsame, ← hslot, howner, Option.some.injEq] at hlast
    rw [hlast]
    exact hturn
  · intro hturn
    refine ⟨number % maxReposNum, Nat.mod_lt _ (by decide),
      hlaw.owner_eq hnumber hturn, ?_⟩
    have hrecord := List.getElem?_eq_getElem hnumber
    have hslot := hlaw.queue.slots number _ hrecord hturn
    exact hrecord.trans (congrArg some hslot.symm)

end Law

end Tracked

end SyncAnywhere.TaskTracking
