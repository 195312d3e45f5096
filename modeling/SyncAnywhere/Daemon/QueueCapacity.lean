import SyncAnywhere.Core.Run
import SyncAnywhere.Daemon.TaskTracking

/-!
# Adding files to a queue that is not drained

`addItem2SyncRepos` never looks at the tail.  The queue is driven here by adds
and by client turns, where a client removes a task only behind a
`hasMoreItemInSyncRepos` that answered `0`.
-/

namespace SyncAnywhere.QueueCapacity

open SyncAnywhere.CMemory
open SyncAnywhere.Numeral
open SyncAnywhere.RingLog
open SyncAnywhere.Run
open SyncAnywhere.TaskQueue
open SyncAnywhere.TaskTracking

inductive QueueStep where
  | addItem2SyncRepos (isLocalIp : List Byte → ℤ)
      (filename filepath : List Byte) (fileLen : BitVec 32)
  | clientTurn

def queueStep (state : Tracked) : QueueStep → Tracked
  | .addItem2SyncRepos isLocalIp filename filepath fileLen =>
      state.addItem isLocalIp filename filepath fileLen
  | .clientTurn =>
      if hasMoreItemInSyncRepos state.repos = 0 then state.removeItem
      else state

/-- Every task that is pending before an add is still stored behind it, and
work is reported whenever some enqueued task has not been removed. -/
def KeepsTasks (state : Tracked) (step : QueueStep) : Prop :=
  let next := queueStep state step
  (match step with
    | .addItem2SyncRepos _ _ _ _ =>
        ∀ number < state.tasks.length, state.removed ≤ number →
          next.Stored number
    | .clientTurn => True) ∧
  (next.removed < next.tasks.length → hasMoreItemInSyncRepos next.repos = 0)

/-- The records an add writes fit behind the pending ones in 29 slots. -/
def Room (state : Tracked) : QueueStep → Prop
  | .addItem2SyncRepos isLocalIp filename filepath fileLen =>
      state.tasks.length - state.removed +
        (acceptedTasks isLocalIp filename filepath fileLen
          state.repos.peerList).length ≤ 29
  | .clientTurn => True

/-- At most 29 tasks pending. -/
structure Unfilled (state : Tracked) : Prop where
  law : state.Law
  read : state.removed ≤ state.tasks.length
  ahead : state.tasks.length ≤ state.removed + 29

namespace Unfilled

variable {state : Tracked}

theorem start (repos : SyncRepos) : Unfilled (Tracked.start repos) :=
  ⟨Tracked.Law.start repos, le_rfl, Nat.zero_le _⟩

theorem hasMore_eq_zero_iff (hunfilled : Unfilled state) :
    hasMoreItemInSyncRepos state.repos = 0 ↔
      state.removed < state.tasks.length := by
  have hturn : state.tasks.length < state.removed + maxReposNum :=
    lt_of_le_of_lt hunfilled.ahead (Nat.add_lt_add_left (by decide) _)
  rw [hunfilled.law.queue.hasMore_eq hunfilled.read hturn]
  simp [pending_eq_nil_iff]

/-- A client turn keeps the bound, and what it leaves is reported. -/
theorem clientTurn (hunfilled : Unfilled state) :
    Unfilled (queueStep state .clientTurn) := by
  rw [queueStep]
  by_cases hmore : hasMoreItemInSyncRepos state.repos = 0
  · have hread := hunfilled.hasMore_eq_zero_iff.mp hmore
    have hahead := hunfilled.ahead
    rw [if_pos hmore]
    exact ⟨hunfilled.law.removeItem, hread, by
      simp only [Tracked.removeItem]
      omega⟩
  · rw [if_neg hmore]
    exact hunfilled

theorem addItem (hunfilled : Unfilled state) {isLocalIp : List Byte → ℤ}
    {filename filepath : List Byte} {fileLen : BitVec 32}
    (hroom : Room state
      (.addItem2SyncRepos isLocalIp filename filepath fileLen)) :
    Unfilled (state.addItem isLocalIp filename filepath fileLen) := by
  have hread := hunfilled.read
  refine ⟨hunfilled.law.addItem isLocalIp filename filepath fileLen, ?_, ?_⟩
  · rw [Tracked.addItem_removed, Tracked.addItem_tasks, List.length_append]
    exact hread.trans (Nat.le_add_right _ _)
  · rw [Room] at hroom
    rw [Tracked.addItem_removed, Tracked.addItem_tasks, List.length_append]
    omega

theorem step (hunfilled : Unfilled state) {step : QueueStep}
    (hroom : Room state step) : Unfilled (queueStep state step) := by
  cases step with
  | addItem2SyncRepos => exact hunfilled.addItem hroom
  | clientTurn => exact hunfilled.clientTurn

/-- An add that overfills the ring either meets the tail, and the queue looks
empty, or passes it, and the oldest pending task is overwritten. -/
theorem overfilled (hunfilled : Unfilled state) {isLocalIp : List Byte → ℤ}
    {filename filepath : List Byte} {fileLen : BitVec 32}
    (hroom : ¬ Room state
      (.addItem2SyncRepos isLocalIp filename filepath fileLen)) :
    ¬ KeepsTasks state
      (.addItem2SyncRepos isLocalIp filename filepath fileLen) := by
  rintro ⟨hstored, hreported⟩
  have hread := hunfilled.read
  have hadded := length_acceptedTasks_le isLocalIp filename filepath fileLen
    state.repos.peerList
  have hlaw := hunfilled.law.addItem isLocalIp filename filepath fileLen
  have hlength : (state.addItem isLocalIp filename filepath
      fileLen).tasks.length = state.tasks.length +
        (acceptedTasks isLocalIp filename filepath fileLen
          state.repos.peerList).length := by
    rw [Tracked.addItem_tasks, List.length_append]
  rw [Room] at hroom
  simp only [queueStep, Tracked.addItem_removed] at hstored hreported
  rw [maxPeerNum] at hadded
  have hpending : state.removed < state.tasks.length := by omega
  have hkept := (hlaw.stored_iff (by omega)).mp
    (hstored state.removed hpending le_rfl)
  have hmet : (state.addItem isLocalIp filename filepath fileLen).tasks.length =
      state.removed + 30 := by
    rw [maxReposNum] at hkept
    omega
  have hlooksEmpty : hasMoreItemInSyncRepos
      (state.addItem isLocalIp filename filepath fileLen).repos = 1 := by
    rw [hlaw.queue.hasMore_eq_one_iff, hmet, Tracked.addItem_removed]
    exact Nat.add_mod_right _ _
  rw [hreported (by omega)] at hlooksEmpty
  cases hlooksEmpty

/-- Step lemma: on an unfilled queue a step loses no task exactly when its
records fit. -/
theorem keepsTasks_iff_room (hunfilled : Unfilled state) (step : QueueStep) :
    KeepsTasks state step ↔ Room state step := by
  constructor
  · intro hkeeps
    cases step with
    | addItem2SyncRepos =>
        by_contra hroom
        exact hunfilled.overfilled hroom hkeeps
    | clientTurn => trivial
  · intro hroom
    have hnext := hunfilled.step hroom
    refine ⟨?_, hnext.hasMore_eq_zero_iff.mpr⟩
    cases step with
    | addItem2SyncRepos isLocalIp filename filepath fileLen =>
        intro number hnumber hread
        have hahead := hnext.ahead
        have hstill : number < (state.addItem isLocalIp filename filepath
            fileLen).tasks.length := by
          rw [Tracked.addItem_tasks, List.length_append]
          omega
        simp only [queueStep, Tracked.addItem_removed] at hahead hnext
        apply (hnext.law.stored_iff hstill).mpr
        rw [maxReposNum]
        omega
    | clientTurn => trivial

end Unfilled

/-- Along a run no task is lost and all work is reported exactly when at every
add the pending tasks and the new records together number at most 29. -/
theorem keepsTasks_along_iff (repos : SyncRepos) (steps : List QueueStep) :
    Along queueStep KeepsTasks (Tracked.start repos) steps ↔
      Along queueStep Room (Tracked.start repos) steps :=
  along_congr (fun _ _ hunfilled hroom => Unfilled.step hunfilled hroom)
    (fun _ step hunfilled => Unfilled.keepsTasks_iff_room hunfilled step)
    steps (Unfilled.start repos)

/-- Fifteen files for the two configured peers, none of them sent yet, make
the queue look empty. -/
theorem fifteenFiles_lookEmpty :
    ¬ Along queueStep KeepsTasks (Tracked.start daemonRepos)
      (List.replicate 15 (.addItem2SyncRepos (fun _ => 0)
        ("a".toList.map charByte) ("/home/a".toList.map charByte) 7#32)) := by
  intro halong
  rw [show (15 : ℕ) = 14 + 1 from rfl, List.replicate_succ'] at halong
  have hreported := ((along_append_iff.mp halong).2.1).2
  exact absurd (hreported (by decide)) (by decide)

end SyncAnywhere.QueueCapacity
