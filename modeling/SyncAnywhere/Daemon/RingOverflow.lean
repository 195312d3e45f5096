import SyncAnywhere.Core.Run
import SyncAnywhere.Daemon.QueueCapacity
import SyncAnywhere.Daemon.WaitingTasks

/-!
# What an overfull ring forgets

An add that does not fit makes the head lap the tail.  What is left waiting are
the newest tasks again, so a ring that is overfilled at any times loses tasks in
blocks of its size, and never repeats or reorders the others.
-/

namespace SyncAnywhere.RingOverflow

open SyncAnywhere.CMemory
open SyncAnywhere.QueueCapacity
open SyncAnywhere.RingLog
open SyncAnywhere.Run
open SyncAnywhere.TaskQueue
open SyncAnywhere.TaskTracking
open SyncAnywhere.WaitingTasks

/-- What a client takes in its turn. -/
def takenFile (state : Tracked) :
    QueueStep → List (List Byte × BitVec 32 × List Byte)
  | .addItem2SyncRepos _ _ _ _ => []
  | .clientTurn =>
      if hasMoreItemInSyncRepos state.repos = 0 then
        [getCurrentUnsyncedFile state.repos]
      else []

/-- Tasks have been taken and whole rings of tasks lost, and what follows them
is what waits. -/
structure Lapped (state : Tracked)
    (taken : List (List Byte × BitVec 32 × List Byte)) (lost : ℕ) :
    Prop where
  explained : Explained state.repos state.tasks
    (taken.length + maxReposNum * lost)
  sublist : List.Sublist taken
    ((state.tasks.take (taken.length + maxReposNum * lost)).map taskFile)

section Steps

variable {state : Tracked}
variable {taken : List (List Byte × BitVec 32 × List Byte)} {lost : ℕ}

theorem Lapped.start (repos : SyncRepos) :
    Lapped (Tracked.start repos) [] 0 where
  explained := ⟨QueueLaw.start repos, le_rfl, Nat.succ_pos 29⟩
  sublist := List.nil_sublist _

/-- A tail that is lapped points where it would point without the tasks that
are lost. -/
theorem explained_lapped {repos : SyncRepos} {tasks : List SyncTask}
    {removed : ℕ} (hlaw : QueueLaw repos tasks removed)
    (hremoved : removed ≤ tasks.length) :
    ∃ laps, Explained repos tasks (removed + maxReposNum * laps) := by
  refine ⟨(tasks.length - removed) / maxReposNum, ⟨hlaw.head, ?_, hlaw.slots⟩,
    ?_, ?_⟩
  · rw [Nat.add_mul_mod_self_left]
    exact hlaw.tail
  · have hle := Nat.mul_div_le (tasks.length - removed) maxReposNum
    omega
  · have hlt := Nat.lt_mul_div_succ (tasks.length - removed)
      (show 0 < maxReposNum by decide)
    rw [Nat.mul_succ] at hlt
    omega

/-- An add loses the tasks that it laps. -/
theorem Lapped.addItem (hlapped : Lapped state taken lost)
    (isLocalIp : List Byte → ℤ) (filename filepath : List Byte)
    (fileLen : BitVec 32) :
    ∃ next, Lapped (state.addItem isLocalIp filename filepath fileLen) taken
      next := by
  have hle := hlapped.explained.removed_le
  have hlaw := hlapped.explained.law.addItem isLocalIp filename filepath fileLen
  rw [← Tracked.addItem_repos, ← Tracked.addItem_tasks] at hlaw
  have hlonger : state.tasks.length ≤
      (state.addItem isLocalIp filename filepath fileLen).tasks.length := by
    rw [Tracked.addItem_tasks, List.length_append]
    exact Nat.le_add_right _ _
  obtain ⟨laps, hexplained⟩ := explained_lapped hlaw (hle.trans hlonger)
  rw [add_assoc, ← Nat.mul_add] at hexplained
  refine ⟨lost + laps, hexplained, hlapped.sublist.trans ?_⟩
  apply List.Sublist.map
  rw [Tracked.addItem_tasks, ← List.take_append_of_le_length hle]
  apply List.take_sublist_take_left
  exact Nat.add_le_add_left (Nat.mul_le_mul_left _ (Nat.le_add_right _ _)) _

/-- A client takes the first of the tasks that wait. -/
theorem Lapped.removeItem (hlapped : Lapped state taken lost)
    (hmore : hasMoreItemInSyncRepos state.repos = 0) :
    Lapped state.removeItem (taken ++ [getCurrentUnsyncedFile state.repos])
      lost := by
  have hexplained := hlapped.explained
  cases hwaiting : waiting state.repos with
  | nil =>
      have hnone := (hasMore_eq_one_iff hexplained.inRing).mpr hwaiting
      rw [hmore] at hnone
      cases hnone
  | cons task rest =>
      have hcurrent : getCurrentUnsyncedFile state.repos = taskFile task :=
        getCurrent_of_waiting hexplained.inRing hwaiting
      have hdrop : state.tasks.drop
          (taken.length + maxReposNum * lost) = task :: rest :=
        hexplained.waiting_eq.symm.trans hwaiting
      have hshown : (taken ++ [taskFile task]).length + maxReposNum * lost =
          taken.length + maxReposNum * lost + 1 := by
        rw [List.length_append, List.length_singleton, Nat.add_right_comm]
      have htake : state.tasks.take (taken.length + maxReposNum * lost + 1) =
          state.tasks.take (taken.length + maxReposNum * lost) ++ [task] := by
        rw [List.take_add, hdrop]
        rfl
      have hlonger := congrArg List.length hdrop
      rw [List.length_drop, List.length_cons] at hlonger
      have hturn := hexplained.turn
      rw [hcurrent]
      constructor
      · rw [hshown]
        refine ⟨hexplained.law.removeItem, ?_, ?_⟩
        · change _ ≤ state.tasks.length
          omega
        · change state.tasks.length < _
          omega
      · rw [hshown]
        change List.Sublist _ ((state.tasks.take _).map taskFile)
        rw [htake, List.map_append]
        exact hlapped.sublist.append (List.Sublist.refl _)

/-- Step lemma. -/
theorem Lapped.step (hlapped : Lapped state taken lost) (step : QueueStep) :
    ∃ next, Lapped (queueStep state step) (taken ++ takenFile state step)
      next := by
  cases step with
  | addItem2SyncRepos isLocalIp filename filepath fileLen =>
      rw [takenFile, List.append_nil]
      exact hlapped.addItem isLocalIp filename filepath fileLen
  | clientTurn =>
      rw [takenFile, queueStep]
      by_cases hmore : hasMoreItemInSyncRepos state.repos = 0
      · rw [if_pos hmore, if_pos hmore]
        exact ⟨lost, hlapped.removeItem hmore⟩
      · rw [if_neg hmore, if_neg hmore, List.append_nil]
        exact ⟨lost, hlapped⟩

/-- Run lemma. -/
theorem Lapped.run (hlapped : Lapped state taken lost)
    (steps : List QueueStep) :
    ∃ next, Lapped (run queueStep state steps)
      (taken ++ trace queueStep takenFile state steps) next := by
  induction steps generalizing state taken lost with
  | nil =>
      rw [trace, List.append_nil]
      exact ⟨lost, hlapped⟩
  | cons step steps ih =>
      obtain ⟨next, hnext⟩ := hlapped.step step
      rw [trace, ← List.append_assoc]
      exact ih hnext

end Steps

end SyncAnywhere.RingOverflow
