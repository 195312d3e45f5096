import SyncAnywhere.Core.Run
import SyncAnywhere.Daemon.Dispatch

/-!
# What a repeated sending costs

A mode switch during a transfer lets both clients send the same task.  Both
remove one as well, so every sending that repeats an earlier one costs another
task its own.
-/

namespace SyncAnywhere.RepeatedSends

open SyncAnywhere.DaemonSettings
open SyncAnywhere.Dispatch
open SyncAnywhere.Run
open SyncAnywhere.TaskQueue
open SyncAnywhere.TaskTracking

/-! ## Counting -/

/-- Among the numbers below the length of a list that has no others, as many are
missing as entries repeat. -/
theorem card_missing_add (numbers : List (Option ℕ))
    (hbelow : ∀ entry ∈ numbers, ∃ number < numbers.length,
      entry = some number) :
    ((Finset.range numbers.length).filter
        fun number => some number ∉ numbers).card + numbers.toFinset.card =
      numbers.length := by
  have himage : ((Finset.range numbers.length).filter
      fun number => some number ∈ numbers).image some = numbers.toFinset := by
    ext entry
    simp only [Finset.mem_image, Finset.mem_filter, Finset.mem_range,
      List.mem_toFinset]
    constructor
    · rintro ⟨number, ⟨-, hmem⟩, rfl⟩
      exact hmem
    · intro hmem
      obtain ⟨number, hlt, rfl⟩ := hbelow entry hmem
      exact ⟨number, ⟨hlt, hmem⟩, rfl⟩
  have hcard := Finset.card_image_of_injective
    ((Finset.range numbers.length).filter
      fun number => some number ∈ numbers) (Option.some_injective ℕ)
  rw [himage] at hcard
  have hsplit := Finset.card_filter_add_card_filter_not
    (s := Finset.range numbers.length) (fun number => some number ∈ numbers)
  rw [Finset.card_range] at hsplit
  omega

/-! ## The invariant -/

/-- The clients that have sent their task and not removed one yet. -/
def removing (state : System) : Finset SyncMode :=
  Finset.univ.filter fun client => state.pc client = .remove

/-- The tasks that were removed and never sent, by their numbers. -/
def skipped (state : System) : Finset ℕ :=
  (Finset.range state.queue.removed).filter
    fun number => some number ∉ state.numbers

/-- A client only fetches while there is a task that was not removed, and that
the writer has not come round to. -/
def FetchesTask (state : System) : DispatchEvent → Prop
  | .client client =>
      state.pc client = .fetch →
        state.queue.removed < state.queue.tasks.length ∧
          state.queue.tasks.length ≤ state.queue.removed + maxReposNum
  | _ => True

instance (state : System) : DecidablePred (FetchesTask state)
  | .client _ => inferInstanceAs (Decidable (_ → _ ∧ _))
  | .addItem _ _ _ _ => .isTrue trivial
  | .setTransferMode _ => .isTrue trivial

/-- Every client that has sent has removed or is about to, and what it has sent
or fetched is at most the next task. -/
structure Balanced (state : System) : Prop where
  law : state.queue.Law
  length_sent : state.sent.length =
    state.queue.removed + (removing state).card
  fetched : ∀ client fetched, state.pc client = .send fetched →
    ∃ number ≤ state.queue.removed, fetched.number = some number
  sent : ∀ entry ∈ state.numbers, ∃ number, entry = some number ∧
    (number < state.queue.removed ∨
      number = state.queue.removed ∧ (removing state).Nonempty)

section Steps

variable {state : System} {client : SyncMode} {pc : ClientPc}

theorem Balanced.start (repos : SyncRepos) :
    Balanced (System.start repos) where
  law := Tracked.Law.start repos
  length_sent := rfl
  fetched := fun _ _ hpc => by cases hpc
  sent := fun _ hentry => absurd hentry List.not_mem_nil

theorem removing_goto_remove :
    removing (state.goto client .remove) = insert client (removing state) := by
  ext other
  by_cases hsame : other = client
  · simp [removing, hsame]
  · simp [removing, System.goto_pc_of_ne hsame, hsame]

theorem removing_goto_of_ne (hpc : pc ≠ .remove) :
    removing (state.goto client pc) = (removing state).erase client := by
  ext other
  by_cases hsame : other = client
  · simp [removing, hsame, hpc]
  · simp [removing, System.goto_pc_of_ne hsame, hsame]

theorem mem_removing_iff :
    client ∈ removing state ↔ state.pc client = .remove := by
  simp [removing]

/-- Moving on before the sending leaves the balance alone. -/
theorem Balanced.goto (hbalanced : Balanced state)
    (hbefore : state.pc client ≠ .remove) (hafter : pc ≠ .remove)
    (hfetched : ∀ fetched, pc = .send fetched →
      ∃ number ≤ state.queue.removed, fetched.number = some number) :
    Balanced (state.goto client pc) := by
  have hsame : removing (state.goto client pc) = removing state := by
    rw [removing_goto_of_ne hafter, Finset.erase_eq_of_notMem]
    rwa [mem_removing_iff]
  refine ⟨hbalanced.law, ?_, ?_, ?_⟩
  · rw [hsame]
    exact hbalanced.length_sent
  · intro other fetched hother
    by_cases hclient : other = client
    · rw [hclient, System.goto_pc_self] at hother
      exact hfetched fetched hother
    · rw [System.goto_pc_of_ne hclient] at hother
      exact hbalanced.fetched other fetched hother
  · rw [hsame]
    exact hbalanced.sent

/-- What is fetched is the next task. -/
theorem Balanced.fetch (hbalanced : Balanced state)
    (hpc : state.pc client = .fetch)
    (hfetches : FetchesTask state (.client client)) :
    Balanced (step state (.client client)) := by
  obtain ⟨hremoved, hturn⟩ := hfetches hpc
  rw [step_fetch hpc]
  apply hbalanced.goto (by simp [hpc]) (by simp)
  intro fetched hfetched
  refine ⟨state.queue.removed, le_rfl, ?_⟩
  rw [← ClientPc.send.inj hfetched, System.current,
    hbalanced.law.queue.tail]
  exact hbalanced.law.owner_eq hremoved hturn

theorem Balanced.send (hbalanced : Balanced state) {fetched : Fetched}
    (hpc : state.pc client = .send fetched) :
    Balanced (step state (.client client)) := by
  have hnone : client ∉ removing state := by simp [mem_removing_iff, hpc]
  obtain ⟨number, hle, hnumber⟩ := hbalanced.fetched client fetched hpc
  rw [step_send hpc]
  refine ⟨hbalanced.law, ?_, ?_, ?_⟩
  · change (state.sent ++ [(client, fetched)]).length =
      state.queue.removed + (removing (state.goto client .remove)).card
    rw [removing_goto_remove, Finset.card_insert_of_notMem hnone,
      List.length_append, List.length_singleton, hbalanced.length_sent,
      add_assoc]
  · intro other held hother
    by_cases hclient : other = client
    · rw [hclient] at hother
      cases System.goto_pc_self.symm.trans hother
    · exact hbalanced.fetched other held
        ((System.goto_pc_of_ne hclient).symm.trans hother)
  · have hpending : (removing (state.goto client .remove)).Nonempty := by
      rw [removing_goto_remove]
      exact Finset.insert_nonempty _ _
    intro entry hentry
    change entry ∈ (state.sent ++ [(client, fetched)]).map _ at hentry
    rw [List.map_append] at hentry
    rcases List.mem_append.mp hentry with hold | hnew
    · obtain ⟨old, hold, hbelow⟩ := hbalanced.sent entry hold
      refine ⟨old, hold, ?_⟩
      rcases hbelow with hlt | ⟨heq, -⟩
      · exact .inl hlt
      · exact .inr ⟨heq, hpending⟩
    · refine ⟨number, (List.mem_singleton.mp hnew).trans hnumber, ?_⟩
      rcases hle.lt_or_eq with hlt | heq
      · exact .inl hlt
      · exact .inr ⟨heq, hpending⟩

theorem Balanced.remove (hbalanced : Balanced state)
    (hpc : state.pc client = .remove) :
    Balanced (step state (.client client)) := by
  have hmem : client ∈ removing state := mem_removing_iff.mpr hpc
  rw [step_remove hpc]
  refine ⟨hbalanced.law.removeItem, ?_, ?_, ?_⟩
  · change state.sent.length = state.queue.removed + 1 +
      (removing (state.goto client .modeCheck)).card
    rw [removing_goto_of_ne (by simp), Finset.card_erase_of_mem hmem,
      hbalanced.length_sent]
    have hpos := Finset.card_pos.mpr ⟨client, hmem⟩
    omega
  · intro other fetched hother
    by_cases hclient : other = client
    · rw [hclient] at hother
      cases System.goto_pc_self.symm.trans hother
    · obtain ⟨number, hle, hnumber⟩ := hbalanced.fetched other fetched
        ((System.goto_pc_of_ne hclient).symm.trans hother)
      exact ⟨number, Nat.le_succ_of_le hle, hnumber⟩
  · intro entry hentry
    obtain ⟨number, hnumber, hbelow⟩ := hbalanced.sent entry hentry
    refine ⟨number, hnumber, .inl ?_⟩
    rcases hbelow with hlt | ⟨heq, -⟩
    · exact Nat.lt_succ_of_lt hlt
    · exact Nat.lt_succ_of_le heq.le

/-- Step lemma: the balance is kept in any mode and by any interleaving. -/
theorem Balanced.step (hbalanced : Balanced state) {event : DispatchEvent}
    (hfetches : FetchesTask state event) :
    Balanced (Dispatch.step state event) := by
  cases event with
  | addItem isLocalIp filename filepath fileLen =>
      have hremoved := Tracked.addItem_removed state.queue isLocalIp filename
        filepath fileLen
      refine ⟨hbalanced.law.addItem isLocalIp filename filepath fileLen, ?_,
        ?_, ?_⟩
      · change state.sent.length = (state.queue.addItem _ _ _ _).removed + _
        rw [hremoved]
        exact hbalanced.length_sent
      · change ∀ client fetched, _ →
          ∃ number ≤ (state.queue.addItem _ _ _ _).removed, _
        rw [hremoved]
        exact hbalanced.fetched
      · change ∀ entry ∈ state.numbers, ∃ number, _ ∧
          (number < (state.queue.addItem _ _ _ _).removed ∨
            number = (state.queue.addItem _ _ _ _).removed ∧ _)
        rw [hremoved]
        exact hbalanced.sent
  | setTransferMode mode => exact { hbalanced with }
  | client client =>
      cases hpc : state.pc client with
      | modeCheck =>
          simp only [step_client, clientStep, hpc]
          split
          next => exact hbalanced
          next => exact hbalanced.goto (by simp [hpc]) (by simp) (by simp)
      | moreCheck =>
          simp only [step_client, clientStep, hpc]
          split
          next => exact hbalanced.goto (by simp [hpc]) (by simp) (by simp)
          next => exact hbalanced.goto (by simp [hpc]) (by simp) (by simp)
      | fetch => exact hbalanced.fetch hpc hfetches
      | send fetched => exact hbalanced.send hpc
      | remove => exact hbalanced.remove hpc

end Steps

/-! ## Runs -/

/-- However the modes are switched: when no client is about to remove a task, as
many tasks have been removed as sent, and so as many of the removed ones were
never sent as sendings repeat an earlier one. -/
theorem skipped_add_distinct {repos : SyncRepos}
    {events : List DispatchEvent} {final : System}
    (hfinal : run step (System.start repos) events = final)
    (hfetches : Along step FetchesTask (System.start repos) events)
    (hrest : ∀ client, final.pc client ≠ .remove) :
    final.sent.length = final.queue.removed ∧
      (skipped final).card + final.numbers.toFinset.card =
        final.sent.length := by
  have hbalanced : Balanced final := by
    rw [← hfinal]
    exact @invariant_run System DispatchEvent step FetchesTask Balanced
      (fun _ _ hbefore hevent => hbefore.step hevent) _ _
      (Balanced.start repos) hfetches
  have hnone : removing final = ∅ :=
    Finset.filter_eq_empty_iff.mpr fun client _ => hrest client
  have hlength : final.sent.length = final.queue.removed := by
    rw [hbalanced.length_sent, hnone]
    rfl
  have hnumbers : final.numbers.length = final.queue.removed := by
    rw [System.numbers, List.length_map, hlength]
  have hcount := card_missing_add final.numbers
  rw [hnumbers] at hcount
  refine ⟨hlength, ?_⟩
  rw [hlength]
  apply hcount
  intro entry hentry
  obtain ⟨number, hnumber, hbelow⟩ := hbalanced.sent entry hentry
  refine ⟨number, ?_, hnumber⟩
  rcases hbelow with hlt | ⟨-, hsome⟩
  · exact hlt
  · rw [hnone] at hsome
    exact absurd hsome Finset.not_nonempty_empty

/-- With two tasks, the switch during the transfer of the first one costs the
second one its sending. -/
theorem skipped_add_distinct_twoTasks :
    ∃ final, run step (System.start daemonRepos)
        (addForOnePeer :: switchDuringTransfer) = final ∧
      final.numbers = [some 0, some 0] ∧ (skipped final).card = 1 := by
  have hnumbers : (run step (System.start daemonRepos)
      (addForOnePeer :: switchDuringTransfer)).numbers = [some 0, some 0] := by
    decide
  obtain ⟨-, hcount⟩ := @skipped_add_distinct daemonRepos
    (addForOnePeer :: switchDuringTransfer) _ rfl (by decide) (by decide)
  refine ⟨_, rfl, hnumbers, ?_⟩
  rw [hnumbers] at hcount
  exact Nat.add_right_cancel hcount

end SyncAnywhere.RepeatedSends
