import SyncAnywhere.Daemon.Dispatch

/-!
# Mode switches between transfers

When the mode only changes while both clients are about to check it, the mode
flag does exclude the clients from each other, and every fetch is safe.
-/

namespace SyncAnywhere.QuietSwitches

open SyncAnywhere.Run
open SyncAnywhere.TaskQueue
open SyncAnywhere.TaskTracking
open SyncAnywhere.DaemonSettings
open SyncAnywhere.Dispatch

/-- The mode only changes while both clients are about to check it. -/
def QuietSwitch (state : System) : DispatchEvent → Prop
  | .setTransferMode _ => ∀ client, state.pc client = .modeCheck
  | _ => True

/-- A client past its mode check is in its own mode, and one that is about to
fetch has a task to fetch. -/
structure InMode (state : System) : Prop where
  mode : ∀ client, state.pc client ≠ .modeCheck →
    getTransferMode state.settings = client
  more : ∀ client, state.pc client = .fetch →
    state.queue.removed < state.queue.tasks.length

namespace InMode

variable {state : System} {client : SyncMode}

theorem start (repos : SyncRepos) : InMode (System.start repos) where
  mode := fun _ hpc => absurd rfl hpc
  more := by simp [System.start]

/-- The other client is at its mode check. -/
theorem eq_of_ne_modeCheck (hmode : InMode state) {other : SyncMode}
    (hclient : state.pc client ≠ .modeCheck)
    (hother : state.pc other ≠ .modeCheck) : other = client :=
  (hmode.mode other hother).symm.trans (hmode.mode client hclient)

theorem goto (hmode : InMode state) {pc : ClientPc}
    (hown : getTransferMode state.settings = client)
    (hmore : pc = .fetch →
      state.queue.removed < state.queue.tasks.length) :
    InMode (state.goto client pc) where
  mode := by
    intro other hother
    by_cases hself : other = client
    · rw [hself]
      exact hown
    · rw [System.goto_pc_of_ne hself] at hother
      exact hmode.mode other hother
  more := by
    intro other hother
    by_cases hself : other = client
    · rw [hself, System.goto_pc_self] at hother
      exact hmore hother
    · rw [System.goto_pc_of_ne hself] at hother
      exact hmode.more other hother

theorem remove (hmode : InMode state) (hpc : state.pc client = .remove) :
    InMode (Dispatch.step state (.client client)) := by
  have hactive : state.pc client ≠ .modeCheck := by simp [hpc]
  have hidle : ∀ other,
      (state.goto client .modeCheck).pc other = .modeCheck := by
    intro other
    by_cases hself : other = client
    · rw [hself, System.goto_pc_self]
    · rw [System.goto_pc_of_ne hself]
      by_contra hother
      exact hself (hmode.eq_of_ne_modeCheck hactive hother)
  simp only [step_client, clientStep, hpc]
  constructor
  · intro other hother
    exact absurd (hidle other) hother
  · intro other hother
    cases (hidle other).symm.trans hother

theorem step (hmode : InMode state) (hinv : state.InOrder)
    {event : DispatchEvent} (hquiet : QuietSwitch state event) :
    InMode (Dispatch.step state event) := by
  cases event with
  | addItem isLocalIp filename filepath fileLen =>
      refine ⟨hmode.mode, ?_⟩
      intro client hpc
      simp only [Dispatch.step, Tracked.addItem_removed,
        Tracked.addItem_tasks, List.length_append]
      exact (hmode.more client hpc).trans_le (Nat.le_add_right _ _)
  | setTransferMode mode =>
      constructor
      · intro client hpc
        exact absurd (hquiet client) hpc
      · intro client hpc
        cases (hquiet client).symm.trans hpc
  | client client =>
      cases hpc : state.pc client with
      | modeCheck =>
          simp only [step_client, clientStep, hpc]
          split_ifs with hown
          · exact hmode
          · exact hmode.goto (eq_of_ne_otherMode hown) (by simp)
      | moreCheck =>
          have hown := hmode.mode client (by simp [hpc])
          simp only [step_client, clientStep, hpc]
          split_ifs with hnone
          · exact hmode.goto hown (by simp)
          · apply hmode.goto hown
            intro _
            apply hinv.removed_lt
            intro hempty
            exact hnone (if_pos hempty)
      | fetch =>
          have hown := hmode.mode client (by simp [hpc])
          simp only [step_client, clientStep, hpc]
          exact hmode.goto hown (by simp)
      | send fetched =>
          have hown := hmode.mode client (by simp [hpc])
          have hnext : InMode (state.goto client .remove) :=
            hmode.goto hown (by simp)
          simp only [step_client, clientStep, hpc]
          exact ⟨hnext.mode, hnext.more⟩
      | remove => exact hmode.remove hpc

theorem fetchSafe (hmode : InMode state) (hinv : state.InOrder)
    {event : DispatchEvent} (hfew : Few state event) :
    FetchSafe state event := by
  cases event with
  | addItem isLocalIp filename filepath fileLen => trivial
  | setTransferMode mode => trivial
  | client client =>
      intro hpc
      have hremoved := hmode.more client hpc
      have htasks : state.queue.tasks.length < maxReposNum :=
        (length_tasks_le_step state _).trans_lt hfew
      constructor
      · intro hempty
        exact hremoved.ne' ((hinv.queueHead_eq_queueTail_iff htasks).mp hempty)
      · intro other hne hholding
        apply hne
        apply hmode.eq_of_ne_modeCheck
        · simp [hpc]
        · intro hother
          rw [hother] at hholding
          exact hholding

end InMode

/-- Switches that wait for both clients make every fetch safe. -/
theorem fetchSafe_of_quiet (repos : SyncRepos) (events : List DispatchEvent)
    (hfew : (run step (System.start repos) events).queue.tasks.length <
      maxReposNum)
    (hquiet : Along step QuietSwitch (System.start repos) events) :
    Along step FetchSafe (System.start repos) events := by
  have hstart : (System.start repos).InOrder ∧ InMode (System.start repos) :=
    ⟨System.InOrder.start repos, InMode.start repos⟩
  have hstep : ∀ state event, state.InOrder ∧ InMode state →
      QuietSwitch state event ∧ Few state event →
        (step state event).InOrder ∧ InMode (step state event) := by
    rintro state event ⟨hinv, hmode⟩ ⟨hswitch, hfew⟩
    exact ⟨hinv.step (hmode.fetchSafe hinv hfew) hfew,
      hmode.step hinv hswitch⟩
  have hgood : ∀ state event, state.InOrder ∧ InMode state →
      QuietSwitch state event ∧ Few state event → FetchSafe state event := by
    rintro state event ⟨hinv, hmode⟩ ⟨-, hfew⟩
    exact hmode.fetchSafe hinv hfew
  exact along_of_invariant hstep hgood hstart
    (along_and_iff.mpr ⟨hquiet, few_along hfew⟩)

end SyncAnywhere.QuietSwitches
