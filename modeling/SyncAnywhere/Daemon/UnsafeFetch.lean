import SyncAnywhere.Daemon.Dispatch

/-!
# What an unsafe fetch leads to

After an unsafe fetch the clients only have to go on with what they hold, and
dispatch is no longer exactly-once: no task has to be added and no mode has to
change.  So safe fetches are not only enough for exactly-once dispatch.
-/

namespace SyncAnywhere.UnsafeFetch

open SyncAnywhere.Run
open SyncAnywhere.TaskQueue
open SyncAnywhere.TaskTracking
open SyncAnywhere.DaemonSettings
open SyncAnywhere.Dispatch

/-- The clients move in the given order. -/
def runClients (state : System) (clients : List SyncMode) : System :=
  run step state (clients.map .client)

/-! ## What a client's step leaves alone -/

theorem step_client_tasks (state : System) (client : SyncMode) :
    (step state (.client client)).queue.tasks = state.queue.tasks := by
  rw [step_client, clientStep]
  split
  · split_ifs <;> rfl
  · split_ifs <;> rfl
  · rfl
  · rfl
  · rfl

theorem step_client_pc_of_ne (state : System) {client other : SyncMode}
    (hne : other ≠ client) :
    (step state (.client client)).pc other = state.pc other := by
  rw [step_client, clientStep]
  split
  · split_ifs
    · rfl
    · exact System.goto_pc_of_ne hne
  · split_ifs
    · exact System.goto_pc_of_ne hne
    · exact System.goto_pc_of_ne hne
  · exact System.goto_pc_of_ne hne
  · exact System.goto_pc_of_ne hne
  · exact System.goto_pc_of_ne hne

@[simp]
theorem runClients_tasks (state : System) (clients : List SyncMode) :
    (runClients state clients).queue.tasks = state.queue.tasks := by
  induction clients generalizing state with
  | nil => rfl
  | cons client clients ih =>
      exact (ih (step state (.client client))).trans
        (step_client_tasks state client)

/-! ## From the fetch to the violation -/

section Violation

variable {state : System} {client other : SyncMode} {fetched : Fetched}

theorem pc_fetch (hpc : state.pc client = .fetch) :
    (step state (.client client)).pc client = .send state.current := by
  rw [step_fetch hpc, System.goto_pc_self]

theorem numbers_fetch (hpc : state.pc client = .fetch) :
    (step state (.client client)).numbers = state.numbers := by
  rw [step_fetch hpc]
  rfl

theorem numbers_send (hpc : state.pc client = .send fetched) :
    (step state (.client client)).numbers =
      state.numbers ++ [fetched.number] := by
  rw [step_send hpc]
  exact List.map_append

theorem not_exactlyOnce_of_numbers {front : List (Option ℕ)}
    {number : Option ℕ} (hnumbers : state.numbers = front ++ [number, number]) :
    ¬ ExactlyOnce state := by
  intro honce
  have hnodup := honce.nodup
  rw [hnumbers] at hnodup
  have hlast := (List.nodup_append.mp hnodup).2.1
  simp at hlast

/-- The client fetches the task that the other one has sent and not yet
removed. -/
theorem sends_twice_of_remove (hinv : state.InOrder)
    (hpc : state.pc client = .fetch) (hother : state.pc other = .remove)
    (hfew : state.queue.tasks.length < maxReposNum) :
    ¬ ExactlyOnce (runClients state [client, client]) := by
  obtain ⟨hremoved, hnumbers⟩ := hinv.removing other hother
  apply not_exactlyOnce_of_numbers
  calc (runClients state [client, client]).numbers
      = (step state (.client client)).numbers ++ [state.current.number] :=
        numbers_send (pc_fetch hpc)
    _ = (List.range (state.queue.removed + 1)).map some ++
          [some state.queue.removed] := by
        rw [numbers_fetch hpc, hnumbers, (hinv.current_eq hremoved hfew).2]
    _ = (List.range state.queue.removed).map some ++
          [some state.queue.removed, some state.queue.removed] := by
        rw [List.range_succ, List.map_append, List.append_assoc]
        rfl

/-- The client fetches the task that the other one is about to send, and both
send it. -/
theorem sends_twice_of_send (hinv : state.InOrder)
    (hpc : state.pc client = .fetch) (hother : state.pc other = .send fetched)
    (hfew : state.queue.tasks.length < maxReposNum) :
    ¬ ExactlyOnce (runClients state [client, other, client]) := by
  have hne : other ≠ client := by
    rintro rfl
    cases hpc.symm.trans hother
  have hremoved := hinv.removed_lt_of_send hother
  have hcurrent := (hinv.fetched other fetched hother).2
  have hsecond : (step state (.client client)).pc other = .send fetched :=
    (step_client_pc_of_ne state hne).trans hother
  have hthird : (step (step state (.client client)) (.client other)).pc
      client = .send state.current :=
    (step_client_pc_of_ne _ hne.symm).trans (pc_fetch hpc)
  apply not_exactlyOnce_of_numbers
  calc (runClients state [client, other, client]).numbers
      = (step (step state (.client client)) (.client other)).numbers ++
          [state.current.number] := numbers_send hthird
    _ = state.numbers ++ [some state.queue.removed] ++
          [some state.queue.removed] := by
        rw [numbers_send hsecond, numbers_fetch hpc, hcurrent,
          (hinv.current_eq hremoved hfew).2]
    _ = state.numbers ++
          [some state.queue.removed, some state.queue.removed] := by
        rw [List.append_assoc, List.singleton_append]

/-- The client fetches from an empty queue and removes what is not there. -/
theorem removes_too_much (hpc : state.pc client = .fetch)
    (hempty : state.queue.tasks.length = state.queue.removed) :
    ¬ ExactlyOnce (runClients state [client, client, client]) := by
  have hsecond : (step (step state (.client client)) (.client client)).pc
      client = .remove := by
    rw [step_send (pc_fetch hpc)]
    exact System.goto_pc_self
  have hremoved : (runClients state [client, client, client]).queue.removed =
      state.queue.removed + 1 := by
    simp only [runClients, List.map_cons, List.map_nil, run_cons, run_nil]
    rw [step_remove hsecond, step_send (pc_fetch hpc), step_fetch hpc]
    rfl
  intro honce
  have hle := honce.removed_le
  rw [hremoved, runClients_tasks, hempty] at hle
  exact absurd hle (Nat.not_succ_le_self _)

end Violation

/-- Every unsafe fetch leads to a violation. -/
theorem exists_violation_of_not_fetchSafe {state : System} {event : DispatchEvent}
    (hinv : state.InOrder) (hbreach : ¬ FetchSafe state event)
    (hfew : state.queue.tasks.length < maxReposNum) :
    ∃ clients, ¬ ExactlyOnce (runClients (step state event) clients) := by
  cases event with
  | addItem isLocalIp filename filepath fileLen => exact absurd trivial hbreach
  | setTransferMode mode => exact absurd trivial hbreach
  | client client =>
      simp only [FetchSafe, Classical.not_imp, not_and_or] at hbreach
      obtain ⟨hpc, hempty | hheld⟩ := hbreach
      · have hall := (hinv.queueHead_eq_queueTail_iff hfew).mp
          (not_not.mp hempty)
        exact ⟨[client, client], removes_too_much hpc hall⟩
      · simp only [not_forall, not_not] at hheld
        obtain ⟨other, hne, hholding⟩ := hheld
        cases hother : state.pc other with
        | modeCheck => exact absurd hholding (by rw [hother]; exact id)
        | moreCheck => exact absurd hholding (by rw [hother]; exact id)
        | fetch => exact absurd hholding (by rw [hother]; exact id)
        | send fetched =>
            exact ⟨[other, client], sends_twice_of_send hinv hpc hother hfew⟩
        | remove =>
            exact ⟨[client], sends_twice_of_remove hinv hpc hother hfew⟩

/-- A run with an unsafe fetch has a beginning that the clients alone can
continue, with the tasks enqueued so far, to a state in which dispatch is not
exactly-once. -/
theorem exists_violation_of_not_along (repos : SyncRepos)
    (events : List DispatchEvent)
    (hfew : (run step (System.start repos) events).queue.tasks.length <
      maxReposNum)
    (hbreach : ¬ Along step FetchSafe (System.start repos) events) :
    ∃ front clients, front <+: events ∧
      ¬ ExactlyOnce
        (runClients (run step (System.start repos) front) clients) := by
  obtain ⟨front, event, back, hsplit, hfront, hevent⟩ :=
    exists_first_of_not_along hbreach
  rw [hsplit, run_append] at hfew
  have hfewFront := (length_tasks_le_run _ _).trans_lt hfew
  have hinv : (run step (System.start repos) front).InOrder :=
    invariant_run (fun _ _ hinv hstep => hinv.step hstep.1 hstep.2)
      (System.InOrder.start repos)
      (along_and_iff.mpr ⟨hfront, few_along hfewFront⟩)
  obtain ⟨clients, hviolation⟩ :=
    exists_violation_of_not_fetchSafe hinv hevent hfewFront
  refine ⟨front ++ [event], clients, ⟨back, ?_⟩, ?_⟩
  · rw [hsplit, List.append_assoc, List.singleton_append]
  · rw [run_append]
    exact hviolation

end SyncAnywhere.UnsafeFetch
