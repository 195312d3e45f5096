import SyncAnywhere.Core.Run
import SyncAnywhere.Daemon.Settings
import SyncAnywhere.Daemon.TaskTracking

/-!
# The two clients and the listener

`tcp_sync_client` and `udp_sync_client` run the same loop, each in its own
mode, while `sync_listen` adds tasks and flips the mode.  Check, fetch, send and
remove are separate steps of a client, and the mode is only read in the first.
-/

namespace SyncAnywhere.Dispatch

open SyncAnywhere.CMemory
open SyncAnywhere.Numeral
open SyncAnywhere.Run
open SyncAnywhere.TaskQueue
open SyncAnywhere.TaskTracking
open SyncAnywhere.DaemonSettings

/-- What `getCurrentUnsyncedFile` copied, and the number of the task it stood
for. -/
structure Fetched where
  file : List Byte × BitVec 32 × List Byte
  number : Option ℕ
  deriving DecidableEq

/-- The next step of a client. -/
inductive ClientPc where
  | modeCheck
  | moreCheck
  | fetch
  | send (fetched : Fetched)
  | remove
  deriving DecidableEq

/-- Between its fetch and its removal a client holds a task. -/
def ClientPc.Holding : ClientPc → Prop
  | send _ | remove => True
  | _ => False

instance (pc : ClientPc) : Decidable pc.Holding := by
  cases pc <;> unfold ClientPc.Holding <;> infer_instance

/-- A client is named by the mode it serves. -/
structure System where
  queue : Tracked
  settings : Settings
  pc : SyncMode → ClientPc
  sent : List (SyncMode × Fetched)
  dropped : List (Option ℕ)

namespace System

def start (repos : SyncRepos) : System where
  queue := Tracked.start repos
  settings := daemonSettings
  pc := fun _ => .modeCheck
  sent := []
  dropped := []

/-- The numbers of the tasks sent so far. -/
def numbers (state : System) : List (Option ℕ) :=
  state.sent.map fun entry => entry.2.number

def goto (state : System) (client : SyncMode) (pc : ClientPc) : System :=
  { state with pc := Function.update state.pc client pc }

/-- The task in the slot at the tail. -/
def current (state : System) : Fetched where
  file := getCurrentUnsyncedFile state.queue.repos
  number := state.queue.owner state.queue.repos.queueTail

end System

inductive DispatchEvent where
  | addItem (isLocalIp : List Byte → ℤ) (filename filepath : List Byte)
      (fileLen : BitVec 32)
  | setTransferMode (mode : SyncMode)
  | client (mode : SyncMode)

/-- One step of a client's loop.  The client sleeps in the mode `sleepMode`. -/
def clientStep (client sleepMode : SyncMode) (state : System) : System :=
  match state.pc client with
  | .modeCheck =>
      if getTransferMode state.settings = sleepMode then state
      else state.goto client .moreCheck
  | .moreCheck =>
      if hasMoreItemInSyncRepos state.queue.repos = 1 then
        state.goto client .modeCheck
      else state.goto client .fetch
  | .fetch => state.goto client (.send state.current)
  | .send fetched =>
      { state.goto client .remove with
        sent := state.sent ++ [(client, fetched)] }
  | .remove =>
      { state.goto client .modeCheck with
        queue := state.queue.removeItem
        dropped := state.dropped ++ [state.current.number] }

def tcpSyncClient (state : System) : System :=
  clientStep .tcp .udp state

def udpSyncClient (state : System) : System :=
  clientStep .udp .tcp state

def step (state : System) : DispatchEvent → System
  | .addItem isLocalIp filename filepath fileLen =>
      { state with
        queue := state.queue.addItem isLocalIp filename filepath fileLen }
  | .setTransferMode mode =>
      { state with settings := setTransferMode mode state.settings }
  | .client .tcp => tcpSyncClient state
  | .client .udp => udpSyncClient state

def otherMode : SyncMode → SyncMode
  | .tcp => .udp
  | .udp => .tcp

/-- Each client sleeps in the mode of the other one. -/
theorem step_client (state : System) (client : SyncMode) :
    step state (.client client) =
      clientStep client (otherMode client) state := by
  cases client <;> rfl

section ClientSteps

variable {state : System} {client : SyncMode}

theorem step_fetch (hpc : state.pc client = .fetch) :
    step state (.client client) =
      state.goto client (.send state.current) := by
  simp only [step_client, clientStep, hpc]

theorem step_send {fetched : Fetched}
    (hpc : state.pc client = .send fetched) :
    step state (.client client) =
      { state.goto client .remove with
        sent := state.sent ++ [(client, fetched)] } := by
  simp only [step_client, clientStep, hpc]

theorem step_remove (hpc : state.pc client = .remove) :
    step state (.client client) =
      { state.goto client .modeCheck with
        queue := state.queue.removeItem
        dropped := state.dropped ++ [state.current.number] } := by
  simp only [step_client, clientStep, hpc]

end ClientSteps

theorem eq_of_ne_otherMode {mode client : SyncMode}
    (hne : mode ≠ otherMode client) : mode = client := by
  cases mode <;> cases client <;> simp_all [otherMode]

/-! ## Exactly-once dispatch -/

/-- The fetched data are those of an enqueued task. -/
def Fetched.Genuine (fetched : Fetched) (tasks : List SyncTask) : Prop :=
  ∃ number task, fetched.number = some number ∧ tasks[number]? = some task ∧
    fetched.file = (task.filename, task.fileSize, task.destIp)

structure ExactlyOnce (state : System) : Prop where
  genuine : ∀ entry ∈ state.sent, entry.2.Genuine state.queue.tasks
  nodup : state.numbers.Nodup
  once : ∀ number ∈ state.dropped, state.numbers.count number = 1
  removed_le : state.queue.removed ≤ state.queue.tasks.length

/-- A client may fetch when the queue has a task and the other client holds
none. -/
def FetchSafe (state : System) : DispatchEvent → Prop
  | .client client =>
      state.pc client = .fetch →
        state.queue.repos.queueHead ≠ state.queue.repos.queueTail ∧
          ∀ other, other ≠ client → ¬ (state.pc other).Holding
  | _ => True

instance (state : System) (event : DispatchEvent) :
    Decidable (FetchSafe state event) := by
  cases event <;> unfold FetchSafe <;> infer_instance

/-- Fewer than 30 tasks are enqueued up to the end of the step. -/
def Few (state : System) (event : DispatchEvent) : Prop :=
  (step state event).queue.tasks.length < maxReposNum

/-! ## The invariant -/

/-- Tasks are sent and removed in order, and at most one client holds one: the
task at the tail. -/
structure System.InOrder (state : System) : Prop where
  law : state.queue.Law
  removed_le : state.queue.removed ≤ state.queue.tasks.length
  genuine : ∀ entry ∈ state.sent, entry.2.Genuine state.queue.tasks
  dropped : state.dropped = (List.range state.queue.removed).map some
  alone : ∀ client other, (state.pc client).Holding →
    (state.pc other).Holding → client = other
  fetched : ∀ client fetched, state.pc client = .send fetched →
    fetched.Genuine state.queue.tasks ∧
      fetched.number = some state.queue.removed
  removing : ∀ client, state.pc client = .remove →
    state.queue.removed < state.queue.tasks.length ∧
      state.numbers = (List.range (state.queue.removed + 1)).map some
  idle : (∀ client, state.pc client ≠ .remove) →
    state.numbers = (List.range state.queue.removed).map some

/-- The task a list of tasks has at a number keeps it when tasks are added. -/
theorem Fetched.Genuine.append {fetched : Fetched} {tasks : List SyncTask}
    (hgenuine : fetched.Genuine tasks) (added : List SyncTask) :
    fetched.Genuine (tasks ++ added) := by
  obtain ⟨number, task, hnumber, htask, hfile⟩ := hgenuine
  have hlt := (List.getElem?_eq_some_iff.mp htask).1
  exact ⟨number, task, hnumber,
    (List.getElem?_append_left hlt).trans htask, hfile⟩

namespace System

variable {state : System} {client other : SyncMode} {pc : ClientPc}

@[simp]
theorem goto_pc_self : (state.goto client pc).pc client = pc :=
  Function.update_self _ _ _

theorem goto_pc_of_ne (hne : other ≠ client) :
    (state.goto client pc).pc other = state.pc other :=
  Function.update_of_ne hne _ _

/-- If no one but `client` holds a task, a step of `client` does not change
that. -/
theorem eq_of_goto_holding
    (honly : ∀ other, (state.pc other).Holding → other = client)
    (hholding : ((state.goto client pc).pc other).Holding) :
    other = client := by
  by_contra hne
  rw [goto_pc_of_ne hne] at hholding
  exact hne (honly other hholding)

theorem alone_goto
    (honly : ∀ other, (state.pc other).Holding → other = client) :
    ∀ left right, ((state.goto client pc).pc left).Holding →
      ((state.goto client pc).pc right).Holding → left = right := by
  intro left right hleft hright
  exact (eq_of_goto_holding honly hleft).trans
    (eq_of_goto_holding honly hright).symm

theorem eq_of_goto_eq
    (honly : ∀ other, (state.pc other).Holding → other = client)
    {found : ClientPc} (hfound : (state.goto client pc).pc other = found)
    (hholding : found.Holding) : found = pc := by
  have hself : other = client :=
    eq_of_goto_holding honly (by rw [hfound]; exact hholding)
  rw [← hfound, hself, goto_pc_self]

end System

namespace System.InOrder

variable {state : System} {client : SyncMode}

theorem start (repos : SyncRepos) : (System.start repos).InOrder where
  law := Tracked.Law.start repos
  removed_le := le_rfl
  genuine := by simp [System.start]
  dropped := rfl
  alone := by
    intro client other hholding
    exact hholding.elim
  fetched := by simp [System.start]
  removing := by simp [System.start]
  idle := fun _ => rfl

/-- The slot at the tail holds the next task. -/
theorem current_eq (hinv : state.InOrder)
    (hremoved : state.queue.removed < state.queue.tasks.length)
    (hfew : state.queue.tasks.length < maxReposNum) :
    state.current.Genuine state.queue.tasks ∧
      state.current.number = some state.queue.removed := by
  have hturn : state.queue.tasks.length ≤
      state.queue.removed + maxReposNum := by omega
  have hnumber : state.current.number = some state.queue.removed := by
    rw [System.current, hinv.law.queue.tail]
    exact hinv.law.owner_eq hremoved hturn
  have htask := List.getElem?_eq_getElem hremoved
  refine ⟨⟨_, _, hnumber, htask, ?_⟩, hnumber⟩
  exact hinv.law.queue.getCurrent_eq hturn
    ((RingLog.head?_pending _ _).trans htask)

/-- Adding tasks leaves the clients and what they sent alone. -/
theorem addItem (hinv : state.InOrder) (isLocalIp : List Byte → ℤ)
    (filename filepath : List Byte) (fileLen : BitVec 32) :
    (step state (.addItem isLocalIp filename filepath fileLen)).InOrder where
  law := hinv.law.addItem isLocalIp filename filepath fileLen
  removed_le := by
    simp only [step, Tracked.addItem_removed, Tracked.addItem_tasks,
      List.length_append]
    exact hinv.removed_le.trans (Nat.le_add_right _ _)
  genuine := by
    intro entry hentry
    simp only [step, Tracked.addItem_tasks]
    exact (hinv.genuine entry hentry).append _
  dropped := by
    simpa only [step, Tracked.addItem_removed] using hinv.dropped
  alone := hinv.alone
  fetched := by
    intro client fetched hpc
    simp only [step, Tracked.addItem_removed, Tracked.addItem_tasks]
    obtain ⟨hgenuine, hnumber⟩ := hinv.fetched client fetched hpc
    exact ⟨hgenuine.append _, hnumber⟩
  removing := by
    intro client hpc
    simp only [step, Tracked.addItem_removed, Tracked.addItem_tasks,
      List.length_append]
    obtain ⟨hlt, hnumbers⟩ := hinv.removing client hpc
    exact ⟨hlt.trans_le (Nat.le_add_right _ _), hnumbers⟩
  idle := by
    intro hidle
    simp only [step, Tracked.addItem_removed]
    exact hinv.idle hidle

/-- A client that holds no task moves to a step at which it still holds
none. -/
theorem goto_free (hinv : state.InOrder) {pc : ClientPc}
    (hfree : ¬ (state.pc client).Holding) (hpc : ¬ pc.Holding) :
    (state.goto client pc).InOrder := by
  have hsame : ∀ other, ((state.goto client pc).pc other).Holding →
      (state.goto client pc).pc other = state.pc other := by
    intro other hholding
    apply System.goto_pc_of_ne
    rintro rfl
    rw [System.goto_pc_self] at hholding
    exact hpc hholding
  refine { hinv with alone := ?_, fetched := ?_, removing := ?_, idle := ?_ }
  · intro left right hleft hright
    rw [hsame left hleft] at hleft
    rw [hsame right hright] at hright
    exact hinv.alone left right hleft hright
  · intro other fetched hother
    rw [hsame other (by rw [hother]; trivial)] at hother
    exact hinv.fetched other fetched hother
  · intro other hother
    rw [hsame other (by rw [hother]; trivial)] at hother
    exact hinv.removing other hother
  · intro hidle
    apply hinv.idle
    intro other hother
    by_cases hclient : other = client
    · rw [← hclient, hother] at hfree
      exact hfree trivial
    · apply hidle other
      rw [System.goto_pc_of_ne hclient, hother]

theorem only_of_holding (hinv : state.InOrder)
    (hholding : (state.pc client).Holding) :
    ∀ other, (state.pc other).Holding → other = client :=
  fun other hother => hinv.alone other client hother hholding

/-- A non-empty queue has a task that was not removed. -/
theorem removed_lt (hinv : state.InOrder)
    (hmore : state.queue.repos.queueHead ≠ state.queue.repos.queueTail) :
    state.queue.removed < state.queue.tasks.length := by
  apply hinv.removed_le.lt_of_ne
  intro hall
  apply hmore
  rw [hinv.law.queue.head, hinv.law.queue.tail, hall]

theorem queueHead_eq_queueTail_iff (hinv : state.InOrder)
    (hfew : state.queue.tasks.length < maxReposNum) :
    state.queue.repos.queueHead = state.queue.repos.queueTail ↔
      state.queue.tasks.length = state.queue.removed := by
  rw [hinv.law.queue.head, hinv.law.queue.tail]
  exact RingLog.mod_eq_mod_iff hinv.removed_le (Nat.lt_add_left _ hfew)

/-- A client that is about to send holds a task that was not removed. -/
theorem removed_lt_of_send (hinv : state.InOrder) {fetched : Fetched}
    (hpc : state.pc client = .send fetched) :
    state.queue.removed < state.queue.tasks.length := by
  obtain ⟨⟨number, task, hnumber, htask, -⟩, hcurrent⟩ :=
    hinv.fetched client fetched hpc
  rw [hcurrent, Option.some.injEq] at hnumber
  rw [hnumber]
  exact (List.getElem?_eq_some_iff.mp htask).1

theorem fetch (hinv : state.InOrder) (hpc : state.pc client = .fetch)
    (hsafe : FetchSafe state (.client client))
    (hfew : state.queue.tasks.length < maxReposNum) :
    (state.goto client (.send state.current)).InOrder := by
  obtain ⟨hmore, hothers⟩ := hsafe hpc
  have hcurrent := hinv.current_eq (hinv.removed_lt hmore) hfew
  have honly : ∀ other, (state.pc other).Holding → other = client := by
    intro other hholding
    by_contra hne
    exact hothers other hne hholding
  refine { hinv with alone := ?_, fetched := ?_, removing := ?_, idle := ?_ }
  · exact System.alone_goto honly
  · intro other fetched hother
    have hsame := System.eq_of_goto_eq honly hother trivial
    rw [ClientPc.send.inj hsame]
    exact hcurrent
  · intro other hother
    cases System.eq_of_goto_eq honly hother trivial
  · intro _
    apply hinv.idle
    intro other hother
    have hself := honly other (by rw [hother]; trivial)
    rw [hself, hpc] at hother
    cases hother

theorem send (hinv : state.InOrder) {fetched : Fetched}
    (hpc : state.pc client = .send fetched) :
    (Dispatch.step state (.client client)).InOrder := by
  have hholding : (state.pc client).Holding := by rw [hpc]; trivial
  have honly := hinv.only_of_holding hholding
  obtain ⟨hgenuine, hnumber⟩ := hinv.fetched client fetched hpc
  have hremoved := hinv.removed_lt_of_send hpc
  have hnumbers : state.numbers =
      (List.range state.queue.removed).map some := by
    apply hinv.idle
    intro other hother
    have hself := honly other (by rw [hother]; trivial)
    rw [hself, hpc] at hother
    cases hother
  rw [step_send hpc]
  refine { hinv with
    genuine := ?_, alone := ?_, fetched := ?_, removing := ?_, idle := ?_ }
  · intro entry hentry
    rcases List.mem_append.mp hentry with hold | hnew
    · exact hinv.genuine entry hold
    · rw [List.mem_singleton.mp hnew]
      exact hgenuine
  · exact System.alone_goto honly
  · intro other held hother
    cases System.eq_of_goto_eq honly hother trivial
  · intro _ _
    refine ⟨hremoved, ?_⟩
    calc (state.sent ++ [(client, fetched)]).map (fun entry => entry.2.number)
        = state.numbers ++ [fetched.number] := List.map_append
      _ = (List.range (state.queue.removed + 1)).map some := by
        rw [hnumbers, hnumber, List.range_succ, List.map_append,
          List.map_singleton]
  · intro hidle
    exact absurd System.goto_pc_self (hidle client)

theorem remove (hinv : state.InOrder) (hpc : state.pc client = .remove)
    (hfew : state.queue.tasks.length < maxReposNum) :
    (Dispatch.step state (.client client)).InOrder := by
  have hholding : (state.pc client).Holding := by rw [hpc]; trivial
  have honly := hinv.only_of_holding hholding
  obtain ⟨hremoved, hnumbers⟩ := hinv.removing client hpc
  rw [step_remove hpc]
  constructor
  · exact hinv.law.removeItem
  · exact hremoved
  · exact hinv.genuine
  · calc state.dropped ++ [state.current.number]
        = (List.range state.queue.removed).map some ++
            [some state.queue.removed] := by
          rw [hinv.dropped, (hinv.current_eq hremoved hfew).2]
      _ = (List.range (state.queue.removed + 1)).map some := by
          rw [List.range_succ, List.map_append, List.map_singleton]
  · exact System.alone_goto honly
  · intro other held hother
    cases System.eq_of_goto_eq honly hother trivial
  · intro other hother
    cases System.eq_of_goto_eq honly hother trivial
  · intro _
    exact hnumbers

/-- Step lemma: a step that fetches safely keeps the order. -/
theorem step (hinv : state.InOrder) {event : DispatchEvent}
    (hsafe : FetchSafe state event) (hfew : Few state event) :
    (Dispatch.step state event).InOrder := by
  cases event with
  | addItem isLocalIp filename filepath fileLen =>
      exact hinv.addItem isLocalIp filename filepath fileLen
  | setTransferMode mode => exact { hinv with }
  | client client =>
      cases hpc : state.pc client with
      | modeCheck =>
          have hfree : ¬ (state.pc client).Holding := by rw [hpc]; exact id
          simp only [step_client, clientStep, hpc]
          split_ifs
          · exact hinv
          · exact hinv.goto_free hfree id
      | moreCheck =>
          have hfree : ¬ (state.pc client).Holding := by rw [hpc]; exact id
          simp only [step_client, clientStep, hpc]
          split_ifs
          · exact hinv.goto_free hfree id
          · exact hinv.goto_free hfree id
      | fetch =>
          rw [Few, step_fetch hpc] at hfew
          rw [step_fetch hpc]
          exact hinv.fetch hpc hsafe hfew
      | send fetched => exact hinv.send hpc
      | remove =>
          apply hinv.remove hpc
          rw [Few, step_remove hpc] at hfew
          exact hfew

theorem exactlyOnce (hinv : state.InOrder) : ExactlyOnce state := by
  have hsent : ∃ count, state.queue.removed ≤ count ∧
      state.numbers = (List.range count).map some := by
    by_cases hbusy : ∃ client, state.pc client = .remove
    · obtain ⟨client, hclient⟩ := hbusy
      exact ⟨_, Nat.le_succ _, (hinv.removing client hclient).2⟩
    · rw [not_exists] at hbusy
      exact ⟨_, le_rfl, hinv.idle hbusy⟩
  obtain ⟨count, hcount, hnumbers⟩ := hsent
  have hnodup : state.numbers.Nodup := by
    rw [hnumbers]
    exact List.nodup_range.map (Option.some_injective ℕ)
  refine ⟨hinv.genuine, hnodup, ?_, hinv.removed_le⟩
  intro number hnumber
  apply List.count_eq_one_of_mem hnodup
  rw [hinv.dropped, List.mem_map] at hnumber
  obtain ⟨value, hvalue, rfl⟩ := hnumber
  rw [hnumbers]
  apply List.mem_map_of_mem
  exact List.mem_range.mpr ((List.mem_range.mp hvalue).trans_le hcount)

end System.InOrder

/-! ## Runs -/

theorem length_tasks_le_step (state : System) (event : DispatchEvent) :
    state.queue.tasks.length ≤ (step state event).queue.tasks.length := by
  cases event with
  | addItem isLocalIp filename filepath fileLen =>
      simp only [step, Tracked.addItem_tasks, List.length_append]
      exact Nat.le_add_right _ _
  | setTransferMode mode => exact le_rfl
  | client client =>
      rw [step_client, clientStep]
      split
      · split_ifs <;> exact le_rfl
      · split_ifs <;> exact le_rfl
      · exact le_rfl
      · exact le_rfl
      · exact le_rfl

theorem length_tasks_le_run (state : System) (events : List DispatchEvent) :
    state.queue.tasks.length ≤ (run step state events).queue.tasks.length := by
  induction events generalizing state with
  | nil => exact le_rfl
  | cons event events ih =>
      exact (length_tasks_le_step state event).trans (ih (step state event))

theorem few_along {state : System} {events : List DispatchEvent}
    (hfew : (run step state events).queue.tasks.length < maxReposNum) :
    Along step Few state events := by
  induction events generalizing state with
  | nil => trivial
  | cons event events ih =>
      exact ⟨(length_tasks_le_run _ events).trans_lt hfew, ih hfew⟩

/-- In every run that enqueues fewer than 30 tasks and in which a client only
fetches from a non-empty queue while the other client holds no task, dispatch
is exactly-once in every state. -/
theorem exactlyOnce_always (repos : SyncRepos) (events : List DispatchEvent)
    (hfew : (run step (System.start repos) events).queue.tasks.length <
      maxReposNum)
    (hsafe : Along step FetchSafe (System.start repos) events) :
    Always step ExactlyOnce (System.start repos) events := by
  have hboth := along_and_iff.mpr ⟨hsafe, few_along hfew⟩
  exact (always_of_invariant (fun _ _ hinv hstep => hinv.step hstep.1 hstep.2)
    (System.InOrder.start repos) hboth).mono fun _ hinv => hinv.exactlyOnce

/-- One file for one peer. -/
def addForOnePeer : DispatchEvent :=
  .addItem (fun ip => if ip = "131.96.49.139".toList.map charByte then 1 else 0)
    [0x61#8] [0x61#8] 1#32

/-- The UDP client takes the task from its check to its removal, then the mode
changes and the TCP client finds nothing to do. -/
def switchAfterTransfer : List DispatchEvent :=
  addForOnePeer :: List.replicate 5 (.client .udp) ++
    [.setTransferMode .tcp, .client .tcp, .client .tcp]

theorem exactlyOnce_switchAfterTransfer :
    Always step ExactlyOnce (System.start daemonRepos) switchAfterTransfer :=
  exactlyOnce_always daemonRepos switchAfterTransfer (by decide)
    (by decide)

/-- The mode changes after the UDP client has fetched its task, and the TCP
client fetches it again. -/
def switchDuringTransfer : List DispatchEvent :=
  addForOnePeer :: List.replicate 3 (.client .udp) ++
    .setTransferMode .tcp :: List.replicate 3 (.client .tcp) ++
    [.client .udp, .client .udp, .client .tcp, .client .tcp]

/-- One task is sent by both clients and removed twice. -/
theorem switchDuringTransfer_sends_twice :
    (run step (System.start daemonRepos) switchDuringTransfer).numbers =
        [some 0, some 0] ∧
      (run step (System.start daemonRepos) switchDuringTransfer).queue.removed =
        2 ∧
      (run step (System.start daemonRepos)
        switchDuringTransfer).queue.tasks.length = 1 := by
  refine ⟨by decide, by decide, by decide⟩

end SyncAnywhere.Dispatch
