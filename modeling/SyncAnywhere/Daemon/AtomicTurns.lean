import SyncAnywhere.Core.Run
import SyncAnywhere.Daemon.QuietSwitches
import SyncAnywhere.Daemon.WaitingTasks

/-!
# Turns in one step

While the mode only changes between transfers and the ring has room for what is
added, the checks, fetches, sendings and removals of the two clients may be
interleaved with the listener in any way: the queue, the mode and what is sent
are those of clients that take a whole turn in one step.
-/

namespace SyncAnywhere.AtomicTurns

open SyncAnywhere.CMemory
open SyncAnywhere.DaemonSettings
open SyncAnywhere.Dispatch
open SyncAnywhere.QuietSwitches
open SyncAnywhere.Run
open SyncAnywhere.TaskQueue
open SyncAnywhere.TaskTracking
open SyncAnywhere.WaitingTasks

/-! ## Clients that take a turn in one step -/

structure Turns where
  waiting : List SyncTask
  mode : SyncMode
  sent : List (SyncMode × (List Byte × BitVec 32 × List Byte))

inductive TurnEvent where
  | add (tasks : List SyncTask)
  | setMode (mode : SyncMode)
  | turn (client : SyncMode)

/-- The client of the mode sends the task in front. -/
def takeTurn (state : Turns) : TurnEvent → Turns
  | .add tasks => { state with waiting := state.waiting ++ tasks }
  | .setMode mode => { state with mode := mode }
  | .turn client =>
      match state.waiting with
      | [] => state
      | task :: rest =>
          if state.mode = client then
            { state with
              waiting := rest
              sent := state.sent ++ [(client, taskFile task)] }
          else state

/-! ## The view -/

/-- A client has sent its task and not removed it yet. -/
def Removing (state : System) : Prop :=
  ∃ client, state.pc client = .remove

instance (state : System) : Decidable (Removing state) :=
  inferInstanceAs (Decidable (∃ client, state.pc client = .remove))

/-- The tasks that have yet to be sent. -/
def unsent (state : System) : List SyncTask :=
  if Removing state then (waiting state.queue.repos).tail
  else waiting state.queue.repos

def turnsView (state : System) : Turns where
  waiting := unsent state
  mode := getTransferMode state.settings
  sent := state.sent.map fun entry => (entry.1, entry.2.file)

/-- The tasks that an event adds. -/
def addedTasks (peerList : Fin maxPeerNum → PeerIp) :
    DispatchEvent → List SyncTask
  | .addItem isLocalIp filename filepath fileLen =>
      acceptedTasks isLocalIp filename filepath fileLen peerList
  | .setTransferMode _ => []
  | .client _ => []

/-- A turn counts where its file is sent. -/
def turnEvents (state : System) : DispatchEvent → List TurnEvent
  | .addItem isLocalIp filename filepath fileLen =>
      [.add (acceptedTasks isLocalIp filename filepath fileLen
        state.queue.repos.peerList)]
  | .setTransferMode mode => [.setMode mode]
  | .client client =>
      match state.pc client with
      | .send _ => [.turn client]
      | .modeCheck => []
      | .moreCheck => []
      | .fetch => []
      | .remove => []

/-- The ring has room for what the event adds. -/
def HasRoom (state : System) (event : DispatchEvent) : Prop :=
  (waiting state.queue.repos).length +
    (addedTasks state.queue.repos.peerList event).length < maxReposNum

/-- What a step has to meet. -/
def Orderly (state : System) (event : DispatchEvent) : Prop :=
  QuietSwitch state event ∧ HasRoom state event

/-! ## The invariant -/

/-- A client past its mode check is in its own mode, and one that is about to
fetch, to send or to remove has its task in front. -/
structure InTurn (state : System) : Prop where
  ring : InRing state.queue.repos
  mode : ∀ client, state.pc client ≠ .modeCheck →
    getTransferMode state.settings = client
  front : ∀ client, state.pc client ≠ .modeCheck →
    state.pc client ≠ .moreCheck → waiting state.queue.repos ≠ []
  fetched : ∀ client fetched, state.pc client = .send fetched →
    (waiting state.queue.repos).head?.map taskFile = some fetched.file

section Steps

variable {state : System} {client : SyncMode} {pc : ClientPc}

theorem InTurn.start (repos : SyncRepos) : InTurn (System.start repos) where
  ring := ⟨Nat.succ_pos 29, Nat.succ_pos 29⟩
  mode := fun _ hpc => absurd rfl hpc
  front := fun _ hpc => absurd rfl hpc
  fetched := fun _ _ hpc => by cases hpc

/-- In the mode of a client the other one is at its mode check. -/
theorem InTurn.pc_other (hturn : InTurn state)
    (hown : getTransferMode state.settings = client) {other : SyncMode}
    (hother : other ≠ client) : state.pc other = .modeCheck := by
  by_contra hpc
  exact hother ((hturn.mode other hpc).symm.trans hown)

theorem InTurn.removing_iff (hturn : InTurn state)
    (hown : getTransferMode state.settings = client) :
    Removing state ↔ state.pc client = .remove := by
  constructor
  · rintro ⟨other, hother⟩
    by_cases hsame : other = client
    · rwa [hsame] at hother
    · rw [hturn.pc_other hown hsame] at hother
      cases hother
  · exact fun hpc => ⟨client, hpc⟩

theorem InTurn.removing_goto_iff (hturn : InTurn state)
    (hown : getTransferMode state.settings = client) :
    Removing (state.goto client pc) ↔ pc = .remove := by
  constructor
  · rintro ⟨other, hother⟩
    by_cases hsame : other = client
    · rwa [hsame, System.goto_pc_self] at hother
    · rw [System.goto_pc_of_ne hsame, hturn.pc_other hown hsame] at hother
      cases hother
  · rintro rfl
    exact ⟨client, System.goto_pc_self⟩

/-- A client in its own mode may go on as far as the queue allows. -/
theorem InTurn.goto (hturn : InTurn state)
    (hown : getTransferMode state.settings = client)
    (hfront : pc ≠ .modeCheck → pc ≠ .moreCheck →
      waiting state.queue.repos ≠ [])
    (hfetched : ∀ fetched, pc = .send fetched →
      (waiting state.queue.repos).head?.map taskFile = some fetched.file) :
    InTurn (state.goto client pc) where
  ring := hturn.ring
  mode := by
    intro other hother
    by_cases hsame : other = client
    · rw [hsame]
      exact hown
    · rw [System.goto_pc_of_ne hsame] at hother
      exact hturn.mode other hother
  front := by
    intro other hmode hmore
    by_cases hsame : other = client
    · rw [hsame, System.goto_pc_self] at hmode hmore
      exact hfront hmode hmore
    · rw [System.goto_pc_of_ne hsame] at hmode hmore
      exact hturn.front other hmode hmore
  fetched := by
    intro other fetched hother
    by_cases hsame : other = client
    · rw [hsame, System.goto_pc_self] at hother
      exact hfetched fetched hother
    · rw [System.goto_pc_of_ne hsame] at hother
      exact hturn.fetched other fetched hother

/-- Moving on without sending or removing changes nothing of the view. -/
theorem InTurn.turnsView_goto (hturn : InTurn state)
    (hown : getTransferMode state.settings = client)
    (hbefore : state.pc client ≠ .remove) (hafter : pc ≠ .remove) :
    turnsView (state.goto client pc) = turnsView state := by
  have hunsent : unsent (state.goto client pc) = unsent state := by
    rw [unsent, unsent, if_neg ((hturn.removing_iff hown).not.mpr hbefore),
      if_neg ((hturn.removing_goto_iff hown).not.mpr hafter)]
    rfl
  rw [turnsView, hunsent]
  rfl

/-! ## Steps -/

/-- What a step does: it keeps the invariant and is what its turn events say. -/
structure TurnStep (state : System) (event : DispatchEvent) : Prop where
  inTurn : InTurn (step state event)
  view : turnsView (step state event) =
    run takeTurn (turnsView state) (turnEvents state event)

theorem addItem_turnStep {isLocalIp : List Byte → ℤ}
    {filename filepath : List Byte} {fileLen : BitVec 32}
    (hturn : InTurn state)
    (hroom : HasRoom state (.addItem isLocalIp filename filepath fileLen)) :
    TurnStep state (.addItem isLocalIp filename filepath fileLen) := by
  obtain ⟨hring, hwaiting⟩ := waiting_addItem hturn.ring isLocalIp filename
    filepath fileLen hroom
  rw [← Tracked.addItem_repos] at hring hwaiting
  refine ⟨⟨hring, hturn.mode, ?_, ?_⟩, ?_⟩
  · intro client hmode hmore
    change waiting (state.queue.addItem _ _ _ _).repos ≠ []
    rw [hwaiting]
    exact List.append_ne_nil_of_left_ne_nil (hturn.front client hmode hmore) _
  · intro client fetched hpc
    change (waiting (state.queue.addItem _ _ _ _).repos).head?.map _ = _
    have hfetched := hturn.fetched client fetched hpc
    rw [hwaiting, List.head?_append_of_ne_nil]
    · exact hfetched
    · intro hempty
      rw [hempty] at hfetched
      cases hfetched
  · have hunsent : unsent
        (step state (.addItem isLocalIp filename filepath fileLen)) =
        unsent state ++ acceptedTasks isLocalIp filename filepath fileLen
          state.queue.repos.peerList := by
      rw [unsent, unsent]
      change (if Removing state then (waiting (state.queue.addItem _ _ _ _).repos).tail
        else waiting (state.queue.addItem _ _ _ _).repos) = _
      rw [hwaiting]
      split
      next hremoving =>
        obtain ⟨client, hpc⟩ := hremoving
        apply List.tail_append_of_ne_nil
        exact hturn.front client (by simp [hpc]) (by simp [hpc])
      next => rfl
    rw [turnsView, hunsent]
    rfl

theorem setTransferMode_turnStep {mode : SyncMode} (hturn : InTurn state)
    (hquiet : ∀ client, state.pc client = .modeCheck) :
    TurnStep state (.setTransferMode mode) := by
  refine ⟨⟨hturn.ring, ?_, hturn.front, hturn.fetched⟩, rfl⟩
  intro client hpc
  exact absurd (hquiet client) hpc

/-- A client that has fetched its task sends it: this is its turn. -/
theorem send_turnStep {fetched : Fetched} (hturn : InTurn state)
    (hpc : state.pc client = .send fetched) :
    TurnStep state (.client client) := by
  have hown := hturn.mode client (by simp [hpc])
  have hfetched := hturn.fetched client fetched hpc
  have hgoto : InTurn (state.goto client .remove) := by
    apply hturn.goto hown
    · intro _ _
      exact hturn.front client (by simp [hpc]) (by simp [hpc])
    · intro _ hne
      cases hne
  have hafter : unsent (state.goto client .remove) =
      (waiting state.queue.repos).tail := by
    rw [unsent, if_pos ((hturn.removing_goto_iff hown).mpr rfl)]
    rfl
  have hbefore : unsent state = waiting state.queue.repos := by
    rw [unsent, if_neg ((hturn.removing_iff hown).not.mpr (by simp [hpc]))]
  cases hwaiting : waiting state.queue.repos with
  | nil =>
      rw [hwaiting] at hfetched
      cases hfetched
  | cons task rest =>
      rw [hwaiting] at hfetched hafter hbefore
      refine ⟨?_, ?_⟩
      · rw [step_send hpc]
        exact ⟨hgoto.ring, hgoto.mode, hgoto.front, hgoto.fetched⟩
      · have hnext : turnsView (step state (.client client)) =
            { waiting := rest
              mode := getTransferMode state.settings
              sent := (turnsView state).sent ++
                [(client, fetched.file)] } := by
          rw [step_send hpc, turnsView]
          change Turns.mk (unsent (state.goto client .remove)) _ _ = _
          rw [hafter, List.map_append]
          rfl
        have hfile : taskFile task = fetched.file :=
          Option.some_inj.mp hfetched
        rw [hnext]
        simp only [turnEvents, hpc, run_cons, run_nil, takeTurn, turnsView,
          hbefore, hown, if_true, hfile]

/-- A client that has sent its task removes it. -/
theorem remove_turnStep (hturn : InTurn state)
    (hpc : state.pc client = .remove) : TurnStep state (.client client) := by
  have hown := hturn.mode client (by simp [hpc])
  have hidle : ∀ other, (state.goto client .modeCheck).pc other =
      .modeCheck := by
    intro other
    by_cases hsame : other = client
    · rw [hsame, System.goto_pc_self]
    · rw [System.goto_pc_of_ne hsame, hturn.pc_other hown hsame]
  cases hwaiting : waiting state.queue.repos with
  | nil =>
      exact absurd hwaiting (hturn.front client (by simp [hpc]) (by simp [hpc]))
  | cons task rest =>
      obtain ⟨hring, hrest⟩ := waiting_removeItem hturn.ring hwaiting
      have hbefore : unsent state = rest := by
        rw [unsent, if_pos ((hturn.removing_iff hown).mpr hpc), hwaiting]
        rfl
      have hnone : ¬ Removing (state.goto client .modeCheck) := by
        rw [hturn.removing_goto_iff hown]
        exact fun heq => by cases heq
      refine ⟨?_, ?_⟩
      · rw [step_remove hpc]
        refine ⟨hring, ?_, ?_, ?_⟩
        · exact fun other hother => absurd (hidle other) hother
        · exact fun other hother => absurd (hidle other) hother
        · intro other fetched hother
          cases (hidle other).symm.trans hother
      · have hafter : unsent (step state (.client client)) = rest := by
          rw [step_remove hpc, unsent]
          exact (if_neg hnone).trans hrest
        rw [turnsView, hafter]
        simp only [turnEvents, hpc, run_nil, turnsView, hbefore]
        rw [step_remove hpc]
        rfl

theorem modeCheck_turnStep (hturn : InTurn state)
    (hpc : state.pc client = .modeCheck) : TurnStep state (.client client) := by
  by_cases hasleep : getTransferMode state.settings = otherMode client
  · have hsame : step state (.client client) = state := by
      rw [step_client, clientStep, hpc]
      exact if_pos hasleep
    constructor
    · rwa [hsame]
    · simp only [hsame, turnEvents, hpc, run_nil]
  · have hown := eq_of_ne_otherMode hasleep
    have hnext : step state (.client client) =
        state.goto client .moreCheck := by
      rw [step_client, clientStep, hpc]
      exact if_neg hasleep
    constructor
    · rw [hnext]
      exact hturn.goto hown (by simp) (by simp)
    · simp only [hnext, turnEvents, hpc, run_nil]
      exact hturn.turnsView_goto hown (by simp [hpc]) (by simp)

theorem moreCheck_turnStep (hturn : InTurn state)
    (hpc : state.pc client = .moreCheck) : TurnStep state (.client client) := by
  have hown := hturn.mode client (by simp [hpc])
  by_cases hnone : hasMoreItemInSyncRepos state.queue.repos = 1
  · have hnext : step state (.client client) =
        state.goto client .modeCheck := by
      rw [step_client, clientStep, hpc]
      exact if_pos hnone
    constructor
    · rw [hnext]
      exact hturn.goto hown (by simp) (by simp)
    · simp only [hnext, turnEvents, hpc, run_nil]
      exact hturn.turnsView_goto hown (by simp [hpc]) (by simp)
  · have hnext : step state (.client client) = state.goto client .fetch := by
      rw [step_client, clientStep, hpc]
      exact if_neg hnone
    have hfront : waiting state.queue.repos ≠ [] :=
      fun hempty => hnone ((hasMore_eq_one_iff hturn.ring).mpr hempty)
    constructor
    · rw [hnext]
      exact hturn.goto hown (fun _ _ => hfront) (by simp)
    · simp only [hnext, turnEvents, hpc, run_nil]
      exact hturn.turnsView_goto hown (by simp [hpc]) (by simp)

/-- What a client fetches is the task in front. -/
theorem fetch_turnStep (hturn : InTurn state)
    (hpc : state.pc client = .fetch) : TurnStep state (.client client) := by
  have hown := hturn.mode client (by simp [hpc])
  have hfront := hturn.front client (by simp [hpc]) (by simp [hpc])
  constructor
  · rw [step_fetch hpc]
    apply hturn.goto hown
    · exact fun _ _ => hfront
    · intro fetched hfetched
      obtain ⟨task, rest, hwaiting⟩ := List.exists_cons_of_ne_nil hfront
      rw [← ClientPc.send.inj hfetched, System.current,
        getCurrent_of_waiting hturn.ring hwaiting, hwaiting]
      rfl
  · rw [step_fetch hpc]
    simp only [turnEvents, hpc, run_nil]
    exact hturn.turnsView_goto hown (by simp [hpc]) (by simp)

/-- Step lemma: an orderly step of the loops is a step of whole turns. -/
theorem turnStep (hturn : InTurn state) {event : DispatchEvent}
    (horderly : Orderly state event) : TurnStep state event := by
  obtain ⟨hquiet, hroom⟩ := horderly
  cases event with
  | addItem isLocalIp filename filepath fileLen =>
      exact addItem_turnStep hturn hroom
  | setTransferMode mode => exact setTransferMode_turnStep hturn hquiet
  | client client =>
      cases hpc : state.pc client with
      | modeCheck => exact modeCheck_turnStep hturn hpc
      | moreCheck => exact moreCheck_turnStep hturn hpc
      | fetch => exact fetch_turnStep hturn hpc
      | send fetched => exact send_turnStep hturn hpc
      | remove => exact remove_turnStep hturn hpc

end Steps

/-! ## Runs -/

theorem InTurn.run {state : System} {events : List DispatchEvent}
    (hturn : InTurn state) (horderly : Along step Orderly state events) :
    InTurn (run step state events) :=
  @invariant_run System DispatchEvent step Orderly InTurn
    (fun _ _ hbefore hevent => (turnStep hbefore hevent).inTurn) state events
    hturn horderly

/-- Run lemma: an orderly run of the loops is a run of whole turns. -/
theorem InTurn.turnsView_run {state : System} {events : List DispatchEvent}
    (hturn : InTurn state) (horderly : Along step Orderly state events) :
    turnsView (Run.run step state events) =
      Run.run takeTurn (turnsView state)
        (trace step turnEvents state events) := by
  apply view_run_simulates turnsView takeTurn turnEvents _ hturn horderly
  intro before event hbefore hevent
  have hstep := turnStep hbefore hevent
  exact ⟨hstep.inTurn, hstep.view⟩

theorem orderly_client (state : System) (client : SyncMode) :
    Orderly state (.client client) := by
  refine ⟨trivial, ?_⟩
  rw [HasRoom, length_waiting]
  exact Nat.mod_lt _ (by decide)

theorem orderly_replicate (state : System) (client : SyncMode) (count : ℕ) :
    Along step Orderly state (List.replicate count (.client client)) := by
  induction count generalizing state with
  | zero => trivial
  | succ count ih => exact ⟨orderly_client state client, ih _⟩

theorem orderly_setTransferMode {state : System} (mode : SyncMode)
    (hquiet : ∀ client, state.pc client = .modeCheck) :
    Orderly state (.setTransferMode mode) := by
  refine ⟨hquiet, ?_⟩
  rw [HasRoom, length_waiting]
  exact Nat.mod_lt _ (by decide)

/-- In every orderly run, of any length and in any interleaving, the queue, the
mode and what is sent are those of clients that take whole turns, in the order
in which they send. -/
theorem dispatch_refines_turns {repos : SyncRepos}
    {events : List DispatchEvent}
    (horderly : Along step Orderly (System.start repos) events) :
    turnsView (run step (System.start repos) events) =
      run takeTurn (turnsView (System.start repos))
        (trace step turnEvents (System.start repos) events) :=
  (InTurn.start repos).turnsView_run horderly

/-- The listener adds a task while the UDP client is about to send. -/
def addDuringTurn : List DispatchEvent :=
  addForOnePeer :: List.replicate 3 (.client .udp) ++ [addForOnePeer]

theorem addDuringTurn_orderly :
    Along step Orderly (System.start daemonRepos) addDuringTurn := by
  have hfirst : HasRoom (System.start daemonRepos) addForOnePeer := by
    rw [HasRoom]
    decide
  have hsecond : HasRoom (run step (System.start daemonRepos)
      (addForOnePeer :: List.replicate 3 (.client .udp))) addForOnePeer := by
    rw [HasRoom]
    decide
  exact ⟨⟨trivial, hfirst⟩, orderly_client _ _, orderly_client _ _,
    orderly_client _ _, ⟨trivial, hsecond⟩, trivial⟩

/-- The UDP client ends its turn, the mode changes, and the TCP client has sent
the second task and not removed it yet. -/
def turnOfEach : List DispatchEvent :=
  addDuringTurn ++ (List.replicate 2 (.client .udp) ++
    .setTransferMode .tcp :: List.replicate 4 (.client .tcp))

theorem turnOfEach_orderly :
    Along step Orderly (System.start daemonRepos) turnOfEach := by
  have hquiet : ∀ client, (run step (run step (System.start daemonRepos)
      addDuringTurn) (List.replicate 2 (.client .udp))).pc client =
        .modeCheck := by
    decide
  rw [turnOfEach, along_append_iff, along_append_iff]
  exact ⟨addDuringTurn_orderly, orderly_replicate _ _ _,
    orderly_setTransferMode .tcp hquiet, orderly_replicate _ _ _⟩

theorem dispatch_refines_turns_turnOfEach :
    turnsView (run step (System.start daemonRepos) turnOfEach) =
      run takeTurn (turnsView (System.start daemonRepos))
        (trace step turnEvents (System.start daemonRepos) turnOfEach) ∧
      (run step (System.start daemonRepos) turnOfEach).queue.removed = 1 :=
  ⟨dispatch_refines_turns turnOfEach_orderly, by decide⟩

/-! ## In order -/

/-- What is sent and what waits, in order. -/
def allFiles (state : Turns) : List (List Byte × BitVec 32 × List Byte) :=
  state.sent.map Prod.snd ++ state.waiting.map taskFile

def addedFiles : TurnEvent → List (List Byte × BitVec 32 × List Byte)
  | .add tasks => tasks.map taskFile
  | .setMode _ => []
  | .turn _ => []

/-- A turn only moves a file from those that wait to those that are sent. -/
theorem allFiles_takeTurn (state : Turns) (event : TurnEvent) :
    allFiles (takeTurn state event) = allFiles state ++ addedFiles event := by
  cases event with
  | add tasks =>
      rw [takeTurn, allFiles, List.map_append, ← List.append_assoc]
      rfl
  | setMode mode => exact (List.append_nil _).symm
  | turn client =>
      rw [addedFiles, List.append_nil, takeTurn]
      split
      next => rfl
      next task rest hwaiting =>
        split
        next =>
          rw [allFiles, allFiles, hwaiting, List.map_append, List.map_cons,
            List.append_assoc]
          rfl
        next => rfl

theorem unsent_of_waiting_nil {state : System}
    (hempty : waiting state.queue.repos = []) : unsent state = [] := by
  rw [unsent, hempty]
  exact ite_self _

theorem unsent_start (repos : SyncRepos) : unsent (System.start repos) = [] := by
  apply unsent_of_waiting_nil
  apply List.length_eq_zero_iff.mp
  rw [length_waiting]
  exact Nat.mod_self maxReposNum

theorem peerList_step (state : System) (event : DispatchEvent) :
    (step state event).queue.repos.peerList = state.queue.repos.peerList := by
  cases event with
  | addItem isLocalIp filename filepath fileLen =>
      change (state.queue.addItem _ _ _ _).repos.peerList = _
      rw [Tracked.addItem_repos, addItem2SyncRepos_peerList]
  | setTransferMode mode => rfl
  | client client =>
      rw [step_client, clientStep]
      split
      next => split <;> rfl
      next => split <;> rfl
      next => rfl
      next => rfl
      next => rfl

theorem addedFiles_turnEvents (state : System) (event : DispatchEvent) :
    (turnEvents state event).flatMap addedFiles =
      (addedTasks state.queue.repos.peerList event).map taskFile := by
  cases event with
  | addItem isLocalIp filename filepath fileLen =>
      exact List.flatMap_singleton _ _
  | setTransferMode mode => rfl
  | client client =>
      rw [turnEvents]
      split <;> rfl

theorem addedFiles_trace (state : System) (events : List DispatchEvent) :
    (trace step turnEvents state events).flatMap addedFiles =
      (events.flatMap (addedTasks state.queue.repos.peerList)).map taskFile := by
  induction events generalizing state with
  | nil => rfl
  | cons event events ih =>
      rw [trace, List.flatMap_append, addedFiles_turnEvents, ih, peerList_step,
        List.flatMap_cons, List.map_append]

theorem allFiles_run {repos : SyncRepos} {events : List DispatchEvent}
    (horderly : Along step Orderly (System.start repos) events) :
    allFiles (turnsView (run step (System.start repos) events)) =
      (events.flatMap (addedTasks repos.peerList)).map taskFile := by
  have hpeers : (System.start repos).queue.repos.peerList = repos.peerList :=
    initializeSyncRepos_peerList repos
  have hstart : allFiles (turnsView (System.start repos)) = [] := by
    rw [allFiles, turnsView, unsent_start]
    rfl
  rw [(InTurn.start repos).turnsView_run horderly,
    view_run_append takeTurn allFiles allFiles_takeTurn, addedFiles_trace,
    hpeers, hstart, List.nil_append]

/-- Whatever the interleaving, what has been sent and what has yet to be sent
are together, in order, the tasks that were added: none is lost, sent twice or
overtaken. -/
theorem sent_in_order {repos : SyncRepos} {events : List DispatchEvent}
    {reached : System} (hreached : run step (System.start repos) events = reached)
    (horderly : Along step Orderly (System.start repos) events) :
    (reached.sent.map fun entry => entry.2.file) ++
        (unsent reached).map taskFile =
      (events.flatMap (addedTasks repos.peerList)).map taskFile := by
  rw [← allFiles_run horderly, hreached, allFiles, turnsView, List.map_map]
  rfl

/-- Each client has sent one of the two tasks. -/
theorem sent_in_order_turnOfEach :
    ∃ reached, run step (System.start daemonRepos) turnOfEach = reached ∧
      reached.sent.map Prod.fst = [.udp, .tcp] ∧
      (reached.sent.map fun entry => entry.2.file) ++
          (unsent reached).map taskFile =
        (turnOfEach.flatMap (addedTasks daemonRepos.peerList)).map
          taskFile :=
  ⟨_, rfl, by decide, sent_in_order rfl turnOfEach_orderly⟩

/-! ## Draining the queue -/

/-- How many steps of its turn a client has taken. -/
def stepsTaken : ClientPc → ℕ
  | .modeCheck => 0
  | .moreCheck => 1
  | .fetch => 2
  | .send _ => 3
  | .remove => 4

/-- The steps of the client in whose mode the daemon is until the queue is
empty. -/
def stepsLeft (state : System) : ℕ :=
  5 * (waiting state.queue.repos).length -
    stepsTaken (state.pc (getTransferMode state.settings))

section Drain

variable {state : System} {client : SyncMode}

theorem stepsLeft_eq (hown : getTransferMode state.settings = client)
    {pc : ClientPc} (hpc : state.pc client = pc) :
    stepsLeft state =
      5 * (waiting state.queue.repos).length - stepsTaken pc := by
  rw [stepsLeft, hown, hpc]

theorem stepsLeft_goto (hown : getTransferMode state.settings = client)
    (pc : ClientPc) :
    stepsLeft (state.goto client pc) =
      5 * (waiting state.queue.repos).length - stepsTaken pc :=
  @stepsLeft_eq (state.goto client pc) client hown pc System.goto_pc_self

/-- With a task in front, every step of the client brings it closer. -/
theorem stepsLeft_step (hturn : InTurn state)
    (hown : getTransferMode state.settings = client)
    (hfront : waiting state.queue.repos ≠ []) :
    stepsLeft (step state (.client client)) + 1 = stepsLeft state ∧
      getTransferMode (step state (.client client)).settings = client := by
  obtain ⟨task, rest, hwaiting⟩ := List.exists_cons_of_ne_nil hfront
  have hlength : (waiting state.queue.repos).length = rest.length + 1 := by
    rw [hwaiting, List.length_cons]
  cases hpc : state.pc client with
  | modeCheck =>
      have hawake : getTransferMode state.settings ≠ otherMode client := by
        rw [hown]
        cases client <;> decide
      have hnext : step state (.client client) =
          state.goto client .moreCheck := by
        rw [step_client, clientStep, hpc]
        exact if_neg hawake
      rw [hnext, stepsLeft_goto hown, stepsLeft_eq hown hpc, hlength]
      exact ⟨rfl, hown⟩
  | moreCheck =>
      have hmore : ¬ hasMoreItemInSyncRepos state.queue.repos = 1 :=
        fun hnone => hfront ((hasMore_eq_one_iff hturn.ring).mp hnone)
      have hnext : step state (.client client) =
          state.goto client .fetch := by
        rw [step_client, clientStep, hpc]
        exact if_neg hmore
      rw [hnext, stepsLeft_goto hown, stepsLeft_eq hown hpc, hlength]
      exact ⟨rfl, hown⟩
  | fetch =>
      rw [step_fetch hpc, stepsLeft_goto hown, stepsLeft_eq hown hpc, hlength]
      exact ⟨rfl, hown⟩
  | send fetched =>
      rw [step_send hpc]
      refine ⟨?_, hown⟩
      change stepsLeft (state.goto client .remove) + 1 = _
      rw [stepsLeft_goto hown, stepsLeft_eq hown hpc, hlength]
      rfl
  | remove =>
      have hnextPc : (step state (.client client)).pc client = .modeCheck := by
        rw [step_remove hpc]
        exact System.goto_pc_self
      have hnextMode : getTransferMode
          (step state (.client client)).settings = client := by
        rw [step_remove hpc]
        exact hown
      have hrest : waiting (step state (.client client)).queue.repos = rest := by
        rw [step_remove hpc]
        exact (waiting_removeItem hturn.ring hwaiting).2
      rw [stepsLeft_eq hnextMode hnextPc, hrest, stepsLeft_eq hown hpc, hlength]
      exact ⟨rfl, hnextMode⟩

/-- Run lemma: these steps empty the queue. -/
theorem unsent_drained (hturn : InTurn state)
    (hown : getTransferMode state.settings = client) {count : ℕ}
    (hcount : stepsLeft state = count) :
    unsent (run step state (List.replicate count (.client client))) = [] := by
  induction count generalizing state with
  | zero =>
      change unsent state = []
      apply unsent_of_waiting_nil
      have htaken : stepsTaken (state.pc client) ≤ 4 := by
        cases state.pc client <;> simp [stepsTaken]
      rw [stepsLeft_eq hown rfl] at hcount
      apply List.length_eq_zero_iff.mp
      omega
  | succ count ih =>
      have hfront : waiting state.queue.repos ≠ [] := by
        intro hempty
        rw [stepsLeft, hempty, List.length_nil] at hcount
        omega
      obtain ⟨hleft, hmode⟩ := stepsLeft_step hturn hown hfront
      exact ih (turnStep hturn (orderly_client state client)).inTurn hmode
        (Nat.succ.inj (hleft.trans hcount))

/-- From wherever an orderly run has come, so many steps of the client in whose
mode the daemon is send everything that was added, in order, however many steps
of its turn it has already taken. -/
theorem client_sends_all {repos : SyncRepos} {events : List DispatchEvent}
    {reached : System} (hreached : run step (System.start repos) events = reached)
    (horderly : Along step Orderly (System.start repos) events)
    (hown : getTransferMode reached.settings = client) :
    (run step reached
        (List.replicate (stepsLeft reached) (.client client))).sent.map
        (fun entry => entry.2.file) =
      (events.flatMap (addedTasks repos.peerList)).map taskFile := by
  have hturn := (InTurn.start repos).run horderly
  rw [hreached] at hturn
  have hrest := orderly_replicate reached client (stepsLeft reached)
  rw [← hreached] at hrest
  have hall := allFiles_run (along_append_iff.mpr ⟨horderly, hrest⟩)
  have hnone : (List.replicate (stepsLeft reached)
      (DispatchEvent.client client)).flatMap (addedTasks repos.peerList) =
        [] := by
    rw [List.flatMap_eq_nil_iff]
    intro event hevent
    rw [List.eq_of_mem_replicate hevent]
    rfl
  rw [List.flatMap_append, hreached, hnone, List.append_nil, run_append,
    hreached, allFiles, turnsView, unsent_drained hturn hown rfl,
    List.map_nil, List.append_nil, List.map_map] at hall
  exact hall

/-- Two steps of the first turn and five of the second. -/
theorem client_sends_all_addDuringTurn :
    ∃ reached, run step (System.start daemonRepos) addDuringTurn = reached ∧
      stepsLeft reached = 7 ∧
      (run step reached (List.replicate 7 (.client .udp))).sent.map
          (fun entry => entry.2.file) =
        (addDuringTurn.flatMap (addedTasks daemonRepos.peerList)).map
          taskFile := by
  have hleft : stepsLeft (run step (System.start daemonRepos) addDuringTurn) =
      7 := by
    decide
  have hall := client_sends_all rfl addDuringTurn_orderly
    (show getTransferMode _ = SyncMode.udp from rfl)
  rw [hleft] at hall
  exact ⟨_, rfl, hleft, hall⟩

end Drain

end SyncAnywhere.AtomicTurns
