import SyncAnywhere.Daemon.FreshAnswers

/-!
# How many answers are stale

A turn of `peer_manange` answers one connection.  So a setter call is missed by
at most one answer, the one of the turn in which it fell.
-/

namespace SyncAnywhere.StaleAnswers

open SyncAnywhere.CMemory
open SyncAnywhere.Numeral
open SyncAnywhere.Run
open SyncAnywhere.DaemonSettings
open SyncAnywhere.PeerManage
open SyncAnywhere.FreshAnswers

/-- The replies to queries for the port of `mode`. -/
def portReplies (mode : SyncMode) (replies : List Reply) : List Reply :=
  replies.filter fun reply => reply.request = portRequest mode

/-- The setter of `mode` is not called. -/
def Spares (mode : SyncMode) : ServiceEvent → Prop
  | .setPort other _ => other ≠ mode
  | .peerManange _ => True

/-- Only the first answer about `mode` may give the port that the turn in
progress had read, if it had read it. -/
structure StaleOnce (mode : SyncMode) (port : ℕ) (held : Option ℕ)
    (replies : List Reply) : Prop where
  first : ∀ reply ∈ (portReplies mode replies).head?,
    reply.sent = digitText 10 port ∨
      ∃ old ∈ held, reply.sent = digitText 10 old
  rest : ∀ reply ∈ (portReplies mode replies).tail,
    reply.sent = digitText 10 port

/-- What the turn in progress has read of the port is current, or else the port
has not been asked for since the setter call. -/
structure Catching (mode : SyncMode) (port : ℕ) (held : Option ℕ)
    (before later : List Reply) (state : ServiceState) : Prop where
  replies : state.replies = before ++ later
  current : portOf mode state.settings = port
  turn : ∀ found ∈ state.manager.pc.heldPort mode,
    found = port ∨ found ∈ held ∧ portReplies mode later = []
  stale : StaleOnce mode port held later

section Steps

variable {mode : SyncMode} {port : ℕ} {held : Option ℕ}
variable {before later : List Reply} {state : ServiceState}

theorem portReplies_append (mode : SyncMode) (front back : List Reply) :
    portReplies mode (front ++ back) =
      portReplies mode front ++ portReplies mode back :=
  List.filter_append front back

/-- An answer about another port, or none, adds nothing. -/
theorem StaleOnce.append_other (hstale : StaleOnce mode port held later)
    {more : List Reply} (hmore : portReplies mode more = []) :
    StaleOnce mode port held (later ++ more) := by
  have hsame : portReplies mode (later ++ more) = portReplies mode later := by
    rw [portReplies_append, hmore, List.append_nil]
  exact ⟨hsame ▸ hstale.first, hsame ▸ hstale.rest⟩

/-- One more answer, with the current port or else as the first one. -/
theorem StaleOnce.append_answer (hstale : StaleOnce mode port held later)
    {more : List Reply} {reply : Reply}
    (hmore : portReplies mode more = [reply]) {found : ℕ}
    (hsent : reply.sent = digitText 10 found)
    (hfound : found = port ∨ found ∈ held ∧ portReplies mode later = []) :
    StaleOnce mode port held (later ++ more) := by
  have hall : portReplies mode (later ++ more) =
      portReplies mode later ++ [reply] := by
    rw [portReplies_append, hmore]
  cases hlater : portReplies mode later with
  | nil =>
      rw [hlater, List.nil_append] at hall
      constructor
      · intro other hother
        rw [hall, List.head?_cons] at hother
        rw [← Option.some_inj.mp hother, hsent]
        rcases hfound with hcurrent | ⟨hheld, -⟩
        · exact .inl (by rw [hcurrent])
        · exact .inr ⟨found, hheld, rfl⟩
      · rw [hall]
        exact fun other hother => absurd hother List.not_mem_nil
  | cons first rest =>
      have hcurrent : found = port := by
        rcases hfound with hcurrent | ⟨-, hnone⟩
        · exact hcurrent
        · rw [hlater] at hnone
          cases hnone
      rw [hlater, List.cons_append] at hall
      constructor
      · intro other hother
        apply hstale.first other
        rw [hall] at hother
        rwa [hlater]
      · intro other hother
        rw [hall, List.tail_cons, List.mem_append] at hother
        rcases hother with hold | hnew
        · apply hstale.rest other
          rwa [hlater]
        · rw [List.mem_singleton.mp hnew, hsent, hcurrent]

/-- What a step of the loop answers about a port is what its turn has read. -/
theorem portReplies_answers (mode : SyncMode) (state : ServiceState) :
    portReplies mode (state.manager.answers.map fun answer =>
        ⟨answer.1, answer.2, state.beforeAccept, state.calls⟩) = [] ∨
      ∃ udpPort tcpPort reply,
        state.manager.pc = .answer udpPort tcpPort ∧
        portReplies mode (state.manager.answers.map fun answer =>
          ⟨answer.1, answer.2, state.beforeAccept, state.calls⟩) = [reply] ∧
        reply.sent = digitText 10 (pickPort udpPort tcpPort mode) := by
  cases hpc : state.manager.pc with
  | answer udpPort tcpPort =>
      by_cases hrequest : state.manager.requestCode.text = portRequest mode
      · right
        refine ⟨udpPort, tcpPort, ⟨portRequest mode,
          digitText 10 (pickPort udpPort tcpPort mode), state.beforeAccept,
          state.calls⟩, rfl, ?_, rfl⟩
        simp only [Manager.answers, hpc, hrequest, portReply_portRequest,
          List.map_cons, List.map_nil, portReplies, List.filter_cons_of_pos,
          decide_true, List.filter_nil]
      · left
        simp [Manager.answers, hpc, portReplies, hrequest]
  | readUdpPort => left; simp [Manager.answers, hpc, portReplies]
  | readTcpPort udpPort => left; simp [Manager.answers, hpc, portReplies]
  | accept udpPort tcpPort => left; simp [Manager.answers, hpc, portReplies]
  | recv udpPort tcpPort => left; simp [Manager.answers, hpc, portReplies]

/-- A step of the loop from which the turn comes out again. -/
theorem Catching.peerManange {calls : ManageCalls} {manager : Manager}
    (hstate : Catching mode port held before later state)
    (hmanager : PeerManage.peerManange calls state.settings state.manager =
      .ok manager) {next : ServiceState} {more : List Reply}
    (hsettings : next.settings = state.settings)
    (hnext : next.manager = manager)
    (hreplies : next.replies = state.replies ++ more)
    (hmore : more = state.manager.answers.map fun answer =>
      ⟨answer.1, answer.2, state.beforeAccept, state.calls⟩) :
    Catching mode port held before (later ++ more) next := by
  have hall : next.replies = before ++ (later ++ more) := by
    rw [hreplies, hstate.replies, List.append_assoc]
  have hcurrent : portOf mode next.settings = port := by
    rw [hsettings, hstate.current]
  have hanswers := portReplies_answers mode state
  rw [← hmore] at hanswers
  rcases hanswers with hother | ⟨udpPort, tcpPort, reply, hpc, honly, hsent⟩
  · refine ⟨hall, hcurrent, ?_, hstate.stale.append_other hother⟩
    intro found hfound
    rw [hnext] at hfound
    rcases heldPort_of_peerManange hmanager hfound with hheld | hread
    · refine (hstate.turn found hheld).imp_right fun hfirst => ⟨hfirst.1, ?_⟩
      rw [portReplies_append, hother, List.append_nil, hfirst.2]
    · exact .inl (hread.trans hstate.current)
  · have hheld : pickPort udpPort tcpPort mode ∈
        state.manager.pc.heldPort mode := by
      rw [hpc]
      rfl
    have hnone : manager.pc = .readUdpPort := by
      rw [PeerManage.peerManange, hpc] at hmanager
      rw [← CResult.ok.inj hmanager]
    refine ⟨hall, hcurrent, ?_, hstate.stale.append_answer honly hsent
      (hstate.turn _ hheld)⟩
    intro found hfound
    rw [hnext, hnone] at hfound
    cases hfound

/-- Step lemma. -/
theorem Catching.step (hstate : Catching mode port held before later state)
    {event : ServiceEvent} (hspares : Spares mode event) :
    (serviceStep state event).IfOk fun next =>
      ∃ later, Catching mode port held before later next := by
  cases event with
  | setPort other replaced =>
      refine ⟨later, hstate.replies, ?_, hstate.turn, hstate.stale⟩
      rw [ServiceState.setPort_portOf_of_ne (Ne.symm hspares)]
      exact hstate.current
  | peerManange calls =>
      rw [CResult.ifOk_iff]
      intro next hnext
      rw [serviceStep, CResult.bind_eq_ok_iff] at hnext
      obtain ⟨manager, hmanager, hnext⟩ := hnext
      rw [← CResult.ok.inj hnext]
      exact ⟨_, hstate.peerManange hmanager rfl rfl rfl rfl⟩

end Steps

/-! ## Runs -/

theorem Catching.start (mode : SyncMode) (port : ℕ) (state : ServiceState) :
    Catching mode port (state.manager.pc.heldPort mode) state.replies []
      (state.setPort mode port) where
  replies := (List.append_nil _).symm
  current := ServiceState.setPort_portOf_self
  turn := fun _ hfound => .inr ⟨hfound, rfl⟩
  stale := ⟨fun _ hnone => absurd hnone (Option.not_mem_none _),
    fun _ hnone => absurd hnone List.not_mem_nil⟩

/-- From any state, at most one of the answers about a port behind a call of
its setter, and only the first one, gives another port: the one that the turn in
progress had read. -/
theorem answers_stale_once {state final : ServiceState} (mode : SyncMode)
    (port : ℕ) {events : List ServiceEvent}
    (hspares : ∀ event ∈ events, Spares mode event)
    (hrun : run step (.ok (state.setPort mode port)) events = .ok final) :
    ∃ later, final.replies = state.replies ++ later ∧
      StaleOnce mode port (state.manager.pc.heldPort mode) later := by
  have hstart : CResult.IfOk (fun next => ∃ later, Catching mode port
      (state.manager.pc.heldPort mode) state.replies later next)
      (.ok (state.setPort mode port)) :=
    ⟨[], Catching.start mode port state⟩
  have halong : Along step (fun daemon event =>
      daemon.IfOk fun _ => Spares mode event)
      (.ok (state.setPort mode port)) events := by
    rw [along_iff_forall_split]
    rintro front event back rfl
    rw [CResult.ifOk_iff]
    intro _ _
    exact hspares event (List.mem_append_right _ List.mem_cons_self)
  have hfinal := invariant_run (ifOk_step fun _ _ hstate hevent =>
    hstate.elim fun _ hcatching => hcatching.step hevent) hstart halong
  rw [hrun] at hfinal
  obtain ⟨later, hcatching⟩ := hfinal
  exact ⟨later, hcatching.replies, hcatching.stale⟩

/-- A turn that has read both ports waits in `accept`. -/
def waiting : ServiceState where
  settings := daemonSettings
  manager := ⟨.accept 30000 20000, CharArray.zero 100⟩
  calls := fun _ => []
  atAccept := daemonSettings
  beforeAccept := fun _ => []
  replies := []

/-- Two TCP queries, one for this turn and one for the next. -/
def twoQueries : List ServiceEvent :=
  List.replicate 8 (.peerManange (portQuery .tcp))

theorem answers_stale_once_twoQueries :
    ∃ final, run step (.ok (waiting.setPort .tcp 50001)) twoQueries =
        .ok final ∧
      final.replies.map Reply.sent =
        [digitText 10 20000, digitText 10 50001] ∧
      ∃ later, final.replies = waiting.replies ++ later ∧
        StaleOnce .tcp 50001 (some 20000) later := by
  have hsent : (run step (.ok (waiting.setPort .tcp 50001)) twoQueries >>=
      fun final => .ok (final.replies.map Reply.sent)) =
        .ok [digitText 10 20000, digitText 10 50001] := by
    decide +kernel
  have hspares : ∀ event ∈ twoQueries, Spares .tcp event := by
    intro event hevent
    rw [List.eq_of_mem_replicate hevent]
    trivial
  obtain ⟨final, hfinal, hreplies⟩ := (CResult.bind_eq_ok_iff _ _ _).mp hsent
  exact ⟨final, hfinal, CResult.ok.inj hreplies,
    answers_stale_once .tcp 50001 hspares hfinal⟩

end SyncAnywhere.StaleAnswers
