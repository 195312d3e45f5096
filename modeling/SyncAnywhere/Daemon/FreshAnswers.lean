import SyncAnywhere.Core.Run
import SyncAnywhere.Daemon.PeerManage

/-!
# Fresh port answers

`sync_listen` sets the ports while `peer_manange` goes through its loop.  A turn
of the loop reads both ports and then blocks in `accept`, so the connection it
accepts may be answered with a port that was replaced in the meantime.
-/

namespace SyncAnywhere.FreshAnswers

open SyncAnywhere.CMemory
open SyncAnywhere.Numeral
open SyncAnywhere.ReceivedLine
open SyncAnywhere.Run
open SyncAnywhere.DaemonSettings
open SyncAnywhere.PeerManage

/-- The ports passed to a setter, in order, for each setter. -/
abbrev SetCalls := SyncMode → List ℕ

/-- A reply, with the setter calls completed before its connection was accepted
and before the reply. -/
structure Reply where
  request : List Byte
  sent : List Byte
  beforeAccept : SetCalls
  beforeReply : SetCalls

structure ServiceState where
  settings : Settings
  manager : Manager
  calls : SetCalls
  /-- The settings when the last connection was accepted. -/
  atAccept : Settings
  beforeAccept : SetCalls
  replies : List Reply

def startState (requestCode : CharArray 100) : ServiceState where
  settings := daemonSettings
  manager := ⟨.readUdpPort, requestCode⟩
  calls := fun _ => []
  atAccept := daemonSettings
  beforeAccept := fun _ => []
  replies := []

/-- A completed call of a setter. -/
def ServiceState.setPort (state : ServiceState) (mode : SyncMode)
    (port : ℕ) : ServiceState :=
  { state with
    settings := DaemonSettings.setPort mode port state.settings
    calls := Function.update state.calls mode (state.calls mode ++ [port]) }

inductive ServiceEvent where
  | setPort (mode : SyncMode) (port : ℕ)
  | peerManange (calls : ManageCalls)

def serviceStep (state : ServiceState) : ServiceEvent → CResult ServiceState
  | .setPort mode port => .ok (state.setPort mode port)
  | .peerManange calls => do
      let manager ← PeerManage.peerManange calls state.settings state.manager
      pure { state with
        manager := manager
        atAccept :=
          if state.manager.pc.Accepts then state.settings else state.atAccept
        beforeAccept :=
          if state.manager.pc.Accepts then state.calls
          else state.beforeAccept
        replies := state.replies ++ state.manager.answers.map
          fun answer =>
            ⟨answer.1, answer.2, state.beforeAccept, state.calls⟩ }

def step (daemon : CResult ServiceState) (event : ServiceEvent) :
    CResult ServiceState :=
  daemon >>= fun state => serviceStep state event

/-- A query whose connection was accepted behind a setter call, with no later
call of that setter before the reply, is answered with the port of that
call. -/
def Fresh (state : ServiceState) : Prop :=
  ∀ reply ∈ state.replies, ∀ mode, reply.request = portRequest mode →
    reply.beforeReply mode = reply.beforeAccept mode →
    ∀ port ∈ (reply.beforeAccept mode).getLast?,
      reply.sent = digitText 10 port

/-- A connection behind which the setter of `mode` has not been called. -/
def ServiceState.Quiet (state : ServiceState) (mode : SyncMode) : Prop :=
  state.calls mode = state.beforeAccept mode

instance (state : ServiceState) (mode : SyncMode) :
    Decidable (state.Quiet mode) :=
  inferInstanceAs (Decidable (_ = _))

/-- The accepted connection asks for the port of `mode`. -/
def AsksFor (mode : SyncMode) (calls : ManageCalls) (manager : Manager) :
    Prop :=
  (receiveRequest calls manager.requestCode >>= fun line =>
    .ok line.text) = .ok (portRequest mode)

instance (mode : SyncMode) (calls : ManageCalls) (manager : Manager) :
    Decidable (AsksFor mode calls manager) :=
  inferInstanceAs (Decidable (_ = _))

/-- Of the two ports read at the top of this turn, the one that the connection
asks for was current when the connection was accepted.  Nothing is required of
the other port, nor of this one when its setter has been called since. -/
def QuerySafe (state : ServiceState) : ServiceEvent → Prop
  | .setPort _ _ => True
  | .peerManange calls =>
      ∀ mode, ∀ port ∈ state.manager.pc.receivingPort mode,
        AsksFor mode calls state.manager → state.Quiet mode →
          port = portOf mode state.atAccept

instance (state : ServiceState) (event : ServiceEvent) :
    Decidable (QuerySafe state event) :=
  match event with
  | .setPort _ _ => isTrue trivial
  | .peerManange calls =>
      inferInstanceAs (Decidable
        (∀ mode, ∀ port ∈ state.manager.pc.receivingPort mode,
          AsksFor mode calls state.manager → state.Quiet mode →
            port = portOf mode state.atAccept))

/-! ## The invariant -/

/-- The last call of a setter is the current port.  Until the setter is called
again, so is the port found by `accept`, and the port with which a query for it
is going to be answered. -/
structure Held (state : ServiceState) : Prop where
  latest : ∀ mode, ∀ port ∈ (state.calls mode).getLast?,
    portOf mode state.settings = port
  seen : ∀ mode,
    (state.beforeAccept mode).length ≤ (state.calls mode).length
  found : ∀ mode, state.Quiet mode →
    portOf mode state.atAccept = portOf mode state.settings
  current : ∀ udpPort tcpPort, state.manager.pc = .answer udpPort tcpPort →
    ∀ mode, state.manager.requestCode.text = portRequest mode →
      state.Quiet mode →
        pickPort udpPort tcpPort mode = portOf mode state.settings
  fresh : Fresh state

namespace ServiceState

variable {state : ServiceState} {mode other : SyncMode} {port : ℕ}

theorem setPort_calls_self :
    (state.setPort mode port).calls mode = state.calls mode ++ [port] :=
  Function.update_self _ _ _

theorem setPort_calls_of_ne (hne : other ≠ mode) :
    (state.setPort mode port).calls other = state.calls other :=
  Function.update_of_ne hne _ _

theorem setPort_portOf_self :
    portOf mode (state.setPort mode port).settings = port :=
  portOf_setPort_self mode port state.settings

theorem setPort_portOf_of_ne (hne : other ≠ mode) :
    portOf other (state.setPort mode port).settings =
      portOf other state.settings :=
  portOf_setPort_of_ne hne port state.settings

/-- Behind a connection the called setter is not quiet any more. -/
theorem not_quiet_setPort
    (hseen : (state.beforeAccept mode).length ≤ (state.calls mode).length) :
    ¬ (state.setPort mode port).Quiet mode := by
  intro hquiet
  have hlength : (state.calls mode ++ [port]).length =
      (state.beforeAccept mode).length :=
    congrArg List.length (setPort_calls_self.symm.trans hquiet)
  rw [List.length_append] at hlength
  exact absurd (hlength.trans_le hseen) (Nat.not_succ_le_self _)

theorem quiet_setPort_iff (hne : other ≠ mode) :
    (state.setPort mode port).Quiet other ↔ state.Quiet other := by
  rw [Quiet, setPort_calls_of_ne hne]
  rfl

end ServiceState

namespace Held

variable {state : ServiceState}

theorem start (requestCode : CharArray 100) :
    Held (startState requestCode) where
  latest := by simp [startState]
  seen := fun _ => le_rfl
  found := fun _ _ => rfl
  current := by simp [startState]
  fresh := by simp [Fresh, startState]

theorem setPort (hstate : Held state) (mode : SyncMode) (port : ℕ) :
    (serviceStep state (.setPort mode port)).IfOk Held := by
  have hcalled : ¬ (state.setPort mode port).Quiet mode :=
    ServiceState.not_quiet_setPort (hstate.seen mode)
  constructor
  · intro other last hlast
    by_cases hmode : other = mode
    · rw [hmode, ServiceState.setPort_calls_self, List.getLast?_concat]
        at hlast
      rw [hmode, ServiceState.setPort_portOf_self, Option.some_inj.mp hlast]
    · rw [ServiceState.setPort_calls_of_ne hmode] at hlast
      rw [ServiceState.setPort_portOf_of_ne hmode]
      exact hstate.latest other last hlast
  · intro other
    by_cases hmode : other = mode
    · rw [hmode, ServiceState.setPort_calls_self, List.length_append]
      exact (hstate.seen mode).trans (Nat.le_add_right _ _)
    · rw [ServiceState.setPort_calls_of_ne hmode]
      exact hstate.seen other
  · intro other hquiet
    by_cases hmode : other = mode
    · exact absurd (hmode ▸ hquiet) hcalled
    · rw [ServiceState.quiet_setPort_iff hmode] at hquiet
      rw [ServiceState.setPort_portOf_of_ne hmode]
      exact hstate.found other hquiet
  · intro udpPort tcpPort hpc other hrequest hquiet
    by_cases hmode : other = mode
    · exact absurd (hmode ▸ hquiet) hcalled
    · rw [ServiceState.quiet_setPort_iff hmode] at hquiet
      rw [ServiceState.setPort_portOf_of_ne hmode]
      exact hstate.current udpPort tcpPort hpc other hrequest hquiet
  · exact hstate.fresh

/-- A reply sent from a consistent state is fresh. -/
theorem fresh_append (hstate : Held state) :
    ∀ answer ∈ state.manager.answers, ∀ mode, answer.1 = portRequest mode →
      state.Quiet mode → ∀ port ∈ (state.beforeAccept mode).getLast?,
        answer.2 = digitText 10 port := by
  rintro ⟨request, sent⟩ hanswer mode rfl hquiet port hport
  obtain ⟨udpPort, tcpPort, hpc, htext, hsent⟩ :=
    answers_portRequest mode hanswer
  have hcurrent := hstate.current udpPort tcpPort hpc mode htext hquiet
  rw [← hquiet] at hport
  rw [hsent, hcurrent, hstate.latest mode port hport]

/-- A safe query is going to be answered with the current port. -/
theorem current_of_receives (hstate : Held state) {calls : ManageCalls}
    (hsafe : QuerySafe state (.peerManange calls)) {udpPort tcpPort : ℕ}
    (hpc : state.manager.pc = .recv udpPort tcpPort) {line : CharArray 100}
    (hline : receiveRequest calls state.manager.requestCode = .ok line)
    {mode : SyncMode} (hrequest : line.text = portRequest mode)
    (hquiet : state.Quiet mode) :
    pickPort udpPort tcpPort mode = portOf mode state.settings := by
  have hasks : AsksFor mode calls state.manager := by
    rw [AsksFor, hline, CResult.ok_bind, hrequest]
  have hport : pickPort udpPort tcpPort mode ∈
      state.manager.pc.receivingPort mode := by
    rw [hpc]
    rfl
  exact (hsafe mode _ hport hasks hquiet).trans (hstate.found mode hquiet)

theorem current_of_peerManange (hstate : Held state) {calls : ManageCalls}
    (hsafe : QuerySafe state (.peerManange calls)) {next : Manager}
    (hstep : PeerManage.peerManange calls state.settings state.manager =
      .ok next) {udpPort tcpPort : ℕ} (hpc : next.pc = .answer udpPort tcpPort)
    {mode : SyncMode} (hrequest : next.requestCode.text = portRequest mode)
    (hquiet : (if state.manager.pc.Accepts then state.calls
      else state.beforeAccept) mode = state.calls mode) :
    pickPort udpPort tcpPort mode = portOf mode state.settings := by
  obtain ⟨-, hnext⟩ | ⟨_, -, hnext⟩ | ⟨_, _, -, hnext⟩ |
    ⟨_, _, hrecv, hline, hnext⟩ | ⟨_, _, -, hnext⟩ :=
      peerManange_cases hstep
  · rw [hnext] at hpc
    cases hpc
  · rw [hnext] at hpc
    cases hpc
  · rw [hnext] at hpc
    cases hpc
  · have hbusy : ¬ state.manager.pc.Accepts := by
      rw [hrecv]
      exact id
    rw [if_neg hbusy] at hquiet
    rw [hnext] at hpc
    obtain ⟨rfl, rfl⟩ := ManagerPc.answer.inj hpc
    exact hstate.current_of_receives hsafe hrecv hline hrequest hquiet.symm
  · rw [hnext] at hpc
    cases hpc

theorem peerManange (hstate : Held state) {calls : ManageCalls}
    (hsafe : QuerySafe state (.peerManange calls)) :
    (serviceStep state (.peerManange calls)).IfOk Held := by
  rw [CResult.ifOk_iff]
  intro next hnext
  rw [serviceStep, CResult.bind_eq_ok_iff] at hnext
  obtain ⟨manager, hmanager, hnext⟩ := hnext
  rw [← CResult.ok.inj hnext]
  constructor
  · exact hstate.latest
  · intro mode
    by_cases haccepts : state.manager.pc.Accepts
    · simp only [if_pos haccepts, le_refl]
    · simp only [if_neg haccepts]
      exact hstate.seen mode
  · intro mode hquiet
    by_cases haccepts : state.manager.pc.Accepts
    · simp only [if_pos haccepts]
    · simp only [ServiceState.Quiet, if_neg haccepts] at hquiet ⊢
      exact hstate.found mode hquiet
  · intro udpPort tcpPort hpc mode hrequest hquiet
    exact hstate.current_of_peerManange hsafe hmanager hpc hrequest
      hquiet.symm
  · intro reply hreply mode hrequest hcalls port hport
    rcases List.mem_append.mp hreply with hold | hnew
    · exact hstate.fresh reply hold mode hrequest hcalls port hport
    · obtain ⟨answer, hanswer, rfl⟩ := List.mem_map.mp hnew
      exact hstate.fresh_append answer hanswer mode hrequest hcalls port hport

/-- Step lemma: a step whose query is safe keeps the answers fresh. -/
theorem step (hstate : Held state) {event : ServiceEvent}
    (hsafe : QuerySafe state event) :
    (serviceStep state event).IfOk Held := by
  cases event with
  | setPort mode port => exact hstate.setPort mode port
  | peerManange calls => exact hstate.peerManange hsafe

end Held

/-! ## Runs -/

theorem ifOk_step {invariant : ServiceState → Prop}
    {relation : ServiceState → ServiceEvent → Prop}
    (hstep : ∀ state event, invariant state → relation state event →
      (serviceStep state event).IfOk invariant) :
    ∀ daemon event, CResult.IfOk invariant daemon →
      (daemon.IfOk fun state => relation state event) →
        (step daemon event).IfOk invariant :=
  CResult.ifOk_bind_step hstep

/-- In every run in which a port asked for was, when the connection was
accepted, still the one read at the top of the turn, every port answer is
fresh. -/
theorem fresh_always (requestCode : CharArray 100)
    (events : List ServiceEvent)
    (hsafe : Along step (fun daemon event =>
      daemon.IfOk fun state => QuerySafe state event)
      (.ok (startState requestCode)) events) :
    Always step (CResult.IfOk Fresh) (.ok (startState requestCode))
      events := by
  have hstep := ifOk_step fun _ _ hstate hevent =>
    Held.step hstate hevent
  have hstart : CResult.IfOk Held (.ok (startState requestCode)) :=
    Held.start requestCode
  exact (always_of_invariant hstep hstart hsafe).mono
    fun _ hdaemon => hdaemon.mono fun _ hstate => hstate.fresh

/-- TCP port 50001 is set before the turn that answers a query for it, and a
UDP port while that turn waits in `accept`. -/
def setBeforeTurn : List ServiceEvent :=
  .setPort .tcp 50001 :: List.replicate 2 (.peerManange (portQuery .tcp)) ++
    .setPort .udp 40001 :: List.replicate 3 (.peerManange (portQuery .tcp))

theorem fresh_setBeforeTurn :
    Always step (CResult.IfOk Fresh) (.ok (startState (CharArray.zero 100)))
      setBeforeTurn :=
  fresh_always (CharArray.zero 100) setBeforeTurn (by decide +kernel)

/-- TCP port 50001 is set while the loop waits in `accept`. -/
def setDuringAccept : List ServiceEvent :=
  List.replicate 2 (.peerManange (portQuery .tcp)) ++
    .setPort .tcp 50001 :: List.replicate 3 (.peerManange (portQuery .tcp))

/-- The query accepted behind the setter call is answered with the port read
before it. -/
theorem fresh_setDuringAccept_stale :
    (run step (.ok (startState (CharArray.zero 100))) setDuringAccept >>=
      fun state => .ok (state.replies.map fun reply =>
        (reply.request, reply.sent, reply.beforeAccept .tcp,
          reply.beforeReply .tcp))) =
      .ok [(manageCmdReqTcpPort, digitText 10 20000, [50001], [50001])] := by
  decide +kernel

end SyncAnywhere.FreshAnswers
