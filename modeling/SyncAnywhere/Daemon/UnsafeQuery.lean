import SyncAnywhere.Daemon.FreshAnswers

/-!
# What an unsafe query leads to

A query for a port that was replaced between the top of the turn and `accept`
is answered by the next step of the loop, with the replaced port.
-/

namespace SyncAnywhere.UnsafeQuery

open SyncAnywhere.CMemory
open SyncAnywhere.Numeral
open SyncAnywhere.Run
open SyncAnywhere.DaemonSettings
open SyncAnywhere.PeerManage
open SyncAnywhere.FreshAnswers

/-- Until its setter is called, a port is the one the daemon started with. -/
structure Untouched (state : ServiceState) : Prop where
  setting : ∀ mode, state.calls mode = [] →
    portOf mode state.settings = portOf mode daemonSettings
  turn : ∀ mode, state.calls mode = [] →
    ∀ port ∈ state.manager.pc.heldPort mode, port = portOf mode daemonSettings

namespace Untouched

variable {state : ServiceState}

theorem start (requestCode : CharArray 100) :
    Untouched (startState requestCode) where
  setting := fun _ _ => rfl
  turn := fun _ _ _ hport => by cases hport

theorem setPort (hstate : Untouched state) (mode : SyncMode) (port : ℕ) :
    Untouched (state.setPort mode port) := by
  have hother : ∀ other, (state.setPort mode port).calls other = [] →
      other ≠ mode := by
    rintro other hcalls rfl
    rw [ServiceState.setPort_calls_self] at hcalls
    exact absurd hcalls (List.concat_ne_nil _ _)
  constructor
  · intro other hcalls
    have hne := hother other hcalls
    rw [ServiceState.setPort_calls_of_ne hne] at hcalls
    rw [ServiceState.setPort_portOf_of_ne hne]
    exact hstate.setting other hcalls
  · intro other hcalls
    have hne := hother other hcalls
    rw [ServiceState.setPort_calls_of_ne hne] at hcalls
    exact hstate.turn other hcalls

theorem step (hstate : Untouched state) (event : ServiceEvent) :
    (serviceStep state event).IfOk Untouched := by
  cases event with
  | setPort mode port => exact hstate.setPort mode port
  | peerManange calls =>
      rw [CResult.ifOk_iff]
      intro next hnext
      rw [serviceStep, CResult.bind_eq_ok_iff] at hnext
      obtain ⟨manager, hmanager, hnext⟩ := hnext
      rw [← CResult.ok.inj hnext]
      refine ⟨hstate.setting, ?_⟩
      intro mode hcalls port hport
      rcases heldPort_of_peerManange hmanager hport with hheld | hread
      · exact hstate.turn mode hcalls port hheld
      · rw [hread]
        exact hstate.setting mode hcalls

end Untouched

/-! ## From the query to the answer -/

section Answer

variable {state : ServiceState} {mode : SyncMode} {udpPort tcpPort : ℕ}

/-- A port that is not the current one was replaced by a call of its
setter. -/
theorem getLast?_calls (hlatest : ∀ port ∈ (state.calls mode).getLast?,
      portOf mode state.settings = port) (huntouched : Untouched state)
    (hpc : state.manager.pc = .answer udpPort tcpPort)
    (hne : pickPort udpPort tcpPort mode ≠ portOf mode state.settings) :
    (state.calls mode).getLast? = some (portOf mode state.settings) := by
  cases hlast : (state.calls mode).getLast? with
  | none =>
      have hcalls := List.getLast?_eq_none_iff.mp hlast
      have hturn := huntouched.turn mode hcalls
        (pickPort udpPort tcpPort mode) (by rw [hpc]; rfl)
      rw [huntouched.setting mode hcalls] at hne
      exact absurd hturn hne
  | some port => rw [hlatest port hlast]

/-- The answer to a query with a port that is not the current one. -/
theorem not_fresh_of_answer (hlatest : ∀ port ∈ (state.calls mode).getLast?,
      portOf mode state.settings = port) (huntouched : Untouched state)
    (hpc : state.manager.pc = .answer udpPort tcpPort)
    (hrequest : state.manager.requestCode.text = portRequest mode)
    (hquiet : state.Quiet mode)
    (hne : pickPort udpPort tcpPort mode ≠ portOf mode state.settings)
    (calls : ManageCalls) :
    ∃ next, serviceStep state (.peerManange calls) = .ok next ∧
      ¬ Fresh next := by
  have hanswers : state.manager.answers =
      [(portRequest mode,
        digitText 10 (pickPort udpPort tcpPort mode))] := by
    simp only [Manager.answers, hpc, hrequest, portReply_portRequest]
  have hmanager : peerManange calls state.settings state.manager =
      .ok { state.manager with pc := .readUdpPort } := by
    simp only [peerManange, hpc]
  refine ⟨_, by rw [serviceStep, hmanager]; rfl, ?_⟩
  intro hfresh
  have hlast := getLast?_calls hlatest huntouched hpc hne
  rw [hquiet] at hlast
  have hsent := hfresh
    ⟨portRequest mode, digitText 10 (pickPort udpPort tcpPort mode),
      state.beforeAccept, state.calls⟩
    (by rw [hanswers]; exact List.mem_append_right _ List.mem_cons_self)
    mode rfl hquiet (portOf mode state.settings) hlast
  exact hne (digitText_injective (by decide) (by decide) hsent)

/-- Receiving a request changes nothing but the manager. -/
theorem serviceStep_recv (hpc : state.manager.pc = .recv udpPort tcpPort)
    {calls : ManageCalls} {line : CharArray 100}
    (hline : receiveRequest calls state.manager.requestCode = .ok line) :
    serviceStep state (.peerManange calls) =
      .ok { state with manager := ⟨.answer udpPort tcpPort, line⟩ } := by
  have hmanager : peerManange calls state.settings state.manager =
      .ok ⟨.answer udpPort tcpPort, line⟩ := by
    simp only [peerManange, hpc, hline]
    rfl
  have hbusy : ¬ state.manager.pc.Accepts := by
    rw [hpc]
    exact id
  have hsilent : state.manager.answers = [] := by
    simp only [Manager.answers, hpc]
  rw [serviceStep, hmanager, CResult.ok_bind, if_neg hbusy, if_neg hbusy,
    hsilent, List.map_nil, List.append_nil]
  rfl

/-- Behind an unsafe query the next step of the loop sends a stale answer. -/
theorem stale_of_not_querySafe {event : ServiceEvent} (hheld : Held state)
    (huntouched : Untouched state) (hbreach : ¬ QuerySafe state event)
    (calls : ManageCalls) :
    ∃ next, (serviceStep state event >>= fun asked =>
      serviceStep asked (.peerManange calls)) = .ok next ∧ ¬ Fresh next := by
  cases event with
  | setPort mode port => exact absurd trivial hbreach
  | peerManange query =>
      simp only [QuerySafe, not_forall] at hbreach
      obtain ⟨mode, port, hport, hasks, hquiet, hne⟩ := hbreach
      rw [hheld.found mode hquiet] at hne
      rw [AsksFor, CResult.bind_eq_ok_iff] at hasks
      obtain ⟨line, hline, htext⟩ := hasks
      obtain ⟨udpPort, tcpPort, hpc, rfl⟩ :=
        ManagerPc.eq_recv_of_receivingPort hport
      have hasked := serviceStep_recv hpc hline
      have hkept := huntouched.step (.peerManange query)
      rw [hasked] at hkept ⊢
      refine not_fresh_of_answer ?_ hkept rfl (CResult.ok.inj htext)
        hquiet hne calls
      exact hheld.latest mode

end Answer

/-- A run with an unsafe query has a beginning, up to and with that query,
behind which the next step of the loop sends a stale answer. -/
theorem exists_stale_of_not_along (requestCode : CharArray 100)
    (events : List ServiceEvent)
    (hbreach : ¬ Along step (fun daemon event =>
      daemon.IfOk fun state => QuerySafe state event)
      (.ok (startState requestCode)) events) :
    ∃ front, front <+: events ∧ ∀ calls, ∃ state,
      run step (.ok (startState requestCode))
        (front ++ [.peerManange calls]) = .ok state ∧ ¬ Fresh state := by
  obtain ⟨front, event, back, hsplit, hfront, hevent⟩ :=
    exists_first_of_not_along hbreach
  have hstart : CResult.IfOk (fun state => Held state ∧ Untouched state)
      (.ok (startState requestCode)) :=
    ⟨Held.start requestCode, Untouched.start requestCode⟩
  have hinv := invariant_run (ifOk_step fun _ event hstate hsafe =>
    (hstate.1.step hsafe).and (hstate.2.step event)) hstart hfront
  rw [CResult.ifOk_iff] at hevent
  simp only [not_forall] at hevent
  obtain ⟨state, hstate, hmissed⟩ := hevent
  rw [hstate] at hinv
  refine ⟨front ++ [event], ⟨back, by simp [hsplit]⟩, ?_⟩
  intro calls
  obtain ⟨next, hnext, hstale⟩ :=
    stale_of_not_querySafe hinv.1 hinv.2 hmissed calls
  refine ⟨next, ?_, hstale⟩
  rw [List.append_assoc, run_append, hstate]
  exact hnext

end SyncAnywhere.UnsafeQuery
