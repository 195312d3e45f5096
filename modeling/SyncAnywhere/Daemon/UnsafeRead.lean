import SyncAnywhere.Daemon.PortService

/-!
# What an unsafe read leads to

After an unsafe read of the TCP port the daemon can go on to a wrong answer: the
server binds, a peer asks for the TCP port, and the manager answers with a port
on which the server does not listen.
-/

namespace SyncAnywhere.UnsafeRead

open SyncAnywhere.CMemory
open SyncAnywhere.Numeral
open SyncAnywhere.ReceivedLine
open SyncAnywhere.Run
open SyncAnywhere.DaemonSettings
open SyncAnywhere.PeerManage
open SyncAnywhere.PortService

/-- The daemon can go on to answer a query with a wrong port. -/
def CanMisanswer (state : PortState) : Prop :=
  ∃ events final, run step (.ok state) events = .ok final ∧ ¬ Advertised final

section Continue

variable {state next : PortState} {event : PortEvent} {port tcpPort : ℕ}

theorem canMisanswer_of_step (hstep : portStep state event = .ok next)
    (hnext : CanMisanswer next) : CanMisanswer state := by
  obtain ⟨events, final, hrun, hwrong⟩ := hnext
  refine ⟨event :: events, final, ?_, hwrong⟩
  have hfirst : step (.ok state) event = .ok next := hstep
  rw [run_cons, hfirst, hrun]

theorem portStep_silent {calls : ManageCalls} {manager : Manager}
    (hstep : peerManange calls state.settings state.manager = .ok manager)
    (hsilent : state.manager.answers = []) :
    portStep state (.peerManange calls) =
      .ok { state with manager := manager } := by
  rw [portStep, hstep, CResult.ok_bind, hsilent, List.map_nil,
    List.append_nil]
  rfl

/-- The reply to a TCP query is the digits of the port read in this turn. -/
theorem canMisanswer_of_answer {udpPort : ℕ}
    (hlisten : state.server.listeningPort = some port)
    (hpc : state.manager.pc = .answer udpPort tcpPort)
    (hquery : state.manager.requestCode.text = manageCmdReqTcpPort)
    (hne : tcpPort ≠ port) : CanMisanswer state := by
  have hanswers : state.manager.answers =
      [(manageCmdReqTcpPort, digitText 10 tcpPort)] := by
    simp only [Manager.answers, hpc, hquery, portReply_tcp]
  have hstep : portStep state (.peerManange tcpQuery) = .ok
      { state with
        manager := { state.manager with pc := .readUdpPort }
        answers := state.answers ++
          [⟨manageCmdReqTcpPort, digitText 10 tcpPort, some port⟩] } := by
    simp only [portStep, peerManange, hpc, hanswers, hlisten]
    rfl
  apply canMisanswer_of_step hstep
  refine ⟨[], _, rfl, ?_⟩
  intro hadvertised
  have hsame := hadvertised _ (List.mem_append_right _ (List.mem_singleton_self _))
    rfl port rfl
  exact hne (digitText_injective (by decide) (by decide) hsame)

theorem canMisanswer_of_recv {udpPort : ℕ}
    (hlisten : state.server.listeningPort = some port)
    (hpc : state.manager.pc = .recv udpPort tcpPort)
    (hne : tcpPort ≠ port) : CanMisanswer state := by
  obtain ⟨line, hline, htext⟩ :
      ∃ line, receiveLine state.manager.requestCode manageCmdReqTcpPort
        (by decide +kernel) = .ok line ∧ line.text = manageCmdReqTcpPort := by
    apply receiveLine_of_clean <;> decide +kernel
  have hreceive : receiveRequest tcpQuery state.manager.requestCode =
      .ok line := hline
  have hmanager : peerManange tcpQuery state.settings state.manager =
      .ok ⟨.answer udpPort tcpPort, line⟩ := by
    simp only [peerManange, hpc, hreceive]
    rfl
  have hsilent : state.manager.answers = [] := by
    simp only [Manager.answers, hpc]
  apply canMisanswer_of_step (portStep_silent hmanager hsilent)
  exact canMisanswer_of_answer hlisten rfl htext hne

theorem canMisanswer_of_accept {udpPort : ℕ}
    (hlisten : state.server.listeningPort = some port)
    (hpc : state.manager.pc = .accept udpPort tcpPort)
    (hne : tcpPort ≠ port) : CanMisanswer state := by
  have hmanager : peerManange tcpQuery state.settings state.manager =
      .ok { state.manager with pc := .recv udpPort tcpPort } := by
    simp only [peerManange, hpc]
    rfl
  have hsilent : state.manager.answers = [] := by
    simp only [Manager.answers, hpc]
  apply canMisanswer_of_step (portStep_silent hmanager hsilent)
  exact canMisanswer_of_recv hlisten rfl hne

/-- Once the server listens, a manager with another port misanswers the next
TCP query. -/
theorem canMisanswer_of_listening
    (hlisten : state.server.listeningPort = some port)
    (htcp : state.manager.tcpPort = some tcpPort) (hne : tcpPort ≠ port) :
    CanMisanswer state := by
  rw [Manager.tcpPort] at htcp
  split at htcp
  next => cases htcp
  next => cases htcp
  next udpPort found hpc =>
    rw [← Option.some_inj.mp htcp] at hne
    exact canMisanswer_of_accept hlisten hpc hne
  next udpPort found hpc =>
    rw [← Option.some_inj.mp htcp] at hne
    exact canMisanswer_of_recv hlisten hpc hne
  next udpPort found hpc =>
    obtain ⟨hquery, hsome⟩ := Option.ite_none_right_eq_some.mp htcp
    rw [← Option.some_inj.mp hsome] at hne
    exact canMisanswer_of_answer hlisten hpc hquery hne

/-- Port 0 is bound to whatever the kernel picks, any other port to itself. -/
theorem exists_boundPort_ne (hlt : port < 2 ^ 16)
    (hbreach : ¬ (tcpPort = port ∧ tcpPort ≠ 0)) :
    ∃ calls : BindCalls, calls.bound = true ∧ tcpPort ≠ boundPort calls port := by
  by_cases hzero : port = 0
  · subst hzero
    by_cases hsame : tcpPort = 40000
    · exact ⟨⟨true, 40001⟩, rfl, by rw [hsame]; decide⟩
    · exact ⟨⟨true, 40000⟩, rfl, hsame⟩
  · refine ⟨⟨true, 40000⟩, rfl, ?_⟩
    rw [boundPort_eq hlt hzero]
    intro hsame
    exact hbreach ⟨hsame, hsame ▸ hzero⟩

theorem canMisanswer_of_bind (hserver : state.server = .bind port)
    (htcp : state.manager.tcpPort = some tcpPort) (hlt : port < 2 ^ 16)
    (hbreach : ¬ (tcpPort = port ∧ tcpPort ≠ 0)) : CanMisanswer state := by
  obtain ⟨calls, hbound, hne⟩ := exists_boundPort_ne hlt hbreach
  have hstep : portStep state (.tcpServer calls) =
      .ok { state with server := .listening (boundPort calls port) } := by
    simp only [portStep, hserver, startTcpServer, hbound, if_true]
    rfl
  apply canMisanswer_of_step hstep
  exact canMisanswer_of_listening rfl htcp hne

end Continue

theorem exists_of_readsTcpPort {pc : ManagerPc} (hreads : pc.ReadsTcpPort) :
    ∃ udpPort, pc = .readTcpPort udpPort := by
  cases pc with
  | readTcpPort udpPort => exact ⟨udpPort, rfl⟩
  | readUdpPort => exact hreads.elim
  | accept udpPort tcpPort => exact hreads.elim
  | recv udpPort tcpPort => exact hreads.elim
  | answer udpPort tcpPort => exact hreads.elim

theorem server_eq_of_bindPort {server : ServerPc} {port : ℕ}
    (hbind : server.bindPort = some port) : server = .bind port := by
  cases server with
  | readPort => cases hbind
  | bind found => rw [Option.some_inj.mp hbind]
  | listening found => cases hbind

/-- Every unsafe read leads to a wrong answer. -/
theorem canMisanswer_of_not_readSafe {state : PortState} {event : PortEvent}
    (hstate : Consistent state) (hbreach : ¬ ReadSafe state event) :
    CanMisanswer state := by
  cases event with
  | notifyProtocol buf => exact absurd trivial hbreach
  | tcpServer calls =>
      simp only [ReadSafe, not_forall] at hbreach
      obtain ⟨hserver, tcpPort, htcp, hports⟩ := hbreach
      have hstep : portStep state (.tcpServer calls) =
          .ok { state with server := .bind (getTcpPort state.settings) } := by
        rw [portStep, hserver]
        rfl
      apply canMisanswer_of_step hstep
      exact canMisanswer_of_bind rfl htcp hstate.port_lt hports
  | peerManange calls =>
      simp only [ReadSafe, Classical.not_imp] at hbreach
      obtain ⟨hreads, hports⟩ := hbreach
      obtain ⟨udpPort, hpc⟩ := exists_of_readsTcpPort hreads
      have hmanager : peerManange calls state.settings state.manager =
          .ok { state.manager with
            pc := .accept udpPort (getTcpPort state.settings) } := by
        simp only [peerManange, hpc]
      have hsilent : state.manager.answers = [] := by
        simp only [Manager.answers, hpc]
      apply canMisanswer_of_step (portStep_silent hmanager hsilent)
      rw [not_and_or, not_forall, not_forall] at hports
      obtain ⟨port, hport⟩ | ⟨port, hport⟩ := hports
      · obtain ⟨hbind, hwrong⟩ := Classical.not_imp.mp hport
        have hbreach : ¬ (getTcpPort state.settings = port ∧
            getTcpPort state.settings ≠ 0) := by
          rintro ⟨hsame, hne⟩
          exact hwrong ⟨hsame.symm, hsame ▸ hne⟩
        exact canMisanswer_of_bind (server_eq_of_bindPort hbind) rfl
          (hstate.bind_lt port hbind) hbreach
      · obtain ⟨hlisten, hwrong⟩ := Classical.not_imp.mp hport
        exact canMisanswer_of_listening hlisten rfl (Ne.symm hwrong)

/-- A run with an unsafe read has a beginning from which the daemon can go on to
answer a query with a port it does not listen on. -/
theorem exists_canMisanswer_of_not_along (requestCode : CharArray 100)
    (events : List PortEvent)
    (hbreach : ¬ Along step (fun daemon event =>
      daemon.IfOk fun state => ReadSafe state event)
      (.ok (startState requestCode)) events) :
    ∃ front state, front <+: events ∧
      run step (.ok (startState requestCode)) front = .ok state ∧
      CanMisanswer state := by
  obtain ⟨front, event, back, hsplit, hfront, hevent⟩ :=
    exists_first_of_not_along hbreach
  have hstart : CResult.IfOk Consistent (.ok (startState requestCode)) :=
    Consistent.start requestCode
  have hinv := invariant_run (ifOk_step fun _ _ hstate hsafe =>
    Consistent.step hstate hsafe) hstart hfront
  rw [CResult.ifOk_iff] at hevent
  simp only [not_forall] at hevent
  obtain ⟨state, hstate, hread⟩ := hevent
  rw [hstate] at hinv
  exact ⟨front, state, ⟨_, hsplit.symm⟩, hstate,
    canMisanswer_of_not_readSafe hinv hread⟩

end SyncAnywhere.UnsafeRead
