import SyncAnywhere.Core.Run
import SyncAnywhere.Daemon.PeerManage
import SyncAnywhere.Daemon.SyncListener

/-!
# The advertised port

Three threads share the port settings: `sync_listen` overwrites them,
`tcp_sync_server` reads the TCP port once to bind, and `peer_manange` reads it
in every turn of its loop to answer later queries.
-/

namespace SyncAnywhere.PortService

open SyncAnywhere.CMemory
open SyncAnywhere.Numeral
open SyncAnywhere.ReceivedLine
open SyncAnywhere.Run
open SyncAnywhere.Messages
open SyncAnywhere.DaemonSettings
open SyncAnywhere.SyncListener
open SyncAnywhere.PeerManage

/-- The start of `tcp_sync_server`. -/
inductive ServerPc where
  | readPort
  | bind (port : ℕ)
  | listening (port : ℕ)
  deriving DecidableEq

def ServerPc.listeningPort : ServerPc → Option ℕ
  | listening port => some port
  | _ => none

def ServerPc.bindPort : ServerPc → Option ℕ
  | bind port => some port
  | _ => none

/-- What `bind` does: it may fail, and for port 0 the kernel picks a port. -/
structure BindCalls where
  bound : Bool
  kernelPort : ℕ

/-- `htons` keeps the low 16 bits of the port. -/
def boundPort (calls : BindCalls) (port : ℕ) : ℕ :=
  if port % 2 ^ 16 = 0 then calls.kernelPort else port % 2 ^ 16

/-- One step of `tcp_sync_server` up to its accept loop. -/
def startTcpServer (calls : BindCalls) (settings : Settings) :
    ServerPc → CResult ServerPc
  | .readPort => .ok (.bind (getTcpPort settings))
  | .bind port =>
      if calls.bound then .ok (.listening (boundPort calls port)) else .exited
  | .listening port => .ok (.listening port)

/-- An answered query: the request, the bytes sent, and the port the TCP server
is listening on at that moment. -/
structure Answer where
  request : List Byte
  sent : List Byte
  listening : Option ℕ
  deriving DecidableEq

structure PortState where
  settings : Settings
  server : ServerPc
  manager : Manager
  answers : List Answer

def startState (requestCode : CharArray 100) : PortState where
  settings := daemonSettings
  server := .readPort
  manager := ⟨.readUdpPort, requestCode⟩
  answers := []

inductive PortEvent where
  | notifyProtocol (buf : MsgBuffer)
  | tcpServer (calls : BindCalls)
  | peerManange (calls : ManageCalls)

def portStep (state : PortState) : PortEvent → CResult PortState
  | .notifyProtocol buf =>
      .ok { state with settings := notifyProtocol buf state.settings }
  | .tcpServer calls => do
      let server ← startTcpServer calls state.settings state.server
      pure { state with server := server }
  | .peerManange calls => do
      let manager ← PeerManage.peerManange calls state.settings state.manager
      pure { state with
        manager := manager
        answers := state.answers ++ state.manager.answers.map
          fun answer => ⟨answer.1, answer.2, state.server.listeningPort⟩ }

/-- A step of the daemon, which may have exited. -/
def step (daemon : CResult PortState) (event : PortEvent) :
    CResult PortState :=
  daemon >>= fun state => portStep state event

/-- Every TCP query answered while the server was listening got the port it
was listening on. -/
def Advertised (state : PortState) : Prop :=
  ∀ answer ∈ state.answers, answer.request = manageCmdReqTcpPort →
    ∀ port, answer.listening = some port → answer.sent = digitText 10 port

/-- The second of the two reads of the TCP port finds what the first one found,
and not zero. -/
def ReadSafe (state : PortState) : PortEvent → Prop
  | .notifyProtocol _ => True
  | .tcpServer _ =>
      state.server = .readPort → ∀ port ∈ state.manager.tcpPort,
        port = getTcpPort state.settings ∧ port ≠ 0
  | .peerManange _ =>
      state.manager.pc.ReadsTcpPort →
        (∀ port ∈ state.server.bindPort,
          port = getTcpPort state.settings ∧ port ≠ 0) ∧
        ∀ port ∈ state.server.listeningPort, port = getTcpPort state.settings

instance (state : PortState) (event : PortEvent) :
    Decidable (ReadSafe state event) := by
  cases event <;> unfold ReadSafe <;> infer_instance

/-! ## What a step does -/

section Steps

variable {state next : PortState}

/-- The server reads the port, binds the one it read, or goes on listening. -/
theorem tcpServer_cases {calls : BindCalls}
    (hstep : portStep state (.tcpServer calls) = .ok next) :
    next = { state with server := .bind (getTcpPort state.settings) } ∧
        state.server = .readPort ∨
      (∃ port, next = { state with server := .listening (boundPort calls port) } ∧
        state.server = .bind port) ∨
      next = state := by
  rw [portStep] at hstep
  cases hserver : state.server with
  | readPort =>
      rw [hserver] at hstep
      exact Or.inl ⟨(CResult.ok.inj hstep).symm, rfl⟩
  | bind port =>
      rw [hserver, startTcpServer] at hstep
      by_cases hbound : calls.bound = true
      · rw [if_pos hbound] at hstep
        exact Or.inr (Or.inl ⟨port, (CResult.ok.inj hstep).symm, rfl⟩)
      · rw [if_neg hbound] at hstep
        contradiction
  | listening port =>
      rw [hserver] at hstep
      have hsame : { state with server := .listening port } = next :=
        CResult.ok.inj hstep
      rw [← hserver] at hsame
      exact Or.inr (Or.inr hsame.symm)

theorem peerManange_eq_ok {calls : ManageCalls}
    (hstep : portStep state (.peerManange calls) = .ok next) :
    ∃ manager, PeerManage.peerManange calls state.settings state.manager =
        .ok manager ∧
      next = { state with
        manager := manager
        answers := state.answers ++ state.manager.answers.map
          fun answer => ⟨answer.1, answer.2, state.server.listeningPort⟩ } := by
  rw [portStep, CResult.bind_eq_ok_iff] at hstep
  obtain ⟨manager, hmanager, hnext⟩ := hstep
  exact ⟨manager, hmanager, (CResult.ok.inj hnext).symm⟩

end Steps

/-! ## The invariant -/

/-- The port this turn of the manager will answer with is the port the server
has bound or is about to bind. -/
structure Consistent (state : PortState) : Prop where
  port_lt : getTcpPort state.settings < 2 ^ 16
  bind_lt : ∀ port ∈ state.server.bindPort, port < 2 ^ 16
  binding : ∀ port ∈ state.server.bindPort,
    ∀ tcpPort ∈ state.manager.tcpPort, tcpPort = port ∧ port ≠ 0
  listening : ∀ port ∈ state.server.listeningPort,
    ∀ tcpPort ∈ state.manager.tcpPort, tcpPort = port
  advertised : Advertised state

theorem boundPort_eq {calls : BindCalls} {port : ℕ} (hlt : port < 2 ^ 16)
    (hne : port ≠ 0) : boundPort calls port = port := by
  rw [boundPort, Nat.mod_eq_of_lt hlt, if_neg hne]

theorem getTcpPort_notifyProtocol_lt {buf : MsgBuffer} {settings : Settings}
    (hlt : getTcpPort settings < 2 ^ 16) :
    getTcpPort (notifyProtocol buf settings) < 2 ^ 16 := by
  have hhigh := (buf.byteAt 3).isLt
  have hlow := (buf.byteAt 4).isLt
  rw [notifyProtocol, apply_ite getTcpPort]
  split_ifs
  · simp only [getTcpPort, setTransferMode, setTcpPort]
    omega
  · exact hlt

namespace Consistent

variable {state : PortState}

theorem start (requestCode : CharArray 100) :
    Consistent (startState requestCode) where
  port_lt := show 20000 < 2 ^ 16 by decide
  bind_lt := by simp [startState, ServerPc.bindPort]
  binding := by simp [startState, ServerPc.bindPort]
  listening := by simp [startState, ServerPc.listeningPort]
  advertised := by simp [Advertised, startState]

theorem notifyProtocol (hstate : Consistent state) (buf : MsgBuffer) :
    (portStep state (.notifyProtocol buf)).IfOk Consistent :=
  { hstate with port_lt := getTcpPort_notifyProtocol_lt hstate.port_lt }

theorem tcpServer (hstate : Consistent state) {calls : BindCalls}
    (hsafe : ReadSafe state (.tcpServer calls)) :
    (portStep state (.tcpServer calls)).IfOk Consistent := by
  rw [CResult.ifOk_iff]
  intro next hnext
  obtain ⟨rfl, hserver⟩ | ⟨port, rfl, hserver⟩ | rfl := tcpServer_cases hnext
  · refine { hstate with bind_lt := ?_, binding := ?_, listening := ?_ }
    · intro port hport
      rw [← Option.some_inj.mp hport]
      exact hstate.port_lt
    · intro port hport tcpPort htcp
      rw [← Option.some_inj.mp hport]
      obtain ⟨hsame, hne⟩ := hsafe hserver tcpPort htcp
      exact ⟨hsame, hsame ▸ hne⟩
    · intro port hport
      cases hport
  · have hbind : port ∈ state.server.bindPort := by rw [hserver]; rfl
    refine { hstate with bind_lt := ?_, binding := ?_, listening := ?_ }
    · intro other hother
      cases hother
    · intro other hother
      cases hother
    · intro other hother tcpPort htcp
      obtain ⟨hsame, hne⟩ := hstate.binding port hbind tcpPort htcp
      rw [← Option.some_inj.mp hother,
        boundPort_eq (hstate.bind_lt port hbind) hne, hsame]
  · exact hstate

theorem peerManange (hstate : Consistent state) {calls : ManageCalls}
    (hsafe : ReadSafe state (.peerManange calls)) :
    (portStep state (.peerManange calls)).IfOk Consistent := by
  rw [CResult.ifOk_iff]
  intro next hnext
  obtain ⟨manager, hmanager, rfl⟩ := peerManange_eq_ok hnext
  constructor
  · exact hstate.port_lt
  · exact hstate.bind_lt
  · intro port hport tcpPort htcp
    rcases tcpPort_of_peerManange hmanager htcp with hold | ⟨hreads, hread⟩
    · exact hstate.binding port hport tcpPort hold
    · obtain ⟨hsame, hne⟩ := (hsafe hreads).1 port hport
      exact ⟨hread.trans hsame.symm, hne⟩
  · intro port hport tcpPort htcp
    rcases tcpPort_of_peerManange hmanager htcp with hold | ⟨hreads, hread⟩
    · exact hstate.listening port hport tcpPort hold
    · exact hread.trans ((hsafe hreads).2 port hport).symm
  · intro answer hanswer hrequest port hport
    rcases List.mem_append.mp hanswer with hold | hnew
    · exact hstate.advertised answer hold hrequest port hport
    · obtain ⟨⟨request, sent⟩, hmem, rfl⟩ := List.mem_map.mp hnew
      have htcp : request = manageCmdReqTcpPort := hrequest
      rw [htcp] at hmem
      obtain ⟨tcpPort, hpc, hreply⟩ := answers_tcp hmem
      rw [hreply, hstate.listening port hport tcpPort hpc]

/-- Step lemma: a step whose reads are safe keeps the ports consistent. -/
theorem step (hstate : Consistent state) {event : PortEvent}
    (hsafe : ReadSafe state event) :
    (portStep state event).IfOk Consistent := by
  cases event with
  | notifyProtocol buf => exact hstate.notifyProtocol buf
  | tcpServer calls => exact hstate.tcpServer hsafe
  | peerManange calls => exact hstate.peerManange hsafe

end Consistent

/-! ## Runs -/

/-- A rule for the running daemon is a rule for the daemon. -/
theorem ifOk_step {invariant : PortState → Prop}
    {relation : PortState → PortEvent → Prop}
    (hstep : ∀ state event, invariant state → relation state event →
      (portStep state event).IfOk invariant) :
    ∀ daemon event, CResult.IfOk invariant daemon →
      (daemon.IfOk fun state => relation state event) →
        (step daemon event).IfOk invariant :=
  CResult.ifOk_bind_step hstep

/-- In every run in which the second of the two threads to read the TCP port
finds the same port as the first, and not zero, every query answered while the
server listens gets the port it listens on. -/
theorem advertised_always (requestCode : CharArray 100)
    (events : List PortEvent)
    (hsafe : Along step (fun daemon event =>
      daemon.IfOk fun state => ReadSafe state event)
      (.ok (startState requestCode)) events) :
    Always step (CResult.IfOk Advertised) (.ok (startState requestCode))
      events := by
  have hstart : CResult.IfOk Consistent (.ok (startState requestCode)) :=
    Consistent.start requestCode
  have hstep := ifOk_step fun _ _ hstate hevent =>
    Consistent.step hstate hevent
  exact (always_of_invariant hstep hstart hsafe).mono
    fun _ hdaemon => hdaemon.mono fun _ hstate => hstate.advertised

/-- The server reads the port and binds it. -/
def bindPort : List PortEvent :=
  List.replicate 2 (.tcpServer ⟨true, 40000⟩)

/-- A peer connects and asks for the TCP port. -/
def tcpQuery : ManageCalls :=
  ⟨true, some manageCmdReqTcpPort, by decide +kernel⟩

/-- One turn of the manager that answers a TCP query. -/
def answerTcpQuery : List PortEvent :=
  List.replicate 5 (.peerManange tcpQuery)

theorem advertised_defaultPort :
    Always step (CResult.IfOk Advertised) (.ok (startState (CharArray.zero 100)))
      (bindPort ++ answerTcpQuery) :=
  advertised_always (CharArray.zero 100) (bindPort ++ answerTcpQuery)
    (by decide +kernel)

/-- The mode message that selects TCP with port 50001. -/
def selectTcp50001 : MsgBuffer :=
  ⟨[0x02#8, 0x1a#8, 0x01#8, 0xc3#8, 0x51#8] ++ List.replicate 295 0#8, by
    rw [List.length_append, List.length_replicate]
    rfl⟩

/-- After a port change the query is answered with the new port while the
server listens on the old one. -/
theorem advertised_afterChange_differs :
    (run step (.ok (startState (CharArray.zero 100)))
        (bindPort ++ .notifyProtocol selectTcp50001 :: answerTcpQuery) >>=
      fun state => .ok state.answers) =
        .ok [⟨manageCmdReqTcpPort, digitText 10 50001, some 20000⟩] := by
  decide +kernel

/-! ## Runs without a port change -/

/-- A message does not change the TCP port. -/
def KeepsPort (state : PortState) : PortEvent → Prop
  | .notifyProtocol buf =>
      getTcpPort (notifyProtocol buf state.settings) =
        getTcpPort state.settings
  | _ => True

/-- Every copy of the TCP port is the initial one. -/
structure Unchanged (state : PortState) : Prop where
  settings : getTcpPort state.settings = 20000
  bind : ∀ port ∈ state.server.bindPort, port = 20000
  listening : ∀ port ∈ state.server.listeningPort, port = 20000
  manager : ∀ port ∈ state.manager.tcpPort, port = 20000

namespace Unchanged

variable {state : PortState}

theorem step (hstate : Unchanged state) {event : PortEvent}
    (hkeeps : KeepsPort state event) :
    (portStep state event).IfOk Unchanged := by
  cases event with
  | notifyProtocol buf =>
      exact { hstate with settings := hkeeps.trans hstate.settings }
  | tcpServer calls =>
      rw [CResult.ifOk_iff]
      intro next hnext
      obtain ⟨rfl, -⟩ | ⟨port, rfl, hserver⟩ | rfl := tcpServer_cases hnext
      · refine { hstate with bind := ?_, listening := ?_ }
        · intro port hport
          rw [← Option.some_inj.mp hport]
          exact hstate.settings
        · intro port hport
          cases hport
      · have hbind : port = 20000 := hstate.bind port (by rw [hserver]; rfl)
        refine { hstate with bind := ?_, listening := ?_ }
        · intro other hother
          cases hother
        · intro other hother
          rw [← Option.some_inj.mp hother, hbind]
          exact boundPort_eq (by decide) (by decide)
      · exact hstate
  | peerManange calls =>
      rw [CResult.ifOk_iff]
      intro next hnext
      obtain ⟨manager, hmanager, rfl⟩ := peerManange_eq_ok hnext
      refine { hstate with manager := ?_ }
      intro tcpPort htcp
      rcases tcpPort_of_peerManange hmanager htcp with hold | ⟨-, hread⟩
      · exact hstate.manager tcpPort hold
      · exact hread.trans hstate.settings

theorem readSafe (hstate : Unchanged state) (event : PortEvent) :
    ReadSafe state event := by
  have hnonzero : getTcpPort state.settings ≠ 0 := by
    rw [hstate.settings]
    decide
  cases event with
  | notifyProtocol buf => trivial
  | tcpServer calls =>
      intro _ port hport
      have hsame := (hstate.manager port hport).trans hstate.settings.symm
      exact ⟨hsame, hsame ▸ hnonzero⟩
  | peerManange calls =>
      intro _
      constructor
      · intro port hport
        have hsame := (hstate.bind port hport).trans hstate.settings.symm
        exact ⟨hsame, hsame ▸ hnonzero⟩
      · intro port hport
        exact (hstate.listening port hport).trans hstate.settings.symm

end Unchanged

/-- As long as no message changes the TCP port, every read is safe. -/
theorem readSafe_of_keepsPort (requestCode : CharArray 100)
    (events : List PortEvent)
    (hkeeps : Along step (fun daemon event =>
      daemon.IfOk fun state => KeepsPort state event)
      (.ok (startState requestCode)) events) :
    Along step (fun daemon event =>
      daemon.IfOk fun state => ReadSafe state event)
      (.ok (startState requestCode)) events := by
  have hstart : CResult.IfOk Unchanged (.ok (startState requestCode)) := by
    constructor <;> simp [startState, getTcpPort, daemonSettings,
      ServerPc.bindPort, ServerPc.listeningPort, Manager.tcpPort]
  have hstep := ifOk_step fun _ _ hstate hevent =>
    Unchanged.step hstate hevent
  have hgood : ∀ daemon event, CResult.IfOk Unchanged daemon →
      (daemon.IfOk fun state => KeepsPort state event) →
        daemon.IfOk fun state => ReadSafe state event :=
    fun _ event hdaemon _ =>
      hdaemon.mono fun _ hstate => hstate.readSafe event
  exact along_of_invariant hstep hgood hstart hkeeps

end SyncAnywhere.PortService
