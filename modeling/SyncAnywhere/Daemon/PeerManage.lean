import SyncAnywhere.Core.Numeral
import SyncAnywhere.Core.ReceivedLine
import SyncAnywhere.Daemon.Settings

/-!
# Answering port queries

`peer_manange` reads both ports at the top of its loop, then blocks in `accept`,
receives a request and answers it with the port read before.
-/

namespace SyncAnywhere.PeerManage

open SyncAnywhere.CMemory
open SyncAnywhere.Numeral
open SyncAnywhere.ReceivedLine
open SyncAnywhere.DaemonSettings

def manageCmdReqUdpPort : List Byte :=
  "get_udp_port".toList.map charByte

def manageCmdReqTcpPort : List Byte :=
  "get_tcp_port".toList.map charByte

def portRequest : SyncMode → List Byte
  | .tcp => manageCmdReqTcpPort
  | .udp => manageCmdReqUdpPort

/-- The next step of the loop, with the ports read so far. -/
inductive ManagerPc where
  | readUdpPort
  | readTcpPort (udpPort : ℕ)
  | accept (udpPort tcpPort : ℕ)
  | recv (udpPort tcpPort : ℕ)
  | answer (udpPort tcpPort : ℕ)
  deriving DecidableEq

def pickPort (udpPort tcpPort : ℕ) : SyncMode → ℕ
  | .tcp => tcpPort
  | .udp => udpPort

/-- The next step returns from `accept`. -/
def ManagerPc.Accepts : ManagerPc → Prop
  | accept _ _ => True
  | _ => False

instance (pc : ManagerPc) : Decidable pc.Accepts :=
  match pc with
  | .accept _ _ => isTrue trivial
  | .readUdpPort | .readTcpPort _ | .recv _ _ | .answer _ _ => isFalse id

/-- The port with which this turn of the loop waits for a request. -/
def ManagerPc.receivingPort (mode : SyncMode) : ManagerPc → Option ℕ
  | recv udpPort tcpPort => some (pickPort udpPort tcpPort mode)
  | _ => none

/-- What this turn of the loop has read of the port of `mode`. -/
def ManagerPc.heldPort (mode : SyncMode) : ManagerPc → Option ℕ
  | readUdpPort => none
  | readTcpPort udpPort => if mode = .udp then some udpPort else none
  | accept udpPort tcpPort | recv udpPort tcpPort
  | answer udpPort tcpPort => some (pickPort udpPort tcpPort mode)

theorem ManagerPc.eq_recv_of_receivingPort {pc : ManagerPc}
    {mode : SyncMode} {port : ℕ} (hport : port ∈ pc.receivingPort mode) :
    ∃ udpPort tcpPort, pc = recv udpPort tcpPort ∧
      port = pickPort udpPort tcpPort mode := by
  cases pc with
  | recv udpPort tcpPort =>
      exact ⟨udpPort, tcpPort, rfl, (Option.some_inj.mp hport).symm⟩
  | readUdpPort => cases hport
  | readTcpPort udpPort => cases hport
  | accept udpPort tcpPort => cases hport
  | answer udpPort tcpPort => cases hport

/-- The next step reads the TCP port. -/
def ManagerPc.ReadsTcpPort : ManagerPc → Prop
  | readTcpPort _ => True
  | _ => False

instance (pc : ManagerPc) : Decidable pc.ReadsTcpPort := by
  cases pc <;> unfold ManagerPc.ReadsTcpPort <;> infer_instance

structure Manager where
  pc : ManagerPc
  requestCode : CharArray 100

/-- The TCP port with which this turn of the loop may still answer a query. -/
def Manager.tcpPort (manager : Manager) : Option ℕ :=
  match manager.pc with
  | .readUdpPort | .readTcpPort _ => none
  | .accept _ tcpPort | .recv _ tcpPort => some tcpPort
  | .answer _ tcpPort =>
      if manager.requestCode.text = manageCmdReqTcpPort then some tcpPort
      else none

/-- What `accept` and `recv` return, where a step calls them. -/
structure ManageCalls where
  accepted : Bool
  /-- `none` when `recv` returns `-1`. -/
  got : Option (List Byte)
  got_length : ∀ bytes ∈ got, bytes.length ≤ 100

/-- A peer connects and asks for a port. -/
def portQuery (mode : SyncMode) : ManageCalls where
  accepted := true
  got := some (portRequest mode)
  got_length := by
    intro bytes hbytes
    rw [← Option.some_inj.mp hbytes]
    cases mode <;> decide

/-- The bytes written for a request; both comparisons are made. -/
def portReply (request : List Byte) (udpPort tcpPort : ℕ) : List Byte :=
  (if request = manageCmdReqUdpPort then digitText 10 udpPort else []) ++
    (if request = manageCmdReqTcpPort then digitText 10 tcpPort else [])

/-- The request left in `request_code` by the `recv` of an accepted
connection. -/
def receiveRequest (calls : ManageCalls) (requestCode : CharArray 100) :
    CResult (CharArray 100) :=
  match hgot : calls.got with
  | none => .exited
  | some got => receiveLine requestCode got (calls.got_length got hgot)

/-- One step of the loop.  The answer itself is `Manager.answers`. -/
def peerManange (calls : ManageCalls) (settings : Settings)
    (manager : Manager) : CResult Manager :=
  match manager.pc with
  | .readUdpPort =>
      .ok { manager with pc := .readTcpPort (getUdpPort settings) }
  | .readTcpPort udpPort =>
      .ok { manager with pc := .accept udpPort (getTcpPort settings) }
  | .accept udpPort tcpPort =>
      if calls.accepted then
        .ok { manager with pc := .recv udpPort tcpPort }
      else .exited
  | .recv udpPort tcpPort => do
      let requestCode ← receiveRequest calls manager.requestCode
      pure ⟨.answer udpPort tcpPort, requestCode⟩
  | .answer _ _ => .ok { manager with pc := .readUdpPort }

/-- The request that the next step answers, and the bytes it writes. -/
def Manager.answers (manager : Manager) : List (List Byte × List Byte) :=
  match manager.pc with
  | .answer udpPort tcpPort =>
      [(manager.requestCode.text,
        portReply manager.requestCode.text udpPort tcpPort)]
  | _ => []

/-! ## Specifications of a step -/

theorem portReply_portRequest (mode : SyncMode) (udpPort tcpPort : ℕ) :
    portReply (portRequest mode) udpPort tcpPort =
      digitText 10 (pickPort udpPort tcpPort mode) := by
  have hother : manageCmdReqTcpPort ≠ manageCmdReqUdpPort := by decide
  cases mode with
  | tcp => simp [portReply, portRequest, pickPort, hother]
  | udp => simp [portReply, portRequest, pickPort, hother.symm]

theorem portReply_tcp (udpPort tcpPort : ℕ) :
    portReply manageCmdReqTcpPort udpPort tcpPort = digitText 10 tcpPort :=
  portReply_portRequest .tcp udpPort tcpPort

/-- A port query is answered with the port read in this turn of the loop. -/
theorem answers_portRequest (mode : SyncMode) {manager : Manager}
    {reply : List Byte}
    (hanswer : (portRequest mode, reply) ∈ manager.answers) :
    ∃ udpPort tcpPort, manager.pc = .answer udpPort tcpPort ∧
      manager.requestCode.text = portRequest mode ∧
      reply = digitText 10 (pickPort udpPort tcpPort mode) := by
  rw [Manager.answers] at hanswer
  split at hanswer
  next udpPort tcpPort hpc =>
    obtain ⟨htext, hreply⟩ :=
      Prod.mk.inj (List.mem_singleton.mp hanswer)
    refine ⟨udpPort, tcpPort, hpc, htext.symm, ?_⟩
    rw [hreply, ← htext, portReply_portRequest]
  next => cases hanswer

theorem answers_tcp {manager : Manager} {reply : List Byte}
    (hanswer : (manageCmdReqTcpPort, reply) ∈ manager.answers) :
    ∃ tcpPort, manager.tcpPort = some tcpPort ∧
      reply = digitText 10 tcpPort := by
  obtain ⟨udpPort, tcpPort, hpc, htext, hreply⟩ :=
    answers_portRequest .tcp hanswer
  refine ⟨tcpPort, ?_, hreply⟩
  simp only [Manager.tcpPort, hpc]
  exact if_pos htext

/-- What a step of the loop can do. -/
theorem peerManange_cases {calls : ManageCalls} {settings : Settings}
    {manager next : Manager}
    (hstep : peerManange calls settings manager = .ok next) :
    (manager.pc = .readUdpPort ∧
      next = ⟨.readTcpPort (getUdpPort settings), manager.requestCode⟩) ∨
    (∃ udpPort, manager.pc = .readTcpPort udpPort ∧
      next = ⟨.accept udpPort (getTcpPort settings), manager.requestCode⟩) ∨
    (∃ udpPort tcpPort, manager.pc = .accept udpPort tcpPort ∧
      next = ⟨.recv udpPort tcpPort, manager.requestCode⟩) ∨
    (∃ udpPort tcpPort, manager.pc = .recv udpPort tcpPort ∧
      receiveRequest calls manager.requestCode = .ok next.requestCode ∧
      next = ⟨.answer udpPort tcpPort, next.requestCode⟩) ∨
    (∃ udpPort tcpPort, manager.pc = .answer udpPort tcpPort ∧
      next = ⟨.readUdpPort, manager.requestCode⟩) := by
  rw [peerManange] at hstep
  split at hstep
  next hpc => exact .inl ⟨hpc, (CResult.ok.inj hstep).symm⟩
  next udpPort hpc =>
    exact .inr (.inl ⟨udpPort, hpc, (CResult.ok.inj hstep).symm⟩)
  next udpPort tcpPort hpc =>
    split_ifs at hstep
    exact .inr (.inr (.inl
      ⟨udpPort, tcpPort, hpc, (CResult.ok.inj hstep).symm⟩))
  next udpPort tcpPort hpc =>
    obtain ⟨line, hline, hnext⟩ := (CResult.bind_eq_ok_iff _ _ _).mp hstep
    rw [← CResult.ok.inj hnext]
    exact .inr (.inr (.inr (.inl ⟨udpPort, tcpPort, hpc, hline, rfl⟩)))
  next udpPort tcpPort hpc =>
    exact .inr (.inr (.inr (.inr
      ⟨udpPort, tcpPort, hpc, (CResult.ok.inj hstep).symm⟩)))

/-- A step keeps the port of the turn, forgets it, or reads the current one. -/
theorem heldPort_of_peerManange {calls : ManageCalls} {settings : Settings}
    {manager next : Manager}
    (hstep : peerManange calls settings manager = .ok next) {mode : SyncMode}
    {port : ℕ} (hport : port ∈ next.pc.heldPort mode) :
    port ∈ manager.pc.heldPort mode ∨ port = portOf mode settings := by
  obtain ⟨-, hnext⟩ | ⟨udpPort, hpc, hnext⟩ | ⟨udpPort, tcpPort, hpc, hnext⟩ |
    ⟨udpPort, tcpPort, hpc, -, hnext⟩ | ⟨udpPort, tcpPort, -, hnext⟩ :=
      peerManange_cases hstep
  · rw [hnext] at hport
    obtain ⟨rfl, hread⟩ := Option.ite_none_right_eq_some.mp hport
    exact .inr (Option.some_inj.mp hread).symm
  · rw [hnext] at hport
    cases mode with
    | tcp => exact .inr (Option.some_inj.mp hport).symm
    | udp =>
        left
        rw [hpc]
        exact hport
  · left
    rw [hnext] at hport
    rw [hpc]
    exact hport
  · left
    rw [hnext] at hport
    rw [hpc]
    exact hport
  · rw [hnext] at hport
    cases hport

/-- A step keeps the TCP port of the turn, forgets it, or reads it. -/
theorem tcpPort_of_peerManange {calls : ManageCalls} {settings : Settings}
    {manager next : Manager}
    (hstep : peerManange calls settings manager = .ok next) {port : ℕ}
    (hport : next.tcpPort = some port) :
    manager.tcpPort = some port ∨
      manager.pc.ReadsTcpPort ∧ port = getTcpPort settings := by
  obtain ⟨-, hnext⟩ | ⟨udpPort, hpc, hnext⟩ | ⟨udpPort, tcpPort, hpc, hnext⟩ |
    ⟨udpPort, tcpPort, hpc, -, hnext⟩ | ⟨udpPort, tcpPort, -, hnext⟩ :=
      peerManange_cases hstep
  · rw [hnext] at hport
    cases hport
  · rw [hnext] at hport
    exact .inr ⟨by rw [hpc]; trivial, (Option.some_inj.mp hport).symm⟩
  · rw [hnext] at hport
    left
    rw [Manager.tcpPort, hpc]
    exact hport
  · rw [hnext] at hport
    left
    rw [Manager.tcpPort, hpc]
    exact (Option.ite_none_right_eq_some.mp hport).2
  · rw [hnext] at hport
    cases hport

end SyncAnywhere.PeerManage
