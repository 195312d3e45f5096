import SyncAnywhere.Core.GuardedRun
import SyncAnywhere.Daemon.ProgressReports
import SyncAnywhere.Daemon.Transfer

/-!
# The two ends of a connection

`tcpsend_file_to_remote_peer` on one machine and a turn of `tcp_sync_server` on
another move at their own pace.  Between them are the buffers of the kernels: a
`write` waits until they have taken its bytes, and a `recv` waits until there is
something to return.
-/

namespace SyncAnywhere.Exchange

open SyncAnywhere.CMemory
open SyncAnywhere.ByteStream
open SyncAnywhere.FilePaths
open SyncAnywhere.FileSender
open SyncAnywhere.GuardedRun
open SyncAnywhere.ReceivedLine
open SyncAnywhere.TcpServer
open SyncAnywhere.Transfer

/-! ## The two ends -/

/-- The sender is in a `write` with `rest` still to be taken, or waits for the
reply; `chunks` are the bytes that its later `read`s return. -/
inductive SenderPc where
  | writeName (rest : List Byte) (chunks : List (Part 1000))
  | recvReply (chunks : List (Part 1000))
  | writeChunk (reply rest : List Byte) (chunks : List (Part 1000))
  | closed (reply : List Byte)

inductive ServerPc where
  | recvName
  | writeReply (firstRecv : List Byte)
  | read (firstRecv : List Byte) (reads : List (Part 1000))
  | closed (firstRecv : List Byte) (reads : List (Part 1000))

structure State where
  sender : SenderPc
  /-- Taken from the sender and not yet returned to the server. -/
  toServer : List Byte
  toSender : List Byte
  server : ServerPc

def start (name : List Byte) (chunks : List (Part 1000)) : State where
  sender := .writeName name chunks
  toServer := []
  toSender := []
  server := .recvName

/-- The bytes of the pending `write` that have yet to be taken. -/
def SenderPc.pending : SenderPc → List Byte
  | writeName rest _ | writeChunk _ rest _ => rest
  | recvReply _ | closed _ => []

def SenderPc.taken (count : ℕ) : SenderPc → SenderPc
  | writeName rest chunks => writeName (rest.drop count) chunks
  | writeChunk reply rest chunks => writeChunk reply (rest.drop count) chunks
  | recvReply chunks => recvReply chunks
  | closed reply => closed reply

/-- A `write` that has been taken returns.  Behind the name comes the `recv`,
behind a chunk the next one, behind the last chunk `close`. -/
def SenderPc.next : SenderPc → Option SenderPc
  | writeName [] chunks => some (recvReply chunks)
  | writeChunk reply [] (chunk :: chunks) =>
      some (writeChunk reply chunk.bytes chunks)
  | writeChunk reply [] [] => some (closed reply)
  | _ => none

/-- What a `recv` or `read` of the server returns. -/
def ServerPc.got (bytes : List Byte) : ServerPc → Option ServerPc
  | recvName =>
      if bytes.length ≤ 25 then some (writeReply bytes) else none
  | read firstRecv reads =>
      if hpart : 0 < bytes.length ∧ bytes.length ≤ 1000 then
        some (read firstRecv (reads ++ [⟨bytes, hpart.1, hpart.2⟩]))
      else none
  | writeReply _ | closed _ _ => none

inductive Move where
  /-- The kernels take bytes of the pending `write`. -/
  | take (count : ℕ)
  | writeReturns
  | replyReturns
  /-- A call of the server returns that many bytes. -/
  | serverGets (count : ℕ)
  | serverReplies
  /-- The sender has closed, and `read` returns `0`. -/
  | serverCloses

/-- One step of one of the two ends; the buffers hold `room` bytes on their way
to the server, and the two bytes of the reply travel together.  The server's
`fopen` succeeds, and no `recv` of the name returns `0`, since the sender does
not close before it is answered. -/
def step (room : ℕ) (state : State) : Move → Option State
  | .take count =>
      if 0 < count ∧ count ≤ state.sender.pending.length ∧
          state.toServer.length + count ≤ room then
        some { state with
          sender := state.sender.taken count
          toServer := state.toServer ++ state.sender.pending.take count }
      else none
  | .writeReturns =>
      state.sender.next.map fun sender => { state with sender := sender }
  | .replyReturns =>
      match state.sender with
      | .recvReply chunks =>
          if state.toSender = [] then none
          else some { state with
            sender := .writeChunk state.toSender [] chunks
            toSender := [] }
      | _ => none
  | .serverGets count =>
      if 0 < count ∧ count ≤ state.toServer.length then
        (state.server.got (state.toServer.take count)).map fun server =>
          { state with
            toServer := state.toServer.drop count
            server := server }
      else none
  | .serverReplies =>
      match state.server with
      | .writeReply firstRecv => some { state with
          toSender := state.toSender ++ okReply
          server := .read firstRecv [] }
      | _ => none
  | .serverCloses =>
      match state.sender, state.toServer, state.server with
      | .closed _, [], .read firstRecv reads =>
          some { state with server := .closed firstRecv reads }
      | _, _, _ => none

/-- Both ends have closed the connection. -/
def Finished (state : State) : Prop :=
  ∃ reply firstRecv reads,
    state.sender = .closed reply ∧ state.server = .closed firstRecv reads

/-! ## What passes between them -/

/-- The bytes that have yet to be taken from the sender. -/
def SenderPc.unsent : SenderPc → List Byte
  | writeName rest chunks | writeChunk _ rest chunks => rest ++ joined chunks
  | recvReply chunks => joined chunks
  | closed _ => []

/-- Before it is answered, the sender has only this left of the name. -/
def SenderPc.nameRest : SenderPc → Option (List Byte)
  | writeName rest _ => some rest
  | recvReply _ => some []
  | writeChunk _ _ _ | closed _ => none

/-- The chunks behind the pending call. -/
def SenderPc.chunks : SenderPc → List (Part 1000)
  | writeName _ chunks | recvReply chunks | writeChunk _ _ chunks => chunks
  | closed _ => []

/-- What the `recv` of the sender has returned. -/
def SenderPc.reply : SenderPc → Option (List Byte)
  | writeName _ _ | recvReply _ => none
  | writeChunk got _ _ | closed got => some got

def ServerPc.firstRecv : ServerPc → Option (List Byte)
  | recvName => none
  | writeReply got | read got _ | closed got _ => some got

/-- All bytes the server has got. -/
def ServerPc.received : ServerPc → List Byte
  | recvName => []
  | writeReply got => got
  | read got reads | closed got reads => got ++ joined reads

def ServerPc.Replied : ServerPc → Prop
  | read _ _ | closed _ _ => True
  | recvName | writeReply _ => False

def ServerPc.Closed : ServerPc → Prop
  | closed _ _ => True
  | recvName | writeReply _ | read _ _ => False

/-- Nothing is lost, doubled or overtaken on the way, and the sender sends
nothing behind the name until the server has what it takes for the name. -/
structure InStep (name : List Byte) (chunks : List (Part 1000))
    (state : State) : Prop where
  stream : state.server.received ++ state.toServer ++ state.sender.unsent =
    name ++ joined chunks
  asking : state.sender.nameRest ≠ none → state.sender.chunks = chunks
  answered : state.sender.nameRest = none → state.server.Replied
  replied : state.toSender ≠ [] ↔
    state.server.Replied ∧ state.sender.nameRest ≠ none
  onItsWay : state.toSender ≠ [] → state.toSender = okReply
  reply : ∀ got ∈ state.sender.reply, got = okReply
  first : ∀ got ∈ state.server.firstRecv,
    got ≠ [] ∧ got <+: name ∧ got.length ≤ 25
  closed : state.server.Closed →
    (∃ got, state.sender = .closed got) ∧ state.toServer = []

section Steps

variable {room count : ℕ} {name : List Byte} {chunks : List (Part 1000)}
variable {state next : State}

theorem InStep.start (name : List Byte) (chunks : List (Part 1000)) :
    InStep name chunks (start name chunks) where
  stream := rfl
  asking := fun _ => rfl
  answered := nofun
  replied := iff_of_false (fun h => h rfl) fun h => h.1
  onItsWay := fun h => absurd rfl h
  reply := nofun
  first := nofun
  closed := nofun

theorem SenderPc.unsent_of_nameRest {sender : SenderPc} {rest : List Byte}
    (hrest : rest ∈ sender.nameRest) :
    sender.unsent = rest ++ joined sender.chunks := by
  cases sender with
  | writeName pending chunks => rw [← Option.some_inj.mp hrest]; rfl
  | recvReply chunks => rw [← Option.some_inj.mp hrest]; rfl
  | writeChunk reply pending chunks => cases hrest
  | closed reply => cases hrest

theorem SenderPc.unsent_taken (sender : SenderPc) (count : ℕ) :
    sender.pending.take count ++ (sender.taken count).unsent =
      sender.unsent := by
  cases sender with
  | writeName rest chunks =>
      rw [pending, taken, unsent, ← List.append_assoc, List.take_append_drop]
      rfl
  | writeChunk reply rest chunks =>
      rw [pending, taken, unsent, ← List.append_assoc, List.take_append_drop]
      rfl
  | recvReply chunks => rw [pending, List.take_nil]; rfl
  | closed reply => rw [pending, List.take_nil]; rfl

theorem SenderPc.nameRest_taken_eq_none_iff (sender : SenderPc) (count : ℕ) :
    (sender.taken count).nameRest = none ↔ sender.nameRest = none := by
  cases sender <;> simp [taken, nameRest]

theorem SenderPc.chunks_taken (sender : SenderPc) (count : ℕ) :
    (sender.taken count).chunks = sender.chunks := by
  cases sender <;> rfl

theorem SenderPc.reply_taken (sender : SenderPc) (count : ℕ) :
    (sender.taken count).reply = sender.reply := by
  cases sender <;> rfl

theorem InStep.take (hstate : InStep name chunks state)
    (hstep : step room state (.take count) = some next) :
    InStep name chunks next := by
  rw [step, Option.ite_none_right_eq_some] at hstep
  obtain ⟨⟨hpos, hcount, -⟩, hnext⟩ := hstep
  rw [← Option.some_inj.mp hnext]
  have hunsent := state.sender.unsent_taken count
  have hnone := state.sender.nameRest_taken_eq_none_iff count
  refine ⟨?_, ?_, fun h => hstate.answered (hnone.mp h), ?_, hstate.onItsWay,
    ?_, hstate.first, ?_⟩
  · change state.server.received ++ (state.toServer ++ _) ++ _ = _
    rw [← hstate.stream, ← hunsent]
    simp only [List.append_assoc]
  · intro h
    exact (state.sender.chunks_taken count).trans
      (hstate.asking (mt hnone.mpr h))
  · rw [ne_eq _ none, hnone]
    exact hstate.replied
  · rw [state.sender.reply_taken count]
    exact hstate.reply
  · intro hclosed
    obtain ⟨got, hsender⟩ := (hstate.closed hclosed).1
    rw [hsender] at hcount
    exact absurd hcount (Nat.not_le_of_lt hpos)

/-- What follows a `write`. -/
theorem SenderPc.next_cases {sender after : SenderPc}
    (hnext : sender.next = some after) :
    (∃ chunks, sender = .writeName [] chunks ∧ after = .recvReply chunks) ∨
      (∃ reply chunk chunks, sender = .writeChunk reply [] (chunk :: chunks) ∧
        after = .writeChunk reply chunk.bytes chunks) ∨
      ∃ reply, sender = .writeChunk reply [] [] ∧ after = .closed reply := by
  unfold next at hnext
  split at hnext
  next chunks => exact .inl ⟨chunks, rfl, (Option.some_inj.mp hnext).symm⟩
  next reply chunk chunks =>
    exact .inr (.inl ⟨reply, chunk, chunks, rfl,
      (Option.some_inj.mp hnext).symm⟩)
  next reply =>
    exact .inr (.inr ⟨reply, rfl, (Option.some_inj.mp hnext).symm⟩)
  next => cases hnext

theorem InStep.writeReturns (hstate : InStep name chunks state)
    (hstep : step room state .writeReturns = some next) :
    InStep name chunks next := by
  rw [step, Option.map_eq_some_iff] at hstep
  obtain ⟨after, hafter, rfl⟩ := hstep
  obtain ⟨sender, toServer, toSender, server⟩ := state
  have hopen : ¬ server.Closed := by
    intro hclosed
    obtain ⟨got, hsender⟩ := (hstate.closed hclosed).1
    rw [hsender] at hafter
    cases hafter
  obtain ⟨left, rfl, rfl⟩ | ⟨got, chunk, left, rfl, rfl⟩ | ⟨got, rfl, rfl⟩ :=
    SenderPc.next_cases hafter
  · exact ⟨hstate.stream, fun _ => hstate.asking nofun, nofun, hstate.replied,
      hstate.onItsWay, nofun, hstate.first, fun h => absurd h hopen⟩
  · exact ⟨hstate.stream, fun hne => absurd rfl hne, hstate.answered,
      hstate.replied, hstate.onItsWay, hstate.reply, hstate.first,
      fun h => absurd h hopen⟩
  · exact ⟨hstate.stream, fun hne => absurd rfl hne, hstate.answered,
      hstate.replied, hstate.onItsWay, hstate.reply, hstate.first,
      fun h => absurd h hopen⟩

theorem InStep.replyReturns (hstate : InStep name chunks state)
    (hstep : step room state .replyReturns = some next) :
    InStep name chunks next := by
  obtain ⟨sender, toServer, toSender, server⟩ := state
  simp only [step] at hstep
  split at hstep
  next left =>
    obtain ⟨hanswer, hnext⟩ := Option.ite_none_left_eq_some.mp hstep
    rw [← Option.some_inj.mp hnext]
    have hreplied := (hstate.replied.mp hanswer).1
    refine ⟨hstate.stream, fun hne => absurd rfl hne, fun _ => hreplied,
      iff_of_false (fun h => h rfl) fun h => h.2 rfl, fun h => absurd rfl h,
      ?_, hstate.first, ?_⟩
    · intro got hgot
      rw [← Option.some_inj.mp hgot]
      exact hstate.onItsWay hanswer
    · intro hclosed
      obtain ⟨got, hsender⟩ := (hstate.closed hclosed).1
      cases hsender
  next => cases hstep

/-- What a call of the server that returns bytes does. -/
theorem ServerPc.got_cases {server after : ServerPc} {bytes : List Byte}
    (hafter : server.got bytes = some after) :
    (server = .recvName ∧ bytes.length ≤ 25 ∧ after = .writeReply bytes) ∨
      ∃ firstRecv reads part, server = .read firstRecv reads ∧
        part.bytes = bytes ∧ after = .read firstRecv (reads ++ [part]) := by
  cases server with
  | recvName =>
      obtain ⟨hsize, hbytes⟩ := Option.ite_none_right_eq_some.mp hafter
      exact .inl ⟨rfl, hsize, (Option.some_inj.mp hbytes).symm⟩
  | read firstRecv reads =>
      rw [got, Option.dite_none_right_eq_some] at hafter
      obtain ⟨hpart, hread⟩ := hafter
      exact .inr ⟨firstRecv, reads, ⟨bytes, hpart.1, hpart.2⟩, rfl, rfl,
        (Option.some_inj.mp hread).symm⟩
  | writeReply firstRecv => cases hafter
  | closed firstRecv reads => cases hafter

theorem InStep.serverGets (hstate : InStep name chunks state)
    (hstep : step room state (.serverGets count) = some next) :
    InStep name chunks next := by
  rw [step, Option.ite_none_right_eq_some] at hstep
  obtain ⟨⟨hpos, hcount⟩, hstep⟩ := hstep
  obtain ⟨after, hafter, rfl⟩ := Option.map_eq_some_iff.mp hstep
  obtain ⟨sender, toServer, toSender, server⟩ := state
  have hne : toServer.take count ≠ [] := by
    apply List.ne_nil_of_length_pos
    rw [List.length_take_of_le hcount]
    exact hpos
  have hstream := hstate.stream
  obtain ⟨rfl, hsize, rfl⟩ | ⟨firstRecv, reads, part, rfl, hpart, rfl⟩ :=
    ServerPc.got_cases hafter
  · have hasking : sender.nameRest ≠ none := fun h => hstate.answered h
    refine ⟨?_, hstate.asking, fun h => absurd h hasking, hstate.replied,
      hstate.onItsWay, hstate.reply, ?_, nofun⟩
    · rw [← hstream]
      change toServer.take count ++ toServer.drop count ++ _ = _
      rw [List.take_append_drop]
      rfl
    · intro got hgot
      rw [← Option.some_inj.mp hgot]
      obtain ⟨rest, hrest⟩ := Option.ne_none_iff_exists'.mp hasking
      refine ⟨hne, ?_, hsize⟩
      rw [SenderPc.unsent_of_nameRest hrest, hstate.asking hasking,
        ← List.append_assoc] at hstream
      have hname : toServer ++ rest = name :=
        List.append_cancel_right hstream
      rw [← hname]
      exact (List.take_prefix count toServer).trans
        (List.prefix_append toServer rest)
  · refine ⟨?_, hstate.asking, fun _ => trivial, hstate.replied,
      hstate.onItsWay, hstate.reply, hstate.first, nofun⟩
    rw [← hstream]
    simp only [ServerPc.received, joined, List.flatMap_append,
      List.flatMap_singleton, hpart, List.append_assoc]
    rw [← List.append_assoc (List.take count toServer),
      List.take_append_drop]

theorem InStep.serverReplies (hstate : InStep name chunks state)
    (hstep : step room state .serverReplies = some next) :
    InStep name chunks next := by
  obtain ⟨sender, toServer, toSender, server⟩ := state
  simp only [step] at hstep
  split at hstep
  next firstRecv =>
    rw [← Option.some_inj.mp hstep]
    have hasking : sender.nameRest ≠ none := fun h => hstate.answered h
    have hsilent : toSender = [] :=
      of_not_not (mt hstate.replied.mp fun h => h.1)
    refine ⟨?_, hstate.asking, fun _ => trivial, ?_, ?_, hstate.reply,
      hstate.first, nofun⟩
    · rw [← hstate.stream]
      simp [ServerPc.received]
    · exact iff_of_true (List.append_ne_nil_of_right_ne_nil _
        (List.cons_ne_nil _ _)) ⟨trivial, hasking⟩
    · intro _
      rw [hsilent]
      rfl
  next => cases hstep

theorem InStep.serverCloses (hstate : InStep name chunks state)
    (hstep : step room state .serverCloses = some next) :
    InStep name chunks next := by
  obtain ⟨sender, toServer, toSender, server⟩ := state
  simp only [step] at hstep
  split at hstep
  next firstRecv reads =>
    rw [← Option.some_inj.mp hstep]
    exact ⟨hstate.stream, hstate.asking, fun _ => trivial, hstate.replied,
      hstate.onItsWay, hstate.reply, hstate.first, fun _ => ⟨⟨_, rfl⟩, rfl⟩⟩
  next => cases hstep

/-- Step lemma. -/
theorem InStep.step (hstate : InStep name chunks state) {move : Move}
    (hstep : step room state move = some next) : InStep name chunks next := by
  cases move with
  | take count => exact hstate.take hstep
  | writeReturns => exact hstate.writeReturns hstep
  | replyReturns => exact hstate.replyReturns hstep
  | serverGets count => exact hstate.serverGets hstep
  | serverReplies => exact hstate.serverReplies hstep
  | serverCloses => exact hstate.serverCloses hstep

end Steps

/-! ## Every run ends -/

section Measure

variable {room : ℕ} {state next : State}

end Measure

/-! ## Where a run can end -/

section Progress

variable {room : ℕ} {name : List Byte} {chunks : List (Part 1000)}
variable {state : State}

end Progress

/-! ## Runs -/

section Runs

variable {room : ℕ} {name : List Byte} {chunks : List (Part 1000)}
variable {moves : List Move} {reached : State}

/-- Run lemma. -/
theorem InStep.run
    (hrun : run (Exchange.step room) (Exchange.start name chunks) moves =
      some reached) : InStep name chunks reached :=
  run_preserves (fun _ _ _ hstate hstep => hstate.step hstep)
    (InStep.start name chunks) hrun

end Runs

/-! ## What a finished run leaves -/

section Served

variable {name : PlainName} {content : List Byte}

/-- A non-empty front of a plain name is one. -/
def frontName (name : PlainName) {front : List Byte} (hne : front ≠ [])
    (hinitial : front <+: name.bytes) : PlainName where
  bytes := front
  nulFree := fun byte hbyte => name.nulFree byte (hinitial.subset hbyte)
  length_lt := hinitial.length_le.trans_lt name.length_lt
  ne_nil := hne
  slash_notMem := fun hmem => name.slash_notMem (hinitial.subset hmem)
  lf_notMem := fun hmem => name.lf_notMem (hinitial.subset hmem)
  cr_notMem := fun hmem => name.cr_notMem (hinitial.subset hmem)

/-- What the server took for the name opens the file, and the rest of the name
stands in front of the content. -/
structure ServedAs (home : SyncHome) (server : ServerState)
    (name content : List Byte) (connection : Connection)
    (front rest : List Byte) (final : ServerState) : Prop where
  firstRecv : connection.firstRecv = some front
  ne_nil : front ≠ []
  split : front ++ rest = name
  accepted : acceptConnection home server (some connection) = .ok final
  files : final.files = Function.update server.files (home.file front)
    (some ((rest ++ content).filter (· ≠ 0#8)))

/-- The connection of a finished run is one that the accept loop serves. -/
theorem exists_servedAs (home : SyncHome) (server : ServerState)
    (hshort : name.bytes.length ≤ 24) {chunks : List (Part 1000)}
    {reached : State} (hstate : InStep name.bytes chunks reached)
    {firstRecv : List Byte} {reads : List (Part 1000)}
    (hserver : reached.server = .closed firstRecv reads) :
    ∃ connection rest final, connection.reads = reads ∧
      ServedAs home server name.bytes (joined chunks) connection firstRecv rest
        final := by
  obtain ⟨hne, hinitial, hsize⟩ := hstate.first firstRecv (by rw [hserver]; rfl)
  obtain ⟨⟨got, hsender⟩, harrived⟩ := hstate.closed (by rw [hserver]; trivial)
  obtain ⟨rest, hrest⟩ := hinitial
  have hstream := hstate.stream
  rw [hserver, hsender, harrived, ← hrest] at hstream
  have hreads : joined reads = rest ++ joined chunks := by
    simpa [ServerPc.received, SenderPc.unsent, List.append_assoc] using hstream
  have hfrontShort : firstRecv.length ≤ 24 :=
    (List.IsPrefix.length_le ⟨rest, hrest⟩).trans hshort
  obtain ⟨final, hfinal, hfiles⟩ := ServedFiles.acceptConnection_named home
    server ⟨frontName name hne ⟨rest, hrest⟩, hfrontShort, _,
      ⟨reads, hreads⟩⟩
  exact ⟨_, rest, final, rfl, rfl, hne, hrest, hfinal, hfiles⟩

/-- Whatever the interleaving, the cuts and the room in the buffers: when a
transfer in which every call succeeds has been closed by both ends, the sender
made the writes of this run and got the reply it read, and the server, going
through the same calls, has changed one file. -/
theorem exchange_served (clientHome serverHome : SyncHome) (destIp : List Byte)
    (port : BitVec 32) (hshort : name.bytes.length ≤ 24)
    (calls : SendCalls name.toFileName content) (hcalls : AllSucceed calls)
    (hpath : PathInBounds clientHome name.toFileName)
    (repos : TaskQueue.SyncRepos) (server : ServerState) {room : ℕ}
    {moves : List Move} {reached : State}
    (hrun : run (step room) (start name.bytes (calls.turns.map Turn.data))
      moves = some reached) (hfinished : Finished reached) :
    ∃ sent reply firstRecv connection rest final,
      tcpsendFileToRemotePeer clientHome destIp port calls repos = .ok sent ∧
      sent.writes = name.bytes :: calls.turns.map
        (fun turn => turn.data.bytes) ∧
      sent.socket = name.bytes ++ content ∧
      reached.sender = .closed reply ∧ calls.reply = some reply ∧
      reached.server = .closed firstRecv connection.reads ∧
      ServedAs serverHome server name.bytes content connection firstRecv rest
        final := by
  obtain ⟨reply, firstRecv, reads, hsender, hserver⟩ := hfinished
  have hstate := InStep.run hrun
  have hcontent : joined (calls.turns.map Turn.data) = content :=
    calls.turns_all hcalls.opened hcalls.read
  obtain ⟨connection, rest, final, hreads, hserved⟩ :=
    exists_servedAs serverHome server hshort hstate hserver
  rw [hcontent] at hserved
  have hreply : reply = okReply := hstate.reply reply (by rw [hsender]; rfl)
  have hbounds : StaysInBounds clientHome calls := .inr
    ⟨⟨okReply, hcalls.reply, by decide, by decide, by decide⟩, hpath⟩
  have hsent : tcpsendFileToRemotePeer clientHome destIp port calls repos =
      .ok (transferred 1500#32 destIp port calls repos) :=
    (sendFileToRemotePeer_eq_ok_iff _ _ _ _ _ _ _).mpr ⟨hbounds, rfl⟩
  refine ⟨_, reply, firstRecv, connection, rest, final, hsent,
    (ProgressReports.completed_of_completes repos hcalls.completes
      hsent).writes, ?_, hsender, ?_, ?_, hserved⟩
  · rw [transferred_socket, executed_of_completes hcalls.completes.2.1,
      (socket_eq_iff calls).mpr hcalls.sent]
  · rw [hreply]
    exact hcalls.reply
  · rw [hreads]
    exact hserver

end Served

def twoLetters : PlainName where
  bytes := [0x61#8, 0x62#8]
  nulFree := by decide
  length_lt := by decide
  ne_nil := by decide
  slash_notMem := by decide
  lf_notMem := by decide
  cr_notMem := by decide

def oneByteCalls : SendCalls twoLetters.toFileName [0x63#8] :=
  oneChunkCalls twoLetters.toFileName ⟨[0x63#8], by decide, by decide⟩ 1
    (by decide) (by decide)

/-- The server takes the first letter for the name before the second one has
been taken from the sender. -/
def splitName : List Move :=
  [.take 1, .serverGets 1, .take 1, .serverReplies, .writeReturns,
    .replyReturns, .serverGets 1, .writeReturns, .take 1, .serverGets 1,
    .writeReturns, .serverCloses]

theorem oneByteCalls_succeed :
    @AllSucceed twoLetters [0x63#8] oneByteCalls where
  connected := rfl
  reply := rfl
  opened := rfl
  read := rfl
  sent := ⟨.inr rfl, by simp [oneByteCalls, oneChunkCalls],
    by simp [oneByteCalls, oneChunkCalls]⟩
  completes := ⟨rfl, ⟨⟨rfl, fun _ => rfl⟩, trivial⟩, rfl⟩

/-- The file `ab` with content `c` ends as the file `a` with content `bc`. -/
theorem exchange_served_splitName :
    ∃ sent connection final,
      tcpsendFileToRemotePeer sampleHome [] 20000#32 oneByteCalls
        TaskQueue.daemonRepos = .ok sent ∧
      sent.socket = [0x61#8, 0x62#8, 0x63#8] ∧
      acceptConnection sampleHome emptyServer (some connection) = .ok final ∧
      final.files (sampleHome.file [0x61#8]) = some [0x62#8, 0x63#8] := by
  obtain ⟨sent, reply, firstRecv, connection, rest, final, hsent, -, hsocket,
    -, -, hserver, hserved⟩ :=
    @exchange_served twoLetters [0x63#8] sampleHome sampleHome [] 20000#32
      (by decide) oneByteCalls oneByteCalls_succeed
      (by unfold PathInBounds; decide) TaskQueue.daemonRepos emptyServer 1
      splitName ⟨.closed okReply, [], [], .closed [0x61#8]
        [⟨[0x62#8], by decide, by decide⟩, ⟨[0x63#8], by decide, by decide⟩]⟩
      rfl ⟨_, _, _, rfl, rfl⟩
  obtain ⟨rfl, -⟩ := ServerPc.closed.inj hserver
  have hrest : rest = [0x62#8] := List.append_cancel_left hserved.split
  refine ⟨sent, connection, final, hsent, hsocket, hserved.accepted, ?_⟩
  rw [hserved.files, hrest, Function.update_self]
  decide

end SyncAnywhere.Exchange
