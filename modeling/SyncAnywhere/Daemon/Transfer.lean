import SyncAnywhere.Daemon.FileSender
import SyncAnywhere.Daemon.ServedFiles

/-!
# A transfer end to end

The sender writes the name, waits for `OK` and writes the file.  The stream has
no other separator, so the first `recv` of the server decides where the name
ends.
-/

namespace SyncAnywhere.Transfer

open SyncAnywhere.CMemory
open SyncAnywhere.ByteStream
open SyncAnywhere.ReceivedLine
open SyncAnywhere.FilePaths
open SyncAnywhere.FileSender
open SyncAnywhere.TcpServer
open SyncAnywhere.ServedFiles

/-! ## The name handshake -/

section Handshake

/-- How the stream of a sender reaches the server.  The sender writes nothing
behind the name before it is answered, so the first `recv` returns a piece of
the name, and the reads of the loop return the rest of it and the file. -/
structure Delivery (name : PlainName) (content : List Byte) where
  count : ℕ
  count_pos : 1 ≤ count
  count_le_length : count ≤ name.bytes.length
  count_le_size : count ≤ 25
  reads : Segmentation 1000 (name.bytes.drop count ++ content)

variable {name : PlainName} {content : List Byte}

def Delivery.connection (delivery : Delivery name content) : Connection where
  firstRecv := some (name.bytes.take delivery.count)
  opened := true
  reads := delivery.reads.parts
  firstRecv_length := by
    have := delivery.count_le_size
    simp
    omega

/-- The server opens the file of exactly that name, and its loop reads exactly
the content. -/
def HandshakeExact (home : SyncHome) (filename : NameBuffer)
    (delivery : Delivery name content) : Prop :=
  ∃ served, serveConnection home filename delivery.connection = .ok served ∧
    served.filepath = home.file name.bytes ∧ served.received = content

/-- The handshake is exact when, and only when, the name arrives in one piece
and has at most 24 bytes. -/
theorem handshakeExact_iff (home : SyncHome) (filename : NameBuffer)
    (delivery : Delivery name content) :
    HandshakeExact home filename delivery ↔
      delivery.count = name.bytes.length ∧ name.bytes.length ≤ 24 := by
  have hsize := delivery.count_le_size
  constructor
  · rintro ⟨served, hserved, -, hreceived⟩
    rw [Delivery.connection, serveConnection_eq_ok_iff (by simp; omega)]
      at hserved
    obtain ⟨hname, -, -, hreads, -⟩ := hserved
    have hrest : name.bytes.drop delivery.count = [] := by
      rw [hreceived, delivery.reads.joined_parts] at hreads
      simpa using hreads
    have hcount : delivery.count = name.bytes.length :=
      le_antisymm delivery.count_le_length (List.drop_eq_nil_iff.mp hrest)
    refine ⟨hcount, ?_⟩
    by_contra hlong
    exact receiveLine_of_full filename _ _ (by simp; omega) (by decide) hname
  · rintro ⟨hcount, hshort⟩
    obtain ⟨served, hserved, hpath, hreceived, -⟩ :=
      serveConnection_of_plain home filename name hshort delivery.reads.parts
    have hwhole : name.bytes.take delivery.count = name.bytes := by
      rw [hcount, List.take_length]
    refine ⟨served, ?_, hpath, ?_⟩
    · simpa only [Delivery.connection, hwhole] using hserved
    · rw [hreceived, delivery.reads.joined_parts, hcount, List.drop_length,
        List.nil_append]

def longName : PlainName where
  bytes := List.replicate 31 0x61#8
  nulFree := by decide
  length_lt := by decide
  ne_nil := by decide
  slash_notMem := by decide
  lf_notMem := by decide
  cr_notMem := by decide

/-- As much of a name of 31 bytes as one `recv` takes, and the rest in one
`read`. -/
def longNameDelivery : Delivery longName [0x62#8] where
  count := 25
  count_pos := by decide
  count_le_length := by decide
  count_le_size := by decide
  reads := ⟨[⟨List.replicate 6 0x61#8 ++ [0x62#8], by decide, by decide⟩],
    by decide⟩

/-- The NUL of a name of 31 bytes is stored outside of `filename[25]`. -/
theorem handshake_longName_outOfBounds :
    (serveConnection sampleHome (CharArray.zero 25) longNameDelivery.connection >>=
      fun served => .ok (served.filepath, served.received)) =
        .undefined := by
  decide +kernel

end Handshake

/-! ## The content -/

section Content

variable {name : PlainName} {content : List Byte}

/-- Every call of a transfer succeeds in full. -/
structure AllSucceed (calls : SendCalls name.toFileName content) : Prop where
  connected : calls.connected = true
  reply : calls.reply = some okReply
  opened : calls.opened = true
  read : calls.readFailed = false
  sent : SentInFull calls
  completes : Completes 1500#32 calls

/-- The sender gets the name and the content out, and the server leaves the
content under that name. -/
def Faithful (clientHome serverHome : SyncHome) (destIp : List Byte)
    (port : BitVec 32) (hshort : name.bytes.length ≤ 24)
    (calls : SendCalls name.toFileName content)
    (received : Segmentation 1000 content) (repos : TaskQueue.SyncRepos)
    (server : ServerState) : Prop :=
  ∃ sent final,
    tcpsendFileToRemotePeer clientHome destIp port calls repos = .ok sent ∧
      sent.socket = name.bytes ++ content ∧
      acceptConnection serverHome server
        (some (NamedConnection.calls ⟨name, hshort, content, received⟩)) =
          .ok final ∧
      final.files (serverHome.file name.bytes) = some content

theorem filter_eq_self_iff (bytes : List Byte) :
    bytes.filter (· ≠ 0#8) = bytes ↔ NulFree bytes := by
  rw [List.filter_eq_self]
  simp [NulFree]

/-- A transfer in which every call succeeds leaves the file that was read
exactly when the sender's path fits its array and the file has no zero byte. -/
theorem faithful_iff (clientHome serverHome : SyncHome) (destIp : List Byte)
    (port : BitVec 32) (hshort : name.bytes.length ≤ 24)
    (calls : SendCalls name.toFileName content) (hcalls : AllSucceed calls)
    (received : Segmentation 1000 content) (repos : TaskQueue.SyncRepos)
    (server : ServerState) :
    Faithful clientHome serverHome destIp port hshort calls received repos
        server ↔
      PathInBounds clientHome name.toFileName ∧ NulFree content := by
  obtain ⟨final, hfinal, hfiles⟩ := acceptConnection_named serverHome server
    ⟨name, hshort, content, received⟩
  have hfile : final.files (serverHome.file name.bytes) =
      some (content.filter (· ≠ 0#8)) := by
    rw [hfiles]
    exact Function.update_self _ _ _
  have hreply : ReplyInBounds calls :=
    ⟨okReply, hcalls.reply, by decide, by decide, by decide⟩
  constructor
  · rintro ⟨sent, other, hsent, -, hother, hcontent⟩
    obtain ⟨hbounds, -⟩ :=
      (sendFileToRemotePeer_eq_ok_iff _ _ _ _ _ _ _).mp hsent
    have hpath : PathInBounds clientHome name.toFileName := by
      rw [StaysInBounds, hcalls.completes.1] at hbounds
      exact (hbounds.resolve_left Bool.false_ne_true).2
    refine ⟨hpath, (filter_eq_self_iff content).mp ?_⟩
    rw [CResult.ok.inj (hfinal.symm.trans hother), hcontent] at hfile
    exact (Option.some_inj.mp hfile).symm
  · rintro ⟨hpath, hfree⟩
    refine ⟨_, final, (sendFileToRemotePeer_eq_ok_iff _ _ _ _ _ _ _).mpr
      ⟨Or.inr ⟨hreply, hpath⟩, rfl⟩, ?_, hfinal, ?_⟩
    · rw [transferred_socket,
        executed_of_completes hcalls.completes.2.1,
        (socket_eq_iff calls).mpr hcalls.sent]
    · rw [hfile, (filter_eq_self_iff content).mpr hfree]

end Content

/-- One chunk, written in full. -/
def wholeChunkCalls (chunk : Part 1000) :
    SendCalls sampleName.toFileName chunk.bytes :=
  oneChunkCalls _ chunk chunk.bytes.length (by omega) le_rfl

def onePart (chunk : Part 1000) : Segmentation 1000 chunk.bytes :=
  ⟨[chunk], by simp⟩

def emptyServer : ServerState :=
  ⟨CharArray.zero 25, fun _ => none⟩

theorem wholeChunkCalls_succeed (chunk : Part 1000) :
    @AllSucceed sampleName chunk.bytes (wholeChunkCalls chunk) where
  connected := rfl
  reply := rfl
  opened := rfl
  read := rfl
  sent := ⟨.inr rfl, by simp [wholeChunkCalls, oneChunkCalls],
    by simp [wholeChunkCalls, oneChunkCalls]⟩
  completes := ⟨rfl, ⟨⟨rfl, fun _ => rfl⟩, trivial⟩, rfl⟩

theorem faithful_oneByte :
    Faithful sampleHome sampleHome [] 20000#32 (by decide)
      (wholeChunkCalls ⟨[0x62#8], by decide, by decide⟩)
      (onePart ⟨[0x62#8], by decide, by decide⟩) TaskQueue.daemonRepos
      emptyServer := by
  refine (faithful_iff sampleHome sampleHome [] 20000#32 (by decide)
    (wholeChunkCalls ⟨[0x62#8], by decide, by decide⟩)
    (wholeChunkCalls_succeed _) _ TaskQueue.daemonRepos emptyServer).mpr
      ⟨sampleName_inBounds, by decide⟩

/-- A file of one zero byte arrives as an empty file. -/
theorem zeroByte_lost :
    (tcpsendFileToRemotePeer sampleHome [] 20000#32
        (wholeChunkCalls ⟨[0#8], by decide, by decide⟩) TaskQueue.daemonRepos
          >>= fun sent => .ok sent.socket) = .ok [0x61#8, 0#8] ∧
      (acceptConnection sampleHome emptyServer
        (some (NamedConnection.calls ⟨sampleName, by decide, [0#8],
          onePart ⟨[0#8], by decide, by decide⟩⟩)) >>= fun final =>
          .ok (final.files (sampleHome.file sampleName.bytes))) =
        .ok (some []) := by
  refine ⟨?_, ?_⟩
  · decide +kernel
  · decide +kernel

end SyncAnywhere.Transfer
