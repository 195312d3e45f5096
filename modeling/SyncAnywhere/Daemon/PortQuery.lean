import SyncAnywhere.Core.ByteStream
import SyncAnywhere.Daemon.PeerManage

/-!
# Port queries over TCP

`get_tcp_port` and `get_udp_port` send a request and read the reply to the end
of the stream, each read to the start of the same buffer.  The server decides
from a single `recv`.
-/

namespace SyncAnywhere.PortQuery

open SyncAnywhere.CMemory
open SyncAnywhere.Numeral
open SyncAnywhere.ByteStream
open SyncAnywhere.ReceivedLine
open SyncAnywhere.DaemonSettings
open SyncAnywhere.PeerManage

/-- `accept` succeeds and `recv` returns the part. -/
def receives (part : Part 100) : ManageCalls where
  accepted := true
  got := some part.bytes
  got_length := by
    intro bytes hbytes
    rw [← Option.some_inj.mp hbytes]
    exact part.length_le

/-- One turn of the server's loop, in which `recv` returns `part`; the result
is what the server writes before it closes the connection. -/
def serveQuery (settings : Settings) (requestCode : CharArray 100)
    (part : Part 100) : CResult (List Byte) := do
  let calls := receives part
  let manager ← peerManange calls settings ⟨.readUdpPort, requestCode⟩
  let manager ← peerManange calls settings manager
  let manager ← peerManange calls settings manager
  let manager ← peerManange calls settings manager
  pure (manager.answers.flatMap Prod.snd)

/-- `while ((count = read(sd, buf, 1000)) > 0)`. -/
def readReply (buf : List Byte) : List (Part 1000) → List Byte
  | [] => buf
  | part :: parts => readReply (overlay part.bytes buf) parts

/-- The query for the port of one mode.  `request` is the way of the request to
the server and `reply` that of any reply to the client; a server that closes
the connection ends the client's reads. -/
def getPort (mode : SyncMode) (settings : Settings)
    (requestCode : CharArray 100)
    (request : Segmentation 100 (portRequest mode))
    (reply : (sent : List Byte) → Segmentation 1000 sent) : CResult ℤ :=
  match request.parts with
  | [] => .undefined
  | part :: _ => do
      let sent ← serveQuery settings requestCode part
      pure (atoi (readReply (List.replicate 1000 0#8) (reply sent).parts))

def getTcpPort (settings : Settings) (requestCode : CharArray 100)
    (request : Segmentation 100 manageCmdReqTcpPort)
    (reply : (sent : List Byte) → Segmentation 1000 sent) : CResult ℤ :=
  getPort .tcp settings requestCode request reply

def getUdpPort (settings : Settings) (requestCode : CharArray 100)
    (request : Segmentation 100 manageCmdReqUdpPort)
    (reply : (sent : List Byte) → Segmentation 1000 sent) : CResult ℤ :=
  getPort .udp settings requestCode request reply

/-! ## The server -/

section Server

variable {mode : SyncMode} {settings : Settings} {requestCode : CharArray 100}

theorem length_portRequest (mode : SyncMode) :
    (portRequest mode).length = 12 := by
  cases mode <;> decide

theorem portRequest_clean (mode : SyncMode) :
    ∀ byte ∈ portRequest mode, byte ≠ 0#8 ∧ byte ≠ 0x0a#8 ∧ byte ≠ 0x0d#8 := by
  cases mode <;> decide

/-- A part of a request is received as it was sent. -/
theorem serveQuery_of_part {part : Part 100} {rest : List Byte}
    (hpart : portRequest mode = part.bytes ++ rest) :
    serveQuery settings requestCode part = .ok
      (portReply part.bytes (DaemonSettings.getUdpPort settings)
        (DaemonSettings.getTcpPort settings)) := by
  have hclean : ∀ byte ∈ part.bytes,
      byte ≠ 0#8 ∧ byte ≠ 0x0a#8 ∧ byte ≠ 0x0d#8 := by
    intro byte hbyte
    exact portRequest_clean mode byte
      (hpart ▸ List.mem_append_left rest hbyte)
  have hlength : part.bytes.length < 100 := by
    have htotal := congrArg List.length hpart
    rw [length_portRequest, List.length_append] at htotal
    omega
  obtain ⟨line, hline, htext⟩ := receiveLine_of_clean requestCode
    (fun byte hbyte => (hclean byte hbyte).1)
    (List.length_pos_iff.mp part.length_pos)
    (fun hlf => (hclean _ hlf).2.1 rfl) (fun hcr => (hclean _ hcr).2.2 rfl)
    hlength (by decide)
  have hrecv : peerManange (receives part) settings
      ⟨.recv (DaemonSettings.getUdpPort settings)
        (DaemonSettings.getTcpPort settings), requestCode⟩ =
      .ok ⟨.answer (DaemonSettings.getUdpPort settings)
        (DaemonSettings.getTcpPort settings), line⟩ := by
    change (receiveLine requestCode part.bytes hlength.le >>= _) = _
    rw [hline]
    rfl
  change (peerManange (receives part) settings
    ⟨.recv (DaemonSettings.getUdpPort settings)
      (DaemonSettings.getTcpPort settings), requestCode⟩ >>= _) = _
  rw [hrecv, CResult.ok_bind, Manager.answers, htext, List.flatMap_singleton]
  rfl

/-- An unsplit request is answered with the port, a split one with nothing. -/
theorem serveQuery_eq {request : Segmentation 100 (portRequest mode)}
    {part : Part 100} {parts : List (Part 100)}
    (hparts : request.parts = part :: parts) :
    serveQuery settings requestCode part = .ok
      (if request.Unsplit then digitText 10 (portOf mode settings) else []) := by
  have hjoined := request.joined_parts
  rw [hparts, joined_cons] at hjoined
  rw [serveQuery_of_part hjoined.symm]
  by_cases hunsplit : request.Unsplit
  · obtain ⟨only, honly, hbytes⟩ := hunsplit.exists_part
    obtain ⟨rfl, -⟩ := List.cons.inj (hparts.symm.trans honly)
    rw [if_pos hunsplit, hbytes, portReply_portRequest]
    cases mode <;> rfl
  · have hpart : part ∈ request.parts := by
      rw [hparts]
      exact List.mem_cons_self
    have hshort := Segmentation.length_part_lt hunsplit hpart
    have hother : ∀ other, part.bytes ≠ portRequest other := by
      intro other heq
      rw [heq, length_portRequest, length_portRequest] at hshort
      exact lt_irrefl 12 hshort
    have hudp : part.bytes ≠ manageCmdReqUdpPort := hother .udp
    have htcp : part.bytes ≠ manageCmdReqTcpPort := hother .tcp
    rw [if_neg hunsplit, portReply, if_neg hudp, if_neg htcp]
    rfl

end Server

/-! ## The client -/

section Client

variable {parts : List (Part 1000)} {width : ℕ}

/-- Behind the longest part the buffer stays as it was. -/
theorem drop_readReply (buf : List Byte)
    (hwidth : ∀ part ∈ parts, part.bytes.length ≤ width) :
    (readReply buf parts).drop width = buf.drop width := by
  induction parts generalizing buf with
  | nil => rfl
  | cons part parts ih =>
      obtain ⟨hpart, hrest⟩ := List.forall_mem_cons.mp hwidth
      rw [readReply, ih _ hrest, overlay, List.drop_append,
        List.drop_of_length_le hpart, List.nil_append, List.drop_drop,
        Nat.add_sub_cancel' hpart]

/-- A reply whose parts are shorter than its text loses digits. -/
theorem atoi_readReply_lt (hwidth : ∀ part ∈ parts, part.bytes.length ≤ width)
    (hsize : width < 1000) :
    atoi (readReply (List.replicate 1000 0#8) parts) < 10 ^ width := by
  have hdrop := drop_readReply (List.replicate 1000 0#8) hwidth
  have hzeros : (List.replicate 1000 0#8).drop width =
      0#8 :: List.replicate (1000 - width - 1) 0#8 := by
    rw [List.drop_replicate, ← List.replicate_succ]
    congr 1
    omega
  apply atoi_lt
  rw [← List.take_append_drop width (readReply _ parts), hdrop, hzeros,
    cstr_append_zero]
  exact (List.takeWhile_prefix _).length_le.trans (List.length_take_le _ _)

/-- A whole reply is read back. -/
theorem atoi_readReply_single {part : Part 1000} {port : ℕ}
    (hport : port ≤ 65535) (hpart : part.bytes = digitText 10 port) :
    atoi (readReply (List.replicate 1000 0#8) [part]) = port := by
  have hfree := nulFree_digitText (by decide) (by decide : 10 ≤ 16) port
  apply atoi_of_cstr (by omega)
  rw [readReply, readReply, overlay, hpart, cstr_append hfree,
    List.drop_replicate]
  cases 1000 - (digitText 10 port).length with
  | zero => exact List.append_nil _
  | succ zeros => rw [List.replicate_succ, cstr_zero_cons, List.append_nil]

/-- A number has at least as many digits as its size asks for. -/
theorem pow_le_of_lt_length {port width : ℕ} (hwidth : 0 < width)
    (hlength : width < (digitText 10 port).length) : 10 ^ width ≤ port := by
  by_contra hlt
  have hle := length_digitText_le (by decide) hwidth (not_le.mp hlt)
  omega

/-- The client reads the port exactly when the reply arrives in one part. -/
theorem atoi_readReply_eq_iff {port : ℕ} (hport : port ≤ 65535)
    (reply : Segmentation 1000 (digitText 10 port)) :
    atoi (readReply (List.replicate 1000 0#8) reply.parts) = port ↔
      reply.Unsplit := by
  have hlength := @length_digitText_le 10 port 5 (by decide) (by decide)
    (by omega)
  constructor
  · intro hread
    by_contra hsplit
    have hwidth : ∀ part ∈ reply.parts,
        part.bytes.length ≤ (digitText 10 port).length - 1 := fun part hpart =>
      Nat.le_sub_one_of_lt (Segmentation.length_part_lt hsplit hpart)
    have hparts : reply.parts ≠ [] := by
      intro hnil
      have hjoined := reply.joined_parts
      rw [hnil, joined_nil] at hjoined
      exact digitText_ne_nil 10 port hjoined.symm
    obtain ⟨part, parts, hcons⟩ := List.exists_cons_of_ne_nil hparts
    have hfirst := hwidth part (by rw [hcons]; exact List.mem_cons_self)
    have hpos := part.length_pos
    have hlt := atoi_readReply_lt hwidth (by omega)
    have hpower : 10 ^ ((digitText 10 port).length - 1) ≤ port :=
      pow_le_of_lt_length (by omega) (by omega)
    rw [hread] at hlt
    exact absurd hpower (not_le.mpr (by exact_mod_cast hlt))
  · intro hunsplit
    obtain ⟨part, hparts, hbytes⟩ := hunsplit.exists_part
    rw [hparts]
    exact atoi_readReply_single hport hbytes

end Client

/-! ## A query -/

/-- What the network does to one query: the whole request reaches the server's
`recv` and the whole reply one read of the client, or the request is split and
the port is zero. -/
def Answered {limit : ℕ} {text : List Byte} (request : Segmentation limit text)
    (reply : (sent : List Byte) → Segmentation 1000 sent) (port : ℕ) : Prop :=
  (request.Unsplit ∧ (reply (digitText 10 port)).Unsplit) ∨
    (¬ request.Unsplit ∧ port = 0)

theorem getPort_eq_ok_iff {mode : SyncMode} {settings : Settings}
    (hport : portOf mode settings ≤ 65535) (requestCode : CharArray 100)
    (request : Segmentation 100 (portRequest mode))
    (reply : (sent : List Byte) → Segmentation 1000 sent) :
    getPort mode settings requestCode request reply =
        .ok (portOf mode settings : ℤ) ↔
      Answered request reply (portOf mode settings) := by
  cases hparts : request.parts with
  | nil =>
      have hjoined := congrArg List.length request.joined_parts
      rw [hparts, length_portRequest] at hjoined
      exact absurd hjoined (by decide)
  | cons part parts =>
      have hquery : getPort mode settings requestCode request reply =
          serveQuery settings requestCode part >>= fun sent =>
            .ok (atoi (readReply (List.replicate 1000 0#8)
              (reply sent).parts)) := by
        simp only [getPort, hparts, CResult.pure_eq_ok]
      rw [hquery, serveQuery_eq hparts, CResult.ok_bind, CResult.ok.injEq,
        Answered]
      by_cases hunsplit : request.Unsplit
      · rw [if_pos hunsplit, atoi_readReply_eq_iff hport]
        simp [hunsplit]
      · have hempty : (reply []).parts = [] := by
          by_contra hne
          have hpos := length_joined_pos hne
          rw [(reply []).joined_parts] at hpos
          exact absurd hpos (by decide)
        have hzero : atoi (readReply (List.replicate 1000 0#8) []) = 0 := by
          decide +kernel
        rw [if_neg hunsplit, hempty, hzero, eq_comm, Nat.cast_eq_zero]
        simp [hunsplit]

/-- Both functions return the port exactly when the query is answered. -/
theorem portQueries_correct_iff {settings : Settings}
    (htcp : DaemonSettings.getTcpPort settings ≤ 65535)
    (hudp : DaemonSettings.getUdpPort settings ≤ 65535)
    (requestCode : CharArray 100)
    (tcpRequest : Segmentation 100 manageCmdReqTcpPort)
    (udpRequest : Segmentation 100 manageCmdReqUdpPort)
    (reply : (sent : List Byte) → Segmentation 1000 sent) :
    (getTcpPort settings requestCode tcpRequest reply =
          .ok (DaemonSettings.getTcpPort settings : ℤ) ↔
        Answered tcpRequest reply (DaemonSettings.getTcpPort settings)) ∧
      (getUdpPort settings requestCode udpRequest reply =
          .ok (DaemonSettings.getUdpPort settings : ℤ) ↔
        Answered udpRequest reply (DaemonSettings.getUdpPort settings)) :=
  ⟨@getPort_eq_ok_iff .tcp settings htcp requestCode tcpRequest reply,
    @getPort_eq_ok_iff .udp settings hudp requestCode udpRequest reply⟩

/-! ## Two ways of the same stream -/

section Ways

variable {limit : ℕ}

def bytewise (hlimit : 1 ≤ limit) (stream : List Byte) :
    Segmentation limit stream where
  parts := stream.map fun byte => ⟨[byte], Nat.one_pos, hlimit⟩
  joined_parts := by
    rw [joined, List.flatMap_map]
    exact List.flatMap_singleton' stream

/-- In one part, where the buffer has room for the stream. -/
def wholly (hlimit : 1 ≤ limit) (stream : List Byte) :
    Segmentation limit stream :=
  if hfits : 0 < stream.length ∧ stream.length ≤ limit then
    ⟨[⟨stream, hfits.1, hfits.2⟩], List.append_nil stream⟩
  else bytewise hlimit stream

end Ways

theorem portQueries_correct_wholly :
    getTcpPort daemonSettings (CharArray.zero 100)
        (wholly (by decide) manageCmdReqTcpPort) (wholly (by decide)) =
      .ok 20000 ∧
    getUdpPort daemonSettings (CharArray.zero 100)
        (wholly (by decide) manageCmdReqUdpPort) (wholly (by decide)) =
      .ok 30000 := by
  have hcorrect := @portQueries_correct_iff daemonSettings (by decide)
    (by decide) (CharArray.zero 100) (wholly (by decide) manageCmdReqTcpPort)
    (wholly (by decide) manageCmdReqUdpPort) (wholly (by decide))
  exact ⟨hcorrect.1.mpr (.inl (by decide)), hcorrect.2.mpr (.inl (by decide))⟩

/-- The reply "20000" arrives byte by byte: the client reads its last byte. -/
theorem portQuery_bytewiseReply_zero :
    getTcpPort daemonSettings (CharArray.zero 100)
        (wholly (by decide) manageCmdReqTcpPort) (bytewise (by decide)) =
      .ok 0 ∧
    DaemonSettings.getTcpPort daemonSettings = 20000 := by
  refine ⟨?_, rfl⟩
  decide +kernel

end SyncAnywhere.PortQuery
