import SyncAnywhere.Core.ByteStream
import SyncAnywhere.Core.ReceivedLine
import SyncAnywhere.Ipc.FilePaths

/-!
# Receiving files from peers

`tcp_sync_server` accepts one connection after the other.  Each one delivers a
name in its first `recv`, is answered with `OK` and then delivers the file.
-/

namespace SyncAnywhere.TcpServer

open SyncAnywhere.CMemory
open SyncAnywhere.ByteStream
open SyncAnywhere.ReceivedLine
open SyncAnywhere.FilePaths

/-- The array `filename[25]`, which is set up once and never cleared. -/
abbrev NameBuffer := CharArray 25

/-- What an accepted connection delivers and whether `fopen` succeeds. -/
structure Connection where
  /-- `none` when `recv` returns `-1`. -/
  firstRecv : Option (List Byte)
  opened : Bool
  reads : List (Part 1000)
  firstRecv_length : ∀ bytes ∈ firstRecv, bytes.length ≤ 25

/-- What one turn of the accept loop does. -/
structure Served where
  filename : NameBuffer
  filepath : List Byte
  reply : List Byte
  received : List Byte
  written : List Byte

structure ServerState where
  filename : NameBuffer
  files : List Byte → Option (List Byte)

def okReply : List Byte := [0x4f#8, 0x4b#8]

/-- The loop over all 1000 positions prints every byte that is not zero. -/
def writtenBytes (rcvdBuf : List Byte) : List Byte :=
  rcvdBuf.filter (· ≠ 0#8)

/-- The receive loop.  The comparison in its head swallows the count of `read`,
so the loop only learns whether there was anything to read. -/
def receiveLoop : List Byte → List (Part 1000) → List Byte
  | _, [] => []
  | rcvdBuf, part :: parts =>
      let rcvdBuf := overlay part.bytes rcvdBuf
      writtenBytes rcvdBuf ++ receiveLoop (List.replicate 1000 0#8) parts

/-- The loop and `fclose` touch the null pointer when `fopen` failed. -/
def serveConnection (home : SyncHome) (filename : NameBuffer)
    (connection : Connection) : CResult Served :=
  match hrecv : connection.firstRecv with
  | none => .exited
  | some got => do
      let filename ← receiveLine filename got
        (connection.firstRecv_length got hrecv)
      let filepath ← sprintfFilepath home 250 filename.text
      if connection.opened then
        pure ⟨filename, filepath, okReply, joined connection.reads,
          receiveLoop (List.replicate 1000 0#8) connection.reads⟩
      else .undefined

/-- One turn of the accept loop; `none` stands for a failed `accept`. -/
def acceptConnection (home : SyncHome) (server : ServerState)
    (connection : Option Connection) : CResult ServerState :=
  match connection with
  | none => .exited
  | some connection => do
      let served ← serveConnection home server.filename connection
      pure ⟨served.filename,
        Function.update server.files served.filepath (some served.written)⟩

def tcpSyncServer (home : SyncHome) (server : ServerState)
    (connections : List (Option Connection)) : CResult ServerState :=
  connections.foldlM (acceptConnection home) server

/-! ## The receive loop -/

/-- Behind `bzero`, the scan of the buffer sees the bytes just read and nothing
else. -/
theorem writtenBytes_overlay_zero (part : Part 1000) :
    writtenBytes (overlay part.bytes (List.replicate 1000 0#8)) =
      part.bytes.filter (· ≠ 0#8) := by
  have hrest : (List.replicate (1000 - part.bytes.length) 0#8).filter
      (· ≠ 0#8) = [] := by
    rw [List.filter_eq_nil_iff]
    intro byte hbyte
    simp [List.eq_of_mem_replicate hbyte]
  rw [writtenBytes, overlay, List.drop_replicate, List.filter_append, hrest,
    List.append_nil]

/-- The loop writes the non-zero bytes of the stream, however it is cut. -/
theorem receiveLoop_eq_filter (parts : List (Part 1000)) :
    receiveLoop (List.replicate 1000 0#8) parts =
      (joined parts).filter (· ≠ 0#8) := by
  induction parts with
  | nil => rfl
  | cons part parts ih =>
      rw [receiveLoop, writtenBytes_overlay_zero, ih, joined_cons,
        List.filter_append]

/-! ## One connection -/

/-- Spec of a served connection. -/
theorem serveConnection_eq_ok_iff {home : SyncHome} {filename : NameBuffer}
    {got : List Byte} {reads : List (Part 1000)} (hgot : got.length ≤ 25)
    {served : Served} :
    serveConnection home filename
        ⟨some got, true, reads, by simpa using hgot⟩ = .ok served ↔
      receiveLine filename got hgot = .ok served.filename ∧
        sprintfFilepath home 250 served.filename.text =
          .ok served.filepath ∧
        served.reply = okReply ∧ served.received = joined reads ∧
        served.written = (joined reads).filter (· ≠ 0#8) := by
  simp only [serveConnection, CResult.bind_eq_ok_iff, if_true,
    CResult.pure_eq_ok, CResult.ok.injEq, receiveLoop_eq_filter]
  constructor
  · rintro ⟨text, htext, filepath, hfilepath, rfl⟩
    exact ⟨htext, hfilepath, rfl, rfl, rfl⟩
  · rintro ⟨htext, hfilepath, hreply, hreceived, hwritten⟩
    refine ⟨_, htext, _, hfilepath, ?_⟩
    rw [← hreply, ← hwritten, ← hreceived]

/-- A connection that delivers a plain name of at most 24 bytes in its first
`recv` is served under that name. -/
theorem serveConnection_of_plain (home : SyncHome) (filename : NameBuffer)
    (name : PlainName) (hshort : name.bytes.length ≤ 24)
    (reads : List (Part 1000)) :
    ∃ served, serveConnection home filename
        ⟨some name.bytes, true, reads, by simp; omega⟩ = .ok served ∧
      served.filepath = home.file name.bytes ∧
      served.received = joined reads ∧
      served.written = (joined reads).filter (· ≠ 0#8) := by
  obtain ⟨line, hline, hname⟩ := receiveLine_of_clean filename name.nulFree
    name.ne_nil name.lf_notMem name.cr_notMem (show _ < 25 by omega)
    (by decide)
  have hfits : home.path.length + name.bytes.length + 1 < 250 := by
    have := home.length_lt
    omega
  have hpath : sprintfFilepath home 250 line.text =
      .ok (home.file name.bytes) := by
    rw [hname, sprintfFilepath_eq home name.nulFree, if_pos hfits]
  exact ⟨⟨line, _, _, _, _⟩,
    (serveConnection_eq_ok_iff (by omega)).mpr ⟨hline, hpath, rfl, rfl, rfl⟩,
    rfl, rfl, rfl⟩

end SyncAnywhere.TcpServer
