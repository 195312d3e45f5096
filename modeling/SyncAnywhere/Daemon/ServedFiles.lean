import SyncAnywhere.Core.WriteLog
import SyncAnywhere.Daemon.TcpServer

/-!
# The sync home behind a history of connections

Each connection is one write to the store of files: its path gets the non-zero
bytes of its stream.
-/

namespace SyncAnywhere.ServedFiles

open SyncAnywhere.CMemory
open SyncAnywhere.ByteStream
open SyncAnywhere.WriteLog
open SyncAnywhere.FilePaths
open SyncAnywhere.TcpServer

/-- A connection whose calls all succeed. -/
structure NamedConnection where
  name : PlainName
  length_le : name.bytes.length ≤ 24
  stream : List Byte
  segmentation : Segmentation 1000 stream

namespace NamedConnection

def calls (connection : NamedConnection) : Connection where
  firstRecv := some connection.name.bytes
  opened := true
  reads := connection.segmentation.parts
  firstRecv_length := by
    have := connection.length_le
    simp
    omega

/-- What the connection writes, and where. -/
def write (home : SyncHome) (connection : NamedConnection) :
    List Byte × Option (List Byte) :=
  (home.file connection.name.bytes,
    some (connection.stream.filter (· ≠ 0#8)))

end NamedConnection

/-- Step lemma: one connection is one write. -/
theorem acceptConnection_named (home : SyncHome) (server : ServerState)
    (connection : NamedConnection) :
    ∃ next, acceptConnection home server (some connection.calls) = .ok next ∧
      next.files = Function.update server.files
        (connection.write home).1 (connection.write home).2 := by
  obtain ⟨served, hserved, hpath, -, hwritten⟩ :=
    serveConnection_of_plain home server.filename connection.name
      connection.length_le connection.segmentation.parts
  refine ⟨⟨served.filename, Function.update server.files served.filepath
    (some served.written)⟩, ?_, ?_⟩
  · rw [acceptConnection, NamedConnection.calls, hserved]
    rfl
  · rw [hpath, hwritten, connection.segmentation.joined_parts]
    rfl

/-- Run lemma: a history of connections is the log of their writes. -/
theorem tcpSyncServer_named (home : SyncHome) (server : ServerState)
    (connections : List NamedConnection) :
    ∃ final, tcpSyncServer home server
        (connections.map fun connection => some connection.calls) =
          .ok final ∧
      final.files = applyWrites server.files
        (connections.map (NamedConnection.write home)) := by
  induction connections generalizing server with
  | nil => exact ⟨server, rfl, rfl⟩
  | cons connection connections ih =>
      obtain ⟨next, hnext, hfiles⟩ :=
        acceptConnection_named home server connection
      obtain ⟨final, hfinal, hlog⟩ := ih next
      refine ⟨final, ?_, ?_⟩
      · rw [tcpSyncServer] at hfinal
        rw [tcpSyncServer, List.map_cons, List.foldlM_cons, hnext,
          CResult.ok_bind, hfinal]
      · rw [hlog, hfiles]
        rfl

/-- After any history of connections the file of each name holds the non-zero
bytes of the stream of the last connection with that name, and no other file
has changed. -/
theorem syncHome_after_connections (home : SyncHome) (server : ServerState)
    (connections : List NamedConnection) :
    ∃ final, tcpSyncServer home server
        (connections.map fun connection => some connection.calls) =
          .ok final ∧
      (∀ front last back, connections = front ++ last :: back →
        (∀ later ∈ back, later.name.bytes ≠ last.name.bytes) →
        final.files (home.file last.name.bytes) =
          some (last.stream.filter (· ≠ 0#8))) ∧
      ∀ path,
        (∀ connection ∈ connections,
          home.file connection.name.bytes ≠ path) →
        final.files path = server.files path := by
  obtain ⟨final, hfinal, hlog⟩ := tcpSyncServer_named home server connections
  refine ⟨final, hfinal, ?_, ?_⟩
  · rintro front last back rfl hlast
    rw [hlog, List.map_append, List.map_cons]
    apply applyWrites_of_last
    intro write hwrite
    obtain ⟨later, hlater, rfl⟩ := List.mem_map.mp hwrite
    exact (file_injective home).ne (hlast later hlater)
  · intro path hpath
    rw [hlog]
    apply applyWrites_of_forall_ne
    intro write hwrite
    obtain ⟨connection, hconnection, rfl⟩ := List.mem_map.mp hwrite
    exact hpath connection hconnection

end SyncAnywhere.ServedFiles
