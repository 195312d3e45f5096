import SyncAnywhere.Core.PathWalk
import SyncAnywhere.Daemon.LineBounds

/-!
# Where a received name leads

`tcp_sync_server` opens the path of a received name for writing and looks at no
component of it.  A name with `..` components leads out of the sync home, unless
it comes back through the names of the home itself.
-/

namespace SyncAnywhere.NameEscape

open SyncAnywhere.CMemory
open SyncAnywhere.ReceivedLine
open SyncAnywhere.FilePaths
open SyncAnywhere.PathWalk
open SyncAnywhere.TcpServer
open SyncAnywhere.LineBounds

/-- The place of a path of bytes, from the working directory of the daemon. -/
def resolvePath (cwd : List (List Byte)) (path : List Byte) :
    List (List Byte) :=
  resolve 0x2f#8 0x2e#8 cwd path

/-- The components of a name without the detours. -/
def nameRoute (name : List Byte) : Route (List Byte) :=
  Route.ofSteps (steps 0x2f#8 0x2e#8 name)

/-- The path that `tcp_sync_server` passes to `fopen`. -/
def openedPath (home : SyncHome) (filename : NameBuffer)
    (connection : Connection) : CResult (List Byte) := do
  let filename ← tcpReceiveName filename connection
  sprintfFilepath home 250 filename.text

/-- A served connection writes to the opened path. -/
theorem openedPath_of_served {home : SyncHome} {filename : NameBuffer}
    {connection : Connection} {served : Served}
    (hserved : serveConnection home filename connection = .ok served) :
    openedPath home filename connection = .ok served.filepath := by
  rw [serveConnection_eq_bind, CResult.bind_eq_ok_iff] at hserved
  obtain ⟨line, hline, hrest⟩ := hserved
  obtain ⟨path, hpath, hend⟩ := (CResult.bind_eq_ok_iff _ _ _).mp hrest
  split_ifs at hend
  rw [openedPath, hline, CResult.ok_bind, hpath, ← CResult.ok.inj hend]

/-- The opened path is that of the stripped name in the sync home. -/
theorem openedPath_eq {home : SyncHome} {filename : NameBuffer}
    {connection : Connection} {got path : List Byte}
    (hgot : connection.firstRecv = some got)
    (hpath : openedPath home filename connection = .ok path) :
    path = home.file (lineText got) := by
  rw [openedPath, CResult.bind_eq_ok_iff] at hpath
  obtain ⟨line, hline, hpath⟩ := hpath
  have hlength := connection.firstRecv_length got hgot
  have hreceive : receiveLine filename got hlength = .ok line := by
    obtain ⟨firstRecv, opened, reads, hfirst⟩ := connection
    cases hgot
    exact hline
  rw [text_of_receiveLine hlength (by decide) hreceive,
    sprintfFilepath_eq home (nulFree_lineText got)] at hpath
  split_ifs at hpath
  exact (CResult.ok.inj hpath).symm

/-- The file of a name lies strictly inside the sync home exactly when the name,
its detours left out, goes down again through every name it climbed from and
then through at least one more. -/
theorem receivedName_inside_iff (homeEnv : HomeEnv) (cwd : List (List Byte))
    (filename : NameBuffer) {connection : Connection} {got path : List Byte}
    (hgot : connection.firstRecv = some got)
    (hpath : openedPath (setSyncHome homeEnv) filename connection =
      .ok path) :
    let home := resolvePath cwd (setSyncHome homeEnv).path
    let route := nameRoute (lineText got)
    StrictlyInside home (resolvePath cwd path) ↔
      ∃ rest, rest ≠ [] ∧
        route.names = home.drop (home.length - route.climbs) ++ rest := by
  rw [openedPath_eq hgot hpath, SyncHome.file, resolvePath, resolvePath,
    resolve_append_slash 0x2f#8 0x2e#8 cwd (setSyncHome_ne_nil homeEnv)]
  exact strictlyInside_walk_iff _ _

/-- A name without a slash, such as the client sends, leads into the sync home
when it is not empty and names neither the directory nor its parent. -/
theorem nameRoute_of_slash_notMem {name : List Byte} (hslash : 0x2f#8 ∉ name)
    (hne : name ≠ []) (hdot : name ≠ [0x2e#8])
    (hdots : name ≠ [0x2e#8, 0x2e#8]) :
    nameRoute name = ⟨0, [name]⟩ := by
  have hstep : stepOf 0x2e#8 name = .down name := by
    rw [stepOf, if_neg (by simp [hne, hdot]), if_neg hdots]
  rw [nameRoute, steps, List.splitOn_eq_singleton hslash, List.map_singleton,
    hstep]
  rfl

/-- The home directory "/h". -/
def sampleEnv : HomeEnv where
  value := sampleHome.path
  nulFree := sampleHome.nulFree
  length_lt := Nat.lt_of_sub_pos (Nat.succ_pos 184)

/-- A client that sends a name of at most 25 bytes and no file. -/
def nameConnection (name : List Byte) (hname : name.length ≤ 25) :
    Connection where
  firstRecv := some name
  opened := true
  reads := []
  firstRecv_length := by
    intro bytes hbytes
    rwa [← Option.some_inj.mp hbytes]

theorem receivedName_inside_letter :
    ∃ path, openedPath (setSyncHome sampleEnv) (CharArray.zero 25)
        (nameConnection [0x61#8] (by decide)) = .ok path ∧
      StrictlyInside (resolvePath [] (setSyncHome sampleEnv).path)
        (resolvePath [] path) := by
  have hpath : openedPath (setSyncHome sampleEnv) (CharArray.zero 25)
      (nameConnection [0x61#8] (by decide)) =
        .ok ((setSyncHome sampleEnv).file [0x61#8]) := by
    decide +kernel
  have hroute : nameRoute [0x61#8] = ⟨0, [[0x61#8]]⟩ :=
    nameRoute_of_slash_notMem (by decide) (by decide) (by decide) (by decide)
  refine ⟨_, hpath, (receivedName_inside_iff sampleEnv [] _ rfl hpath).mpr
    ⟨[[0x61#8]], by decide, ?_⟩⟩
  change (nameRoute [0x61#8]).names = _
  rw [hroute]
  decide

/-- The name "../x" leads to a file beside the sync home. -/
theorem parentName_escapes :
    openedPath (setSyncHome sampleEnv) (CharArray.zero 25)
        (nameConnection [0x2e#8, 0x2e#8, 0x2f#8, 0x78#8] (by decide)) =
      .ok ((setSyncHome sampleEnv).file [0x2e#8, 0x2e#8, 0x2f#8, 0x78#8]) ∧
    resolvePath [] ((setSyncHome sampleEnv).file
        [0x2e#8, 0x2e#8, 0x2f#8, 0x78#8]) = [[0x68#8], [0x78#8]] ∧
    ¬ StrictlyInside (resolvePath [] (setSyncHome sampleEnv).path)
      (resolvePath [] ((setSyncHome sampleEnv).file
        [0x2e#8, 0x2e#8, 0x2f#8, 0x78#8])) := by
  decide +kernel

end SyncAnywhere.NameEscape
