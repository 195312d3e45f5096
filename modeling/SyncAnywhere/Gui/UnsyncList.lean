import SyncAnywhere.Core.Handles
import SyncAnywhere.Core.LinkedRing
import SyncAnywhere.Ipc.FilePaths
import SyncAnywhere.Ipc.Messages

/-!
# The GUI's list of unsynced files

`main` allocates the head of the list with a null link.  The first file is
stored in that head, which is linked to itself; every later file gets a node of
its own behind the last one, found by walking from the head until a link leads
back to it.
-/

namespace SyncAnywhere.UnsyncList

open SyncAnywhere.CMemory
open SyncAnywhere.FilePaths
open SyncAnywhere.Handles
open SyncAnywhere.LinkedRing
open SyncAnywhere.Messages
open SyncAnywhere.Numeral

variable {Addr : Type} [DecidableEq Addr]

/-- The strings the two pointers lead to are never changed or freed. -/
structure UnsyncFileList (Addr : Type) where
  filePath : List Byte
  fileName : List Byte
  next : Option Addr

/-- The addresses `g_malloc` has handed out with what is stored there, and the
two globals of the list. -/
structure GuiList (Addr : Type) where
  used : Finset Addr
  node : Addr → UnsyncFileList Addr
  usyncListHead : Addr
  numUnsyncFiles : ℤ

namespace GuiList

def load (list : GuiList Addr) (addr : Addr) :
    CResult (UnsyncFileList Addr) :=
  if addr ∈ list.used then .ok (list.node addr) else .undefined

def store (list : GuiList Addr) (addr : Addr) (node : UnsyncFileList Addr) :
    GuiList Addr :=
  { list with node := Function.update list.node addr node }

/-- `addr->next = next` -/
def setNext (list : GuiList Addr) (addr : Addr) (next : Option Addr) :
    GuiList Addr :=
  list.store addr { list.node addr with next := next }

def malloc (alloc : Allocator Addr) (list : GuiList Addr) : GuiList Addr :=
  { list with used := alloc.take list.used }

def next (list : GuiList Addr) (addr : Addr) : Option Addr :=
  (list.node addr).next

def entry (list : GuiList Addr) (addr : Addr) : List Byte × List Byte :=
  ((list.node addr).filePath, (list.node addr).fileName)

theorem next_store (list : GuiList Addr) (addr : Addr)
    (node : UnsyncFileList Addr) :
    (list.store addr node).next =
      Function.update list.next addr node.next := by
  funext other
  by_cases hother : other = addr
  · subst hother
    simp [GuiList.next, store]
  · simp [GuiList.next, store, hother]

theorem entry_store (list : GuiList Addr) (addr : Addr)
    (node : UnsyncFileList Addr) :
    (list.store addr node).entry =
      Function.update list.entry addr (node.filePath, node.fileName) := by
  funext other
  by_cases hother : other = addr
  · subst hother
    simp [entry, store]
  · simp [entry, store, hother]

theorem next_setNext (list : GuiList Addr) (addr : Addr)
    (next : Option Addr) :
    (list.setNext addr next).next = Function.update list.next addr next := by
  rw [setNext, next_store]

@[simp]
theorem entry_setNext (list : GuiList Addr) (addr : Addr)
    (next : Option Addr) : (list.setNext addr next).entry = list.entry := by
  rw [setNext, entry_store]
  exact Function.update_eq_self addr list.entry

end GuiList

/-- The part of `main` that sets up the list, on a heap with any contents. -/
def initUnsyncList (alloc : Allocator Addr) (used : Finset Addr)
    (node : Addr → UnsyncFileList Addr) : GuiList Addr :=
  let head := alloc.next used
  let list : GuiList Addr := ⟨alloc.take used, node, head, 0⟩
  list.setNext head none

/-! ## One call -/

/-- One file chosen in the dialog, with the outcomes of `socket` and `sendto`
in `send_msg_to_daemon`. -/
structure AddCall where
  filepath : List Byte
  nulFree : NulFree filepath
  socketOpened : Bool
  sent : Bool

/-- `g_strsplit(string, delimiter, 0)` for a delimiter of one byte; the empty
string has no parts. -/
def gStrsplit (string : List Byte) (delimiter : Byte) : List (List Byte) :=
  if string = [] then [] else string.splitOn delimiter

/-- The loop over the parts of the path, and the first read of the pointer it
sets.  Without any part the pointer is uninitialised. -/
def lastPlugin (filepath : List Byte) : CResult (List Byte) :=
  let filename := (gStrsplit filepath 0x2f#8).foldl
    (fun _ plugin => some plugin) none
  match filename with
  | some filename => .ok filename
  | none => .undefined

/-- `cp` with both paths in double quotes. -/
def copyCommand (srcFilepath destFilepath : List Byte) : List Byte :=
  [0x63#8, 0x70#8, 0x20#8, 0x22#8] ++ srcFilepath ++
    [0x22#8, 0x20#8, 0x22#8] ++ destFilepath ++ [0x22#8]

/-- The command that copies the file, up to the call of `system`. -/
def copyFileToApphome (home : SyncHome) (srcFilepath : List Byte) :
    CResult Unit := do
  let destFilepath ← sprintfFilepath home 200 (basename srcFilepath)
  let _ ← sprintf (List.replicate 400 0#8)
    (copyCommand srcFilepath destFilepath)
  pure ()

def sendMsgToDaemon (socketOpened sent : Bool) : CResult Unit :=
  if !socketOpened then .exited
  else if !sent then .exited
  else .ok ()

/-- What a call does before it touches the list. -/
def announce (home : SyncHome) (call : AddCall) : CResult Unit := do
  copyFileToApphome home call.filepath
  let _ ← sprintfFilepath home 200 (basename call.filepath)
  sendMsgToDaemon call.socketOpened call.sent

def gintMax : ℤ := 2147483647

def increment (value : ℤ) : CResult ℤ :=
  if value < gintMax then .ok (value + 1) else .undefined

/-- The `while` loop that looks for the last entry.  It has no result when it
does not end within `fuel` tests of its condition. -/
def searchLast (list : GuiList Addr) : ℕ → Addr → CResult Addr
  | 0, _ => .undefined
  | fuel + 1, lastUnsyncEntry => do
      let entry ← list.load lastUnsyncEntry
      if entry.next = some list.usyncListHead then pure lastUnsyncEntry
      else
        match entry.next with
        | some next => searchLast list fuel next
        | none => .undefined

/-- The `else` branch behind its search. -/
def appendEntry (alloc : Allocator Addr) (list : GuiList Addr)
    (lastUnsyncEntry : Addr) (filepath filename : List Byte) :
    GuiList Addr :=
  let newUnsyncEntry := alloc.next list.used
  let list := (list.malloc alloc).store newUnsyncEntry
    ⟨filepath, filename, some list.usyncListHead⟩
  list.setNext lastUnsyncEntry (some newUnsyncEntry)

/-- The two branches behind the text buffer. -/
def linkEntry (alloc : Allocator Addr) (fuel : ℕ) (list : GuiList Addr)
    (filepath filename : List Byte) : CResult (GuiList Addr) := do
  let head ← list.load list.usyncListHead
  if head.next = none then
    pure (list.store list.usyncListHead
      ⟨filepath, filename, some list.usyncListHead⟩)
  else
    let lastUnsyncEntry ← searchLast list fuel list.usyncListHead
    pure (appendEntry alloc list lastUnsyncEntry filepath filename)

def addEntryUnsyncList (alloc : Allocator Addr) (home : SyncHome) (fuel : ℕ)
    (list : GuiList Addr) (call : AddCall) : CResult (GuiList Addr) := do
  announce home call
  let numUnsyncFiles ← increment list.numUnsyncFiles
  let filename ← lastPlugin call.filepath
  linkEntry alloc fuel { list with numUnsyncFiles := numUnsyncFiles }
    call.filepath filename

/-- The calls of a session, one after another. -/
def addAll (alloc : Allocator Addr) (home : SyncHome) (fuel : ℕ)
    (list : GuiList Addr) (calls : List AddCall) : CResult (GuiList Addr) :=
  calls.foldlM (addEntryUnsyncList alloc home fuel) list

/-! ## What the list should be -/

/-- A cycle of as many nodes as there are files, which carries their paths and
names in order. -/
structure Cyclic (list : GuiList Addr) (paths : List (List Byte)) :
    Prop where
  distinct : ∀ left < paths.length, ∀ right < paths.length,
    follow list.next list.usyncListHead left =
      follow list.next list.usyncListHead right → left = right
  returns : follow list.next list.usyncListHead paths.length =
    some list.usyncListHead
  carried : ∀ index path, paths[index]? = some path →
    ∃ addr ∈ list.used,
      follow list.next list.usyncListHead index = some addr ∧
        list.entry addr = (path, basename path)
  count : list.numUnsyncFiles = paths.length

/-- From some bound on, more fuel makes no difference: the loop ends. -/
def SearchEnds (list : GuiList Addr) : Prop :=
  ∃ turns last, ∀ fuel ≥ turns,
    searchLast list fuel list.usyncListHead = .ok last

/-! ## The name of a path -/

/-- The last part of a path between its slashes is its name. -/
theorem getLast?_splitOn (filepath : List Byte) :
    (filepath.splitOn 0x2f#8).getLast? = some (basename filepath) := by
  have hlast : (basename filepath).splitOn 0x2f#8 = [basename filepath] :=
    List.splitOn_eq_singleton (slash_notMem_basename filepath)
  rcases eq_basename_or_split filepath with hname | ⟨front, hsplit⟩
  · calc (filepath.splitOn 0x2f#8).getLast?
        = ((basename filepath).splitOn 0x2f#8).getLast? := by rw [← hname]
      _ = some (basename filepath) := by
          rw [hlast]
          rfl
  · calc (filepath.splitOn 0x2f#8).getLast?
        = ((front ++ 0x2f#8 :: basename filepath).splitOn 0x2f#8).getLast? := by
          rw [← hsplit]
      _ = (front.splitOn 0x2f#8 ++ [basename filepath]).getLast? := by
          rw [List.splitOn_append_cons_self, hlast]
      _ = some (basename filepath) := List.getLast?_concat

theorem foldl_some_eq_getLast? (plugins : List (List Byte)) :
    plugins.foldl (fun _ plugin => some plugin) none = plugins.getLast? := by
  induction plugins using List.reverseRecOn with
  | nil => rfl
  | append_singleton plugins plugin _ =>
      rw [List.foldl_append, List.getLast?_concat]
      rfl

theorem lastPlugin_eq {filepath : List Byte} (hne : filepath ≠ []) :
    lastPlugin filepath = .ok (basename filepath) := by
  rw [lastPlugin, gStrsplit, if_neg hne]
  simp only [foldl_some_eq_getLast?, getLast?_splitOn]

/-! ## Which calls come to the list -/

/-- The texts fit their arrays, the path has a last part, and the daemon's
socket takes the message. -/
structure Completes (home : SyncHome) (call : AddCall) : Prop where
  ne_nil : call.filepath ≠ []
  fitsPath : home.path.length + (basename call.filepath).length + 1 < 200
  fitsCommand : call.filepath.length +
    (home.path.length + (basename call.filepath).length + 1) + 8 < 400
  socketOpened : call.socketOpened = true
  sent : call.sent = true

instance (home : SyncHome) (call : AddCall) :
    Decidable (Completes home call) :=
  decidable_of_iff (call.filepath ≠ [] ∧
      home.path.length + (basename call.filepath).length + 1 < 200 ∧
      call.filepath.length +
        (home.path.length + (basename call.filepath).length + 1) + 8 < 400 ∧
      call.socketOpened = true ∧ call.sent = true)
    ⟨fun h => ⟨h.1, h.2.1, h.2.2.1, h.2.2.2.1, h.2.2.2.2⟩,
      fun h => ⟨h.ne_nil, h.fitsPath, h.fitsCommand, h.socketOpened, h.sent⟩⟩

theorem sendMsgToDaemon_eq_ok_iff {socketOpened sent : Bool}
    {done : Unit} :
    sendMsgToDaemon socketOpened sent = .ok done ↔
      socketOpened = true ∧ sent = true := by
  cases socketOpened <;> cases sent <;> simp [sendMsgToDaemon]

theorem length_copyCommand (srcFilepath destFilepath : List Byte) :
    (copyCommand srcFilepath destFilepath).length =
      srcFilepath.length + destFilepath.length + 8 := by
  simp [copyCommand]
  omega

theorem sprintf_bind_pure_eq_ok_iff {buffer text : List Byte} {done : Unit} :
    (sprintf buffer text >>= fun _ => pure ()) = .ok done ↔
      text.length < buffer.length := by
  by_cases hfits : text.length < buffer.length
  · simp [sprintf, hfits]
  · simp [sprintf, hfits]

/-- The two paths, and the command line around them, fit their arrays. -/
theorem copyFileToApphome_eq_ok_iff {home : SyncHome}
    {filepath : List Byte} {done : Unit} (hfree : NulFree filepath) :
    copyFileToApphome home filepath = .ok done ↔
      home.path.length + (basename filepath).length + 1 < 200 ∧
        filepath.length +
          (home.path.length + (basename filepath).length + 1) + 8 < 400 := by
  rw [copyFileToApphome, sprintfFilepath_eq home (nulFree_basename hfree)]
  by_cases hpath : home.path.length + (basename filepath).length + 1 < 200
  · rw [if_pos hpath, CResult.ok_bind, sprintf_bind_pure_eq_ok_iff,
      length_copyCommand, length_file, List.length_replicate]
    exact (and_iff_right hpath).symm
  · rw [if_neg hpath, CResult.undefined_bind]
    simp [hpath]

theorem announce_eq_ok_iff {home : SyncHome} {call : AddCall}
    {done : Unit} :
    announce home call = .ok done ↔
      (home.path.length + (basename call.filepath).length + 1 < 200 ∧
        call.filepath.length +
          (home.path.length + (basename call.filepath).length + 1) + 8 <
            400) ∧
        call.socketOpened = true ∧ call.sent = true := by
  rw [announce, CResult.bind_eq_ok_iff,
    sprintfFilepath_eq home (nulFree_basename call.nulFree)]
  constructor
  · rintro ⟨_, hcopy, hrest⟩
    have hfits := (copyFileToApphome_eq_ok_iff call.nulFree).mp hcopy
    rw [if_pos hfits.1, CResult.ok_bind, sendMsgToDaemon_eq_ok_iff] at hrest
    exact ⟨hfits, hrest⟩
  · rintro ⟨hfits, hsent⟩
    refine ⟨(), (copyFileToApphome_eq_ok_iff call.nulFree).mpr hfits, ?_⟩
    rw [if_pos hfits.1, CResult.ok_bind, sendMsgToDaemon_eq_ok_iff]
    exact hsent

theorem increment_eq_ok_iff {value next : ℤ} :
    increment value = .ok next ↔ value < gintMax ∧ next = value + 1 := by
  by_cases hroom : value < gintMax
  · simp [increment, hroom, eq_comm]
  · simp [increment, hroom]

theorem lastPlugin_eq_ok_iff {filepath filename : List Byte} :
    lastPlugin filepath = .ok filename ↔
      filepath ≠ [] ∧ filename = basename filepath := by
  by_cases hne : filepath = []
  · subst hne
    simp [lastPlugin, gStrsplit]
  · rw [lastPlugin_eq hne]
    simp [hne, eq_comm]

/-- A call gets as far as the list, and then does with it what its two branches
do. -/
theorem addEntry_eq_ok_iff {alloc : Allocator Addr} {home : SyncHome}
    {fuel : ℕ} {list final : GuiList Addr} {call : AddCall} :
    addEntryUnsyncList alloc home fuel list call = .ok final ↔
      Completes home call ∧ list.numUnsyncFiles < gintMax ∧
        linkEntry alloc fuel
          { list with numUnsyncFiles := list.numUnsyncFiles + 1 }
          call.filepath (basename call.filepath) = .ok final := by
  simp only [addEntryUnsyncList, CResult.bind_eq_ok_iff, announce_eq_ok_iff,
    increment_eq_ok_iff, lastPlugin_eq_ok_iff]
  constructor
  · rintro ⟨_, ⟨hfits, hsent⟩, _, ⟨hroom, rfl⟩, _, ⟨hne, rfl⟩, hlink⟩
    exact ⟨⟨hne, hfits.1, hfits.2, hsent.1, hsent.2⟩, hroom, hlink⟩
  · rintro ⟨hcall, hroom, hlink⟩
    exact ⟨(), ⟨⟨hcall.fitsPath, hcall.fitsCommand⟩, hcall.socketOpened,
      hcall.sent⟩, _, ⟨hroom, rfl⟩, _, ⟨hcall.ne_nil, rfl⟩, hlink⟩

/-! ## The ring of the list -/

/-- The ring behind the list after at least one call: the nodes `rest` follow
the head. -/
structure Linked (list : GuiList Addr) (rest : List Addr)
    (paths : List (List Byte)) : Prop where
  ring : Ring list.next list.usyncListHead rest
  used : ∀ addr ∈ list.usyncListHead :: rest, addr ∈ list.used
  entries : (list.usyncListHead :: rest).map list.entry =
    paths.map fun path => (path, basename path)

namespace Linked

variable {list : GuiList Addr} {rest : List Addr}
variable {paths : List (List Byte)}

omit [DecidableEq Addr] in
theorem length_nodes (hlinked : Linked list rest paths) :
    (list.usyncListHead :: rest).length = paths.length := by
  have hlength := congrArg List.length hlinked.entries
  rwa [List.length_map, List.length_map] at hlength

theorem load_eq (hlinked : Linked list rest paths) {addr : Addr}
    (haddr : addr ∈ list.usyncListHead :: rest) :
    list.load addr = .ok (list.node addr) :=
  if_pos (hlinked.used addr haddr)

/-- The walk from any node of the ring ends at the last one. -/
theorem searchLast_eq (hlinked : Linked list rest paths)
    {front back : List Addr} {cursor last : Addr}
    (hsplit : list.usyncListHead :: rest = front ++ cursor :: back)
    (hlast : (cursor :: back).getLast? = some last) {fuel : ℕ}
    (hfuel : back.length < fuel) :
    searchLast list fuel cursor = .ok last := by
  have hload : list.load cursor = .ok (list.node cursor) :=
    hlinked.load_eq (by rw [hsplit]; simp)
  induction back generalizing front cursor fuel with
  | nil =>
      obtain ⟨fuel, rfl⟩ := Nat.exists_eq_add_of_lt hfuel
      have hnext : (list.node cursor).next = some list.usyncListHead :=
        hlinked.ring.next_last hsplit
      rw [searchLast, hload, CResult.ok_bind, if_pos hnext]
      rw [List.getLast?_singleton, Option.some.injEq] at hlast
      rw [hlast]
      rfl
  | cons following back ih =>
      obtain ⟨fuel, rfl⟩ := Nat.exists_eq_add_of_lt hfuel
      obtain ⟨hnext, hhead⟩ := hlinked.ring.next_eq hsplit
      have hnext : (list.node cursor).next = some following := hnext
      have hturn : (list.node cursor).next ≠ some list.usyncListHead := by
        rw [hnext]
        exact fun hsame => hhead (Option.some.inj hsame)
      have hsplit' : list.usyncListHead :: rest =
          (front ++ [cursor]) ++ following :: back := by
        rw [hsplit, List.append_assoc, List.singleton_append]
      rw [searchLast, hload, CResult.ok_bind, if_neg hturn, hnext]
      rw [List.getLast?_cons_cons] at hlast
      exact ih hsplit' hlast (by simp; omega)
        (hlinked.load_eq (by rw [hsplit]; simp))

omit [DecidableEq Addr] in
theorem exists_last (list : GuiList Addr) (rest : List Addr) :
    ∃ front last, list.usyncListHead :: rest = front ++ [last] :=
  ⟨_, _, (List.dropLast_append_getLast (List.cons_ne_nil _ _)).symm⟩

/-- The search of a call ends. -/
theorem searchEnds (hlinked : Linked list rest paths) : SearchEnds list := by
  obtain ⟨front, last, hsplit⟩ := exists_last list rest
  refine ⟨rest.length + 1, last, ?_⟩
  intro fuel hfuel
  exact @searchLast_eq _ _ _ _ _ hlinked [] rest list.usyncListHead last rfl
    (by rw [hsplit, List.getLast?_concat]) fuel hfuel

/-- The first file stands in the head. -/
theorem first {list : GuiList Addr} (filepath : List Byte)
    (hused : list.usyncListHead ∈ list.used) :
    Linked (list.store list.usyncListHead
      ⟨filepath, basename filepath, some list.usyncListHead⟩) []
      [filepath] where
  ring := by
    apply Ring.single
    rw [GuiList.next_store]
    exact Function.update_self _ _ _
  used := by
    intro addr haddr
    rw [List.mem_singleton] at haddr
    rw [haddr]
    exact hused
  entries := by
    rw [GuiList.entry_store, List.map_singleton, List.map_singleton]
    exact congrArg (fun entry => [entry]) (Function.update_self _ _ _)

/-- A later file gets a node of its own behind the last one. -/
theorem append (hlinked : Linked list rest paths) (alloc : Allocator Addr)
    {front : List Addr} {last : Addr}
    (hsplit : list.usyncListHead :: rest = front ++ [last])
    (filepath : List Byte) :
    Linked (appendEntry alloc list last filepath (basename filepath))
      (rest ++ [alloc.next list.used]) (paths ++ [filepath]) := by
  have hfresh : ∀ addr ∈ list.usyncListHead :: rest,
      addr ≠ alloc.next list.used := by
    rintro addr haddr rfl
    exact alloc.next_fresh _ (hlinked.used _ haddr)
  have hlast : last ≠ alloc.next list.used :=
    hfresh last (by rw [hsplit]; simp)
  constructor
  · apply hlinked.ring.append hsplit
    · exact fun hmem => hfresh _ hmem rfl
    · intro addr haddr
      have hne : addr ≠ last := by
        have hnodup := hlinked.ring.nodup
        rw [hsplit, ← List.concat_eq_append, List.nodup_concat] at hnodup
        rintro rfl
        exact hnodup.1 haddr
      have hold : addr ≠ alloc.next list.used :=
        hfresh addr (by rw [hsplit]; simp [haddr])
      rw [appendEntry, GuiList.next_setNext, Function.update_of_ne hne,
        GuiList.next_store, Function.update_of_ne hold]
      rfl
    · rw [appendEntry, GuiList.next_setNext]
      exact Function.update_self _ _ _
    · rw [appendEntry, GuiList.next_setNext, Function.update_of_ne hlast.symm,
        GuiList.next_store]
      exact Function.update_self _ _ _
  · intro addr haddr
    rw [← List.cons_append, List.mem_append, List.mem_singleton] at haddr
    rcases haddr with hold | rfl
    · exact alloc.mem_take_of_mem (hlinked.used addr hold)
    · exact alloc.next_mem_take list.used
  · rw [← List.cons_append, List.map_append, List.map_append,
      ← hlinked.entries, List.map_singleton, List.map_singleton]
    congr 1
    · apply List.map_congr_left
      intro addr haddr
      rw [appendEntry, GuiList.entry_setNext, GuiList.entry_store,
        Function.update_of_ne (hfresh addr haddr)]
      rfl
    · rw [appendEntry, GuiList.entry_setNext, GuiList.entry_store,
        Function.update_self]

omit [DecidableEq Addr] in
/-- Once files were added, following the links visits them in order. -/
theorem cyclic (hlinked : Linked list rest paths)
    (hcount : list.numUnsyncFiles = paths.length) : Cyclic list paths where
  distinct := by
    intro left hleft right hright hsame
    rw [← hlinked.length_nodes] at hleft hright
    exact hlinked.ring.follow_inj hleft hright hsame
  returns := by
    rw [← hlinked.length_nodes]
    exact hlinked.ring.follow_length
  carried := by
    intro index path hpath
    have hindex : index < (list.usyncListHead :: rest).length := by
      rw [hlinked.length_nodes]
      exact (List.getElem?_eq_some_iff.mp hpath).1
    refine ⟨(list.usyncListHead :: rest)[index], ?_, ?_, ?_⟩
    · exact hlinked.used _ (List.getElem_mem hindex)
    · rw [hlinked.ring.follow_of_lt hindex, List.getElem?_eq_getElem hindex]
    · have hentry := congrArg (fun entries => entries[index]?) hlinked.entries
      simp only [List.getElem?_map, hpath, List.getElem?_eq_getElem hindex,
        Option.map_some, Option.some.injEq] at hentry
      exact hentry
  count := hcount

/-- The second branch finds the last entry and appends to it. -/
theorem linkEntry (hlinked : Linked list rest paths)
    (alloc : Allocator Addr) {fuel : ℕ} (hfuel : paths.length ≤ fuel)
    (filepath : List Byte) :
    ∃ last rest', UnsyncList.linkEntry alloc fuel list filepath
        (basename filepath) =
          .ok (appendEntry alloc list last filepath (basename filepath)) ∧
      Linked (appendEntry alloc list last filepath (basename filepath)) rest'
        (paths ++ [filepath]) := by
  obtain ⟨front, last, hsplit⟩ := exists_last list rest
  have hlength : rest.length < paths.length := by
    rw [← hlinked.length_nodes, List.length_cons]
    exact Nat.lt_succ_self _
  have hsearch : searchLast list fuel list.usyncListHead = .ok last :=
    @searchLast_eq _ _ _ _ _ hlinked [] rest _ _ rfl
      (by rw [hsplit, List.getLast?_concat]) fuel (hlength.trans_le hfuel)
  have hnext : (list.node list.usyncListHead).next ≠ none :=
    hlinked.ring.next_head_ne_none
  refine ⟨last, _, ?_, hlinked.append alloc hsplit filepath⟩
  rw [UnsyncList.linkEntry, hlinked.load_eq List.mem_cons_self,
    CResult.ok_bind, if_neg hnext, hsearch]
  rfl

end Linked

/-- The first branch stores the file in the head. -/
theorem linkEntry_first {list : GuiList Addr}
    (hused : list.usyncListHead ∈ list.used)
    (hnext : list.next list.usyncListHead = none) (alloc : Allocator Addr)
    (fuel : ℕ) (filepath filename : List Byte) :
    linkEntry alloc fuel list filepath filename =
      .ok (list.store list.usyncListHead
        ⟨filepath, filename, some list.usyncListHead⟩) := by
  have hload : list.load list.usyncListHead =
      .ok (list.node list.usyncListHead) := if_pos hused
  have hnull : (list.node list.usyncListHead).next = none := hnext
  rw [linkEntry, hload, CResult.ok_bind, if_pos hnull]
  rfl

/-! ## Sessions -/

/-- The list behind a session, which may be empty. -/
structure Shape (list : GuiList Addr) (paths : List (List Byte)) : Prop where
  nodes : (paths = [] ∧ list.usyncListHead ∈ list.used ∧
      list.next list.usyncListHead = none) ∨
    ∃ rest, Linked list rest paths
  count : list.numUnsyncFiles = paths.length

theorem shape_init (alloc : Allocator Addr) (used : Finset Addr)
    (node : Addr → UnsyncFileList Addr) :
    Shape (initUnsyncList alloc used node) [] where
  nodes := by
    refine Or.inl ⟨rfl, alloc.next_mem_take used, ?_⟩
    rw [initUnsyncList, GuiList.next_setNext]
    exact Function.update_self _ _ _
  count := rfl

namespace Shape

variable {list : GuiList Addr} {paths : List (List Byte)}

/-- Both branches of a call find what they need and keep the shape. -/
theorem linkEntry (hshape : Shape list paths) (alloc : Allocator Addr)
    {fuel : ℕ} (hfuel : paths.length ≤ fuel) (filepath : List Byte) :
    ∃ final, UnsyncList.linkEntry alloc fuel
        { list with numUnsyncFiles := list.numUnsyncFiles + 1 } filepath
        (basename filepath) = .ok final ∧
      Shape final (paths ++ [filepath]) := by
  have hcount : list.numUnsyncFiles + 1 =
      ((paths ++ [filepath]).length : ℤ) := by
    rw [hshape.count, List.length_append, List.length_singleton]
    rfl
  rcases hshape.nodes with ⟨rfl, hused, hnext⟩ | ⟨rest, hlinked⟩
  · have hlink := @linkEntry_first _ _
      { list with numUnsyncFiles := list.numUnsyncFiles + 1 } hused hnext
      alloc fuel filepath (basename filepath)
    exact ⟨_, hlink, Or.inr ⟨[], Linked.first filepath hused⟩, hcount⟩
  · have hcounted : Linked
        { list with numUnsyncFiles := list.numUnsyncFiles + 1 } rest paths :=
      ⟨hlinked.ring, hlinked.used, hlinked.entries⟩
    obtain ⟨last, rest', hlink, hnext⟩ :=
      hcounted.linkEntry alloc hfuel filepath
    exact ⟨_, hlink, Or.inr ⟨rest', hnext⟩, hcount⟩

/-- A call is defined as long as it comes to the list and the count has
room. -/
theorem addEntry_iff (hshape : Shape list paths) (alloc : Allocator Addr)
    (home : SyncHome) {fuel : ℕ} (hfuel : paths.length ≤ fuel)
    (call : AddCall) :
    (∃ final, addEntryUnsyncList alloc home fuel list call = .ok final) ↔
      Completes home call ∧ (paths.length : ℤ) < gintMax := by
  rw [← hshape.count]
  constructor
  · rintro ⟨final, hcall⟩
    obtain ⟨hcompletes, hroom, -⟩ := addEntry_eq_ok_iff.mp hcall
    exact ⟨hcompletes, hroom⟩
  · rintro ⟨hcompletes, hroom⟩
    obtain ⟨final, hlink, -⟩ := hshape.linkEntry alloc hfuel call.filepath
    exact ⟨final, addEntry_eq_ok_iff.mpr ⟨hcompletes, hroom, hlink⟩⟩

theorem addEntry (hshape : Shape list paths) {alloc : Allocator Addr}
    {home : SyncHome} {fuel : ℕ} (hfuel : paths.length ≤ fuel)
    {call : AddCall} {final : GuiList Addr}
    (hcall : addEntryUnsyncList alloc home fuel list call = .ok final) :
    Shape final (paths ++ [call.filepath]) := by
  obtain ⟨-, -, hlink⟩ := addEntry_eq_ok_iff.mp hcall
  obtain ⟨final', hlink', hnext⟩ :=
    hshape.linkEntry alloc hfuel call.filepath
  rw [hlink, CResult.ok.injEq] at hlink'
  rwa [hlink']

end Shape

theorem addAll_concat {alloc : Allocator Addr} {home : SyncHome} {fuel : ℕ}
    (list : GuiList Addr) (calls : List AddCall) (call : AddCall) :
    addAll alloc home fuel list (calls ++ [call]) =
      addAll alloc home fuel list calls >>= fun middle =>
        addEntryUnsyncList alloc home fuel middle call := by
  rw [addAll, List.foldlM_append]
  simp only [List.foldlM_cons, List.foldlM_nil, bind_pure]
  rfl

section Session

variable (alloc : Allocator Addr) (home : SyncHome) (used : Finset Addr)
variable (node : Addr → UnsyncFileList Addr) {fuel : ℕ}

theorem shape_addAll {calls : List AddCall} (hfuel : calls.length ≤ fuel)
    {final : GuiList Addr}
    (hrun : addAll alloc home fuel (initUnsyncList alloc used node) calls =
      .ok final) :
    Shape final (calls.map AddCall.filepath) := by
  induction calls using List.reverseRecOn generalizing final with
  | nil =>
      rw [← CResult.ok.inj hrun]
      exact shape_init alloc used node
  | append_singleton calls call ih =>
      rw [List.length_append, List.length_singleton] at hfuel
      rw [addAll_concat, CResult.bind_eq_ok_iff] at hrun
      obtain ⟨middle, hfront, hlast⟩ := hrun
      have hshape := ih (Nat.le_of_succ_le hfuel) hfront
      rw [List.map_append, List.map_singleton]
      exact hshape.addEntry
        (by rw [List.length_map]; exact Nat.le_of_succ_le hfuel) hlast

/-- A session is defined exactly as long as all calls come to the list and the
count of files has room. -/
theorem addAll_iff {calls : List AddCall} (hfuel : calls.length ≤ fuel) :
    (∃ final, addAll alloc home fuel (initUnsyncList alloc used node) calls =
        .ok final) ↔
      (∀ call ∈ calls, Completes home call) ∧
        (calls.length : ℤ) ≤ gintMax := by
  induction calls using List.reverseRecOn with
  | nil => simp [addAll, gintMax]
  | append_singleton calls call ih =>
      have hbelow : calls.length ≤ fuel := by
        rw [List.length_append] at hfuel
        exact Nat.le_of_add_right_le hfuel
      have hpaths : (calls.map AddCall.filepath).length ≤ fuel := by
        rwa [List.length_map]
      rw [addAll_concat, List.forall_mem_append, List.forall_mem_singleton,
        List.length_append, List.length_singleton]
      constructor
      · rintro ⟨final, hrun⟩
        obtain ⟨middle, hfront, hlast⟩ :=
          (CResult.bind_eq_ok_iff _ _ _).mp hrun
        have hshape := shape_addAll alloc home used node hbelow hfront
        obtain ⟨hcall, hroom⟩ :=
          (hshape.addEntry_iff alloc home hpaths call).mp ⟨final, hlast⟩
        rw [List.length_map] at hroom
        exact ⟨⟨((ih hbelow).mp ⟨middle, hfront⟩).1, hcall⟩, hroom⟩
      · rintro ⟨⟨hcalls, hcall⟩, hroom⟩
        have hroom : (calls.length : ℤ) < gintMax := hroom
        obtain ⟨middle, hfront⟩ := (ih hbelow).mpr ⟨hcalls, hroom.le⟩
        have hshape := shape_addAll alloc home used node hbelow hfront
        obtain ⟨final, hlast⟩ :=
          (hshape.addEntry_iff alloc home hpaths call).mpr
            ⟨hcall, by rwa [List.length_map]⟩
        exact ⟨final, (CResult.bind_eq_ok_iff _ _ _).mpr
          ⟨middle, hfront, hlast⟩⟩

/-- After any session of at least one call the list is a cycle of its files in
order, and the search of a further call ends.  With fuel for one test per file,
the session is cut short only by a call that does not come to the list or by an
overflow of the count. -/
theorem unsyncList_cyclic {calls : List AddCall} (hne : calls ≠ [])
    (hfuel : calls.length ≤ fuel) :
    ((∃ final, addAll alloc home fuel (initUnsyncList alloc used node) calls =
        .ok final) ↔
      (∀ call ∈ calls, Completes home call) ∧
        (calls.length : ℤ) ≤ gintMax) ∧
      ∀ final, addAll alloc home fuel (initUnsyncList alloc used node) calls =
          .ok final →
        Cyclic final (calls.map AddCall.filepath) ∧ SearchEnds final := by
  refine ⟨addAll_iff alloc home used node hfuel, ?_⟩
  intro final hrun
  have hshape := shape_addAll alloc home used node hfuel hrun
  rcases hshape.nodes with ⟨hempty, -⟩ | ⟨rest, hlinked⟩
  · exact absurd (List.map_eq_nil_iff.mp hempty) hne
  · exact ⟨hlinked.cyclic hshape.count, hlinked.searchEnds⟩

end Session

/-- Three files of one name. -/
def sampleCalls : List AddCall :=
  ["/a/x", "/b/x", "/a/x"].map fun path =>
    ⟨cstr (path.toList.map charByte), nulFree_cstr _, true, true⟩

theorem unsyncList_cyclic_threeFiles :
    ∃ final, addAll lowest sampleHome 3
        (initUnsyncList lowest ∅ fun _ => ⟨[], [], none⟩) sampleCalls =
          .ok final ∧
      Cyclic final (sampleCalls.map AddCall.filepath) ∧ SearchEnds final := by
  have hcyclic := @unsyncList_cyclic _ _ lowest sampleHome ∅
    (fun _ => ⟨[], [], none⟩) 3 sampleCalls (by decide) (by decide)
  obtain ⟨final, hrun⟩ := hcyclic.1.mpr (by decide)
  exact ⟨final, hrun, hcyclic.2 final hrun⟩

end SyncAnywhere.UnsyncList
