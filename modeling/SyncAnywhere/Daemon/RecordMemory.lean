import SyncAnywhere.Daemon.FanOut
import SyncAnywhere.Ipc.Messages

/-!
# The bytes of a record

The fields `filename[32]` and `filepath[150]` of a record stand side by side, and
two unbounded copies fill them in this order.  A long name runs into the path
field and loses its end, and its NUL, to the path.
-/

namespace SyncAnywhere.RecordMemory

open SyncAnywhere.CMemory
open SyncAnywhere.Messages
open SyncAnywhere.RingLog
open SyncAnywhere.TaskQueue
open SyncAnywhere.FanOut

/-- `strcpy` to a place inside an array. -/
def strcpyAt {size : ℕ} (array : CharArray size) (offset : ℕ)
    (text : List Byte) : CResult (CharArray size) :=
  if hfits : offset + text.length < size then
    .ok
      { bytes := array.bytes.take offset ++ text ++
          0#8 :: array.bytes.drop (offset + text.length + 1)
        length_bytes := by
          rw [List.length_append, List.length_append, List.length_take,
            List.length_cons, List.length_drop, array.length_bytes]
          omega }
  else .undefined

/-- `SyncReposItem` with the bytes of its first two fields. -/
structure ReposRecord where
  names : CharArray (filenameSize + filepathSize)
  fileSize : BitVec 32
  destIp : List Byte
  isUsed : ℤ

/-- `TaskQueue.SyncRepos` over these records. -/
structure ReposMemory where
  syncfileRepos : ℕ → ReposRecord
  peerList : Fin maxPeerNum → PeerIp
  queueHead : ℕ
  queueTail : ℕ

/-- The copies of one turn of the loop, and the advance of the head. -/
def writeRecord (filename filepath : List Byte) (fileLen : BitVec 32)
    (ip : List Byte) (repos : ReposMemory) : CResult ReposMemory := do
  let record := repos.syncfileRepos repos.queueHead
  let names ← strcpyAt record.names 0 filename
  let names ← strcpyAt names filenameSize filepath
  let next := repos.queueHead + 1
  pure { repos with
    syncfileRepos := Function.update repos.syncfileRepos repos.queueHead
      { record with names := names, destIp := ip, fileSize := fileLen }
    queueHead := if next = maxReposNum then 0 else next }

def addForPeer (isLocalIp : List Byte → ℤ) (filename filepath : List Byte)
    (fileLen : BitVec 32) (repos : ReposMemory) (peer : PeerIp) :
    CResult ReposMemory :=
  if peer.isUsed = 0 ∧ isLocalIp peer.ip = 0 then
    writeRecord filename filepath fileLen peer.ip repos
  else pure repos

def addItem2SyncRepos (isLocalIp : List Byte → ℤ)
    (filename filepath : List Byte) (fileLen : BitVec 32)
    (repos : ReposMemory) : CResult ReposMemory :=
  (List.ofFn repos.peerList).foldlM
    (addForPeer isLocalIp filename filepath fileLen) repos

/-- The reads of `filename` and `filepath` run to the first NUL. -/
def ReposRecord.item (record : ReposRecord) : SyncReposItem where
  filename := cstr record.names.bytes
  filepath := cstr (record.names.bytes.drop filenameSize)
  fileSize := record.fileSize
  destIp := record.destIp
  isUsed := record.isUsed

/-- The queue as its readers see it. -/
def ReposMemory.view (repos : ReposMemory) : SyncRepos where
  syncfileRepos slot := (repos.syncfileRepos slot).item
  peerList := repos.peerList
  queueHead := repos.queueHead
  queueTail := repos.queueTail

def getCurrentUnsyncedFile (repos : ReposMemory) :
    List Byte × BitVec 32 × List Byte :=
  TaskQueue.getCurrentUnsyncedFile repos.view

/-! ## One record -/

/-- What is read back as the name: of a name that does not fit its field only
the first 32 bytes are left, and the path follows them. -/
def storedName (filename filepath : List Byte) : List Byte :=
  if filename.length < filenameSize then filename
  else filename.take filenameSize ++ filepath

section Record

variable {filename filepath : List Byte}

theorem bytes_of_strcpyAt {size offset : ℕ} {array copied : CharArray size}
    {text : List Byte} (hcopied : strcpyAt array offset text = .ok copied) :
    copied.bytes = array.bytes.take offset ++ text ++
      0#8 :: array.bytes.drop (offset + text.length + 1) := by
  rw [strcpyAt] at hcopied
  split_ifs at hcopied
  rw [← CResult.ok.inj hcopied]

theorem exists_strcpyAt {size offset : ℕ} (array : CharArray size)
    {text : List Byte} (hfits : offset + text.length < size) :
    ∃ copied, strcpyAt array offset text = .ok copied := by
  rw [strcpyAt, dif_pos hfits]
  exact ⟨_, rfl⟩

/-- The two fields behind the two copies. -/
theorem names_written (hname : NulFree filename) (hpath : NulFree filepath)
    {before middle after : CharArray (filenameSize + filepathSize)}
    (hfirst : strcpyAt before 0 filename = .ok middle)
    (hsecond : strcpyAt middle filenameSize filepath = .ok after) :
    cstr after.bytes = storedName filename filepath ∧
      cstr (after.bytes.drop filenameSize) = filepath := by
  have hmiddle := bytes_of_strcpyAt hfirst
  have hafter := bytes_of_strcpyAt hsecond
  have hlength : (middle.bytes.take filenameSize).length = filenameSize := by
    rw [List.length_take, middle.length_bytes]
    exact Nat.min_eq_left (Nat.le_add_right _ _)
  rw [List.take_zero, List.nil_append] at hmiddle
  constructor
  · rw [hafter, storedName]
    by_cases hfits : filename.length < filenameSize
    · have htake : ∃ behind,
          middle.bytes.take filenameSize = filename ++ 0#8 :: behind := by
        obtain ⟨extra, hextra⟩ := Nat.exists_eq_add_of_lt hfits
        rw [hmiddle]
        generalize before.bytes.drop _ = rest
        rw [hextra, Nat.add_assoc, List.take_length_add_append,
          List.take_succ_cons]
        exact ⟨_, rfl⟩
      obtain ⟨behind, hbehind⟩ := htake
      rw [if_pos hfits, hbehind]
      simp only [List.append_assoc, List.cons_append]
      exact cstr_terminated hname _
    · have htake : middle.bytes.take filenameSize =
          filename.take filenameSize := by
        rw [hmiddle, List.take_append_of_le_length (not_lt.mp hfits)]
      have hfree : NulFree (filename.take filenameSize) :=
        fun byte hbyte => hname byte (List.mem_of_mem_take hbyte)
      rw [if_neg hfits, htake]
      exact cstr_terminated (hfree.append hpath) _
  · rw [hafter, List.append_assoc, List.drop_left' hlength]
    exact cstr_terminated hpath _

/-- The name is stored exactly when it fits its field: what else is read back is
longer than the path. -/
theorem storedName_eq_iff (hsuffix : filename.length ≤ filepath.length) :
    storedName filename filepath = filename ↔
      filename.length < filenameSize := by
  rw [storedName]
  by_cases hfits : filename.length < filenameSize
  · rw [if_pos hfits]
    exact iff_of_true rfl hfits
  · rw [if_neg hfits]
    apply iff_of_false _ hfits
    intro heq
    have hlength := congrArg List.length heq
    rw [List.length_append, List.length_take,
      Nat.min_eq_left (not_lt.mp hfits)] at hlength
    have hpos : 0 < filenameSize := by decide
    omega

end Record

/-! ## One add -/

section Add

variable {isLocalIp : List Byte → ℤ} {filename filepath : List Byte}
variable {fileLen : BitVec 32}

/-- As its readers see it, a record gets the path and what is left of the
name. -/
theorem writeRecord_view (hname : NulFree filename) (hpath : NulFree filepath)
    (hnameFits : filename.length < filenameSize + filepathSize)
    (hpathFits : filepath.length < filepathSize) (ip : List Byte)
    (repos : ReposMemory) :
    ∃ final, writeRecord filename filepath fileLen ip repos = .ok final ∧
      final.view = writeTask repos.view
        ⟨storedName filename filepath, filepath, fileLen, ip⟩ := by
  obtain ⟨middle, hmiddle⟩ := exists_strcpyAt
    (repos.syncfileRepos repos.queueHead).names
    (show 0 + filename.length < filenameSize + filepathSize by omega)
  obtain ⟨after, hafter⟩ := exists_strcpyAt middle
    (show filenameSize + filepath.length < filenameSize + filepathSize by omega)
  obtain ⟨hread, hpathRead⟩ := names_written hname hpath hmiddle hafter
  simp only [writeRecord, hmiddle, CResult.ok_bind, hafter, CResult.pure_eq_ok,
    CResult.ok.injEq, exists_eq_left']
  rw [ReposMemory.view, writeTask]
  congr 1
  funext slot
  by_cases hslot : slot = repos.queueHead
  · subst hslot
    simp [ReposMemory.view, ReposRecord.item, hread, hpathRead]
  · simp [ReposMemory.view, hslot]

/-- The add refines the add on records of strings, with what is left of the
name in the place of the name. -/
theorem addItem_view (hname : NulFree filename) (hpath : NulFree filepath)
    (hnameFits : filename.length < filenameSize + filepathSize)
    (hpathFits : filepath.length < filepathSize) (repos : ReposMemory) :
    ∃ final, addItem2SyncRepos isLocalIp filename filepath fileLen repos =
        .ok final ∧
      final.view = TaskQueue.addItem2SyncRepos isLocalIp
        (storedName filename filepath) filepath fileLen repos.view := by
  rw [addItem2SyncRepos, TaskQueue.addItem2SyncRepos, ReposMemory.view]
  change ∃ final : ReposMemory, _ ∧ final.view =
    (List.ofFn repos.peerList).foldl _ repos.view
  generalize List.ofFn repos.peerList = peers
  induction peers generalizing repos with
  | nil => exact ⟨repos, rfl, rfl⟩
  | cons peer peers ih =>
      rw [List.foldlM_cons, List.foldl_cons, addForPeer]
      by_cases haccepted : peer.isUsed = 0 ∧ isLocalIp peer.ip = 0
      · obtain ⟨next, hwrite, hview⟩ := @writeRecord_view _ _ fileLen hname
          hpath hnameFits hpathFits peer.ip repos
        rw [if_pos haccepted, if_pos haccepted, hwrite, CResult.ok_bind,
          ← hview]
        exact ih next
      · rw [if_neg haccepted, if_neg haccepted]
        exact ih repos

/-- The peers that get a record, in the order of the peer list. -/
def acceptedPeers (isLocalIp : List Byte → ℤ)
    (peerList : Fin maxPeerNum → PeerIp) : List PeerIp :=
  (List.ofFn peerList).filter
    fun peer => peer.isUsed = 0 ∧ isLocalIp peer.ip = 0

/-- The name in every slot that an add wrote. -/
theorem filename_of_view {repos final : ReposMemory}
    (hhead : repos.queueHead < maxReposNum)
    (hview : final.view = TaskQueue.addItem2SyncRepos isLocalIp filename
      filepath fileLen repos.view) {index : ℕ}
    (hindex : index < (acceptedPeers isLocalIp repos.peerList).length) :
    (getCurrentUnsyncedFile { final with
      queueTail := burstSlot maxReposNum repos.queueHead index }).1 =
        filename := by
  have hfans := @fansOut_addItem isLocalIp filename filepath fileLen repos.view
    hhead
  have htask : (acceptedTasks isLocalIp filename filepath fileLen
      repos.view.peerList)[index]? = some ⟨filename, filepath, fileLen,
        (acceptedPeers isLocalIp repos.peerList)[index].ip⟩ := by
    rw [acceptedTasks, List.getElem?_map]
    change ((acceptedPeers isLocalIp repos.peerList)[index]?).map _ = _
    rw [List.getElem?_eq_getElem hindex]
    rfl
  have hplaced := hfans.placed index _ htask
  rw [← hview] at hplaced
  exact congrArg SyncTask.filename hplaced

/-- The head stays inside the array, add after add. -/
theorem queueHead_lt_of_addItem (hname : NulFree filename)
    (hpath : NulFree filepath)
    (hnameFits : filename.length < filenameSize + filepathSize)
    (hpathFits : filepath.length < filepathSize) {repos final : ReposMemory}
    (hhead : repos.queueHead < maxReposNum)
    (hfinal : addItem2SyncRepos isLocalIp filename filepath fileLen repos =
      .ok final) : final.queueHead < maxReposNum := by
  obtain ⟨added, hadded, hview⟩ := @addItem_view isLocalIp _ _ fileLen hname
    hpath hnameFits hpathFits repos
  obtain rfl := CResult.ok.inj (hadded.symm.trans hfinal)
  have hfans := @fansOut_addItem isLocalIp (storedName filename filepath)
    filepath fileLen repos.view hhead
  rw [← hview] at hfans
  exact hfans.head.trans_lt (Nat.mod_lt _ (by decide))

end Add

/-- The name of an added path is read back from every slot of the add exactly
when it has at most 31 bytes, or no peer gets a record. -/
theorem storedNames_exact_iff {path : List Byte} (hfree : NulFree path)
    (hmax : path.length ≤ 117) (isLocalIp : List Byte → ℤ)
    (fileLen : BitVec 32) (repos : ReposMemory)
    (hhead : repos.queueHead < maxReposNum) :
    ∃ final, addItem2SyncRepos isLocalIp (basename path) path fileLen repos =
        .ok final ∧
      ((∀ index < (acceptedPeers isLocalIp repos.peerList).length,
        (getCurrentUnsyncedFile { final with
          queueTail := burstSlot maxReposNum repos.queueHead index }).1 =
            basename path) ↔
        (basename path).length ≤ 31 ∨
          acceptedPeers isLocalIp repos.peerList = []) := by
  have hsuffix := (basename_isSuffix path).length_le
  obtain ⟨final, hfinal, hview⟩ := @addItem_view isLocalIp _ _ fileLen
    (nulFree_basename hfree) hfree
    ((hsuffix.trans hmax).trans_lt (by decide)) (hmax.trans_lt (by decide))
    repos
  refine ⟨final, hfinal, ?_⟩
  have hread := fun index => @filename_of_view _ _ _ _ _ _ hhead hview index
  constructor
  · intro hnames
    cases hpeers : acceptedPeers isLocalIp repos.peerList with
    | nil => exact Or.inr rfl
    | cons peer peers =>
        have hfirst : 0 < (acceptedPeers isLocalIp repos.peerList).length := by
          rw [hpeers]
          exact Nat.succ_pos _
        have hstored := (hread 0 hfirst).symm.trans (hnames 0 hfirst)
        exact Or.inl (Nat.le_of_lt_succ
          ((storedName_eq_iff hsuffix).mp hstored))
  · rintro hcondition index hindex
    rcases hcondition with hshort | hnone
    · rw [hread index hindex]
      exact (storedName_eq_iff hsuffix).mpr (Nat.lt_succ_of_le hshort)
    · rw [hnone] at hindex
      exact absurd hindex (Nat.not_lt_zero index)

/-- The daemon's queue with records of zeros. -/
def zeroMemory : ReposMemory where
  syncfileRepos _ := ⟨CharArray.zero _, 0#32, [], 0⟩
  peerList := daemonRepos.peerList
  queueHead := 0
  queueTail := 0

theorem storedNames_exact_short :
    ∃ final, addItem2SyncRepos (fun _ => 0) (basename [0x2f#8, 0x61#8])
        [0x2f#8, 0x61#8] 5#32 zeroMemory = .ok final ∧
      ∀ index < (acceptedPeers (fun _ => 0) zeroMemory.peerList).length,
        (getCurrentUnsyncedFile { final with
          queueTail := burstSlot maxReposNum zeroMemory.queueHead index }).1 =
            basename [0x2f#8, 0x61#8] := by
  obtain ⟨final, hfinal, hnames⟩ := @storedNames_exact_iff [0x2f#8, 0x61#8]
    (by decide) (by decide) (fun _ => 0) 5#32 zeroMemory (by decide)
  exact ⟨final, hfinal, hnames.mpr (Or.inl (by decide))⟩

/-- A name of 32 bytes loses its NUL to the path. -/
theorem longName_runsIntoPath :
    basename (0x2f#8 :: List.replicate 32 0x61#8) = List.replicate 32 0x61#8 ∧
      (addItem2SyncRepos (fun _ => 0) (List.replicate 32 0x61#8)
          (0x2f#8 :: List.replicate 32 0x61#8) 5#32 zeroMemory >>= fun final =>
        .ok (getCurrentUnsyncedFile final).1) =
      .ok (List.replicate 32 0x61#8 ++ 0x2f#8 :: List.replicate 32 0x61#8) := by
  refine ⟨by decide, ?_⟩
  decide +kernel

end SyncAnywhere.RecordMemory
