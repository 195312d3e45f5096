import SyncAnywhere.Daemon.TaskQueue

/-!
# One added file, one record for every other peer

`addItem2SyncRepos` copies a name, a path and an address into fields of fixed
size.  The peer list keeps addresses of up to 29 bytes, the record has room for
19, and nothing between the two checks the length.
-/

namespace SyncAnywhere.FanOut

open SyncAnywhere.CMemory
open SyncAnywhere.Numeral
open SyncAnywhere.RingLog
open SyncAnywhere.Run
open SyncAnywhere.TaskQueue

abbrev filenameSize : ℕ := 32

abbrev filepathSize : ℕ := 150

abbrev destIpSize : ℕ := 20

/-- `strcpy`, or `sprintf` with `%s`, into an array of `size` bytes: the text
and its NUL have to fit. -/
def strcpy (size : ℕ) (text : List Byte) : CResult (List Byte) :=
  if text.length < size then .ok text else .undefined

/-- The body of the loop over the peer list. -/
def addForPeer (isLocalIp : List Byte → ℤ) (filename filepath : List Byte)
    (fileLen : BitVec 32) (repos : SyncRepos) (peer : PeerIp) :
    CResult SyncRepos :=
  if peer.isUsed = 0 ∧ isLocalIp peer.ip = 0 then do
    let filename ← strcpy filenameSize filename
    let filepath ← strcpy filepathSize filepath
    let destIp ← strcpy destIpSize peer.ip
    pure (writeTask repos ⟨filename, filepath, fileLen, destIp⟩)
  else pure repos

/-- `addItem2SyncRepos` with the sizes of the fields it writes to. -/
def addItem2SyncRepos (isLocalIp : List Byte → ℤ)
    (filename filepath : List Byte) (fileLen : BitVec 32)
    (repos : SyncRepos) : CResult SyncRepos :=
  (List.ofFn repos.peerList).foldlM
    (addForPeer isLocalIp filename filepath fileLen) repos

/-- The effect of one add: the records of the valid peers that are not this
machine stand in consecutive slots from the head on, and nothing else
changes. -/
structure FansOut (isLocalIp : List Byte → ℤ) (filename filepath : List Byte)
    (fileLen : BitVec 32) (before after : SyncRepos) : Prop where
  placed : ∀ index task,
    (acceptedTasks isLocalIp filename filepath fileLen
      before.peerList)[index]? = some task →
    (after.syncfileRepos
      (burstSlot maxReposNum before.queueHead index)).toSyncTask = task
  kept : ∀ slot,
    (∀ index < (acceptedTasks isLocalIp filename filepath fileLen
      before.peerList).length,
      burstSlot maxReposNum before.queueHead index ≠ slot) →
    after.syncfileRepos slot = before.syncfileRepos slot
  flags : ∀ slot,
    (after.syncfileRepos slot).isUsed = (before.syncfileRepos slot).isUsed
  head : after.queueHead =
    (before.queueHead + (acceptedTasks isLocalIp filename filepath fileLen
      before.peerList).length) % maxReposNum
  tail : after.queueTail = before.queueTail
  peers : after.peerList = before.peerList

/-! ## The writes of one add -/

theorem writeTask_isUsed (repos : SyncRepos) (task : SyncTask) (slot : ℕ) :
    ((writeTask repos task).syncfileRepos slot).isUsed =
      (repos.syncfileRepos slot).isUsed := by
  by_cases hslot : slot = repos.queueHead
  · subst hslot
    simp [writeTask]
  · simp [writeTask, hslot]

theorem foldl_writeTask_isUsed (repos : SyncRepos) (tasks : List SyncTask)
    (slot : ℕ) :
    ((tasks.foldl writeTask repos).syncfileRepos slot).isUsed =
      (repos.syncfileRepos slot).isUsed :=
  view_run_eq writeTask (fun repos => (repos.syncfileRepos slot).isUsed)
    (fun repos task => writeTask_isUsed repos task slot) repos tasks

theorem foldl_writeTask_queueTail (repos : SyncRepos)
    (tasks : List SyncTask) :
    (tasks.foldl writeTask repos).queueTail = repos.queueTail :=
  view_run_eq writeTask SyncRepos.queueTail (fun _ _ => rfl) repos tasks

theorem foldl_writeTask_queueHead {repos : SyncRepos}
    (hhead : repos.queueHead < maxReposNum) (tasks : List SyncTask) :
    (tasks.foldl writeTask repos).queueHead =
      burstSlot maxReposNum repos.queueHead tasks.length := by
  induction tasks using List.reverseRecOn with
  | nil => exact (Nat.mod_eq_of_lt hhead).symm
  | append_singleton tasks task ih =>
      rw [List.foldl_append, List.length_append, burstSlot, ← Nat.add_assoc,
        List.length_singleton, ← wrap_succ_mod (by decide)]
      rw [burstSlot] at ih
      rw [← ih]
      rfl

/-- Up to one turn of writes fills consecutive slots from the head on. -/
theorem foldl_writeTask_burst {repos : SyncRepos}
    (hhead : repos.queueHead < maxReposNum) {tasks : List SyncTask}
    (hroom : tasks.length ≤ maxReposNum) :
    Burst maxReposNum repos.queueHead
      (fun slot => (repos.syncfileRepos slot).toSyncTask)
      (fun slot =>
        ((tasks.foldl writeTask repos).syncfileRepos slot).toSyncTask)
      tasks := by
  induction tasks using List.reverseRecOn with
  | nil => exact Burst.nil _ _ _
  | append_singleton tasks task ih =>
      rw [List.length_append, List.length_singleton] at hroom
      rw [List.foldl_append, List.foldl_cons, List.foldl_nil,
        toSyncTask_writeTask, foldl_writeTask_queueHead hhead]
      exact (ih (Nat.le_of_succ_le hroom)).write hroom task

theorem reposItem_eq {left right : SyncReposItem}
    (htask : left.toSyncTask = right.toSyncTask)
    (hflag : left.isUsed = right.isUsed) : left = right := by
  cases left
  cases right
  simp_all

/-- The loop without the sizes of the fields has the effect of one add. -/
theorem fansOut_addItem {isLocalIp : List Byte → ℤ}
    {filename filepath : List Byte} {fileLen : BitVec 32} {repos : SyncRepos}
    (hhead : repos.queueHead < maxReposNum) :
    FansOut isLocalIp filename filepath fileLen repos
      (TaskQueue.addItem2SyncRepos isLocalIp filename filepath fileLen
        repos) := by
  have hroom := length_acceptedTasks_le isLocalIp filename filepath fileLen
    repos.peerList
  have hburst := foldl_writeTask_burst hhead
    (hroom.trans (by decide : maxPeerNum ≤ maxReposNum))
  rw [addItem2SyncRepos_eq_foldl]
  constructor
  · exact hburst.placed
  · intro slot hslot
    apply reposItem_eq
    · exact hburst.kept slot hslot
    · exact foldl_writeTask_isUsed repos _ slot
  · exact foldl_writeTask_isUsed repos _
  · exact foldl_writeTask_queueHead hhead _
  · exact foldl_writeTask_queueTail repos _
  · exact foldl_writeTask_peerList repos _

/-! ## The sizes of the fields -/

theorem strcpy_eq_ok_iff {size : ℕ} {text copied : List Byte} :
    strcpy size text = .ok copied ↔ text.length < size ∧ copied = text := by
  by_cases hfits : text.length < size
  · simp [strcpy, hfits, eq_comm]
  · simp [strcpy, hfits]

/-- One turn of the loop is defined exactly when the address of a peer that
gets a record fits into it. -/
theorem addForPeer_eq_ok_iff {isLocalIp : List Byte → ℤ}
    {filename filepath : List Byte} {fileLen : BitVec 32}
    {repos final : SyncRepos} {peer : PeerIp}
    (hname : filename.length < filenameSize)
    (hpath : filepath.length < filepathSize) :
    addForPeer isLocalIp filename filepath fileLen repos peer = .ok final ↔
      (peer.isUsed = 0 → isLocalIp peer.ip = 0 →
        peer.ip.length < destIpSize) ∧
      final =
        if peer.isUsed = 0 ∧ isLocalIp peer.ip = 0 then
          writeTask repos ⟨filename, filepath, fileLen, peer.ip⟩
        else repos := by
  by_cases haccepted : peer.isUsed = 0 ∧ isLocalIp peer.ip = 0
  · rw [addForPeer, if_pos haccepted, if_pos haccepted]
    simp only [CResult.bind_eq_ok_iff, strcpy_eq_ok_iff, CResult.pure_eq_ok,
      CResult.ok.injEq]
    constructor
    · rintro ⟨_, ⟨-, rfl⟩, _, ⟨-, rfl⟩, _, ⟨haddress, rfl⟩, rfl⟩
      exact ⟨fun _ _ => haddress, rfl⟩
    · rintro ⟨haddress, rfl⟩
      exact ⟨_, ⟨hname, rfl⟩, _, ⟨hpath, rfl⟩, _,
        ⟨haddress haccepted.1 haccepted.2, rfl⟩, rfl⟩
  · rw [addForPeer, if_neg haccepted, if_neg haccepted]
    simp only [CResult.pure_eq_ok, CResult.ok.injEq]
    constructor
    · rintro rfl
      exact ⟨fun hvalid hremote => absurd ⟨hvalid, hremote⟩ haccepted, rfl⟩
    · rintro ⟨-, rfl⟩
      rfl

theorem foldlM_addForPeer_eq_ok_iff {isLocalIp : List Byte → ℤ}
    {filename filepath : List Byte} {fileLen : BitVec 32}
    {repos final : SyncRepos} {peers : List PeerIp}
    (hname : filename.length < filenameSize)
    (hpath : filepath.length < filepathSize) :
    peers.foldlM (addForPeer isLocalIp filename filepath fileLen) repos =
        .ok final ↔
      (∀ peer ∈ peers, peer.isUsed = 0 → isLocalIp peer.ip = 0 →
        peer.ip.length < destIpSize) ∧
      final = peers.foldl
        (fun repos peer =>
          if peer.isUsed = 0 ∧ isLocalIp peer.ip = 0 then
            writeTask repos ⟨filename, filepath, fileLen, peer.ip⟩
          else repos)
        repos := by
  induction peers generalizing repos with
  | nil => simp [eq_comm]
  | cons peer peers ih =>
      rw [List.foldlM_cons, CResult.bind_eq_ok_iff, List.forall_mem_cons,
        List.foldl_cons]
      constructor
      · rintro ⟨next, hfirst, hrest⟩
        obtain ⟨haddress, rfl⟩ := (addForPeer_eq_ok_iff hname hpath).mp hfirst
        obtain ⟨haddresses, hfinal⟩ := ih.mp hrest
        exact ⟨⟨haddress, haddresses⟩, hfinal⟩
      · rintro ⟨⟨haddress, haddresses⟩, hfinal⟩
        exact ⟨_, (addForPeer_eq_ok_iff hname hpath).mpr ⟨haddress, rfl⟩,
          ih.mpr ⟨haddresses, hfinal⟩⟩

/-- With the field sizes the loop is defined exactly when every address it
copies fits, and then does what `TaskQueue.addItem2SyncRepos` does. -/
theorem addItem_eq_ok_iff {isLocalIp : List Byte → ℤ}
    {filename filepath : List Byte} {fileLen : BitVec 32}
    {repos final : SyncRepos}
    (hname : filename.length < filenameSize)
    (hpath : filepath.length < filepathSize) :
    addItem2SyncRepos isLocalIp filename filepath fileLen repos =
        .ok final ↔
      (∀ index, (repos.peerList index).isUsed = 0 →
        isLocalIp (repos.peerList index).ip = 0 →
        (repos.peerList index).ip.length < destIpSize) ∧
      final = TaskQueue.addItem2SyncRepos isLocalIp filename filepath fileLen
        repos := by
  rw [addItem2SyncRepos, foldlM_addForPeer_eq_ok_iff hname hpath,
    List.forall_mem_ofFn_iff]
  rfl

/-- One add has the effect it should have exactly when the address of every
valid peer that is not this machine fits into a record. -/
theorem addItem_fansOut_iff {isLocalIp : List Byte → ℤ}
    {filename filepath : List Byte} {fileLen : BitVec 32} {repos : SyncRepos}
    (hhead : repos.queueHead < maxReposNum)
    (hname : filename.length < filenameSize)
    (hpath : filepath.length < filepathSize) :
    (∃ final, addItem2SyncRepos isLocalIp filename filepath fileLen repos =
        .ok final ∧
      FansOut isLocalIp filename filepath fileLen repos final) ↔
      ∀ index, (repos.peerList index).isUsed = 0 →
        isLocalIp (repos.peerList index).ip = 0 →
        (repos.peerList index).ip.length < destIpSize := by
  constructor
  · rintro ⟨final, hrun, -⟩
    exact ((addItem_eq_ok_iff hname hpath).mp hrun).1
  · intro haddresses
    exact ⟨_, (addItem_eq_ok_iff hname hpath).mpr ⟨haddresses, rfl⟩,
      fansOut_addItem hhead⟩

/-- The daemon's own peer list on a machine that is neither of its peers, with
the second record in slot 0. -/
theorem addItem_fansOut_atWrap :
    ∃ final, addItem2SyncRepos (fun _ => 0) ("a".toList.map charByte)
        ("/home/a".toList.map charByte) 5#32
        { daemonRepos with queueHead := 29 } = .ok final ∧
      FansOut (fun _ => 0) ("a".toList.map charByte)
        ("/home/a".toList.map charByte) 5#32
        { daemonRepos with queueHead := 29 } final :=
  (addItem_fansOut_iff (by decide) (by decide) (by decide)).mpr (by decide)

/-- The daemon's queue when its second peer has an address of 28 bytes. -/
def ipv6Repos : SyncRepos :=
  { daemonRepos with
    peerList := fun index =>
      if index.val = 1 then
        ⟨"2001:db8:85a3::8a2e:370:7334".toList.map charByte, 0⟩
      else daemonRepos.peerList index }

/-- The address and its NUL are nine bytes longer than the field. -/
theorem addItem_ipv6Peer_overflows :
    ¬ ∃ final, addItem2SyncRepos (fun _ => 0) ("a".toList.map charByte)
        ("/home/a".toList.map charByte) 5#32 ipv6Repos = .ok final ∧
      FansOut (fun _ => 0) ("a".toList.map charByte)
        ("/home/a".toList.map charByte) 5#32 ipv6Repos final := by
  rintro ⟨final, hrun, -⟩
  obtain ⟨haddresses, -⟩ :=
    (addItem_eq_ok_iff (by decide) (by decide)).mp hrun
  exact absurd (haddresses 1 rfl rfl) (by decide)

end SyncAnywhere.FanOut
