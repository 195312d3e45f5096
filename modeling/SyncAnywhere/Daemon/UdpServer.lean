import SyncAnywhere.Core.ByteStream
import SyncAnywhere.Core.Numeral
import SyncAnywhere.Core.ReceivedLine
import SyncAnywhere.Ipc.FilePaths

/-!
# Serving files by name

`udp_sync_server` accepts one connection after the other, reads a name from each
and sends the file of that name.  What it cannot serve ends the whole process.
-/

namespace SyncAnywhere.UdpServer

open SyncAnywhere.CMemory
open SyncAnywhere.ByteStream
open SyncAnywhere.Numeral
open SyncAnywhere.ReceivedLine
open SyncAnywhere.FilePaths

/-- The array `filename[25]`, which is set up once and never cleared. -/
abbrev NameBuffer := CharArray 25

/-- The files that `open` can read under a name. -/
abbrev Directory := List Byte → Option (List Byte)

/-- What `recv` delivers on an accepted connection, and what `sendfile` returns
on it for a file of the given bytes. -/
structure Request where
  /-- `none` when `recv` returns `-1`. -/
  firstRecv : Option (List Byte)
  sendfile : List Byte → ℤ
  firstRecv_length : ∀ bytes ∈ firstRecv, bytes.length ≤ 25
  neg_one_le_sendfile : ∀ content, -1 ≤ sendfile content
  sendfile_le : ∀ content, sendfile content ≤ content.length

/-- What the peer receives, and how the turn ends: with the next `accept`, with
the `break` of the loop (`none`), or otherwise. -/
structure Served where
  delivered : Option (List Byte)
  next : CResult (Option NameBuffer)

def quit : List Byte := "quit".toList.map charByte

/-- The turn up to the comparison with `"quit"`. -/
def receiveName (home : SyncHome) (filename : NameBuffer)
    (request : Request) : CResult NameBuffer :=
  match hrecv : request.firstRecv with
  | none => .exited
  | some got => do
      let filename ← receiveLine filename got
        (request.firstRecv_length got hrecv)
      let _ ← sprintfFilepath home 250 filename.text
      pure filename

/-- One turn of the accept loop.  The file is opened under the bare name, not
under the path, and `rc` is an `int`. -/
def serveRequest (home : SyncHome) (dir : Directory) (filename : NameBuffer)
    (request : Request) : Served :=
  match receiveName home filename request with
  | .exited => ⟨none, .exited⟩
  | .undefined => ⟨none, .undefined⟩
  | .ok filename =>
      if filename.text = quit then ⟨none, .ok none⟩
      else
        match dir filename.text with
        | none => ⟨none, .exited⟩
        | some content =>
            let sent := request.sendfile content
            let rc := (BitVec.ofInt 32 sent).toInt
            ⟨some (taken content sent),
              if rc = -1 then .exited
              else if rc ≠ content.length then .exited
              else .ok (some filename)⟩

/-- What each of a sequence of connections receives. -/
def udpSyncServer (home : SyncHome) (dir : Directory) :
    NameBuffer → List Request → List (Option (List Byte))
  | _, [] => []
  | filename, request :: requests =>
      let served := serveRequest home dir filename request
      served.delivered ::
        match served.next with
        | .ok (some filename) => udpSyncServer home dir filename requests
        | _ => requests.map fun _ => none

/-! ## One request -/

/-- The server gets as far as opening a file. -/
def Accepted (name : List Byte) : Prop :=
  Strippable name ∧ lineText name ≠ quit

/-- The server goes on to the next connection. -/
def KeepsServing (dir : Directory) (name : List Byte) : Prop :=
  Accepted name ∧ ∃ content ∈ dir (lineText name), content.length < 2 ^ 31

instance (name : List Byte) : Decidable (Accepted name) :=
  inferInstanceAs (Decidable (_ ∧ _))

instance (dir : Directory) (name : List Byte) :
    Decidable (KeepsServing dir name) :=
  inferInstanceAs (Decidable (_ ∧ _))

/-- A connection that sends a short name other than `"quit"`, on which every
call succeeds in full. -/
structure FileRequest where
  name : List Byte
  name_pos : 1 ≤ name.length
  name_le : name.length ≤ 24
  name_ne_quit : name ≠ quit

def FileRequest.request (request : FileRequest) : Request where
  firstRecv := some request.name
  sendfile content := content.length
  firstRecv_length := by
    intro bytes hbytes
    rw [← Option.some_inj.mp hbytes]
    exact request.name_le.trans (Nat.le_succ 24)
  neg_one_le_sendfile content :=
    (Int.neg_nonpos_of_nonneg zero_le_one).trans (Int.natCast_nonneg _)
  sendfile_le _ := le_rfl

theorem FileRequest.firstRecv_request (request : FileRequest) :
    request.request.firstRecv = some request.name := rfl

/-- A count comes back from the `int` exactly when it is below `2^31`. -/
theorem toInt_ofInt_natCast_iff (count : ℕ) :
    (BitVec.ofInt 32 (count : ℤ)).toInt = count ↔ count < 2 ^ 31 := by
  constructor
  · intro heq
    have hlt := @BitVec.toInt_lt 32 (BitVec.ofInt 32 (count : ℤ))
    rw [heq] at hlt
    exact_mod_cast hlt
  · intro hlt
    rw [BitVec.ofInt_natCast,
      BitVec.toInt_eq_toNat_of_lt (by rw [BitVec.toNat_ofNat]; omega),
      BitVec.toNat_ofNat, Nat.mod_eq_of_lt (by omega)]

section Turn

variable (home : SyncHome) (dir : Directory) (filename : NameBuffer)

/-- The path always fits its 250 bytes, so only the stripping can fail. -/
theorem receiveName_eq_ok_iff {name : List Byte} (hname : name.length ≤ 25)
    {request : Request} (hrecv : request.firstRecv = some name)
    (line : NameBuffer) :
    receiveName home filename request = .ok line ↔
      receiveLine filename name hname = .ok line := by
  rw [receiveName]
  split
  next hnone => simp [hrecv] at hnone
  next got hgot =>
    cases Option.some.inj (hrecv.symm.trans hgot)
    rw [CResult.bind_eq_ok_iff]
    constructor
    · rintro ⟨text, htext, hrest⟩
      obtain ⟨_, -, hpure⟩ := (CResult.bind_eq_ok_iff _ _ _).mp hrest
      rw [htext, ← CResult.ok.inj hpure]
    · intro hline
      have hhome := home.length_lt
      have hshort := (lineText_isPrefix name).length_le
      refine ⟨line, hline, ?_⟩
      rw [text_of_receiveLine hname (by decide) hline,
        sprintfFilepath_eq home (nulFree_lineText name), if_pos (by omega)]
      rfl

theorem receiveName_defined_iff {name : List Byte} (hname : name.length ≤ 25)
    {request : Request} (hrecv : request.firstRecv = some name) :
    (∃ line, receiveName home filename request = .ok line) ↔
      name.length < 25 ∧ Strippable name := by
  simp only [receiveName_eq_ok_iff home filename hname hrecv]
  exact receiveLine_defined_iff filename hname (by decide)

/-- A name that the server accepts is answered with its file. -/
theorem serveRequest_of_accepted {request : FileRequest}
    (haccepted : Accepted request.name) :
    ∃ line, serveRequest home dir filename request.request =
      match dir (lineText request.name) with
      | none => ⟨none, .exited⟩
      | some content => ⟨some content,
          if content.length < 2 ^ 31 then .ok (some line) else .exited⟩ := by
  have hname := request.name_le.trans (Nat.le_succ 24)
  obtain ⟨line, hline⟩ := (receiveName_defined_iff home filename hname
    request.firstRecv_request).mpr
      ⟨Nat.lt_succ_of_le request.name_le, haccepted.1⟩
  have htext := text_of_receiveLine hname (by decide)
    ((receiveName_eq_ok_iff home filename hname request.firstRecv_request
      line).mp hline)
  refine ⟨line, ?_⟩
  rw [serveRequest, hline]
  simp only [htext, if_neg haccepted.2]
  cases dir (lineText request.name) with
  | none => rfl
  | some content =>
      have hsent : request.request.sendfile content = content.length := rfl
      simp only [hsent, taken_all]
      by_cases hsmall : content.length < 2 ^ 31
      · have hrc := (toInt_ofInt_natCast_iff content.length).mpr hsmall
        have hne : (content.length : ℤ) ≠ -1 := by omega
        simp only [hrc, hne, hsmall, ne_eq, not_true_eq_false, if_true,
          if_false]
      · have hrc := mt (toInt_ofInt_natCast_iff content.length).mp hsmall
        simp only [ne_eq, hrc, not_false_eq_true, if_true, ite_self, hsmall,
          if_false]

/-- A name that the server does not accept gets nothing and is the last. -/
theorem serveRequest_of_not_accepted {request : FileRequest}
    (hnot : ¬ Accepted request.name) :
    (serveRequest home dir filename request.request).delivered = none ∧
      ∀ line, (serveRequest home dir filename request.request).next ≠
        .ok (some line) := by
  have hname := request.name_le.trans (Nat.le_succ 24)
  rw [serveRequest]
  cases hline : receiveName home filename request.request with
  | exited => simp
  | undefined => simp
  | ok received =>
      have hstrip := ((receiveName_defined_iff home filename hname
        request.firstRecv_request).mp ⟨received, hline⟩).2
      have htext := text_of_receiveLine hname (by decide)
        ((receiveName_eq_ok_iff home filename hname request.firstRecv_request
          received).mp hline)
      have hquit : lineText request.name = quit := by
        by_contra hne
        exact hnot ⟨hstrip, hne⟩
      simp [htext, hquit]

end Turn

/-! ## A sequence of requests -/

section Requests

variable (home : SyncHome) (dir : Directory)

/-- What the peer gets when the server still runs. -/
def answer (name : List Byte) : Option (List Byte) :=
  if Accepted name then dir (lineText name) else none

theorem delivered_serveRequest (filename : NameBuffer) (request : FileRequest) :
    (serveRequest home dir filename request.request).delivered =
      answer dir request.name := by
  by_cases haccepted : Accepted request.name
  · obtain ⟨line, hserve⟩ :=
      serveRequest_of_accepted home dir filename haccepted
    rw [hserve, answer, if_pos haccepted]
    cases dir (lineText request.name) <;> rfl
  · rw [answer, if_neg haccepted]
    exact (serveRequest_of_not_accepted home dir filename haccepted).1

theorem next_serveRequest_iff (filename : NameBuffer) (request : FileRequest) :
    (∃ line, (serveRequest home dir filename request.request).next =
      .ok (some line)) ↔ KeepsServing dir request.name := by
  by_cases haccepted : Accepted request.name
  · obtain ⟨line, hserve⟩ :=
      serveRequest_of_accepted home dir filename haccepted
    rw [hserve, KeepsServing, and_iff_right haccepted]
    cases dir (lineText request.name) with
    | none => simp
    | some content =>
        dsimp only
        simp only [Option.mem_some_iff, exists_eq_left']
        by_cases hsmall : content.length < 2 ^ 31
        · rw [if_pos hsmall]
          exact iff_of_true ⟨line, rfl⟩ hsmall
        · rw [if_neg hsmall]
          exact iff_of_false (fun ⟨_, hexited⟩ => by contradiction) hsmall
  · obtain ⟨-, hlast⟩ :=
      serveRequest_of_not_accepted home dir filename haccepted
    constructor
    · rintro ⟨line, hline⟩
      exact absurd hline (hlast line)
    · exact fun hkeeps => absurd hkeeps.1 haccepted

/-- One turn: the first connection gets its answer, and the others are served
behind it exactly when it leaves the server running. -/
theorem udpSyncServer_cons (filename : NameBuffer) (request : FileRequest)
    (requests : List Request) :
    ∃ line, udpSyncServer home dir filename (request.request :: requests) =
      answer dir request.name ::
        if KeepsServing dir request.name then
          udpSyncServer home dir line requests
        else requests.map fun _ => none := by
  have hnext := next_serveRequest_iff home dir filename request
  by_cases hkeeps : KeepsServing dir request.name
  · obtain ⟨line, hline⟩ := hnext.mpr hkeeps
    refine ⟨line, ?_⟩
    rw [udpSyncServer, delivered_serveRequest, hline, if_pos hkeeps]
  · refine ⟨filename, ?_⟩
    rw [udpSyncServer, delivered_serveRequest, if_neg hkeeps]
    congr 1
    split
    next line hline => exact absurd (hnext.mp ⟨line, hline⟩) hkeeps
    next => rfl

/-- A connection gets its answer as long as every one before it left the server
running, and nothing otherwise. -/
theorem udpSyncServer_getElem? (filename : NameBuffer)
    (requests : List FileRequest) (index : ℕ) :
    (udpSyncServer home dir filename
        (requests.map FileRequest.request))[index]? =
      requests[index]?.map fun request =>
        if ∀ earlier ∈ requests.take index, KeepsServing dir earlier.name then
          answer dir request.name
        else none := by
  induction requests generalizing filename index with
  | nil => simp [udpSyncServer]
  | cons request requests ih =>
      obtain ⟨line, hrun⟩ := udpSyncServer_cons home dir filename request
        (requests.map FileRequest.request)
      rw [List.map_cons, hrun]
      cases index with
      | zero => simp
      | succ index =>
          simp only [List.getElem?_cons_succ, List.take_succ_cons,
            List.forall_mem_cons]
          by_cases hkeeps : KeepsServing dir request.name
          · simp only [hkeeps, if_true, ih, true_and]
          · simp only [hkeeps, if_false, false_and, List.map_map,
              List.getElem?_map]
            rfl

/-- Every connection that asks for a readable file gets it exactly when no
connection before it ends the server, and its own name is accepted. -/
theorem requests_independent_iff (filename : NameBuffer)
    (requests : List FileRequest) :
    (∀ (index : ℕ) (request : FileRequest) (content : List Byte),
        requests[index]? = some request →
        dir (lineText request.name) = some content →
        (udpSyncServer home dir filename
          (requests.map FileRequest.request))[index]? = some (some content)) ↔
      ∀ (index : ℕ) (request : FileRequest), requests[index]? = some request →
        (dir (lineText request.name)).isSome →
        Accepted request.name ∧
          ∀ earlier ∈ requests.take index, KeepsServing dir earlier.name := by
  constructor
  · intro hdelivered index request hrequest hreadable
    obtain ⟨content, hcontent⟩ := Option.isSome_iff_exists.mp hreadable
    have hgot := hdelivered index request content hrequest hcontent
    rw [udpSyncServer_getElem?, hrequest, Option.map_some, Option.some_inj,
      answer] at hgot
    split_ifs at hgot with hearlier haccepted
    exact ⟨haccepted, hearlier⟩
  · intro hcondition index request content hrequest hcontent
    obtain ⟨haccepted, hearlier⟩ := hcondition index request hrequest
      (Option.isSome_iff_exists.mpr ⟨content, hcontent⟩)
    rw [udpSyncServer_getElem?, hrequest, Option.map_some, if_pos hearlier,
      answer, if_pos haccepted, hcontent]

end Requests

/-- A connection that asks for a file with a name of one byte. -/
def letterRequest (letter : Byte) : FileRequest where
  name := [letter]
  name_pos := le_rfl
  name_le := Nat.le_add_left 1 23
  name_ne_quit heq := Nat.succ_ne_zero 2 (congrArg (List.length · - 1) heq).symm

/-- The directory with one file, "a". -/
def oneFileDir : Directory :=
  fun name => if name = [0x61#8] then some [0x62#8] else none

/-- A request for a file that is not there ends the process; the client behind
it asks for one that is and gets nothing. -/
theorem missingFile_ends_server :
    oneFileDir (lineText (letterRequest 0x61#8).name) = some [0x62#8] ∧
      udpSyncServer sampleHome oneFileDir (CharArray.zero 25)
        ([letterRequest 0x7a#8, letterRequest 0x61#8].map
          FileRequest.request) = [none, none] := by
  decide +kernel

end SyncAnywhere.UdpServer
