import SyncAnywhere.Core.CMemory

/-!
# Received lines

Every server and client reads a short text with one `recv` into an array, stores
a NUL at the received count and strips one line feed and one carriage return.
-/

namespace SyncAnywhere.ReceivedLine

open SyncAnywhere.CMemory

/-- `if (buf[strlen(buf)-1] == c) buf[strlen(buf)-1] = '\0';`  The index is
computed in the 64-bit `size_t`, so it is `2^64 - 1` for the empty string.
Every caller has stored a NUL before, so `strlen` stays inside the buffer. -/
def stripLast (byte : Byte) (buffer : List Byte) : CResult (List Byte) := do
  let last := (BitVec.ofNat 64 (strlen buffer) - 1#64).toNat
  let found ← load buffer last
  if found = byte then store buffer last 0#8 else pure buffer

/-- `buf[rc] = '\0';` followed by removing one line feed and then one carriage
return from the end of the string. -/
def terminateAndStrip (buffer : List Byte) (rc : ℕ) : CResult (List Byte) := do
  let buffer ← store buffer rc 0#8
  let buffer ← stripLast 0x0a#8 buffer
  stripLast 0x0d#8 buffer

/-- A string without its last byte, when that byte is `byte`. -/
def dropEnd (byte : Byte) (text : List Byte) : List Byte :=
  if text.getLast? = some byte then text.dropLast else text

/-- What is left of received bytes: the string in them without one line feed
and then one carriage return at its end. -/
def lineText (bytes : List Byte) : List Byte :=
  dropEnd 0x0d#8 (dropEnd 0x0a#8 (cstr bytes))

/-- The string survives both steps of the stripping. -/
def Strippable (bytes : List Byte) : Prop :=
  cstr bytes ≠ [] ∧ cstr bytes ≠ [0x0a#8]

instance (bytes : List Byte) : Decidable (Strippable bytes) :=
  inferInstanceAs (Decidable (_ ∧ _))

theorem dropEnd_isPrefix (byte : Byte) (text : List Byte) :
    dropEnd byte text <+: text := by
  rw [dropEnd]
  split_ifs
  · exact List.dropLast_prefix text
  · exact List.prefix_rfl

theorem lineText_isPrefix (bytes : List Byte) : lineText bytes <+: bytes :=
  ((dropEnd_isPrefix _ _).trans (dropEnd_isPrefix _ _)).trans
    (List.takeWhile_prefix _)

theorem nulFree_lineText (bytes : List Byte) : NulFree (lineText bytes) :=
  fun byte hbyte => nulFree_cstr bytes byte
    (((dropEnd_isPrefix _ _).trans (dropEnd_isPrefix _ _)).mem hbyte)

section Lines

variable {bytes : List Byte}

/-- A buffer that holds a NUL is its C string, that NUL and some rest. -/
theorem exists_terminated {buffer : List Byte} (hnul : 0#8 ∈ buffer) :
    ∃ rest, buffer = cstr buffer ++ 0#8 :: rest := by
  induction buffer with
  | nil => simp at hnul
  | cons byte buffer ih =>
      by_cases hbyte : byte = 0#8
      · exact ⟨buffer, by simp [hbyte]⟩
      · have htail : 0#8 ∈ buffer := by
          rcases List.mem_cons.mp hnul with hzero | hmem
          · exact absurd hzero.symm hbyte
          · exact hmem
        obtain ⟨rest, hrest⟩ := ih htail
        exact ⟨rest, by rw [cstr_cons hbyte, List.cons_append, ← hrest]⟩

/-- On an empty string the computed index is `2^64 - 1`. -/
theorem stripLast_nil (byte : Byte) (rest : List Byte)
    (hsize : rest.length + 1 < 2 ^ 64) :
    stripLast byte (0#8 :: rest) = .undefined := by
  have hlast : (BitVec.ofNat 64 (strlen (0#8 :: rest)) - 1#64).toNat = 2 ^ 64 - 1 := by
    simp [strlen]
  rw [stripLast, hlast, load_of_le (by simp only [List.length_cons]; omega)]
  rfl

theorem stripLast_concat (byte last : Byte) (rest : List Byte)
    (hfree : NulFree (bytes ++ [last]))
    (hsize : bytes.length + 1 < 2 ^ 64) :
    stripLast byte (bytes ++ last :: 0#8 :: rest) =
      .ok (bytes ++ (if last = byte then 0#8 else last) :: 0#8 :: rest) := by
  have hshape : bytes ++ last :: 0#8 :: rest = (bytes ++ [last]) ++ 0#8 :: rest := by
    simp
  have hlast : (BitVec.ofNat 64 (strlen (bytes ++ last :: 0#8 :: rest)) - 1#64).toNat =
      bytes.length := by
    rw [hshape, strlen, cstr_terminated hfree, List.length_append,
      List.length_singleton, BitVec.toNat_sub, BitVec.toNat_ofNat,
      BitVec.toNat_ofNat]
    omega
  have hindex : bytes.length < (bytes ++ last :: 0#8 :: rest).length := by simp
  rw [stripLast, hlast, load_of_lt hindex, CResult.ok_bind,
    List.getElem_append_right le_rfl]
  by_cases hmatch : last = byte
  · simp [hmatch, store]
  · simp [hmatch]

/-- A string whose last byte is not `byte` is left as it is. -/
theorem stripLast_of_not_mem {byte : Byte} (rest : List Byte)
    (hfree : NulFree bytes)
    (hne : bytes ≠ []) (hbyte : byte ∉ bytes) (hsize : bytes.length < 2 ^ 64) :
    stripLast byte (bytes ++ 0#8 :: rest) = .ok (bytes ++ 0#8 :: rest) := by
  obtain ⟨front, last, rfl⟩ := List.eq_nil_or_concat bytes |>.resolve_left hne
  have hlast : last ≠ byte := by
    rintro rfl
    exact hbyte (by simp)
  have hstrip := stripLast_concat byte last rest
    (by simpa using hfree) (by simpa using hsize)
  simpa [hlast] using hstrip

/-- A name without line ends comes through termination and stripping as the
C string it was received as. -/
theorem terminateAndStrip_of_clean {buffer : List Byte} (hfree : NulFree bytes)
    (hne : bytes ≠ []) (hlf : 0x0a#8 ∉ bytes) (hcr : 0x0d#8 ∉ bytes)
    (hfits : bytes.length < buffer.length) (hsize : buffer.length < 2 ^ 64) :
    terminateAndStrip (overlay bytes buffer) bytes.length =
      .ok (bytes ++ 0#8 :: buffer.drop (bytes.length + 1)) := by
  have hstore : store (overlay bytes buffer) bytes.length 0#8 =
      .ok (bytes ++ 0#8 :: buffer.drop (bytes.length + 1)) := by
    rw [store_of_lt 0#8 (by rw [length_overlay hfits.le]; exact hfits),
      set_overlay_terminator hfits]
  rw [terminateAndStrip, hstore, CResult.ok_bind,
    stripLast_of_not_mem _ hfree hne hlf (by omega), CResult.ok_bind,
    stripLast_of_not_mem _ hfree hne hcr (by omega)]

/-- Stripping is defined exactly on non-empty strings. -/
theorem stripLast_defined_iff {buffer : List Byte} (byte : Byte)
    (hnul : 0#8 ∈ buffer) (hsize : buffer.length < 2 ^ 64) :
    (∃ stripped, stripLast byte buffer = .ok stripped) ↔ cstr buffer ≠ [] := by
  obtain ⟨rest, hrest⟩ := exists_terminated hnul
  have hfree := nulFree_cstr buffer
  have hlength := congrArg List.length hrest
  generalize cstr buffer = text at *
  rw [hrest]
  rcases List.eq_nil_or_concat text with rfl | ⟨front, last, rfl⟩
  · have hrestLength : rest.length + 1 < 2 ^ 64 := by
      simpa [hlength] using hsize
    rw [List.nil_append, stripLast_nil byte rest hrestLength]
    simp
  · have hfrontLength : front.length + 1 < 2 ^ 64 := by
      simp at hlength
      omega
    have hstrip := stripLast_concat byte last rest
      (by simpa using hfree) hfrontLength
    constructor
    · intro _
      simp
    · intro _
      exact ⟨_, by simpa using hstrip⟩

/-- What stripping leaves of the string. -/
theorem cstr_of_stripLast_eq_ok {buffer stripped : List Byte} {byte : Byte}
    (hnul : 0#8 ∈ buffer) (hsize : buffer.length < 2 ^ 64)
    (hstrip : stripLast byte buffer = .ok stripped) :
    cstr stripped = dropEnd byte (cstr buffer) ∧ 0#8 ∈ stripped := by
  have hne := (stripLast_defined_iff byte hnul hsize).mp ⟨stripped, hstrip⟩
  obtain ⟨rest, hrest⟩ := exists_terminated hnul
  have hfree := nulFree_cstr buffer
  have hlength := congrArg List.length hrest
  generalize cstr buffer = text at *
  obtain ⟨front, last, rfl⟩ := List.eq_nil_or_concat text |>.resolve_left hne
  rw [List.concat_eq_append] at hfree hrest hlength ⊢
  have hfront : NulFree front := fun other hother => hfree other (by simp [hother])
  rw [hrest, List.append_assoc, List.singleton_append,
    stripLast_concat byte last rest hfree (by simp at hlength; omega)] at hstrip
  rw [← CResult.ok.inj hstrip, dropEnd, List.getLast?_concat,
    List.dropLast_concat]
  by_cases hlast : last = byte
  · rw [if_pos hlast, if_pos (congrArg some hlast), cstr_terminated hfront]
    exact ⟨rfl, by simp⟩
  · rw [if_neg hlast, if_neg (fun heq => hlast (Option.some.inj heq)),
      ← cstr_terminated hfree rest, List.append_assoc, List.singleton_append]
    exact ⟨rfl, by simp⟩

theorem length_of_store_eq_ok {buffer stored : List Byte} {index : ℕ}
    {byte : Byte} (hstore : store buffer index byte = .ok stored) :
    stored.length = buffer.length := by
  rw [store] at hstore
  split_ifs at hstore
  rw [← CResult.ok.inj hstore, List.length_set]

theorem length_of_stripLast_eq_ok {buffer stripped : List Byte} {byte : Byte}
    (hstrip : stripLast byte buffer = .ok stripped) :
    stripped.length = buffer.length := by
  rw [stripLast, CResult.bind_eq_ok_iff] at hstrip
  obtain ⟨found, -, hfound⟩ := hstrip
  split_ifs at hfound
  · exact length_of_store_eq_ok hfound
  · rw [CResult.ok.inj hfound]

theorem length_of_terminateAndStrip_eq_ok {buffer text : List Byte} {rc : ℕ}
    (hstrip : terminateAndStrip buffer rc = .ok text) :
    text.length = buffer.length := by
  simp only [terminateAndStrip, CResult.bind_eq_ok_iff] at hstrip
  obtain ⟨stored, hstored, stripped, hstripped, htext⟩ := hstrip
  rw [length_of_stripLast_eq_ok htext, length_of_stripLast_eq_ok hstripped,
    length_of_store_eq_ok hstored]

/-- Stripping a line feed and then a carriage return is defined on every string
but the empty one and the one that the first step empties. -/
theorem stripTwice_defined_iff (rest : List Byte) (hfree : NulFree bytes)
    (hsize : bytes.length + rest.length + 1 < 2 ^ 64) :
    (∃ text, (stripLast 0x0a#8 (bytes ++ 0#8 :: rest) >>=
        stripLast 0x0d#8) = .ok text) ↔ bytes ≠ [] ∧ bytes ≠ [0x0a#8] := by
  rcases List.eq_nil_or_concat bytes with rfl | ⟨front, last, rfl⟩
  · rw [List.nil_append, stripLast_nil 0x0a#8 rest (by simpa using hsize)]
    simp
  · rw [List.concat_eq_append] at hfree hsize ⊢
    simp only [List.length_append, List.length_singleton] at hsize
    rw [List.append_assoc, List.singleton_append,
      stripLast_concat 0x0a#8 last rest hfree (by omega), CResult.ok_bind,
      stripLast_defined_iff 0x0d#8 (by simp)
        (by simp only [List.length_append, List.length_cons]; omega)]
    by_cases hlast : last = 0x0a#8
    · have hfront : NulFree front := fun byte hbyte =>
        hfree byte (by simp [hbyte])
      rw [if_pos hlast, cstr_terminated hfront, hlast]
      simp
    · have htext : cstr (front ++ last :: 0#8 :: rest) = front ++ [last] := by
        rw [← cstr_terminated hfree rest, List.append_assoc,
          List.singleton_append]
      rw [if_neg hlast, htext]
      constructor
      · intro hne
        refine ⟨hne, ?_⟩
        intro heq
        exact hlast (by simpa using congrArg List.getLast? heq)
      · exact And.left

/-- Terminating and stripping a received string stays inside the buffer exactly
when the string leaves room for its NUL and is neither empty nor a single line
feed. -/
theorem terminateAndStrip_defined_iff {buffer : List Byte}
    (hfits : bytes.length ≤ buffer.length) (hsize : buffer.length < 2 ^ 64) :
    (∃ text, terminateAndStrip (overlay bytes buffer) bytes.length =
        .ok text) ↔
      bytes.length < buffer.length ∧ cstr bytes ≠ [] ∧
        cstr bytes ≠ [0x0a#8] := by
  by_cases hroom : bytes.length < buffer.length
  · have hstore : store (overlay bytes buffer) bytes.length 0#8 =
        .ok (bytes ++ 0#8 :: buffer.drop (bytes.length + 1)) := by
      rw [store_of_lt 0#8 (by rw [length_overlay hfits]; exact hroom),
        set_overlay_terminator hroom]
    obtain ⟨rest, hrest⟩ := exists_terminated
      (show 0#8 ∈ bytes ++ 0#8 :: buffer.drop (bytes.length + 1) by simp)
    have hlength := congrArg List.length hrest
    simp only [List.length_append, List.length_cons, List.length_drop]
      at hlength
    rw [cstr_append_zero] at hrest hlength
    rw [terminateAndStrip, hstore, CResult.ok_bind, hrest,
      stripTwice_defined_iff rest (nulFree_cstr bytes) (by omega)]
    exact (and_iff_right hroom).symm
  · have hstore : store (overlay bytes buffer) bytes.length 0#8 =
        .undefined :=
      store_of_le 0#8 (by rw [length_overlay hfits]; exact not_lt.mp hroom)
    simp [terminateAndStrip, hstore, hroom]

end Lines

/-! ## Receiving into an array -/

/-- `recv` into the whole array, then termination and stripping. -/
def receiveLine {size : ℕ} (buffer : CharArray size) (got : List Byte)
    (hgot : got.length ≤ size) : CResult (CharArray size) :=
  match hstrip : terminateAndStrip (overlay got buffer.bytes) got.length with
  | .ok line => .ok ⟨line, by
      rw [length_of_terminateAndStrip_eq_ok hstrip,
        length_overlay (hgot.trans_eq buffer.length_bytes.symm),
        buffer.length_bytes]⟩
  | .exited => .exited
  | .undefined => .undefined

section Receiving

variable {size : ℕ} {buffer line : CharArray size} {got : List Byte}

theorem receiveLine_eq_ok_iff (hgot : got.length ≤ size) :
    receiveLine buffer got hgot = .ok line ↔
      terminateAndStrip (overlay got buffer.bytes) got.length =
        .ok line.bytes := by
  rw [receiveLine]
  split
  next stripped hstrip =>
    constructor
    · intro heq
      rw [hstrip, ← CResult.ok.inj heq]
    · intro heq
      cases line
      cases CResult.ok.inj (hstrip.symm.trans heq)
      rfl
  next hstrip => simp [hstrip]
  next hstrip => simp [hstrip]

/-- Receiving a line is defined exactly when it leaves room for its NUL and its
string is neither empty nor a single line feed. -/
theorem receiveLine_defined_iff (buffer : CharArray size)
    (hgot : got.length ≤ size) (hsize : size < 2 ^ 64) :
    (∃ line, receiveLine buffer got hgot = .ok line) ↔
      got.length < size ∧ Strippable got := by
  have hlength := buffer.length_bytes
  have hdefined := terminateAndStrip_defined_iff (hgot.trans_eq hlength.symm)
    (hlength.trans_lt hsize)
  rw [hlength] at hdefined
  rw [Strippable, ← hdefined]
  constructor
  · rintro ⟨line, hline⟩
    exact ⟨line.bytes, (receiveLine_eq_ok_iff hgot).mp hline⟩
  · rintro ⟨text, htext⟩
    refine ⟨⟨text, ?_⟩, (receiveLine_eq_ok_iff hgot).mpr htext⟩
    rw [length_of_terminateAndStrip_eq_ok htext,
      length_overlay (hgot.trans_eq hlength.symm), hlength]

/-- The line that is read, whatever the array held before. -/
theorem text_of_receiveLine (hgot : got.length ≤ size) (hsize : size < 2 ^ 64)
    (hline : receiveLine buffer got hgot = .ok line) :
    line.text = lineText got := by
  have hroom := ((receiveLine_defined_iff buffer hgot hsize).mp
    ⟨line, hline⟩).1
  have hlength := buffer.length_bytes
  have hfits : got.length < buffer.bytes.length := hroom.trans_eq hlength.symm
  rw [receiveLine_eq_ok_iff, terminateAndStrip,
    store_of_lt 0#8 (by rw [length_overlay hfits.le]; exact hfits),
    CResult.ok_bind, set_overlay_terminator hfits, CResult.bind_eq_ok_iff]
    at hline
  obtain ⟨stripped, hstripped, hline⟩ := hline
  have hstored : (got ++ 0#8 :: buffer.bytes.drop (got.length + 1)).length =
      size := by
    rw [← set_overlay_terminator hfits, List.length_set,
      length_overlay hfits.le, hlength]
  obtain ⟨hfirst, hnul⟩ := cstr_of_stripLast_eq_ok (by simp)
    (hstored.trans_lt hsize) hstripped
  have hstrippedLength := length_of_stripLast_eq_ok hstripped
  obtain ⟨hsecond, -⟩ := cstr_of_stripLast_eq_ok hnul
    ((hstrippedLength.trans hstored).trans_lt hsize) hline
  rw [CharArray.text, hsecond, hfirst, cstr_append_zero, lineText]

/-- A text without line ends that leaves room for its NUL is read back as it
was sent. -/
theorem receiveLine_of_clean (buffer : CharArray size)
    (hfree : NulFree got) (hne : got ≠ []) (hlf : 0x0a#8 ∉ got)
    (hcr : 0x0d#8 ∉ got) (hroom : got.length < size)
    (hsize : size < 2 ^ 64) :
    ∃ line, receiveLine buffer got hroom.le = .ok line ∧ line.text = got := by
  have hfits : got.length < buffer.bytes.length :=
    hroom.trans_eq buffer.length_bytes.symm
  have hstrip := terminateAndStrip_of_clean hfree hne hlf hcr hfits
    (buffer.length_bytes.trans_lt hsize)
  refine ⟨⟨_, ?_⟩, (receiveLine_eq_ok_iff _).mpr hstrip,
    cstr_terminated hfree _⟩
  rw [length_of_terminateAndStrip_eq_ok hstrip, length_overlay hfits.le,
    buffer.length_bytes]

/-- A text that fills the array leaves no room for its NUL. -/
theorem receiveLine_of_full (buffer line : CharArray size)
    (hgot : got.length ≤ size) (hfull : got.length = size)
    (hsize : size < 2 ^ 64) : receiveLine buffer got hgot ≠ .ok line := by
  intro hreceive
  rw [receiveLine_eq_ok_iff] at hreceive
  have hdefined := (terminateAndStrip_defined_iff
    (hgot.trans_eq buffer.length_bytes.symm)
    (buffer.length_bytes.trans_lt hsize)).mp ⟨_, hreceive⟩
  rw [hfull, buffer.length_bytes] at hdefined
  exact lt_irrefl size hdefined.1

end Receiving

end SyncAnywhere.ReceivedLine
