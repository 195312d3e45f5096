import Mathlib

/-!
# Byte buffers and partial C computations

A C function on a fixed array either goes on, ends the process with `exit`, or
leaves the defined behaviour of the language by touching an index outside the
array.  `CResult` keeps these three apart, so a statement that a run is `ok`
also says that every store and load in it was in bounds.
-/

namespace SyncAnywhere.CMemory

universe u

abbrev Byte := BitVec 8

/-- Result of a C computation: a value, a terminated process, or undefined
behaviour. -/
inductive CResult (A : Type u) where
  | ok (value : A)
  | exited
  | undefined
  deriving DecidableEq, Repr

namespace CResult

variable {A B : Type u}

def bind : CResult A → (A → CResult B) → CResult B
  | ok value, next => next value
  | exited, _ => exited
  | undefined, _ => undefined

instance : Monad CResult where
  pure := ok
  bind := bind

@[simp]
theorem pure_eq_ok (value : A) : (pure value : CResult A) = ok value := rfl

@[simp]
theorem ok_bind (value : A) (next : A → CResult B) :
    (ok value >>= next) = next value := rfl

@[simp]
theorem exited_bind (next : A → CResult B) :
    ((exited : CResult A) >>= next) = exited := rfl

@[simp]
theorem undefined_bind (next : A → CResult B) :
    ((undefined : CResult A) >>= next) = undefined := rfl

instance : LawfulMonad CResult :=
  LawfulMonad.mk' CResult
    (fun result => by cases result <;> rfl)
    (fun _ _ => rfl)
    (fun result _ _ => by cases result <;> rfl)

/-- A sequence of two computations succeeds exactly when both do. -/
theorem bind_eq_ok_iff (first : CResult A) (next : A → CResult B) (result : B) :
    (first >>= next) = ok result ↔
      ∃ value, first = ok value ∧ next value = ok result := by
  cases first <;> simp

/-- A property of the value, if there is one. -/
def IfOk (property : A → Prop) : CResult A → Prop
  | ok value => property value
  | _ => True

instance (property : A → Prop) [DecidablePred property]
    (result : CResult A) : Decidable (result.IfOk property) := by
  cases result <;> unfold IfOk <;> infer_instance

theorem IfOk.mono {stronger weaker : A → Prop} {result : CResult A}
    (hresult : result.IfOk stronger)
    (himp : ∀ value, stronger value → weaker value) : result.IfOk weaker := by
  cases result with
  | ok value => exact himp value hresult
  | exited => trivial
  | undefined => trivial

theorem IfOk.and {left right : A → Prop} {result : CResult A}
    (hleft : result.IfOk left) (hright : result.IfOk right) :
    result.IfOk fun value => left value ∧ right value := by
  cases result with
  | ok value => exact ⟨hleft, hright⟩
  | exited => trivial
  | undefined => trivial

theorem IfOk.bind {before : A → Prop} {after : B → Prop}
    {result : CResult A} {next : A → CResult B} (hresult : result.IfOk before)
    (hnext : ∀ value, before value → (next value).IfOk after) :
    (result >>= next).IfOk after := by
  cases result with
  | ok value => exact hnext value hresult
  | exited => trivial
  | undefined => trivial

theorem ifOk_iff {property : A → Prop} {result : CResult A} :
    result.IfOk property ↔ ∀ value, result = ok value → property value := by
  cases result <;> simp [IfOk]

/-- What a step of a running process preserves, so does the step of a process
that may have ended. -/
theorem ifOk_bind_step {E : Type*} {next : A → E → CResult A}
    {invariant : A → Prop} {relation : A → E → Prop}
    (hnext : ∀ state event, invariant state → relation state event →
      (next state event).IfOk invariant)
    (process : CResult A) (event : E) (hprocess : process.IfOk invariant)
    (hevent : process.IfOk fun state => relation state event) :
    (process >>= fun state => next state event).IfOk invariant :=
  (hprocess.and hevent).bind fun state hstate =>
    hnext state event hstate.1 hstate.2

end CResult

/-! ## Indexed access -/

def load (buffer : List Byte) (index : ℕ) : CResult Byte :=
  match buffer[index]? with
  | some byte => .ok byte
  | none => .undefined

def store (buffer : List Byte) (index : ℕ) (byte : Byte) :
    CResult (List Byte) :=
  if index < buffer.length then .ok (buffer.set index byte) else .undefined

theorem store_of_lt {buffer : List Byte} {index : ℕ} (byte : Byte)
    (hindex : index < buffer.length) :
    store buffer index byte = .ok (buffer.set index byte) :=
  if_pos hindex

theorem store_of_le {buffer : List Byte} {index : ℕ} (byte : Byte)
    (hindex : buffer.length ≤ index) :
    store buffer index byte = .undefined :=
  if_neg (Nat.not_lt.mpr hindex)

theorem load_of_lt {buffer : List Byte} {index : ℕ}
    (hindex : index < buffer.length) :
    load buffer index = .ok buffer[index] := by
  simp [load, hindex]

theorem load_of_le {buffer : List Byte} {index : ℕ}
    (hindex : buffer.length ≤ index) : load buffer index = .undefined := by
  simp [load, hindex]

/-- A receive call writes the bytes it got to the start of the buffer and
leaves the rest of the buffer as it was. -/
def overlay (bytes buffer : List Byte) : List Byte :=
  bytes ++ buffer.drop bytes.length

theorem length_overlay {bytes buffer : List Byte}
    (hfits : bytes.length ≤ buffer.length) :
    (overlay bytes buffer).length = buffer.length := by
  simp [overlay]
  omega

/-! ## C strings -/

/-- The bytes a string function sees in memory: those before the first NUL. -/
def cstr (memory : List Byte) : List Byte :=
  memory.takeWhile (· ≠ 0#8)

def strlen (memory : List Byte) : ℕ :=
  (cstr memory).length

def NulFree (bytes : List Byte) : Prop :=
  ∀ byte ∈ bytes, byte ≠ 0#8

instance (bytes : List Byte) : Decidable (NulFree bytes) :=
  inferInstanceAs (Decidable (∀ byte ∈ bytes, byte ≠ 0#8))

theorem NulFree.append {left right : List Byte} (hleft : NulFree left)
    (hright : NulFree right) : NulFree (left ++ right) := by
  intro byte hbyte
  rcases List.mem_append.mp hbyte with hmem | hmem
  · exact hleft byte hmem
  · exact hright byte hmem

theorem cstr_append {bytes : List Byte} (hfree : NulFree bytes)
    (memory : List Byte) : cstr (bytes ++ memory) = bytes ++ cstr memory := by
  induction bytes with
  | nil => rfl
  | cons byte bytes ih =>
      have hbyte : byte ≠ 0#8 := hfree byte List.mem_cons_self
      have htail : NulFree bytes := fun other hother =>
        hfree other (List.mem_cons_of_mem byte hother)
      have hrest := ih htail
      simp only [cstr] at hrest ⊢
      rw [List.cons_append, List.takeWhile_cons_of_pos (by simpa using hbyte),
        hrest, List.cons_append]

theorem cstr_cons {byte : Byte} (hbyte : byte ≠ 0#8) (memory : List Byte) :
    cstr (byte :: memory) = byte :: cstr memory := by
  have hfree : NulFree [byte] := by simpa [NulFree] using hbyte
  exact cstr_append hfree memory

@[simp]
theorem cstr_zero_cons (memory : List Byte) : cstr (0#8 :: memory) = [] := by
  simp [cstr]

theorem cstr_of_nulFree {bytes : List Byte} (hfree : NulFree bytes) :
    cstr bytes = bytes := by
  simpa [cstr] using cstr_append hfree []

theorem cstr_terminated {bytes : List Byte} (hfree : NulFree bytes)
    (memory : List Byte) : cstr (bytes ++ 0#8 :: memory) = bytes := by
  rw [cstr_append hfree, cstr_zero_cons, List.append_nil]

theorem nulFree_cstr (memory : List Byte) : NulFree (cstr memory) := by
  intro byte hbyte
  have hkept := List.mem_takeWhile_imp hbyte
  simpa using hkept

/-- A string ends at its first NUL, whatever follows. -/
theorem cstr_append_zero (bytes memory : List Byte) :
    cstr (bytes ++ 0#8 :: memory) = cstr bytes := by
  induction bytes with
  | nil => simp [cstr]
  | cons byte bytes ih =>
      simp only [cstr] at ih ⊢
      rw [List.cons_append, List.takeWhile_cons, List.takeWhile_cons, ih]

/-- A string is read from `text` when `text` begins with it. -/
theorem cstr_take_eq_iff {bytes text : List Byte} (hfree : NulFree bytes) :
    cstr (text.take bytes.length) = bytes ↔ bytes <+: text := by
  constructor
  · intro heq
    have hread : cstr (text.take bytes.length) <+: text.take bytes.length :=
      List.takeWhile_prefix _
    rw [heq] at hread
    exact hread.trans (List.take_prefix _ _)
  · intro hinitial
    rw [← List.prefix_iff_eq_take.mp hinitial]
    exact cstr_of_nulFree hfree

/-- A string that begins memory ends in front of the first NUL. -/
theorem isPrefix_append_zero_iff {bytes front : List Byte}
    (hfree : NulFree bytes) (tail : List Byte) :
    bytes <+: front ++ 0#8 :: tail ↔ bytes <+: front := by
  have hnot : 0#8 ∉ bytes := fun hmem => hfree 0#8 hmem rfl
  constructor
  · intro hinitial
    have hmemory : front ++ [0#8] <+: front ++ 0#8 :: tail := by
      rw [List.prefix_append_right_inj]
      exact List.prefix_append [0#8] tail
    rcases List.prefix_or_prefix_of_prefix hinitial hmemory with hshort | hlong
    · rcases List.prefix_concat_iff.mp hshort with heq | hfront
      · exact absurd (heq ▸ List.mem_append_right front List.mem_cons_self)
          hnot
      · exact hfront
    · exact absurd (hlong.subset (List.mem_append_right front
        List.mem_cons_self)) hnot
  · intro hinitial
    exact hinitial.trans (List.prefix_append _ _)

/-- `sprintf` of a text and its NUL into an array that is zero or holds older
bytes. -/
def sprintf (buffer text : List Byte) : CResult (List Byte) :=
  if text.length < buffer.length then
    .ok (overlay (text ++ [0#8]) buffer)
  else .undefined

theorem cstr_printed {text : List Byte} (hfree : NulFree text)
    (buffer : List Byte) :
    cstr (overlay (text ++ [0#8]) buffer) = text := by
  rw [overlay, List.append_assoc, List.singleton_append, cstr_terminated hfree]

/-- Storing a NUL right behind `bytes` turns the buffer into the C string
`bytes`. -/
theorem set_overlay_terminator {bytes buffer : List Byte}
    (hfits : bytes.length < buffer.length) :
    (overlay bytes buffer).set bytes.length 0#8 =
      bytes ++ 0#8 :: buffer.drop (bytes.length + 1) := by
  rw [overlay, List.set_append_right bytes.length 0#8 le_rfl,
    List.drop_eq_getElem_cons hfits, Nat.sub_self, List.set_cons_zero]

/-! ## Arrays of a fixed size -/

/-- `char array[size]`. -/
structure CharArray (size : ℕ) where
  bytes : List Byte
  length_bytes : bytes.length = size

namespace CharArray

variable {size : ℕ}

def zero (size : ℕ) : CharArray size :=
  ⟨List.replicate size 0#8, List.length_replicate⟩

/-- `array[index]` for an index inside the array. -/
def byteAt (array : CharArray size) (index : ℕ) : Byte :=
  array.bytes.getD index 0#8

/-- The string in the array. -/
def text (array : CharArray size) : List Byte :=
  cstr array.bytes

end CharArray

end SyncAnywhere.CMemory
