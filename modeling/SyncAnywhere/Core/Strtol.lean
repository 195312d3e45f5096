import SyncAnywhere.Core.Numeral

/-!
# Reading a hexadecimal field

`strtol` in base 16 skips blanks, takes an optional sign and an optional `0x`,
and reads digits up to the first byte that is none.  On an array without such a
byte it reads on past the end, so what stands behind the digits belongs to its
input.  The result is at most `LONG_MAX`, and an `int` keeps its low 32 bits.
-/

namespace SyncAnywhere.Strtol

open SyncAnywhere.CMemory
open SyncAnywhere.Numeral

def isHexDigit (byte : Byte) : Bool :=
  (digitValue 16 byte).isSome

/-- The text behind an optional `0x` or `0X`. -/
def skipHexPrefix : List Byte → List Byte
  | 0x30#8 :: 0x78#8 :: text | 0x30#8 :: 0x58#8 :: text => text
  | text => text

/-- The digits at the start of a text that runs to the end of its array. -/
def hexNumber (text : List Byte) : CResult ℕ :=
  let digits := skipHexPrefix text
  if digits.all isHexDigit then .undefined
  else .ok (parseDigits 16 0 digits)

/-- `strtol(array, NULL, 16)`. -/
def strtolHex (array : List Byte) : CResult ℤ :=
  match array.dropWhile isSpace with
  | 0x2d#8 :: text => do
      let number ← hexNumber text
      pure (max longMin (-number))
  | 0x2b#8 :: text => do
      let number ← hexNumber text
      pure (min longMax number)
  | text => do
      let number ← hexNumber text
      pure (min longMax number)

/-- The result stored in an `int`. -/
def strtolInt (array : List Byte) : CResult ℤ := do
  let value ← strtolHex array
  pure (BitVec.ofInt 32 value).toInt

/-! ## What a text spells -/

/-- The digits that `strtol` reads end within the text. -/
def DigitsEnd (text : List Byte) : Prop :=
  (skipHexPrefix text).all isHexDigit = false

def hexValue (text : List Byte) : ℕ :=
  parseDigits 16 0 (skipHexPrefix text)

def skipPlus : List Byte → List Byte
  | 0x2b#8 :: text => text
  | text => text

/-- The text spells `value` in base 16: blanks, a sign and digits that end.  An
`int` takes a number modulo `2 ^ 32`. -/
def Spells (text : List Byte) (value : ℕ) : Prop :=
  let signed := text.dropWhile isSpace
  if signed.head? = some 0x2d#8 then
    DigitsEnd signed.tail ∧
      (min (hexValue signed.tail) (2 ^ 63) + value) % 2 ^ 32 = 0
  else
    DigitsEnd (skipPlus signed) ∧ hexValue (skipPlus signed) < 2 ^ 63 ∧
      hexValue (skipPlus signed) % 2 ^ 32 = value

instance (text : List Byte) : Decidable (DigitsEnd text) :=
  inferInstanceAs (Decidable (_ = _))

instance (text : List Byte) (value : ℕ) : Decidable (Spells text value) :=
  inferInstanceAs (Decidable (ite _ _ _))

theorem hexNumber_eq_ok_iff (text : List Byte) (number : ℕ) :
    hexNumber text = .ok number ↔ DigitsEnd text ∧ hexValue text = number := by
  rw [hexNumber, DigitsEnd, hexValue]
  cases hall : (skipHexPrefix text).all isHexDigit with
  | true => simp
  | false => simp

/-- An `int` keeps the low 32 bits; a number that a `long` cannot hold becomes
`-1`. -/
theorem toInt_ofInt_min_eq_iff {number value : ℕ} (hvalue : value < 2 ^ 31) :
    (BitVec.ofInt 32 (min longMax number)).toInt = value ↔
      number < 2 ^ 63 ∧ number % 2 ^ 32 = value := by
  have hmin : min longMax (number : ℤ) = (min number (2 ^ 63 - 1) : ℕ) := by
    rw [longMax]
    omega
  rw [hmin, BitVec.toInt_ofInt, Int.bmod_def]
  omega

/-- A number too small for a `long` becomes `0` in an `int`. -/
theorem toInt_ofInt_max_eq_iff {number value : ℕ} (hvalue : value < 2 ^ 31) :
    (BitVec.ofInt 32 (max longMin (-number))).toInt = value ↔
      (min number (2 ^ 63) + value) % 2 ^ 32 = 0 := by
  have hmax : max longMin (-(number : ℤ)) = -(min number (2 ^ 63) : ℕ) := by
    rw [longMin]
    omega
  rw [hmax, BitVec.toInt_ofInt, Int.bmod_def]
  omega

/-- What a sign makes of the number behind it. -/
theorem hexNumber_bind_eq_ok_iff (text : List Byte) (sign : ℕ → ℤ) (value : ℤ) :
    (((hexNumber text >>= fun number => pure (sign number)) >>= fun number =>
        pure (BitVec.ofInt 32 number).toInt) : CResult ℤ) = .ok value ↔
      DigitsEnd text ∧
        (BitVec.ofInt 32 (sign (hexValue text))).toInt = value := by
  simp only [CResult.bind_eq_ok_iff, CResult.pure_eq_ok, CResult.ok.injEq,
    hexNumber_eq_ok_iff]
  constructor
  · rintro ⟨number, ⟨value, ⟨hends, rfl⟩, rfl⟩, hvalue⟩
    exact ⟨hends, hvalue⟩
  · rintro ⟨hends, hvalue⟩
    exact ⟨_, ⟨_, ⟨hends, rfl⟩, rfl⟩, hvalue⟩

theorem skipPlus_of_ne {text : List Byte}
    (hplus : ∀ rest, text ≠ 0x2b#8 :: rest) : skipPlus text = text := by
  rw [skipPlus.eq_def]
  split
  next rest => exact absurd rfl (hplus rest)
  next => rfl

/-- Spec of `strtol` into an `int` that is not negative. -/
theorem strtolInt_eq_ok_iff (text : List Byte) {value : ℕ}
    (hvalue : value < 2 ^ 31) :
    strtolInt text = .ok (value : ℤ) ↔ Spells text value := by
  rw [strtolInt, strtolHex, Spells]
  split
  next rest hsigned =>
    rw [hsigned, if_pos List.head?_cons, ← toInt_ofInt_max_eq_iff hvalue]
    exact hexNumber_bind_eq_ok_iff rest (fun number => max longMin (-number))
      value
  next rest hsigned =>
    rw [hsigned, if_neg (by simp), ← toInt_ofInt_min_eq_iff hvalue]
    exact hexNumber_bind_eq_ok_iff rest (fun number => min longMax number)
      value
  next hminus hplus =>
    have hsign : (text.dropWhile isSpace).head? ≠ some 0x2d#8 := by
      intro hhead
      obtain ⟨rest, hrest⟩ := List.head?_eq_some_iff.mp hhead
      exact hminus rest hrest
    rw [if_neg hsign, skipPlus_of_ne hplus, ← toInt_ofInt_min_eq_iff hvalue]
    exact hexNumber_bind_eq_ok_iff _ (fun number => min longMax number) value

/-! ## Reading a printed field -/

/-- The bytes behind a printed number end it: the first one is no digit, and no
`x` that would make a printed zero a prefix. -/
def Ends (rest : List Byte) : Prop :=
  ∃ byte tail, rest = byte :: tail ∧ isHexDigit byte = false ∧
    byte ≠ 0x78#8 ∧ byte ≠ 0x58#8

theorem isHexDigit_digitChar {digit : ℕ} (hdigit : digit < 16) :
    isHexDigit (charByte digit.digitChar) = true := by
  rw [isHexDigit, digitValue_digitChar le_rfl hdigit]
  rfl

theorem isHexDigit_of_mem {value : ℕ} {byte : Byte}
    (hbyte : byte ∈ digitText 16 value) : isHexDigit byte = true := by
  obtain ⟨digit, hdigit, rfl⟩ :=
    exists_digit_of_mem_digitText (by decide) value hbyte
  exact isHexDigit_digitChar hdigit

/-- A digit is no blank, no sign and no `x`. -/
theorem ne_of_isHexDigit {byte : Byte} (hbyte : isHexDigit byte = true) :
    isSpace byte = false ∧ byte ≠ 0x2d#8 ∧ byte ≠ 0x2b#8 ∧
      byte ≠ 0x78#8 ∧ byte ≠ 0x58#8 := by
  have hall : ∀ code : Fin 256, isHexDigit (BitVec.ofFin code) = true →
      isSpace (BitVec.ofFin code) = false ∧ BitVec.ofFin code ≠ 0x2d#8 ∧
        BitVec.ofFin code ≠ 0x2b#8 ∧ BitVec.ofFin code ≠ 0x78#8 ∧
        BitVec.ofFin code ≠ 0x58#8 := by
    decide +kernel
  exact hall byte.toFin hbyte

theorem skipHexPrefix_of_ne {first second : Byte} (text : List Byte)
    (hlower : second ≠ 0x78#8) (hupper : second ≠ 0x58#8) :
    skipHexPrefix (first :: second :: text) = first :: second :: text := by
  rw [skipHexPrefix.eq_def]
  split
  next heq => exact absurd (List.cons.inj (List.cons.inj heq).2).1 hlower
  next heq => exact absurd (List.cons.inj (List.cons.inj heq).2).1 hupper
  next => rfl

theorem skipHexPrefix_of_ne_zero {first : Byte} (text : List Byte)
    (hfirst : first ≠ 0x30#8) : skipHexPrefix (first :: text) = first :: text := by
  rw [skipHexPrefix.eq_def]
  split
  next heq => exact absurd (List.cons.inj heq).1 hfirst
  next heq => exact absurd (List.cons.inj heq).1 hfirst
  next => rfl

/-- The blanks in front of a printed number are skipped. -/
theorem dropWhile_padLeft_append (width : ℕ) (text rest : List Byte) :
    (padLeft width text ++ rest).dropWhile isSpace =
      (text ++ rest).dropWhile isSpace := by
  rw [padLeft, List.append_assoc]
  induction width - text.length with
  | zero => rfl
  | succ count ih =>
      rw [List.replicate_succ, List.cons_append,
        List.dropWhile_cons_of_pos (by decide), ih]

/-! ## Digits behind a number -/

theorem parseDigits_takeWhile (total : ℕ) (text : List Byte) :
    parseDigits 16 total text =
      parseDigits 16 total (text.takeWhile isHexDigit) := by
  induction text generalizing total with
  | nil => rfl
  | cons byte text ih =>
      cases hdigit : digitValue 16 byte with
      | none => simp [parseDigits, isHexDigit, hdigit]
      | some digit => simp [parseDigits, isHexDigit, hdigit, ih]

/-- Digits shift the number in front of them. -/
theorem parseDigits_of_all {digits : List Byte}
    (hall : digits.all isHexDigit = true) (total : ℕ) :
    parseDigits 16 total digits =
      total * 16 ^ digits.length + parseDigits 16 0 digits := by
  induction digits generalizing total with
  | nil => simp [parseDigits]
  | cons byte digits ih =>
      rw [List.all_cons, Bool.and_eq_true] at hall
      obtain ⟨digit, hdigit⟩ := Option.isSome_iff_exists.mp hall.1
      rw [parseDigits, hdigit, parseDigits, hdigit]
      simp only [ih hall.2 (16 * total + digit), ih hall.2 (16 * 0 + digit),
        List.length_cons]
      ring

theorem length_takeWhile_lt_iff (text : List Byte) :
    (text.takeWhile isHexDigit).length < text.length ↔
      text.all isHexDigit = false := by
  have hinitial := List.takeWhile_prefix (l := text) isHexDigit
  rw [hinitial.length_le.lt_iff_ne, ← Bool.not_eq_true, not_iff_not,
    List.all_eq_true, ← List.takeWhile_eq_self_iff]
  exact ⟨hinitial.eq_of_length, congrArg List.length⟩

/-- The bytes `strtol` reads as digits behind a printed number: an `x` behind a
printed zero makes the zero a prefix. -/
def behindNumber (printed : ℕ) (rest : List Byte) : List Byte :=
  if printed = 0 ∧ (rest.head? = some 0x78#8 ∨ rest.head? = some 0x58#8) then
    rest.tail
  else rest

/-- `printed` in front of `rest` is read as `value`: the digits in `rest` end,
they do not make the number too large for a `long`, and `value` is the number
modulo `2 ^ 32`. -/
def ReadsAs (printed : ℕ) (rest : List Byte) (value : ℕ) : Prop :=
  let behind := behindNumber printed rest
  let digits := behind.takeWhile isHexDigit
  let number := printed * 16 ^ digits.length + parseDigits 16 0 digits
  digits.length < behind.length ∧ number < 2 ^ 63 ∧ number % 2 ^ 32 = value

instance (printed : ℕ) (rest : List Byte) (value : ℕ) :
    Decidable (ReadsAs printed rest value) :=
  inferInstanceAs (Decidable (_ ∧ _))

/-- A number is read as itself when what stands behind it ends it. -/
theorem readsAs_of_ends {rest : List Byte} (hends : Ends rest) {printed : ℕ}
    (hprinted : printed < 2 ^ 32) : ReadsAs printed rest printed := by
  obtain ⟨byte, tail, rfl, hbyte, hlower, hupper⟩ := hends
  have hbehind : behindNumber printed (byte :: tail) = byte :: tail := by
    apply if_neg
    rintro ⟨-, hx | hX⟩
    · exact hlower (Option.some_inj.mp hx)
    · exact hupper (Option.some_inj.mp hX)
  have hnone : (byte :: tail).takeWhile isHexDigit = [] :=
    List.takeWhile_cons_of_neg (by simp [hbyte])
  rw [ReadsAs, hbehind, hnone]
  refine ⟨Nat.succ_pos _, ?_, ?_⟩
  · simp only [parseDigits, List.length_nil]
    omega
  · simp only [parseDigits, List.length_nil]
    omega

section Field

variable {rest : List Byte}

theorem skipHexPrefix_digitText (value : ℕ) (rest : List Byte) :
    skipHexPrefix (digitText 16 value ++ rest) =
      if value = 0 ∧ (rest.head? = some 0x78#8 ∨ rest.head? = some 0x58#8) then
        rest.tail
      else digitText 16 value ++ rest := by
  have hdigits : ∀ digit ∈ digitText 16 value,
      digit ≠ 0x78#8 ∧ digit ≠ 0x58#8 :=
    fun digit hdigit => (ne_of_isHexDigit (isHexDigit_of_mem hdigit)).2.2.2
  by_cases hzero : value = 0
  · rw [hzero]
    cases rest with
    | nil => rfl
    | cons byte tail =>
        by_cases hlower : byte = 0x78#8
        · rw [hlower]
          rfl
        · by_cases hupper : byte = 0x58#8
          · rw [hupper]
            rfl
          · simp only [List.head?_cons, Option.some_inj, hlower, hupper,
              or_self, and_false, if_false]
            exact skipHexPrefix_of_ne tail hlower hupper
  · rw [if_neg fun hboth => hzero hboth.1]
    cases htext : digitText 16 value with
    | nil => exact absurd htext (digitText_ne_nil 16 value)
    | cons first digits =>
        cases digits with
        | nil =>
            apply skipHexPrefix_of_ne_zero
            rintro rfl
            exact hzero (digitText_injective (by decide) le_rfl htext)
        | cons second digits =>
            obtain ⟨hx, hX⟩ := hdigits second (by rw [htext]; simp)
            exact skipHexPrefix_of_ne _ hx hX

theorem digitsEnd_digitText_iff (value : ℕ) (rest : List Byte) :
    DigitsEnd (digitText 16 value ++ rest) ↔
      (behindNumber value rest).all isHexDigit = false := by
  have htext : (digitText 16 value).all isHexDigit = true :=
    List.all_eq_true.mpr fun _ => isHexDigit_of_mem
  rw [DigitsEnd, skipHexPrefix_digitText, behindNumber]
  by_cases hzero : value = 0 ∧
      (rest.head? = some 0x78#8 ∨ rest.head? = some 0x58#8)
  · rw [if_pos hzero, if_pos hzero]
  · rw [if_neg hzero, if_neg hzero, List.all_append, htext, Bool.true_and]

/-- A printed number and the digits behind it. -/
theorem hexValue_digitText (value : ℕ) (rest : List Byte) :
    hexValue (digitText 16 value ++ rest) =
      parseDigits 16 value (behindNumber value rest) := by
  rw [hexValue, skipHexPrefix_digitText, behindNumber]
  by_cases hzero : value = 0 ∧
      (rest.head? = some 0x78#8 ∨ rest.head? = some 0x58#8)
  · rw [if_pos hzero, if_pos hzero, hzero.1]
  · rw [if_neg hzero, if_neg hzero, parseDigits_digitText (by decide) le_rfl,
      Nat.mul_zero, Nat.zero_add]

/-- A printed field begins with blanks, and its number has no sign. -/
theorem signed_hexField (value : BitVec 32) (rest : List Byte) :
    (hexField value ++ rest).dropWhile isSpace =
        digitText 16 value.toNat ++ rest ∧
      (digitText 16 value.toNat ++ rest).head? ≠ some 0x2d#8 ∧
      skipPlus (digitText 16 value.toNat ++ rest) =
        digitText 16 value.toNat ++ rest := by
  rw [hexField, dropWhile_padLeft_append]
  cases htext : digitText 16 value.toNat with
  | nil => exact absurd htext (digitText_ne_nil 16 _)
  | cons byte digits =>
      obtain ⟨hspace, hminus, hplus, -⟩ := ne_of_isHexDigit
        (isHexDigit_of_mem (show byte ∈ digitText 16 value.toNat by
          rw [htext]; exact List.mem_cons_self))
      refine ⟨List.dropWhile_cons_of_neg (by simp [hspace]), ?_, ?_⟩
      · exact fun hhead => hminus (Option.some_inj.mp hhead)
      · exact skipPlus_of_ne fun _ heq => hplus (List.cons.inj heq).1

theorem spells_hexField_iff (printed : BitVec 32) (rest : List Byte)
    (value : ℕ) :
    Spells (hexField printed ++ rest) value ↔
      ReadsAs printed.toNat rest value := by
  obtain ⟨hsigned, hminus, hplus⟩ := signed_hexField printed rest
  have hnumber : parseDigits 16 printed.toNat (behindNumber printed.toNat rest) =
      _ := parseDigits_takeWhile _ _
  rw [parseDigits_of_all List.all_takeWhile] at hnumber
  rw [Spells, hsigned, if_neg hminus, hplus, digitsEnd_digitText_iff,
    hexValue_digitText, hnumber, ← length_takeWhile_lt_iff]
  rfl

/-- Spec of `strtol` on a printed field. -/
theorem strtolInt_hexField_eq_ok_iff (printed : BitVec 32) (rest : List Byte)
    {value : ℕ} (hvalue : value < 2 ^ 31) :
    strtolInt (hexField printed ++ rest) = .ok (value : ℤ) ↔
      ReadsAs printed.toNat rest value :=
  (strtolInt_eq_ok_iff _ hvalue).trans (spells_hexField_iff printed rest value)

end Field

end SyncAnywhere.Strtol
