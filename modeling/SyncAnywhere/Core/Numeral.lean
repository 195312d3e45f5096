import SyncAnywhere.Core.CMemory

/-!
# Printed numbers

`sprintf` writes a number as a digit string in base ten or sixteen, padded on
the left with blanks when a width is given, and `atoi` reads it back by
position.  Both directions work on bytes, so the results compose with the
buffer model.
-/

namespace SyncAnywhere.Numeral

open SyncAnywhere.CMemory

def charByte (char : Char) : Byte :=
  BitVec.ofNat 8 char.toNat

/-- The digits of a number in the given base, most significant first. -/
def digitText (base value : ℕ) : List Byte :=
  (Nat.toDigits base value).map charByte

/-- `sprintf` with a field width: blanks in front of a short text. -/
def padLeft (width : ℕ) (text : List Byte) : List Byte :=
  List.replicate (width - text.length) 0x20#8 ++ text

def isSpace (byte : Byte) : Bool :=
  byte = 0x20#8 || (0x09#8 ≤ byte && byte ≤ 0x0d#8)

/-- The value of one digit byte, when it is a digit of the base. -/
def digitValue (base : ℕ) (byte : Byte) : Option ℕ :=
  let code := byte.toNat
  let value :=
    if 48 ≤ code ∧ code ≤ 57 then some (code - 48)
    else if 97 ≤ code ∧ code ≤ 122 then some (code - 87)
    else if 65 ≤ code ∧ code ≤ 90 then some (code - 55)
    else none
  value.filter (· < base)

/-- Accumulate digits up to the first byte that is none. -/
def parseDigits (base : ℕ) (total : ℕ) : List Byte → ℕ
  | [] => total
  | byte :: bytes =>
      match digitValue base byte with
      | some digit => parseDigits base (base * total + digit) bytes
      | none => total

def longMax : ℤ := 2 ^ 63 - 1

def longMin : ℤ := -2 ^ 63

/-- A number as `strtol` returns it, stored in an `int`. -/
def longToInt (number : ℤ) : ℤ :=
  (BitVec.ofInt 32 (max longMin (min longMax number))).toInt

/-- `atoi` on a C string: blanks, an optional sign, decimal digits. -/
def atoi (memory : List Byte) : ℤ :=
  longToInt <|
    match (cstr memory).dropWhile isSpace with
    | 0x2d#8 :: digits => -(parseDigits 10 0 digits : ℤ)
    | 0x2b#8 :: digits => parseDigits 10 0 digits
    | digits => parseDigits 10 0 digits

/-! ## Digit bytes -/

theorem digitValue_digitChar {base digit : ℕ} (hbase : base ≤ 16)
    (hdigit : digit < base) :
    digitValue base (charByte digit.digitChar) = some digit := by
  have hsmall : digit < 16 := by omega
  have hvalue : ∀ d < 16, (digitValue 16 (charByte d.digitChar)) = some d := by
    decide
  have hsixteen := hvalue digit hsmall
  simp only [digitValue, Option.filter_eq_some_iff] at hsixteen ⊢
  exact ⟨hsixteen.1, by simpa using hdigit⟩

/-- Every byte of a printed number is a digit of its base. -/
theorem exists_digit_of_mem_digitText {base : ℕ} (hbase : 1 < base)
    (value : ℕ) {byte : Byte} (hbyte : byte ∈ digitText base value) :
    ∃ digit < base, byte = charByte digit.digitChar := by
  induction value using Nat.strong_induction_on with
  | _ value ih =>
      rw [digitText, Nat.toDigits_eq_if hbase] at hbyte
      by_cases hsmall : value < base
      · rw [if_pos hsmall] at hbyte
        exact ⟨value, hsmall, by simpa using hbyte⟩
      · rw [if_neg hsmall, List.map_append, List.mem_append] at hbyte
        rcases hbyte with hfront | hlast
        · exact ih (value / base) (Nat.div_lt_self (by omega) hbase) hfront
        · exact ⟨value % base, Nat.mod_lt value (by omega), by
            simpa using hlast⟩

theorem digitText_ne_nil (base value : ℕ) : digitText base value ≠ [] := by
  simp [digitText, Nat.toDigits_ne_nil]

theorem nulFree_digitText {base : ℕ} (hbase : 1 < base) (hsixteen : base ≤ 16)
    (value : ℕ) : NulFree (digitText base value) := by
  intro byte hbyte
  obtain ⟨digit, hdigit, rfl⟩ := exists_digit_of_mem_digitText hbase value hbyte
  have hnonzero : ∀ d < 16, charByte d.digitChar ≠ 0#8 := by decide
  exact hnonzero digit (by omega)

theorem length_digitText_le {base value width : ℕ} (hbase : 1 < base)
    (hwidth : 0 < width) (hvalue : value < base ^ width) :
    (digitText base value).length ≤ width := by
  rw [digitText, List.length_map]
  exact (Nat.length_toDigits_le_iff hbase hwidth).mpr hvalue

/-! ## Reading a printed number back -/

/-- Reading the digits of `value` behind an accumulated `total` shifts the
total by the number of digits. -/
theorem parseDigits_digitText {base : ℕ} (hbase : 1 < base)
    (hsixteen : base ≤ 16) (total value : ℕ) (rest : List Byte) :
    parseDigits base total (digitText base value ++ rest) =
      parseDigits base
        (base ^ (digitText base value).length * total + value) rest := by
  induction value using Nat.strong_induction_on generalizing rest with
  | _ value ih =>
      by_cases hsmall : value < base
      · have htext : digitText base value = [charByte value.digitChar] := by
          rw [digitText, Nat.toDigits_of_lt_base hsmall, List.map_singleton]
        rw [htext, List.singleton_append, parseDigits,
          digitValue_digitChar hsixteen hsmall]
        simp
      · have htext : digitText base value =
            digitText base (value / base) ++
              [charByte (value % base).digitChar] := by
          rw [digitText, Nat.toDigits_of_base_le hbase (by omega),
            List.map_append, List.map_singleton, digitText]
        have hdigit : value % base < base := Nat.mod_lt value (by omega)
        rw [htext, List.append_assoc,
          ih (value / base) (Nat.div_lt_self (by omega) hbase),
          List.singleton_append, parseDigits,
          digitValue_digitChar hsixteen hdigit, List.length_append,
          List.length_singleton]
        have hdivision := Nat.div_add_mod value base
        have htotal : base * (base ^ (digitText base (value / base)).length *
              total + value / base) + value % base =
            base ^ ((digitText base (value / base)).length + 1) * total +
              value := by
          rw [pow_succ, Nat.mul_add, add_assoc, hdivision]
          ring
        simp only [htotal]

theorem parseDigits_digitText_self {base : ℕ} (hbase : 1 < base)
    (hsixteen : base ≤ 16) (value : ℕ) :
    parseDigits base 0 (digitText base value) = value := by
  simpa [parseDigits] using parseDigits_digitText hbase hsixteen 0 value []

theorem digitText_injective {base : ℕ} (hbase : 1 < base)
    (hsixteen : base ≤ 16) : Function.Injective (digitText base) :=
  Function.LeftInverse.injective (parseDigits_digitText_self hbase hsixteen)

/-- An `int` stays as it is. -/
theorem longToInt_of_lt {number : ℤ} (hlow : -2 ^ 31 ≤ number)
    (hhigh : number < 2 ^ 31) : longToInt number = number := by
  have hmax : min longMax number = number := by
    apply min_eq_right
    rw [longMax]
    omega
  have hmin : max longMin number = number := by
    apply max_eq_right
    rw [longMin]
    omega
  rw [longToInt, hmax, hmin, BitVec.toInt_ofInt]
  exact Int.bmod_eq_of_le (by omega) (by omega)

/-- What is stored is not larger than a bound on the number. -/
theorem longToInt_lt {number bound : ℤ} (hlow : -bound < number)
    (hhigh : number < bound) : longToInt number < bound := by
  by_cases hsmall : -2 ^ 31 ≤ number ∧ number < 2 ^ 31
  · rw [longToInt_of_lt hsmall.1 hsmall.2]
    exact hhigh
  · have hstored : longToInt number < 2 ^ 31 :=
      BitVec.toInt_lt
    omega

/-- `atoi` reads back the decimal text of every `int`. -/
theorem atoi_digitText {value : ℕ} (hvalue : value < 2 ^ 31) :
    atoi (digitText 10 value) = value := by
  have hfree := nulFree_digitText (by decide) (by decide : 10 ≤ 16) value
  have hparse := parseDigits_digitText_self (by decide) (by decide : 10 ≤ 16) value
  have hint : longToInt value = value :=
    longToInt_of_lt (by omega) (by omega)
  have hhead : ∀ byte ∈ digitText 10 value,
      isSpace byte = false ∧ byte ≠ 0x2d#8 ∧ byte ≠ 0x2b#8 := by
    intro byte hbyte
    obtain ⟨digit, hdigit, rfl⟩ :=
      exists_digit_of_mem_digitText (by decide) value hbyte
    have hclean : ∀ d < 10, isSpace (charByte d.digitChar) = false ∧
        charByte d.digitChar ≠ 0x2d#8 ∧ charByte d.digitChar ≠ 0x2b#8 := by
      decide
    exact hclean digit hdigit
  rw [atoi, cstr_of_nulFree hfree]
  cases htext : digitText 10 value with
  | nil => exact absurd htext (digitText_ne_nil 10 value)
  | cons byte bytes =>
      obtain ⟨hspace, hminus, hplus⟩ := hhead byte (by simp [htext])
      rw [htext] at hparse
      rw [List.dropWhile_cons_of_neg (by simp [hspace])]
      split
      · next heq => exact absurd (List.cons.inj heq).1 hminus
      · next heq => exact absurd (List.cons.inj heq).1 hplus
      · rw [hparse, hint]

/-- Digits add less than a power of the base. -/
theorem parseDigits_lt {base : ℕ} (hbase : 0 < base) (total : ℕ)
    (bytes : List Byte) :
    parseDigits base total bytes < (total + 1) * base ^ bytes.length := by
  induction bytes generalizing total with
  | nil => simp [parseDigits]
  | cons byte bytes ih =>
      have hpower : 1 ≤ base ^ (bytes.length + 1) := Nat.one_le_pow _ _ hbase
      rw [parseDigits]
      cases hdigit : digitValue base byte with
      | none =>
          exact Nat.lt_of_succ_le (Nat.le_mul_of_pos_right _ hpower)
      | some digit =>
          have hlt : digit < base := by
            simpa using (Option.filter_eq_some_iff.mp hdigit).2
          have htotal : base * total + digit + 1 ≤ (total + 1) * base := by
            rw [Nat.add_mul, Nat.one_mul, Nat.mul_comm total]
            omega
          calc parseDigits base (base * total + digit) bytes
              < (base * total + digit + 1) * base ^ bytes.length := ih _
            _ ≤ (total + 1) * base * base ^ bytes.length :=
                Nat.mul_le_mul_right _ htotal
            _ = (total + 1) * base ^ (bytes.length + 1) := by
                rw [Nat.mul_assoc, pow_succ']

theorem parseDigits_zero_lt {bytes : List Byte} {width : ℕ}
    (hwidth : bytes.length ≤ width) : parseDigits 10 0 bytes < 10 ^ width := by
  have hparse := parseDigits_lt (show 0 < 10 by decide) 0 bytes
  rw [zero_add, one_mul] at hparse
  exact hparse.trans_le (Nat.pow_le_pow_right (by decide) hwidth)

/-- What `atoi` returns is bounded by the length of the string. -/
theorem atoi_lt {memory : List Byte} {width : ℕ}
    (hwidth : (cstr memory).length ≤ width) : atoi memory < 10 ^ width := by
  have hrest : ((cstr memory).dropWhile isSpace).length ≤ width :=
    (List.dropWhile_suffix _).length_le.trans hwidth
  have hpower : (0 : ℤ) < 10 ^ width := by positivity
  have hbound : ∀ digits : List Byte, digits.length ≤ width →
      (parseDigits 10 0 digits : ℤ) < 10 ^ width := fun digits hdigits => by
    exact_mod_cast parseDigits_zero_lt hdigits
  rw [atoi]
  split
  next digits heq =>
    rw [heq, List.length_cons] at hrest
    have hdigits := hbound digits (by omega)
    exact longToInt_lt (by omega) (by omega)
  next digits heq =>
    rw [heq, List.length_cons] at hrest
    have hdigits := hbound digits (by omega)
    exact longToInt_lt (by omega) hdigits
  next =>
    have hdigits := hbound _ hrest
    exact longToInt_lt (by omega) hdigits

/-- `atoi` sees the string only. -/
theorem atoi_of_cstr {memory : List Byte} {value : ℕ} (hvalue : value < 2 ^ 31)
    (hmemory : cstr memory = digitText 10 value) : atoi memory = value := by
  have hfree := nulFree_digitText (by decide) (by decide : 10 ≤ 16) value
  rw [← atoi_digitText hvalue, atoi, atoi, hmemory, cstr_of_nulFree hfree]

/-! ## Padded fields -/

theorem length_padLeft {width : ℕ} {text : List Byte}
    (hfits : text.length ≤ width) : (padLeft width text).length = width := by
  rw [padLeft, List.length_append, List.length_replicate]
  omega

theorem nulFree_padLeft (width : ℕ) {text : List Byte} (hfree : NulFree text) :
    NulFree (padLeft width text) := by
  refine NulFree.append (fun byte hbyte => ?_) hfree
  rw [List.eq_of_mem_replicate hbyte]
  decide

/-- `sprintf("%8x", n)` for a 32-bit argument. -/
def hexField (value : BitVec 32) : List Byte :=
  padLeft 8 (digitText 16 value.toNat)

theorem length_hexField (value : BitVec 32) : (hexField value).length = 8 := by
  refine length_padLeft (length_digitText_le (by decide) (by decide) ?_)
  have hvalue := value.isLt
  norm_num at hvalue ⊢
  exact hvalue

theorem nulFree_hexField (value : BitVec 32) : NulFree (hexField value) :=
  nulFree_padLeft 8 (nulFree_digitText (by decide) (by decide) value.toNat)

end SyncAnywhere.Numeral
