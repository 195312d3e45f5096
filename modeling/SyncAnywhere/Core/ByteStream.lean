import SyncAnywhere.Core.CMemory

/-!
# Segmented byte streams

A stream socket or a file delivers its bytes in order but cuts them into reads
at will.  A `Segmentation` is one such cut: non-empty parts of bounded length
whose concatenation is the stream.
-/

namespace SyncAnywhere.ByteStream

open SyncAnywhere.CMemory

/-- What one `read` with a positive result delivers. -/
structure Part (limit : ℕ) where
  bytes : List Byte
  length_pos : 0 < bytes.length
  length_le : bytes.length ≤ limit

/-- The bytes of successive parts. -/
def joined {limit : ℕ} (parts : List (Part limit)) : List Byte :=
  parts.flatMap Part.bytes

structure Segmentation (limit : ℕ) (stream : List Byte) where
  parts : List (Part limit)
  joined_parts : joined parts = stream

section Joined

variable {limit : ℕ}

@[simp]
theorem joined_nil : joined ([] : List (Part limit)) = [] := rfl

@[simp]
theorem joined_cons (part : Part limit) (parts : List (Part limit)) :
    joined (part :: parts) = part.bytes ++ joined parts := rfl

theorem length_joined_pos {parts : List (Part limit)} (hne : parts ≠ []) :
    0 < (joined parts).length := by
  obtain ⟨part, parts, rfl⟩ := List.exists_cons_of_ne_nil hne
  rw [joined_cons, List.length_append]
  exact Nat.add_pos_left part.length_pos _

/-- A stream that arrives in one part. -/
def Segmentation.Unsplit {stream : List Byte}
    (segmentation : Segmentation limit stream) : Prop :=
  segmentation.parts.length = 1

instance {stream : List Byte} (segmentation : Segmentation limit stream) :
    Decidable segmentation.Unsplit :=
  inferInstanceAs (Decidable (_ = _))

theorem Segmentation.Unsplit.exists_part {stream : List Byte}
    {segmentation : Segmentation limit stream} (hunsplit : segmentation.Unsplit) :
    ∃ part, segmentation.parts = [part] ∧ part.bytes = stream := by
  obtain ⟨part, hparts⟩ := List.length_eq_one_iff.mp hunsplit
  have hjoined := segmentation.joined_parts
  rw [hparts, joined_cons, joined_nil, List.append_nil] at hjoined
  exact ⟨part, hparts, hjoined⟩

/-- Every part of a stream that is split lacks some of its bytes. -/
theorem Segmentation.length_part_lt {stream : List Byte}
    {segmentation : Segmentation limit stream}
    (hsplit : ¬ segmentation.Unsplit) {part : Part limit}
    (hpart : part ∈ segmentation.parts) :
    part.bytes.length < stream.length := by
  obtain ⟨front, back, hparts⟩ := List.append_of_mem hpart
  have hlength := congrArg List.length segmentation.joined_parts
  rw [hparts, joined, List.flatMap_append, List.flatMap_cons,
    List.length_append, List.length_append] at hlength
  by_cases hfront : front = []
  · have hback : back ≠ [] := by
      rintro rfl
      rw [hfront, List.nil_append] at hparts
      exact hsplit (by rw [Unsplit, hparts, List.length_singleton])
    have hpos := length_joined_pos hback
    rw [joined] at hpos
    omega
  · have hpos := length_joined_pos hfront
    rw [joined] at hpos
    omega

end Joined

/-! ## Partial writes -/

/-- The bytes a socket took of what it was asked to write; a failed call
reports `-1` and takes nothing. -/
def taken (bytes : List Byte) (written : ℤ) : List Byte :=
  bytes.take written.toNat

theorem taken_all (bytes : List Byte) : taken bytes bytes.length = bytes := by
  simp [taken]

theorem length_taken_le (bytes : List Byte) (written : ℤ) :
    (taken bytes written).length ≤ bytes.length :=
  List.length_take_le' _ _

/-- Among the results a call can return, only the full count takes all
bytes. -/
theorem length_taken_eq_iff {bytes : List Byte} {written : ℤ}
    (hne : bytes ≠ []) (hmax : written ≤ bytes.length) :
    (taken bytes written).length = bytes.length ↔
      written = bytes.length := by
  have hpos := List.length_pos_iff.mpr hne
  rw [taken, List.length_take]
  omega

end SyncAnywhere.ByteStream
