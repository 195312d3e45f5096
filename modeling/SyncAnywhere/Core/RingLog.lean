import Mathlib

/-!
# Rings written by a log

A writer that appends entries to a ring of `capacity` slots, one slot after
another and without looking at the reader, leaves in each slot the last entry
that fell into it.  The results relate such a ring to its log, and a reader
that keeps within one turn of the writer to an unbounded queue.
-/

namespace SyncAnywhere.RingLog

variable {A : Type*}

/-- Slot `i % capacity` still holds entry `i` of the log unless the writer has
come round to that slot again. -/
def Holds (capacity : ℕ) (slot : ℕ → A) (log : List A) : Prop :=
  ∀ index entry, log[index]? = some entry → log.length ≤ index + capacity →
    slot (index % capacity) = entry

theorem Holds.nil (capacity : ℕ) (slot : ℕ → A) : Holds capacity slot [] := by
  intro index entry hentry
  simp at hentry

/-- Writing the next entry into the next slot keeps the law. -/
theorem Holds.write {capacity : ℕ} {slot : ℕ → A} {log : List A}
    (hholds : Holds capacity slot log) (entry : A) :
    Holds capacity (Function.update slot (log.length % capacity) entry)
      (log ++ [entry]) := by
  intro index found hfound hrecent
  rw [List.length_append, List.length_singleton] at hrecent
  rcases lt_trichotomy index log.length with hold | hnew | hpast
  · rw [List.getElem?_append_left hold] at hfound
    have hother : index % capacity ≠ log.length % capacity := by
      intro hsame
      have hdvd : capacity ∣ log.length - index :=
        (Nat.modEq_iff_dvd' hold.le).mp hsame
      have hle := Nat.le_of_dvd (by omega) hdvd
      omega
    rw [Function.update_of_ne hother]
    exact hholds index found hfound (by omega)
  · subst hnew
    rw [Function.update_self]
    simpa using hfound
  · rw [List.getElem?_eq_none (by simpa using hpast)] at hfound
    cases hfound

/-- Entry `index` is the latest one of its slot exactly when the writer has
not come round to the slot again. -/
theorem latest_iff {capacity index length : ℕ} (hcapacity : 0 < capacity) :
    (∀ other < length, other % capacity = index % capacity → other ≤ index) ↔
      length ≤ index + capacity := by
  constructor
  · intro hlatest
    by_contra hturn
    have hnext := hlatest (index + capacity) (by omega) (by simp)
    omega
  · intro hturn other hother hsame
    by_contra hlater
    have hdvd : capacity ∣ other - index :=
      (Nat.modEq_iff_dvd' (by omega)).mp hsame.symm
    have hle := Nat.le_of_dvd (by omega) hdvd
    omega

/-- Every slot that was written has a latest entry. -/
theorem exists_latest {capacity index length : ℕ} (hcapacity : 0 < capacity)
    (hindex : index < length) :
    ∃ latest, index ≤ latest ∧ latest < length ∧
      length ≤ latest + capacity ∧
      latest % capacity = index % capacity := by
  have hsplit := Nat.div_add_mod (length - 1 - index) capacity
  have hrest := Nat.mod_lt (length - 1 - index) hcapacity
  refine ⟨index + capacity * ((length - 1 - index) / capacity), ?_, ?_, ?_, ?_⟩
  · exact Nat.le_add_right _ _
  · omega
  · omega
  · exact Nat.add_mul_mod_self_left _ _ _

/-- The wrap test of a ring index computes the next index modulo the
capacity. -/
theorem wrap_succ_mod {capacity : ℕ} (hcapacity : 0 < capacity) (count : ℕ) :
    (if count % capacity + 1 = capacity then 0 else count % capacity + 1) =
      (count + 1) % capacity := by
  rw [← Nat.mod_add_mod]
  by_cases hwrap : count % capacity + 1 = capacity
  · rw [if_pos hwrap, hwrap, Nat.mod_self]
  · have hlt := Nat.mod_lt count hcapacity
    have hbelow : count % capacity + 1 < capacity := by omega
    rw [if_neg hwrap, Nat.mod_eq_of_lt hbelow]

/-- Within one turn the two indices meet only when the counts do. -/
theorem mod_eq_mod_iff {capacity written read : ℕ} (hread : read ≤ written)
    (hturn : written < read + capacity) :
    written % capacity = read % capacity ↔ written = read := by
  constructor
  · intro hsame
    have hdvd : capacity ∣ written - read :=
      (Nat.modEq_iff_dvd' hread).mp hsame.symm
    by_contra hne
    have hle := Nat.le_of_dvd (by omega) hdvd
    omega
  · rintro rfl
    rfl

/-! ## A burst of writes from any start -/

/-- The slot of entry `index` of a burst that starts at slot `start`. -/
def burstSlot (capacity start index : ℕ) : ℕ :=
  (start + index) % capacity

/-- A burst fills its slots from `start` on with its entries, in order, and
leaves all others alone. -/
structure Burst (capacity start : ℕ) (before after : ℕ → A)
    (entries : List A) : Prop where
  placed : ∀ index entry, entries[index]? = some entry →
    after (burstSlot capacity start index) = entry
  kept : ∀ slot, (∀ index < entries.length,
    burstSlot capacity start index ≠ slot) → after slot = before slot

/-- Within one turn the slots of a burst are different. -/
theorem burstSlot_ne {capacity start left right : ℕ} (hless : left < right)
    (hturn : right < capacity) :
    burstSlot capacity start left ≠ burstSlot capacity start right := by
  intro hsame
  have hstart : start + left = start + right :=
    ((mod_eq_mod_iff (by omega) (by omega)).mp hsame.symm).symm
  omega

theorem Burst.nil (capacity start : ℕ) (slots : ℕ → A) :
    Burst capacity start slots slots [] where
  placed := by
    intro index entry hentry
    simp at hentry
  kept := fun _ _ => rfl

/-- One more write at the next slot makes the burst longer by its entry. -/
theorem Burst.write {capacity start : ℕ} {before after : ℕ → A}
    {entries : List A} (hburst : Burst capacity start before after entries)
    (hroom : entries.length < capacity) (entry : A) :
    Burst capacity start before
      (Function.update after (burstSlot capacity start entries.length) entry)
      (entries ++ [entry]) where
  placed := by
    intro index found hfound
    rcases lt_trichotomy index entries.length with hold | hnew | hpast
    · rw [List.getElem?_append_left hold] at hfound
      rw [Function.update_of_ne (burstSlot_ne hold hroom)]
      exact hburst.placed index found hfound
    · subst hnew
      rw [Function.update_self]
      simpa using hfound
    · rw [List.getElem?_eq_none (by simpa using hpast)] at hfound
      cases hfound
  kept := by
    intro slot hslot
    have hlast : burstSlot capacity start entries.length ≠ slot :=
      hslot entries.length (by simp)
    rw [Function.update_of_ne hlast.symm]
    apply hburst.kept
    intro index hindex
    apply hslot
    rw [List.length_append]
    exact Nat.lt_add_right _ hindex

/-! ## The unbounded queue -/

/-- The entries written but not yet read, oldest first. -/
def pending (log : List A) (read : ℕ) : List A :=
  log.drop read

theorem pending_append {log : List A} {read : ℕ} (hread : read ≤ log.length)
    (entries : List A) :
    pending (log ++ entries) read = pending log read ++ entries := by
  rw [pending, List.drop_append_of_le_length hread, pending]

theorem tail_pending (log : List A) (read : ℕ) :
    (pending log read).tail = pending log (read + 1) := by
  rw [pending, List.tail_drop, pending]

theorem pending_eq_nil_iff (log : List A) (read : ℕ) :
    pending log read = [] ↔ log.length ≤ read := by
  rw [pending, List.drop_eq_nil_iff]

theorem head?_pending (log : List A) (read : ℕ) :
    (pending log read).head? = log[read]? := by
  rw [pending, List.head?_drop]

/-- The reader's slot holds the front of the queue. -/
theorem Holds.front {capacity : ℕ} {slot : ℕ → A} {log : List A}
    (hholds : Holds capacity slot log) {read : ℕ} {entry : A}
    (hturn : log.length ≤ read + capacity)
    (hfront : (pending log read).head? = some entry) :
    slot (read % capacity) = entry := by
  rw [head?_pending] at hfront
  exact hholds read entry hfront hturn

end SyncAnywhere.RingLog
