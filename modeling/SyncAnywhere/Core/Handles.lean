import Mathlib

/-!
# Handles

A process is handed handles (descriptors, addresses) that are not in use and may
give them back.  `Leaks count` compares the handles in use before and after a
computation that gives back all but `count` of those it took.
-/

namespace SyncAnywhere.Handles

/-- The choice of a handle that is not in use. -/
structure Allocator (H : Type*) where
  next : Finset H → H
  next_fresh : ∀ used, next used ∉ used

/-- The lowest number not in use. -/
def lowest : Allocator ℕ where
  next used :=
    ((List.range (used.card + 1)).find? fun n => decide (n ∉ used)).getD 0
  next_fresh used := by
    cases hfind : (List.range (used.card + 1)).find?
        fun n => decide (n ∉ used) with
    | some n => simpa using List.find?_some hfind
    | none =>
        obtain ⟨n, hn, hfree⟩ := Finset.exists_mem_notMem_of_card_lt_card
          (show used.card < (Finset.range (used.card + 1)).card by simp)
        have hused := List.find?_eq_none.mp hfind n
          (List.mem_range.mpr (Finset.mem_range.mp hn))
        exact absurd (decide_eq_true hfree) hused

variable {H : Type*}

namespace Allocator

variable [DecidableEq H] (alloc : Allocator H) (used : Finset H)

/-- The handles in use when one more is handed out. -/
def take : Finset H :=
  insert (alloc.next used) used

theorem mem_take_of_mem {used : Finset H} {handle : H}
    (hhandle : handle ∈ used) : handle ∈ alloc.take used :=
  Finset.mem_insert_of_mem hhandle

@[simp]
theorem next_mem_take : alloc.next used ∈ alloc.take used :=
  Finset.mem_insert_self _ _

theorem card_take : (alloc.take used).card = used.card + 1 :=
  Finset.card_insert_of_notMem (alloc.next_fresh used)

end Allocator

/-- The handles of `before` are in use `after`, with `count` more. -/
structure Leaks (count : ℕ) (before after : Finset H) : Prop where
  subset : before ⊆ after
  card_eq : after.card = before.card + count

namespace Leaks

variable {count : ℕ} {before middle after : Finset H}

theorem refl (used : Finset H) : Leaks 0 used used :=
  ⟨subset_rfl, rfl⟩

theorem trans {first second : ℕ} (hfirst : Leaks first before middle)
    (hsecond : Leaks second middle after) :
    Leaks (first + second) before after where
  subset := hfirst.subset.trans hsecond.subset
  card_eq := by rw [hsecond.card_eq, hfirst.card_eq, add_assoc]

/-- Nothing is leaked exactly when the same handles are in use again. -/
theorem eq_iff (hleaks : Leaks count before after) :
    after = before ↔ count = 0 := by
  constructor
  · rintro rfl
    exact Nat.left_eq_add.mp hleaks.card_eq
  · rintro rfl
    exact (Finset.eq_of_subset_of_card_le hleaks.subset
      hleaks.card_eq.le).symm

variable [DecidableEq H]

theorem take (alloc : Allocator H) (used : Finset H) :
    Leaks 1 used (alloc.take used) :=
  ⟨Finset.subset_insert _ _, alloc.card_take used⟩

/-- A handle that is given back at the end does not count. -/
theorem giveBack {alloc : Allocator H} {used : Finset H}
    (hinner : Leaks count (alloc.take used) after) :
    Leaks count used (after.erase (alloc.next used)) where
  subset := by
    intro handle hhandle
    rw [Finset.mem_erase]
    constructor
    · rintro rfl
      exact alloc.next_fresh used hhandle
    · exact hinner.subset (alloc.mem_take_of_mem hhandle)
  card_eq := by
    have hmem := hinner.subset (alloc.next_mem_take used)
    rw [Finset.card_erase_of_mem hmem, hinner.card_eq, alloc.card_take]
    omega

end Leaks

end SyncAnywhere.Handles
