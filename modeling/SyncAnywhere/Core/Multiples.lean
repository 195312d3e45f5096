import Mathlib

/-!
# Multiples of a period

A loop that acts in every `period`-th turn acts behind the turns `multiples
period count`.  Every third of them is a multiple of three periods.
-/

namespace SyncAnywhere.Multiples

variable {A B : Type*}

/-- The third, the sixth, the ninth element, and so on. -/
def everyThird : List A → List A
  | _ :: _ :: third :: rest => third :: everyThird rest
  | _ => []

theorem everyThird_map (f : A → B) (list : List A) :
    everyThird (list.map f) = (everyThird list).map f := by
  induction list using everyThird.induct with
  | case1 first second third rest ih =>
      simp only [List.map_cons, everyThird, ih]
  | case2 list hshort =>
      match list with
      | [] => rfl
      | [_] => rfl
      | [_, _] => rfl
      | first :: second :: third :: rest =>
          exact absurd rfl (hshort first second third rest)

theorem getElem?_everyThird (list : List A) (index : ℕ) :
    (everyThird list)[index]? = list[3 * index + 2]? := by
  induction list using everyThird.induct generalizing index with
  | case1 first second third rest ih =>
      rw [everyThird]
      cases index with
      | zero => rfl
      | succ index => exact ih index
  | case2 list hshort =>
      match list with
      | [] => rfl
      | [_] => rfl
      | [_, _] => rfl
      | first :: second :: third :: rest =>
          exact absurd rfl (hshort first second third rest)

/-- The multiples of `period` from one to `count`. -/
def multiples (period count : ℕ) : List ℕ :=
  (List.range' 1 count).filter fun turn => decide (period ∣ turn)

theorem multiples_eq_map (period count : ℕ) :
    multiples period count =
      (List.range (count / period)).map fun index => period * (index + 1) := by
  induction count with
  | zero => simp [multiples]
  | succ count ih =>
      have hsplit : multiples period (count + 1) = multiples period count ++
          [1 + count].filter fun turn => decide (period ∣ turn) := by
        rw [multiples, List.range'_1_concat, List.filter_append]
        rfl
      rw [hsplit, ih, Nat.add_comm 1 count]
      by_cases hdvd : period ∣ count + 1
      · have hlast : period * (count / period + 1) = count + 1 := by
          rw [← Nat.succ_div_of_dvd hdvd]
          exact Nat.mul_div_cancel' hdvd
        rw [Nat.succ_div_of_dvd hdvd, List.range_succ, List.map_append,
          List.map_singleton, hlast]
        simp [hdvd]
      · rw [Nat.succ_div_of_not_dvd hdvd]
        simp [hdvd]

theorem length_multiples (period count : ℕ) :
    (multiples period count).length = count / period := by
  rw [multiples_eq_map, List.length_map, List.length_range]

theorem everyThird_multiples (period count : ℕ) :
    everyThird (multiples period count) = multiples (period * 3) count := by
  rw [multiples_eq_map, multiples_eq_map, ← Nat.div_div_eq_div_mul]
  ext1 index
  rw [getElem?_everyThird, List.getElem?_map, List.getElem?_map]
  by_cases hindex : index < count / period / 3
  · have hthird : 3 * index + 2 < count / period := by omega
    have hvalue : period * (3 * index + 2 + 1) = period * 3 * (index + 1) := by
      ring
    rw [List.getElem?_range hindex, List.getElem?_range hthird,
      Option.map_some, Option.map_some, hvalue]
  · have hthird : count / period ≤ 3 * index + 2 := by omega
    rw [List.getElem?_eq_none (by simpa using hthird),
      List.getElem?_eq_none (by simpa using hindex)]
    rfl

end SyncAnywhere.Multiples
