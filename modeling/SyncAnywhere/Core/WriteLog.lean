import Mathlib

/-!
# Stores and their writes

A store maps keys to values.  Behind a list of writes it holds at each key the
value of the last write to that key, and elsewhere what it held before.
-/

namespace SyncAnywhere.WriteLog

variable {K V : Type*} [DecidableEq K]

def applyWrites (store : K → V) (writes : List (K × V)) : K → V :=
  writes.foldl (fun store write => Function.update store write.1 write.2) store

theorem applyWrites_append (store : K → V) (front back : List (K × V)) :
    applyWrites store (front ++ back) =
      applyWrites (applyWrites store front) back :=
  List.foldl_append

theorem applyWrites_concat (store : K → V) (writes : List (K × V)) (key : K)
    (value : V) :
    applyWrites store (writes ++ [(key, value)]) =
      Function.update (applyWrites store writes) key value :=
  applyWrites_append store writes [(key, value)]

/-- A key that is not written keeps its value. -/
theorem applyWrites_of_forall_ne {store : K → V} {writes : List (K × V)}
    {key : K} (hne : ∀ write ∈ writes, write.1 ≠ key) :
    applyWrites store writes key = store key := by
  induction writes using List.reverseRecOn with
  | nil => rfl
  | append_singleton writes write ih =>
      have hlast : key ≠ write.1 := (hne write (by simp)).symm
      rw [applyWrites_concat, Function.update_of_ne hlast]
      apply ih
      intro earlier hearlier
      exact hne earlier (by simp [hearlier])

/-- A key holds the value of the last write to it. -/
theorem applyWrites_of_last {store : K → V} {front back : List (K × V)}
    {key : K} {value : V} (hlast : ∀ write ∈ back, write.1 ≠ key) :
    applyWrites store (front ++ (key, value) :: back) key = value := by
  calc applyWrites store (front ++ (key, value) :: back) key
      = applyWrites (applyWrites store (front ++ [(key, value)])) back key := by
        rw [← applyWrites_append, List.append_assoc, List.singleton_append]
    _ = applyWrites store (front ++ [(key, value)]) key :=
        applyWrites_of_forall_ne hlast
    _ = value := by
        rw [applyWrites_concat, Function.update_self]

end SyncAnywhere.WriteLog
