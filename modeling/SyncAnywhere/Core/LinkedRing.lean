import Mathlib

/-!
# Linked rings

Nodes with a nullable link to the next node.  In a ring the links lead from its
head through all other nodes, each of them once, and back to the head.
-/

namespace SyncAnywhere.LinkedRing

variable {A : Type*} {next next' : A → Option A} {head last fresh : A}
variable {rest : List A}

/-- The node that `steps` links lead to. -/
def follow (next : A → Option A) (start : A) : ℕ → Option A
  | 0 => some start
  | steps + 1 => (follow next start steps).bind next

def Links (next : A → Option A) (left right : A) : Prop :=
  next left = some right

/-- The ring of `head` and the nodes `rest` behind it. -/
structure Ring (next : A → Option A) (head : A) (rest : List A) : Prop where
  nodup : (head :: rest).Nodup
  linked : (head :: rest ++ [head]).IsChain (Links next)

/-- Links lead along every chain. -/
theorem follow_of_isChain {start : A} {nodes : List A}
    (hstart : nodes[0]? = some start) (hchain : nodes.IsChain (Links next))
    {steps : ℕ} (hsteps : steps < nodes.length) :
    follow next start steps = nodes[steps]? := by
  induction steps with
  | zero => exact hstart.symm
  | succ steps ih =>
      have hbefore : steps < nodes.length := Nat.lt_of_succ_lt hsteps
      have hlink : next nodes[steps] = some nodes[steps + 1] :=
        hchain.getElem steps hsteps
      rw [follow, ih hbefore, List.getElem?_eq_getElem hbefore,
        Option.bind_some, hlink, List.getElem?_eq_getElem hsteps]

/-- A chain depends on the links of all its nodes but the last one. -/
theorem isChain_congr {front : List A}
    (hkept : ∀ node ∈ front, next' node = next node)
    (hchain : (front ++ [last]).IsChain (Links next)) :
    (front ++ [last]).IsChain (Links next') := by
  rw [List.isChain_iff_getElem] at hchain ⊢
  intro index hindex
  have hfront : index < front.length := by
    rw [List.length_append, List.length_singleton] at hindex
    exact Nat.lt_of_succ_lt_succ hindex
  have hlink := hchain index hindex
  rw [List.getElem_append_left hfront] at hlink ⊢
  rw [Links, hkept _ (List.getElem_mem hfront)]
  exact hlink

namespace Ring

theorem single (hnext : next head = some head) : Ring next head [] where
  nodup := List.nodup_singleton head
  linked := by simpa [Links] using hnext

/-- A link inside the ring does not lead to its head. -/
theorem next_eq (hring : Ring next head rest) {front back : List A}
    {left right : A} (hsplit : head :: rest = front ++ left :: right :: back) :
    next left = some right ∧ right ≠ head := by
  have hlinked := hring.linked
  have hnodup := hring.nodup
  rw [hsplit] at hnodup
  rw [hsplit, List.append_assoc, List.cons_append, List.cons_append,
    List.isChain_append_cons_cons] at hlinked
  refine ⟨hlinked.2.1, ?_⟩
  rintro rfl
  cases front with
  | nil =>
      rw [List.nil_append, List.cons.injEq] at hsplit
      simp [hsplit.1] at hnodup
  | cons first front =>
      rw [List.cons_append, List.cons.injEq] at hsplit
      simp [hsplit.1] at hnodup

/-- The last node links to the head. -/
theorem next_last (hring : Ring next head rest) {front : List A}
    (hsplit : head :: rest = front ++ [last]) : next last = some head := by
  have hlinked := hring.linked
  rw [hsplit, List.append_assoc, List.singleton_append,
    List.isChain_append_cons_cons] at hlinked
  exact hlinked.2.1

theorem next_head_ne_none (hring : Ring next head rest) :
    next head ≠ none := by
  cases rest with
  | nil => simp [@next_last _ _ _ _ _ hring [] rfl]
  | cons second rest => simp [(@next_eq _ _ _ _ hring [] rest _ _ rfl).1]

/-- A new node between the last one and the head. -/
theorem append (hring : Ring next head rest) {front : List A}
    (hsplit : head :: rest = front ++ [last]) (hfresh : fresh ∉ head :: rest)
    (hkept : ∀ node ∈ front, next' node = next node)
    (hlast : next' last = some fresh) (hback : next' fresh = some head) :
    Ring next' head (rest ++ [fresh]) where
  nodup := by
    rw [← List.cons_append]
    exact List.nodup_append.mpr ⟨hring.nodup, List.nodup_singleton fresh, by
      intro old hold new hnew
      rw [List.mem_singleton] at hnew
      rintro rfl
      exact hfresh (hnew ▸ hold)⟩
  linked := by
    have hlinked := hring.linked
    rw [hsplit, List.append_assoc, List.singleton_append,
      List.isChain_append_cons_cons] at hlinked
    rw [← List.cons_append, hsplit, List.append_assoc, List.append_assoc,
      List.singleton_append, List.singleton_append,
      List.isChain_append_cons_cons]
    refine ⟨?_, hlast, ?_⟩
    · exact isChain_congr hkept hlinked.1
    · exact List.isChain_pair.mpr hback

/-- The first links visit the nodes of the ring in order. -/
theorem follow_of_lt (hring : Ring next head rest) {steps : ℕ}
    (hsteps : steps < (head :: rest).length) :
    follow next head steps = (head :: rest)[steps]? := by
  rw [follow_of_isChain rfl hring.linked
    (by rw [List.length_append]; exact Nat.lt_add_right _ hsteps),
    List.getElem?_append_left hsteps]

/-- The next link leads back to the head. -/
theorem follow_length (hring : Ring next head rest) :
    follow next head (head :: rest).length = some head := by
  rw [follow_of_isChain rfl hring.linked
    (by rw [List.length_append]; exact Nat.lt_succ_self _)]
  exact List.getElem?_concat_length

/-- The nodes visited on the way are different. -/
theorem follow_inj (hring : Ring next head rest) {left right : ℕ}
    (hleft : left < (head :: rest).length)
    (hright : right < (head :: rest).length)
    (hsame : follow next head left = follow next head right) :
    left = right := by
  rw [hring.follow_of_lt hleft, hring.follow_of_lt hright] at hsame
  exact (List.getElem?_inj hleft hring.nodup).mp hsame

end Ring

end SyncAnywhere.LinkedRing
