import Mathlib

/-!
# Paths and the places they lead to

Without links a place in a tree of directories is the list of names on the way to
it from the root.  A path is walked component by component: an empty component
and a single dot stay, two dots go up, and the root is its own parent.
-/

namespace SyncAnywhere.PathWalk

variable {A : Type*}

/-- One component of a path. -/
inductive Step (A : Type*) where
  | stay
  | up
  | down (name : A)
  deriving DecidableEq

def takeStep (place : List A) : Step A → List A
  | .stay => place
  | .up => place.dropLast
  | .down name => place ++ [name]

def walk (place : List A) (steps : List (Step A)) : List A :=
  steps.foldl takeStep place

/-- The location lies below the directory and is not the directory itself. -/
def StrictlyInside (directory place : List A) : Prop :=
  directory <+: place ∧ directory ≠ place

instance [DecidableEq A] (directory place : List A) :
    Decidable (StrictlyInside directory place) :=
  inferInstanceAs (Decidable (_ ∧ _))

theorem strictlyInside_iff {directory place : List A} :
    StrictlyInside directory place ↔
      ∃ rest, rest ≠ [] ∧ place = directory ++ rest := by
  constructor
  · rintro ⟨⟨rest, rfl⟩, hne⟩
    refine ⟨rest, ?_, rfl⟩
    rintro rfl
    exact hne (List.append_nil directory).symm
  · rintro ⟨rest, hrest, rfl⟩
    exact ⟨List.prefix_append directory rest,
      fun heq => hrest (List.self_eq_append_right.mp heq)⟩

theorem walk_append (place : List A) (front back : List (Step A)) :
    walk place (front ++ back) = walk (walk place front) back :=
  List.foldl_append

/-! ## Walks without their detours -/

/-- A walk in which every step up that follows a step down has taken it back:
first up, then down. -/
structure Route (A : Type*) where
  climbs : ℕ
  names : List A
  deriving DecidableEq

namespace Route

def step (route : Route A) : Step A → Route A
  | .stay => route
  | .up =>
      match route.names with
      | [] => ⟨route.climbs + 1, []⟩
      | name :: names => ⟨route.climbs, (name :: names).dropLast⟩
  | .down name => ⟨route.climbs, route.names ++ [name]⟩

def ofSteps (steps : List (Step A)) : Route A :=
  steps.foldl step ⟨0, []⟩

/-- The place a route leads to. -/
def follow (place : List A) (route : Route A) : List A :=
  place.take (place.length - route.climbs) ++ route.names

theorem follow_step (place : List A) (route : Route A) (next : Step A) :
    follow place (route.step next) = takeStep (follow place route) next := by
  obtain ⟨climbs, names⟩ := route
  cases next with
  | stay => rfl
  | down name => exact (List.append_assoc _ _ _).symm
  | up =>
      cases names with
      | nil =>
          rw [step, takeStep, follow, follow, List.append_nil, List.append_nil,
            List.dropLast_eq_take, List.length_take, List.take_take]
          congr 1
          dsimp only
          omega
      | cons name names =>
          rw [step, takeStep, follow, follow,
            List.dropLast_append_of_ne_nil (List.cons_ne_nil name names)]

end Route

/-- Leaving out the detours does not change where a walk leads. -/
theorem walk_eq_follow (place : List A) (steps : List (Step A)) :
    walk place steps = (Route.ofSteps steps).follow place := by
  induction steps using List.reverseRecOn with
  | nil => simp [walk, Route.ofSteps, Route.follow]
  | append_singleton steps next ih =>
      rw [walk_append, ih, Route.ofSteps, Route.ofSteps, List.foldl_append,
        List.foldl_cons, List.foldl_nil, Route.follow_step]
      rfl

/-- A walk from a directory ends strictly inside of it exactly when, behind its
climbs, it goes down again through the names it climbed from and then through
at least one more. -/
theorem strictlyInside_walk_iff (directory : List A) (steps : List (Step A)) :
    StrictlyInside directory (walk directory steps) ↔
      ∃ rest, rest ≠ [] ∧ (Route.ofSteps steps).names =
        directory.drop (directory.length - (Route.ofSteps steps).climbs) ++
          rest := by
  rw [strictlyInside_iff, walk_eq_follow, Route.follow]
  generalize directory.length - (Route.ofSteps steps).climbs = kept
  apply exists_congr
  intro rest
  apply and_congr_right
  intro _
  have hsplit : directory ++ rest =
      directory.take kept ++ (directory.drop kept ++ rest) := by
    rw [← List.append_assoc, List.take_append_drop]
  rw [hsplit]
  exact List.append_right_inj _

/-! ## Paths as texts -/

section Texts

variable [DecidableEq A] (slash dot : A)

/-- What one component does. -/
def stepOf (part : List A) : Step (List A) :=
  if part = [] ∨ part = [dot] then .stay
  else if part = [dot, dot] then .up
  else .down part

def steps (path : List A) : List (Step (List A)) :=
  (path.splitOn slash).map (stepOf dot)

/-- The place a path leads to from a working directory; a path that begins with
a slash starts at the root. -/
def resolve (workingDirectory : List (List A)) (path : List A) :
    List (List A) :=
  if path.head? = some slash then walk [] (steps slash dot path)
  else walk workingDirectory (steps slash dot path)

/-- A path behind a directory is walked from the place of the directory. -/
theorem resolve_append_slash (workingDirectory : List (List A))
    {directory : List A} (hne : directory ≠ []) (path : List A) :
    resolve slash dot workingDirectory (directory ++ slash :: path) =
      walk (resolve slash dot workingDirectory directory)
        (steps slash dot path) := by
  have hsteps : steps slash dot (directory ++ slash :: path) =
      steps slash dot directory ++ steps slash dot path := by
    rw [steps, List.splitOn_append_cons_self, List.map_append, steps, steps]
  rw [resolve, resolve, List.head?_append_of_ne_nil _ hne, hsteps]
  split_ifs
  · exact walk_append _ _ _
  · exact walk_append _ _ _

end Texts

end SyncAnywhere.PathWalk
