import Mathlib

/-!
# Runs of a step function

An interleaving of several parties is a list of events: each event names the
party that moves and the data it moves with.  This module states once how an
invariant, a condition on the steps taken and a property of the steps taken
carry over from one step to a whole run.
-/

namespace SyncAnywhere.Run

variable {S E : Type*} (step : S → E → S)

/-- The state after a list of events. -/
def run (start : S) (events : List E) : S :=
  events.foldl step start

@[simp]
theorem run_nil (start : S) : run step start [] = start := rfl

@[simp]
theorem run_cons (start : S) (event : E) (events : List E) :
    run step start (event :: events) = run step (step start event) events := rfl

theorem run_append (start : S) (front back : List E) :
    run step start (front ++ back) = run step (run step start front) back :=
  List.foldl_append

/-- What no step changes, no run changes. -/
theorem view_run_eq {V : Type*} (view : S → V)
    (hstep : ∀ state event, view (step state event) = view state) (start : S)
    (events : List E) : view (run step start events) = view start := by
  induction events generalizing start with
  | nil => rfl
  | cons event events ih => rw [run_cons, ih, hstep]

/-- What every step appends to a log stands there in the order of the run. -/
theorem view_run_append {B : Type*} (view : S → List B) {part : E → List B}
    (hstep : ∀ state event,
      view (step state event) = view state ++ part event) (start : S)
    (events : List E) :
    view (run step start events) = view start ++ events.flatMap part := by
  induction events generalizing start with
  | nil => exact (List.append_nil _).symm
  | cons event events ih =>
      rw [run_cons, ih, hstep, List.flatMap_cons, List.append_assoc]

/-- `relation state event` holds for every step of the run. -/
def Along (relation : S → E → Prop) : S → List E → Prop
  | _, [] => True
  | state, event :: events =>
      relation state event ∧ Along relation (step state event) events

/-- `property` holds in every state the run passes through, its first and its
last one included. -/
def Always (property : S → Prop) : S → List E → Prop
  | state, [] => property state
  | state, event :: events =>
      property state ∧ Always property (step state event) events

/-- What the steps of the run stand for, in order. -/
def trace {B : Type*} (emit : S → E → List B) : S → List E → List B
  | _, [] => []
  | state, event :: events =>
      emit state event ++ trace emit (step state event) events

instance decidableAlong (relation : S → E → Prop)
    [∀ state event, Decidable (relation state event)] (start : S)
    (events : List E) : Decidable (Along step relation start events) := by
  induction events generalizing start with
  | nil => exact isTrue trivial
  | cons event events ih =>
      have := ih (step start event)
      exact inferInstanceAs (Decidable (_ ∧ _))

variable {step} {relation : S → E → Prop} {property invariant : S → Prop}

theorem along_append_iff {start : S} {front back : List E} :
    Along step relation start (front ++ back) ↔
      Along step relation start front ∧
        Along step relation (run step start front) back := by
  induction front generalizing start with
  | nil => simp [Along]
  | cons event front ih =>
      simp only [List.cons_append, Along, run_cons, ih, and_assoc]

theorem along_and_iff {left right : S → E → Prop} {start : S}
    {events : List E} :
    Along step (fun state event => left state event ∧ right state event)
        start events ↔
      Along step left start events ∧ Along step right start events := by
  induction events generalizing start with
  | nil => simp [Along]
  | cons event events ih =>
      simp only [Along, ih]
      exact and_and_and_comm

/-- Invariant rule: an invariant that every admitted step preserves holds all
along a run whose steps are all admitted. -/
theorem always_of_invariant
    (hstep : ∀ state event, invariant state → relation state event →
      invariant (step state event))
    {start : S} {events : List E} (hstart : invariant start)
    (halong : Along step relation start events) :
    Always step invariant start events := by
  induction events generalizing start with
  | nil => exact hstart
  | cons event events ih =>
      exact ⟨hstart, ih (hstep start event hstart halong.1) halong.2⟩

theorem invariant_run
    (hstep : ∀ state event, invariant state → relation state event →
      invariant (step state event))
    {start : S} {events : List E} (hstart : invariant start)
    (halong : Along step relation start events) :
    invariant (run step start events) := by
  induction events generalizing start with
  | nil => exact hstart
  | cons event events ih =>
      exact ih (hstep start event hstart halong.1) halong.2

/-- A run with a step that is not admitted has a first one. -/
theorem exists_first_of_not_along {start : S} {events : List E}
    (hnot : ¬ Along step relation start events) :
    ∃ front event back, events = front ++ event :: back ∧
      Along step relation start front ∧
        ¬ relation (run step start front) event := by
  induction events generalizing start with
  | nil => exact absurd trivial hnot
  | cons event events ih =>
      by_cases hevent : relation start event
      · have hrest : ¬ Along step relation (step start event) events :=
          fun halong => hnot ⟨hevent, halong⟩
        obtain ⟨front, first, back, hsplit, hfront, hfirst⟩ := ih hrest
        refine ⟨event :: front, first, back, ?_, ⟨hevent, hfront⟩, hfirst⟩
        rw [hsplit, List.cons_append]
      · exact ⟨[], event, events, rfl, trivial, hevent⟩

/-- A property of steps holds along a run when it holds of every step, in the
state that the steps before it lead to. -/
theorem along_iff_forall_split {start : S} {events : List E} :
    Along step relation start events ↔
      ∀ front event back, events = front ++ event :: back →
        relation (run step start front) event := by
  constructor
  · rintro halong front event back rfl
    exact (along_append_iff.mp halong).2.1
  · intro hall
    by_contra hnot
    obtain ⟨front, event, back, hsplit, -, hevent⟩ :=
      exists_first_of_not_along hnot
    exact hevent (hall front event back hsplit)

theorem Always.mono {stronger weaker : S → Prop}
    (himp : ∀ state, stronger state → weaker state) {start : S}
    {events : List E} (halways : Always step stronger start events) :
    Always step weaker start events := by
  induction events generalizing start with
  | nil => exact himp start halways
  | cons event events ih => exact ⟨himp start halways.1, ih halways.2⟩

/-- A property of steps that follows from an invariant and an admission
condition holds along every run of admitted steps. -/
theorem along_of_invariant {good : S → E → Prop}
    (hstep : ∀ state event, invariant state → relation state event →
      invariant (step state event))
    (hgood : ∀ state event, invariant state → relation state event →
      good state event)
    {start : S} {events : List E} (hstart : invariant start)
    (halong : Along step relation start events) :
    Along step good start events := by
  induction events generalizing start with
  | nil => trivial
  | cons event events ih =>
      exact ⟨hgood start event hstart halong.1,
        ih (hstep start event hstart halong.1) halong.2⟩

/-- Two step properties that agree under an invariant agree on whole runs,
when the second one preserves the invariant. -/
theorem along_congr {left right : S → E → Prop}
    (hstep : ∀ state event, invariant state → right state event →
      invariant (step state event))
    (hcongr : ∀ state event, invariant state →
      (left state event ↔ right state event))
    {start : S} (events : List E) (hstart : invariant start) :
    Along step left start events ↔ Along step right start events := by
  induction events generalizing start with
  | nil => rfl
  | cons event events ih =>
      simp only [Along]
      rw [hcongr start event hstart]
      apply and_congr_right
      intro hright
      exact ih (hstep start event hstart hright)

/-- Simulation rule: when every admitted step is a few steps of another system
under a view, every admitted run is the run of them all. -/
theorem view_run_simulates {T B : Type*} (view : S → T) (other : T → B → T)
    (emit : S → E → List B)
    (hstep : ∀ state event, invariant state → relation state event →
      invariant (step state event) ∧
        view (step state event) = run other (view state) (emit state event))
    {start : S} {events : List E} (hstart : invariant start)
    (halong : Along step relation start events) :
    view (run step start events) =
      run other (view start) (trace step emit start events) := by
  induction events generalizing start with
  | nil => rfl
  | cons event events ih =>
      obtain ⟨hkept, hview⟩ := hstep start event hstart halong.1
      rw [run_cons, ih hkept halong.2, trace, run_append, hview]

end SyncAnywhere.Run
