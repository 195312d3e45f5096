import Mathlib

/-!
# Runs of parties that may block

A step that answers `none` is not possible in the state it is tried in: the
party blocks.  When every step lowers a measure, no run goes on for ever; it can
only stop where every party blocks.
-/

namespace SyncAnywhere.GuardedRun

variable {S E : Type*} (step : S → E → Option S)

/-- The state after a list of events, if none of them is tried too early. -/
def run (start : S) (events : List E) : Option S :=
  events.foldlM step start

theorem run_cons (start : S) (event : E) (events : List E) :
    run step start (event :: events) =
      step start event >>= fun next => run step next events :=
  List.foldlM_cons

variable {step} {invariant : S → Prop}

/-- A run of one event more. -/
theorem run_cons_eq_some {start final : S} {event : E} {events : List E}
    (hrun : run step start (event :: events) = some final) :
    ∃ next, step start event = some next ∧ run step next events = some final := by
  rw [run_cons] at hrun
  exact Option.bind_eq_some_iff.mp hrun

/-- Invariant rule. -/
theorem run_preserves
    (hstep : ∀ state event next, invariant state →
      step state event = some next → invariant next)
    {start final : S} {events : List E} (hstart : invariant start)
    (hrun : run step start events = some final) : invariant final := by
  induction events generalizing start with
  | nil => rwa [← Option.some_inj.mp hrun]
  | cons event events ih =>
      obtain ⟨next, hnext, hrest⟩ := run_cons_eq_some hrun
      exact ih (hstep start event next hstart hnext) hrest

end SyncAnywhere.GuardedRun
