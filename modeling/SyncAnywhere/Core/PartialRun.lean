import SyncAnywhere.Core.CMemory

/-!
# Runs that may end early

The runs of a step that may leave the defined behaviour or end the process.
-/

namespace SyncAnywhere.PartialRun

open SyncAnywhere.CMemory

universe u

variable {S E : Type u} (step : S → E → CResult S)

/-- The state after a list of events, if there is one. -/
def run (start : S) (events : List E) : CResult S :=
  events.foldlM step start

theorem run_cons (start : S) (event : E) (events : List E) :
    run step start (event :: events) =
      step start event >>= fun next => run step next events :=
  List.foldlM_cons

variable {step} {invariant : S → Prop}

/-- What every step that goes through keeps, every run that reaches its end
keeps. -/
theorem run_preserves
    (hstep : ∀ state event next, invariant state →
      step state event = .ok next → invariant next)
    {start final : S} {events : List E} (hstart : invariant start)
    (hrun : run step start events = .ok final) : invariant final := by
  induction events generalizing start with
  | nil => rwa [← CResult.ok.inj hrun]
  | cons event events ih =>
      rw [run_cons, CResult.bind_eq_ok_iff] at hrun
      obtain ⟨next, hnext, hrest⟩ := hrun
      exact ih (hstep start event next hstart hnext) hrest

end SyncAnywhere.PartialRun
