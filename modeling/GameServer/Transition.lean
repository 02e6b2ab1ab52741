namespace GameServer

/-! Systems that take events one after the other.  A step is a partial function: where it has
no result, the event is not possible. -/

namespace Transition

variable {σ τ ε : Type} {step : σ → ε → Option σ} {start finish : σ} {events : List ε}

def run (step : σ → ε → Option σ) : σ → List ε → Option σ
  | state, [] => some state
  | state, event :: events => (step state event).bind fun next => run step next events

@[simp] theorem run_nil : run step start [] = some start := rfl

theorem run_cons_eq_some {event : ε} :
    run step start (event :: events) = some finish ↔
      ∃ next, step start event = some next ∧ run step next events = some finish := by
  simp [run, Option.bind_eq_some_iff]

/-- What every step keeps, every run keeps. -/
theorem run_invariant {invariant : σ → Prop}
    (keeps : ∀ state event next, invariant state → step state event = some next → invariant next)
    (holds : invariant start) (ran : run step start events = some finish) : invariant finish := by
  induction events generalizing start with
  | nil =>
      cases ran
      exact holds
  | cons event events ih =>
      obtain ⟨next, first, rest⟩ := run_cons_eq_some.mp ran
      exact ih (keeps start event next holds first) rest

/-- As `run_invariant`, where the invariant is only kept by some events, each in the state it meets. -/
theorem run_invariant_of {invariant : σ → Prop} {allowed : σ → ε → Prop}
    (keeps : ∀ state event next, allowed state event → invariant state → step state event = some next →
      invariant next)
    (all : ∀ early late middle event, events = early ++ event :: late → run step start early = some middle →
      allowed middle event)
    (holds : invariant start) (ran : run step start events = some finish) : invariant finish := by
  induction events generalizing start with
  | nil =>
      cases ran
      exact holds
  | cons event events ih =>
      obtain ⟨next, first, rest⟩ := run_cons_eq_some.mp ran
      have now : allowed start event := all [] events start event rfl rfl
      apply ih _ (keeps start event next now holds first) rest
      intro early late middle other split reached
      apply all (event :: early) late middle other (by rw [split, List.cons_append])
      exact run_cons_eq_some.mpr ⟨next, first, reached⟩

/-- A run is simulated by a function of its history, if each step is. -/
theorem run_simulates {meaning : σ → τ → Prop} {extend : τ → ε → τ} {past : τ}
    (simulates : ∀ state event next past, meaning state past → step state event = some next →
      meaning next (extend past event))
    (holds : meaning start past) (ran : run step start events = some finish) :
    meaning finish (events.foldl extend past) := by
  induction events generalizing start past with
  | nil =>
      cases ran
      exact holds
  | cons event events ih =>
      obtain ⟨next, first, rest⟩ := run_cons_eq_some.mp ran
      exact ih (simulates start event next past holds first) rest

end Transition

end GameServer
