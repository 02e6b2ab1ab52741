import Mathlib.Data.List.Flatten

namespace GameServer.Backtrack

/-! Searches that write to a state as they go, and have to take back what they wrote when they
fail.  A search that does so is described by the list of its outcomes, best first. -/

variable {ε σ α ι : Type}

/-- A search may also stop with an error. -/
abbrev Search (ε σ α : Type) := σ → Except ε (Option α × σ)

def succeed (result : α) : Search ε σ α := fun state => .ok (some result, state)

def fail : Search ε σ α := fun state => .ok (none, state)

def raise (error : ε) : Search ε σ α := fun _ => .error error

/-- The second search where the first one fails. -/
def orElse (first second : Search ε σ α) : Search ε σ α := fun state =>
  match first state with
  | .ok (none, state) => second state
  | found => found

/-- A search in a changed state; what it began with is undone where it fails. -/
def within (enter leave : σ → σ) (search : Search ε σ α) : Search ε σ α := fun state =>
  match search (enter state) with
  | .ok (none, state) => .ok (none, leave state)
  | found => found

/-- From this state the search comes to its first outcome; without one it fails and leaves the
state as it was. -/
def Finds (search : Search ε σ α) (state : σ) (outcomes : List (α × σ)) : Prop :=
  search state = .ok (outcomes.head?.elim (none, state) fun outcome => (some outcome.1, outcome.2))

variable {search other : Search ε σ α} {state : σ} {outcomes others : List (α × σ)}

theorem finds_succeed (result : α) : Finds (succeed result : Search ε σ α) state [(result, state)] := rfl

theorem finds_fail : Finds (fail : Search ε σ α) state [] := rfl

theorem Finds.orElse (first : Finds search state outcomes) (second : Finds other state others) :
    Finds (orElse search other) state (outcomes ++ others) := by
  rw [Finds] at first second
  cases outcomes with
  | nil =>
      rw [List.head?_nil, Option.elim_none] at first
      simp only [Finds, Backtrack.orElse, first, second, List.nil_append]
  | cons outcome rest =>
      rw [List.head?_cons, Option.elim_some] at first
      simp only [Finds, Backtrack.orElse, first, List.cons_append, List.head?_cons, Option.elim_some]

theorem Finds.within {enter leave : σ → σ} (undone : leave (enter state) = state)
    (found : Finds search (enter state) outcomes) :
    Finds (within enter leave search) state outcomes := by
  rw [Finds] at found
  cases outcomes with
  | nil =>
      rw [List.head?_nil, Option.elim_none] at found
      simp only [Finds, Backtrack.within, found, undone, List.head?_nil, Option.elim_none]
  | cons outcome rest =>
      rw [List.head?_cons, Option.elim_some] at found
      simp only [Finds, Backtrack.within, found, List.head?_cons, Option.elim_some]

/-- The searches for `start + n`, …, `start + 1`, `start`, one after the other. -/
def downward (attempt : Nat → Search ε σ α) (start : Nat) : Nat → Search ε σ α
  | 0 => attempt start
  | n + 1 => orElse (attempt (start + (n + 1))) (downward attempt start n)

theorem finds_downward {attempt : Nat → Search ε σ α} {outcomes : Nat → List (α × σ)} {start : Nat} (n : Nat)
    (found : ∀ i ≤ n, Finds (attempt (start + i)) state (outcomes (start + i))) :
    Finds (downward attempt start n) state ((List.range (n + 1)).reverse.flatMap fun i => outcomes (start + i)) := by
  induction n with
  | zero => simpa [downward] using found 0 (Nat.le_refl 0)
  | succ n ih =>
      rw [List.range_succ, List.reverse_append, List.reverse_singleton, List.singleton_append, List.flatMap_cons]
      apply Finds.orElse (found (n + 1) (Nat.le_refl _))
      exact ih fun i below => found i (Nat.le_succ_of_le below)

end GameServer.Backtrack
