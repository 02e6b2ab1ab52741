import Mathlib.Tactic.SplitIfs

namespace GameServer

/-! Searches for a place where a property begins to hold. -/

/-- The binary search between `i`, where the property does not hold, and `j`, where it does. -/
def bisect (holds : Nat → Bool) (i j : Nat) : Nat :=
  if _ : 1 < j - i then
    let m := (i + j) / 2
    if holds m then bisect holds i m else bisect holds m j
  else i
termination_by j - i

/-- The search from `i` upwards, for so many steps. -/
def firstFrom (holds : Nat → Bool) : (steps : Nat) → (i : Nat) → Nat
  | 0, i => i
  | steps + 1, i => if holds i then i else firstFrom holds steps (i + 1)

variable {holds : Nat → Bool} {i j : Nat}

/-- A binary search ends right before a place where the property holds, and not at one. -/
theorem bisect_spec (below : i < j) (upper : holds j = true) :
    i ≤ bisect holds i j ∧ bisect holds i j < j ∧ holds (bisect holds i j + 1) = true ∧
      (bisect holds i j = i ∨ holds (bisect holds i j) = false) := by
  fun_induction bisect holds i j with
  | case1 i j wide m here ih =>
      obtain ⟨low, high, next, start⟩ := ih (by omega) here
      exact ⟨low, by omega, next, start⟩
  | case2 i j wide m absent ih =>
      obtain ⟨low, high, next, start⟩ := ih (by omega) upper
      refine ⟨by omega, high, next, .inr ?_⟩
      rcases start with same | missing
      · rw [same]
        exact Bool.eq_false_iff.mpr absent
      · exact missing
  | case3 i j narrow =>
      have adjacent : j = i + 1 := by omega
      exact ⟨Nat.le_refl _, below, adjacent ▸ upper, .inl rfl⟩

theorem firstFrom_spec {steps : Nat} (present : ∃ place, i ≤ place ∧ place < i + steps ∧ holds place = true) :
    holds (firstFrom holds steps i) = true ∧ i ≤ firstFrom holds steps i ∧ firstFrom holds steps i < i + steps ∧
      ∀ place, i ≤ place → place < firstFrom holds steps i → holds place = false := by
  induction steps generalizing i with
  | zero =>
      obtain ⟨place, low, high, -⟩ := present
      omega
  | succ steps ih =>
      unfold firstFrom
      by_cases here : holds i = true
      · rw [if_pos here]
        exact ⟨here, Nat.le_refl _, by omega, fun place low high => by omega⟩
      · rw [if_neg here]
        obtain ⟨place, low, high, found⟩ := present
        have later : place ≠ i := by
          intro same
          subst same
          exact here found
        obtain ⟨holdsThere, above, bound, before⟩ := @ih (i + 1) ⟨place, by omega, by omega, found⟩
        refine ⟨holdsThere, by omega, by omega, ?_⟩
        intro other lower upper
        by_cases first : other = i
        · rw [first]
          exact Bool.eq_false_iff.mpr here
        · exact before other (by omega) upper

end GameServer
