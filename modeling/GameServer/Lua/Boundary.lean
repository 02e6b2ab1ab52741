import GameServer.Bisect
import GameServer.Lua.HashNext

namespace GameServer.Lua

/-! `luaH_getn`: a boundary of a table, by binary search. -/

section Source

variable (hash : Value → Nat) (t : HashTable)

/-- `ttisnil(luaH_getnum(t, j))`. -/
def missing (j : Nat) : Bool :=
  (luaHGetnum hash t j).elim .nil t.read = .nil

/-- The first loop of `unbound_search`: `i` is zero or a present index.  It leaves the two ends
of the binary search, or nothing where the table is to be searched from 1 on. -/
def doubling (i j : Nat) : Option (Nat × Nat) :=
  if missing hash t j = true then some (i, j)
  else if _ : j = 0 ∨ 2147483647 < 2 * j then none
  else doubling j (2 * j)
termination_by 2147483647 - j

def unboundSearch (j : Nat) : Nat :=
  match doubling hash t j (j + 1) with
  | some (i, j) => bisect (missing hash t) i j
  | none => firstFrom (missing hash t) (t.array.length + t.sizenode + 1) 1 - 1

/-- `ttisnil(&t->array[m - 1])`. -/
def emptyPlace (m : Nat) : Bool :=
  t.array.getD (m - 1) .nil = .nil

def luaHGetn : Nat :=
  let j := t.array.length
  if 0 < j ∧ emptyPlace t j = true then bisect (emptyPlace t) 0 j
  else if t.dummynode then j
  else unboundSearch hash t j

end Source

variable {hash : Value → Nat} {t : HashTable} {i j : Nat}

theorem missing_iff (int : j ≤ 2147483647) :
    missing hash t j = true ↔ lookup hash t (.position j) = .nil := by
  rw [missing, luaHGetnum_eq int, decide_eq_true_iff, lookup]

theorem lookup_position (valid : t.Valid hash) (low : 1 ≤ j) (high : j ≤ t.array.length) :
    lookup hash t (.position j) = t.array.getD (j - 1) .nil := by
  have small := valid.small
  have index : arrayindex (.position j) = j := by
    simp only [maxAsize, maxBits] at small
    exact arrayindex_position (by omega)
  have inArray : t.InArray (.position j) := by
    rw [HashTable.InArray, index]
    omega
  rw [lookup_of_inArray inArray, index, show ((j : Int) - 1).toNat = j - 1 by omega]

theorem doubling_some {ends : Nat × Nat} (start : i < j) (int : j ≤ 2147483647)
    (present : i = 0 ∨ missing hash t i = false) (found : doubling hash t i j = some ends) :
    ends.1 < ends.2 ∧ ends.2 ≤ 2147483647 ∧ missing hash t ends.2 = true ∧
      (ends.1 = 0 ∨ missing hash t ends.1 = false) := by
  fun_induction doubling hash t i j with
  | case1 i j absent =>
      cases found
      exact ⟨start, int, absent, present⟩
  | case2 i j here overflow => cases found
  | case3 i j here more ih =>
      exact ih (by omega) (by omega) (.inr (Bool.eq_false_iff.mpr here)) found

theorem pairs_length_le (valid : t.Valid hash) : t.pairs.length ≤ t.array.length + t.sizenode := by
  have nodes := length_nodePairs_le t.node
  have array := @List.countP_le_length _ (fun value : Value => decide (value ≠ .nil)) t.array
  rw [HashTable.pairs, List.length_append, length_arrayPairs, ← valid.length]
  omega

/-- One of so many keys 1, 2, … has no value. -/
theorem exists_missing (valid : t.Valid hash) :
    ∃ place, 1 ≤ place ∧ place < 1 + (t.array.length + t.sizenode + 1) ∧ lookup hash t (.position place) = .nil := by
  by_contra none
  push Not at none
  have within : (List.range' 1 (t.array.length + t.sizenode + 1)).map Value.position ⊆ t.pairs.map Prod.fst := by
    intro key member
    obtain ⟨place, inside, rfl⟩ := List.mem_map.mp member
    rw [List.mem_range'_1] at inside
    exact List.mem_map_of_mem
      ((mem_pairs_iff valid).mpr ⟨validKey_position place, none place inside.1 inside.2, rfl⟩)
  have distinct : ((List.range' 1 (t.array.length + t.sizenode + 1)).map Value.position).Nodup :=
    List.Nodup.map Value.position_injective List.nodup_range'
  have more := (List.subperm_of_subset distinct within).length_le
  have most := pairs_length_le valid
  simp only [List.length_map, List.length_range'] at more
  omega

theorem unboundSearch_border (valid : t.Valid hash)
    (present : t.array.length = 0 ∨ lookup hash t (.position t.array.length) ≠ .nil) :
    (unboundSearch hash t t.array.length = 0 ∨ lookup hash t (.position (unboundSearch hash t t.array.length)) ≠ .nil) ∧
      lookup hash t (.position (unboundSearch hash t t.array.length + 1)) = .nil := by
  have small := valid.small
  have nodes : t.sizenode ≤ 2 ^ maxBits := Nat.pow_le_pow_right (by omega) valid.bits
  simp only [maxAsize, maxBits] at small nodes
  have live : ∀ k, k ≤ 2147483647 → (missing hash t k = false ↔ lookup hash t (.position k) ≠ .nil) := by
    intro k int
    rw [Bool.eq_false_iff, ne_eq, missing_iff int]
  unfold unboundSearch
  cases found : doubling hash t t.array.length (t.array.length + 1) with
  | some ends =>
      have start : t.array.length = 0 ∨ missing hash t t.array.length = false := by
        rwa [live _ (by omega)]
      obtain ⟨order, int, absent, before⟩ := doubling_some (Nat.lt_succ_self _) (by omega) start found
      obtain ⟨low, high, next, at_⟩ := bisect_spec order absent
      dsimp only
      refine ⟨?_, (missing_iff (by omega)).mp next⟩
      rw [← live _ (by omega)]
      rcases at_ with same | here
      · rwa [same]
      · exact .inr here
  | none =>
      obtain ⟨place, low, high, empty⟩ := exists_missing valid
      obtain ⟨absent, above, bound, before⟩ := @firstFrom_spec (missing hash t) 1
        (t.array.length + t.sizenode + 1) ⟨place, low, high, (missing_iff (by omega)).mpr empty⟩
      dsimp only
      obtain ⟨border, reached⟩ : ∃ border,
          firstFrom (missing hash t) (t.array.length + t.sizenode + 1) 1 = border + 1 :=
        ⟨_, (Nat.sub_add_cancel above).symm⟩
      rw [reached] at absent bound before ⊢
      rw [Nat.add_sub_cancel]
      refine ⟨?_, (missing_iff (by omega)).mp absent⟩
      by_cases none : border = 0
      · exact .inl none
      · exact .inr ((live border (by omega)).mp (before border (by omega) (by omega)))

/-- `luaH_getn` answers with a border of the table, whatever holes it has. -/
theorem reachable_luaHGetn (reachable : t.Reachable hash) :
    (t.toTable reachable.valid).IsBorder (luaHGetn hash t) := by
  have valid := reachable.valid
  suffices border : (luaHGetn hash t = 0 ∨ lookup hash t (.position (luaHGetn hash t)) ≠ .nil) ∧
      lookup hash t (.position (luaHGetn hash t + 1)) = .nil by
    rw [Table.IsBorder, get_toTable valid (validKey_position _), get_toTable valid (validKey_position _)]
    exact border
  unfold luaHGetn
  dsimp only
  by_cases inArray : 0 < t.array.length ∧ emptyPlace t t.array.length = true
  · rw [if_pos inArray]
    obtain ⟨low, high, next, at_⟩ := bisect_spec inArray.1 inArray.2
    refine ⟨?_, ?_⟩
    · rcases at_ with same | here
      · exact .inl same
      · by_cases none : bisect (emptyPlace t) 0 t.array.length = 0
        · exact .inl none
        · right
          rw [lookup_position valid (by omega) high.le]
          exact of_decide_eq_false here
    · rw [lookup_position valid (by omega) high]
      exact of_decide_eq_true next
  · rw [if_neg inArray]
    have present : t.array.length = 0 ∨ lookup hash t (.position t.array.length) ≠ .nil := by
      by_cases none : t.array.length = 0
      · exact .inl none
      · right
        rw [lookup_position valid (by omega) (Nat.le_refl _)]
        intro empty
        exact inArray ⟨by omega, decide_eq_true empty⟩
    cases shared : t.dummynode with
    | false => exact unboundSearch_border valid present
    | true =>
        refine ⟨present, ?_⟩
        have notNil := (validKey_position (t.array.length + 1)).1
        have absent : luaHGet hash t (.position (t.array.length + 1)) = none := by
          have small := valid.small
          simp only [maxAsize, maxBits] at small
          rw [luaHGet_eq_none_iff valid notNil]
          refine ⟨?_, ?_⟩
          · rw [HashTable.InArray, arrayindex_position (by omega)]
            omega
          · intro i
            rw [(valid.shared shared).2 i]
            exact notNil.symm
        rw [if_pos rfl, lookup, absent]
        rfl

theorem reachable_luaHGetn_strings :
    (collidingStrings.toTable reachable_collidingStrings.valid).IsBorder
      (luaHGetn (fun _ => 1) collidingStrings) :=
  reachable_luaHGetn reachable_collidingStrings

end GameServer.Lua
