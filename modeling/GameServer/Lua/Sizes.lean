import GameServer.Lua.HashTable
import Mathlib.Data.List.Count

namespace GameServer.Lua

/-! How `rehash` counts the keys of a table and chooses the sizes of its two parts. -/

/-- The pairs of an array part, the first place being that of key `index + 1`. -/
def arrayPairs : (index : Nat) → List Value → List (Value × Value)
  | _, [] => []
  | index, value :: rest =>
      if value = .nil then arrayPairs (index + 1) rest
      else (.position (index + 1), value) :: arrayPairs (index + 1) rest

/-- The pairs of a node vector. -/
def nodePairs : List Node → List (Value × Value)
  | [] => []
  | n :: rest => if n.value = .nil then nodePairs rest else (n.key, n.value) :: nodePairs rest

/-- The key is one of 1, …, `size`. -/
def Below (size : Nat) (entry : Value × Value) : Bool :=
  0 < arrayindex entry.1 ∧ arrayindex entry.1 ≤ size

/-- The key is counted in slice `lg`. -/
def InSlice (lg : Nat) (entry : Value × Value) : Bool :=
  Below maxAsize entry ∧ ceillog2 (arrayindex entry.1).toNat = lg

/-- `nums` has the numbers of keys in the slices. -/
def Tally (nums : List Nat) (pairs : List (Value × Value)) : Prop :=
  nums.length = maxBits + 1 ∧ ∀ lg ≤ maxBits, nums[lg]? = some (pairs.countP (InSlice lg))

section Pairs

variable {index : Nat} {array : List Value} {entry : Value × Value}

theorem arrayPairs_append (front back : List Value) :
    arrayPairs index (front ++ back) = arrayPairs index front ++ arrayPairs (index + front.length) back := by
  induction front generalizing index with
  | nil => simp [arrayPairs]
  | cons value rest ih =>
      simp only [List.cons_append, arrayPairs, ih, List.length_cons]
      rw [show index + 1 + rest.length = index + (rest.length + 1) by omega]
      split <;> rfl

theorem arrayPairs_replicate (count : Nat) : arrayPairs index (List.replicate count .nil) = [] := by
  induction count generalizing index with
  | zero => rfl
  | succ count ih => simp [List.replicate_succ, arrayPairs, ih]

theorem length_arrayPairs : (arrayPairs index array).length = array.countP (· ≠ .nil) := by
  induction array generalizing index with
  | nil => rfl
  | cons value rest ih =>
      by_cases empty : value = .nil <;> simp [arrayPairs, empty, ih]

theorem mem_arrayPairs_iff : entry ∈ arrayPairs index array ↔
    ∃ place, ∃ inside : place < array.length, entry = (.position (index + place + 1), array[place]) ∧
      array[place] ≠ .nil := by
  induction array generalizing index with
  | nil => simp [arrayPairs]
  | cons value rest ih =>
      have here : (∃ place, ∃ inside : place < (value :: rest).length,
          entry = (.position (index + place + 1), (value :: rest)[place]) ∧ (value :: rest)[place] ≠ .nil) ↔
          (entry = (.position (index + 1), value) ∧ value ≠ .nil) ∨ entry ∈ arrayPairs (index + 1) rest := by
        rw [ih]
        constructor
        · intro found
          obtain ⟨place, inside, same, live⟩ := found
          cases place with
          | zero => exact .inl ⟨same, live⟩
          | succ place =>
              refine .inr ⟨place, by simpa using inside, ?_, live⟩
              rw [same]
              simp only [List.getElem_cons_succ]
              rw [show index + (place + 1) + 1 = index + 1 + place + 1 by omega]
        · intro found
          rcases found with ⟨same, live⟩ | ⟨place, inside, same, live⟩
          · exact ⟨0, by simp, same, live⟩
          · refine ⟨place + 1, by simpa using inside, ?_, live⟩
            rw [same]
            simp only [List.getElem_cons_succ]
            rw [show index + (place + 1) + 1 = index + 1 + place + 1 by omega]
      rw [here]
      by_cases empty : value = .nil <;> simp [arrayPairs, empty]

theorem mem_nodePairs_iff {node : List Node} :
    entry ∈ nodePairs node ↔ ∃ n ∈ node, entry = (n.key, n.value) ∧ n.value ≠ .nil := by
  induction node with
  | nil => simp [nodePairs]
  | cons n rest ih =>
      by_cases empty : n.value = .nil <;> simp [nodePairs, empty, ih]

end Pairs

theorem below_position {size k : Nat} {value : Value} (bound : k ≤ 2147483647) :
    Below size (.position k, value) = true ↔ 1 ≤ k ∧ k ≤ size := by
  simp only [Below, arrayindex_position bound, decide_eq_true_eq]
  omega

section Tally

variable {nums : List Nat} {pairs : List (Value × Value)}

theorem tally_nil : Tally (List.replicate (maxBits + 1) 0) [] := by
  refine ⟨List.length_replicate, ?_⟩
  intro lg inside
  simp [Nat.lt_succ_of_le inside]

theorem tally_perm {others : List (Value × Value)} (tally : Tally nums pairs) (same : pairs.Perm others) :
    Tally nums others := by
  refine ⟨tally.1, ?_⟩
  intro lg inside
  rw [tally.2 lg inside, same.countP_eq]

/-- Keys of one slice are counted together. -/
theorem tally_modify {lg : Nat} {added : List (Value × Value)} (tally : Tally nums pairs)
    (together : ∀ entry ∈ added, InSlice lg entry = true) :
    Tally (nums.modify lg (· + added.length)) (pairs ++ added) := by
  refine ⟨by rw [List.length_modify, tally.1], ?_⟩
  intro other inside
  rw [List.getElem?_modify, tally.2 other inside, List.countP_append]
  by_cases same : lg = other
  · subst same
    have all : added.countP (InSlice lg) = added.length := List.countP_eq_length.mpr together
    simp [all]
  · have none : added.countP (InSlice other) = 0 := by
      rw [List.countP_eq_zero]
      intro entry member here
      have there := together entry member
      simp only [InSlice, decide_eq_true_eq] at here there
      omega
    simp [same, none]

theorem countint_tally (tally : Tally nums pairs) (entry : Value × Value) :
    (countint entry.1 nums).1 = [entry].countP (Below maxAsize) ∧
      Tally (countint entry.1 nums).2 (pairs ++ [entry]) := by
  by_cases candidate : Below maxAsize entry = true
  · have bounds := of_decide_eq_true candidate
    unfold countint
    rw [if_pos bounds]
    refine ⟨by simp [candidate], ?_⟩
    apply @tally_modify nums pairs _ [entry] tally
    intro other member
    rw [List.mem_singleton.mp member]
    simp [InSlice, candidate]
  · have bounds : ¬ (0 < arrayindex entry.1 ∧ arrayindex entry.1 ≤ maxAsize) := by
      simpa [Below] using candidate
    unfold countint
    rw [if_neg bounds]
    refine ⟨by simp [candidate], tally.1, ?_⟩
    intro lg inside
    rw [tally.2 lg inside, List.countP_append]
    simp [InSlice, candidate]

theorem numusehash_tally (node : List Node) (tally : Tally nums pairs) :
    (numusehash node nums).1 = (nodePairs node).length ∧
      (numusehash node nums).2.1 = (nodePairs node).countP (Below maxAsize) ∧
      Tally (numusehash node nums).2.2 (pairs ++ nodePairs node) := by
  induction node with
  | nil => exact ⟨rfl, rfl, by simpa [numusehash, nodePairs] using tally⟩
  | cons n rest ih =>
      obtain ⟨total, candidates, counted⟩ := ih
      by_cases empty : n.value = .nil
      · have skipped : numusehash (n :: rest) nums = numusehash rest nums := by
          simp [numusehash, empty]
        rw [skipped, show nodePairs (n :: rest) = nodePairs rest by simp [nodePairs, empty]]
        exact ⟨total, candidates, counted⟩
      · obtain ⟨here, tallied⟩ := countint_tally counted (n.key, n.value)
        have step : numusehash (n :: rest) nums =
            ((numusehash rest nums).1 + 1,
              (numusehash rest nums).2.1 + (countint n.key (numusehash rest nums).2.2).1,
              (countint n.key (numusehash rest nums).2.2).2) := by
          simp [numusehash, empty]
        have split : nodePairs (n :: rest) = (n.key, n.value) :: nodePairs rest := by
          simp [nodePairs, empty]
        rw [step, split]
        refine ⟨by simp [total], ?_, ?_⟩
        · simp [candidates, here, List.countP_cons]
        · apply tally_perm tallied
          rw [List.append_assoc]
          apply List.Perm.append_left
          exact List.perm_append_singleton _ _

theorem ceillog2_eq {lg k : Nat} (above : 0 < lg → 2 ^ (lg - 1) < k) (within : k ≤ 2 ^ lg) : ceillog2 k = lg := by
  apply Nat.le_antisymm (Nat.clog_le_of_le_pow within)
  cases lg with
  | zero => exact Nat.zero_le _
  | succ lower => exact (Nat.lt_clog_iff_pow_lt Nat.one_lt_two).mpr (above (Nat.succ_pos lower))

/-- The slices up to `2 ^ (lg - 1)` are counted, which are the first `i - 1` places. -/
theorem numusearrayFrom_tally {array : List Value} (small : array.length ≤ maxAsize) {left lg i ause : Nat}
    (steps : lg + left = maxBits + 1) (next : 1 ≤ i) (first : lg = 0 → i = 1)
    (behind : 0 < lg → i - 1 = min (2 ^ (lg - 1)) array.length)
    (counted : ause = (arrayPairs 0 (array.take (i - 1))).length)
    (tally : Tally nums (arrayPairs 0 (array.take (i - 1)))) :
    (numusearrayFrom array left lg i ause nums).1 = (arrayPairs 0 array).length ∧
      Tally (numusearrayFrom array left lg i ause nums).2 (arrayPairs 0 array) := by
  induction left generalizing lg i ause nums with
  | zero =>
      have bits : lg - 1 = maxBits := by omega
      have all : array.length ≤ i - 1 := by
        rw [behind (by simp [maxBits] at steps; omega), bits]
        exact Nat.le_min.mpr ⟨small, Nat.le_refl _⟩
      rw [List.take_of_length_le all] at counted tally
      exact ⟨counted, tally⟩
  | succ left ih =>
      have monotone : 0 < lg → 2 ^ (lg - 1) ≤ 2 ^ lg := fun _ => Nat.pow_le_pow_right (by omega) (by omega)
      obtain ⟨lim, limit⟩ : ∃ lim, lim = min (2 ^ lg) array.length := ⟨_, rfl⟩
      have reach : i - 1 ≤ lim := by
        rcases Nat.eq_zero_or_pos lg with zero | positive
        · rw [first zero]
          omega
        · rw [behind positive, limit]
          have grows := monotone positive
          omega
      unfold numusearrayFrom
      dsimp only
      rw [← limit]
      by_cases done : array.length < 2 ^ lg ∧ lim < i
      · rw [if_pos done]
        have all : array.length ≤ i - 1 := by omega
        rw [List.take_of_length_le all] at counted tally
        exact ⟨counted, tally⟩
      · rw [if_neg done]
        have slice : array.take lim = array.take (i - 1) ++ (array.drop (i - 1)).take (lim + 1 - i) := by
          rw [← List.take_add, show i - 1 + (lim + 1 - i) = lim by omega]
        have front : (array.take (i - 1)).length = i - 1 := by
          rw [List.length_take]
          omega
        have pairs : arrayPairs 0 (array.take lim) = arrayPairs 0 (array.take (i - 1)) ++
            arrayPairs (i - 1) ((array.drop (i - 1)).take (lim + 1 - i)) := by
          rw [slice, arrayPairs_append, front, Nat.zero_add]
        have last : max i (lim + 1) - 1 = lim := by omega
        have together : ∀ entry ∈ arrayPairs (i - 1) ((array.drop (i - 1)).take (lim + 1 - i)),
            InSlice lg entry = true := by
          intro entry member
          obtain ⟨place, inside, rfl, -⟩ := mem_arrayPairs_iff.mp member
          rw [List.length_take, List.length_drop] at inside
          have within : i - 1 + place + 1 ≤ maxAsize := by omega
          have int : i - 1 + place + 1 ≤ 2147483647 := within.trans (by decide)
          have log : ceillog2 (i - 1 + place + 1) = lg := by
            apply ceillog2_eq
            · intro positive
              have earlier := behind positive
              omega
            · omega
          simp only [InSlice, decide_eq_true_eq, below_position int, arrayindex_position int, Int.toNat_natCast]
          exact ⟨⟨by omega, within⟩, log⟩
        apply ih (by omega) (by omega) (fun impossible => by omega)
        · intro _
          rw [last, Nat.add_sub_cancel, limit]
        · rw [last, pairs, List.length_append, counted, length_arrayPairs, length_arrayPairs]
        · rw [last, pairs]
          have modified := tally_modify tally together
          rwa [length_arrayPairs] at modified

theorem numusearray_tally {array : List Value} (small : array.length ≤ maxAsize) :
    (numusearray array (List.replicate (maxBits + 1) 0)).1 = (arrayPairs 0 array).length ∧
      Tally (numusearray array (List.replicate (maxBits + 1) 0)).2 (arrayPairs 0 array) :=
  numusearrayFrom_tally small (by omega) (Nat.le_refl _) (fun _ => rfl) (fun impossible => by omega) rfl tally_nil

end Tally

/-! ## The size of the array part -/

section Compute

variable {nums : List Nat} {pairs : List (Value × Value)}

theorem below_iff {size : Nat} {entry : Value × Value} :
    Below size entry = true ↔ 0 < arrayindex entry.1 ∧ arrayindex entry.1 ≤ size :=
  decide_eq_true_iff

theorem below_mono {size larger : Nat} (grows : size ≤ larger) :
    pairs.countP (Below size) ≤ pairs.countP (Below larger) := by
  apply List.countP_mono_left
  intro entry _ inside
  rw [below_iff] at inside ⊢
  omega

theorem inSlice_iff {lg : Nat} {entry : Value × Value} (bits : lg ≤ maxBits) :
    InSlice lg entry = true ↔ Below (2 ^ lg) entry = true ∧ ¬ Below (2 ^ lg / 2) entry = true := by
  have grows : 2 ^ lg ≤ maxAsize := Nat.pow_le_pow_right (by omega) bits
  simp only [InSlice, decide_eq_true_eq, below_iff]
  constructor
  · intro inside
    obtain ⟨⟨positive, -⟩, log⟩ := inside
    have upper : (arrayindex entry.1).toNat ≤ 2 ^ lg := by
      rw [← log]
      exact Nat.le_pow_clog Nat.one_lt_two _
    refine ⟨⟨positive, by omega⟩, ?_⟩
    intro lower
    cases lg with
    | zero => omega
    | succ less =>
        rw [Nat.pow_succ, Nat.mul_div_cancel _ Nat.two_pos] at lower
        have small : ceillog2 (arrayindex entry.1).toNat ≤ less := Nat.clog_le_of_le_pow (by omega)
        omega
  · intro inside
    obtain ⟨⟨positive, upper⟩, above⟩ := inside
    refine ⟨⟨positive, by omega⟩, ceillog2_eq ?_ (by omega)⟩
    intro nonzero
    have half : 2 ^ lg / 2 = 2 ^ (lg - 1) := by
      rw [← Nat.pow_div nonzero Nat.two_pos, Nat.pow_one]
    omega

theorem countP_below_pow {lg : Nat} (bits : lg ≤ maxBits) :
    pairs.countP (Below (2 ^ lg)) = pairs.countP (Below (2 ^ lg / 2)) + pairs.countP (InSlice lg) := by
  induction pairs with
  | nil => rfl
  | cons entry rest ih =>
      simp only [List.countP_cons, ih, inSlice_iff bits]
      have within : Below (2 ^ lg / 2) entry = true → Below (2 ^ lg) entry = true := by
        intro inside
        rw [below_iff] at inside ⊢
        omega
      by_cases lower : Below (2 ^ lg / 2) entry = true
      · simp [lower, within lower]
        omega
      · by_cases upper : Below (2 ^ lg) entry = true <;> simp [lower, upper]
        omega

/-- Different keys from 1, …, `size` are at most `size`. -/
theorem countP_below_le (distinct : (pairs.map Prod.fst).Nodup) (size : Nat) :
    pairs.countP (Below size) ≤ size := by
  have indices : ((pairs.filter (Below size)).map fun entry => arrayindex entry.1).Nodup := by
    rw [show (fun entry : Value × Value => arrayindex entry.1) = arrayindex ∘ Prod.fst from rfl, ← List.map_map]
    apply List.Nodup.map_on
    · intro key member other otherMember same
      obtain ⟨entry, inside, rfl⟩ := List.mem_map.mp member
      obtain ⟨second, secondInside, rfl⟩ := List.mem_map.mp otherMember
      have positive := (below_iff.mp (List.mem_filter.mp inside).2).1
      have secondPositive := (below_iff.mp (List.mem_filter.mp secondInside).2).1
      rw [number_of_arrayindex positive, number_of_arrayindex secondPositive, same]
    · exact (List.filter_sublist.map Prod.fst).nodup distinct
  have within : ((pairs.filter (Below size)).map fun entry => arrayindex entry.1) ⊆
      (List.range' 1 size).map Int.ofNat := by
    intro index member
    obtain ⟨entry, inside, rfl⟩ := List.mem_map.mp member
    have bounds := below_iff.mp (List.mem_filter.mp inside).2
    rw [List.mem_map]
    refine ⟨(arrayindex entry.1).toNat, ?_, ?_⟩
    · rw [List.mem_range'_1]
      omega
    · exact Int.toNat_of_nonneg (by omega)
  have shorter := (List.subperm_of_subset indices within).length_le
  rw [List.length_map, List.length_map, List.length_range', ← List.countP_eq_length_filter] at shorter
  exact shorter

/-- `n` is the best size among the powers up to `2 ^ (lg - 1)`, and `na` keys go there. -/
structure BestSize (pairs : List (Value × Value)) (lg na n : Nat) : Prop where
  count : na = pairs.countP (Below n)
  power : n = 0 ∨ ∃ bits < lg, n = 2 ^ bits
  half : n = 0 ∨ n / 2 < na
  largest : ∀ bits < lg, 2 ^ bits / 2 < pairs.countP (Below (2 ^ bits)) → 2 ^ bits ≤ n

theorem BestSize.extend {lg na n : Nat} (best : BestSize pairs lg na n) (grows : lg ≤ maxBits + 1)
    (others : ∀ bits, lg ≤ bits → bits ≤ maxBits → ¬ 2 ^ bits / 2 < pairs.countP (Below (2 ^ bits))) :
    BestSize pairs (maxBits + 1) na n := by
  refine { count := best.count, half := best.half, power := ?_, largest := ?_ }
  · apply best.power.imp_right
    intro power
    obtain ⟨bits, below, same⟩ := power
    exact ⟨bits, by omega, same⟩
  · intro bits inside more
    by_cases below : bits < lg
    · exact best.largest bits below more
    · exact absurd more (others bits (by omega) (by omega))

theorem computesizesFrom_best (distinct : (pairs.map Prod.fst).Nodup) {narray lg a na n : Nat}
    (all : narray = pairs.countP (Below maxAsize)) (rest : List Nat) (length : lg + rest.length = maxBits + 1)
    (slices : ∀ place, place < rest.length → rest[place]? = some (pairs.countP (InSlice (lg + place))))
    (counted : a = pairs.countP (Below (2 ^ lg / 2))) (best : BestSize pairs lg na n) :
    BestSize pairs (maxBits + 1) (computesizesFrom narray rest (2 ^ lg) a na n).1
      (computesizesFrom narray rest (2 ^ lg) a na n).2 := by
  induction rest generalizing lg a na n with
  | nil =>
      rw [show lg = maxBits + 1 by simpa using length] at best
      exact best
  | cons num rest ih =>
      rw [List.length_cons] at length
      have inRange : lg ≤ maxBits := by omega
      have atMost : ∀ bits, bits ≤ maxBits → pairs.countP (Below (2 ^ bits)) ≤ narray := by
        intro bits inside
        rw [all]
        exact below_mono (Nat.pow_le_pow_right (by omega) inside)
      have here : num = pairs.countP (InSlice lg) := by simpa using slices 0 (by simp)
      have total : a + num = pairs.countP (Below (2 ^ lg)) := by rw [countP_below_pow inRange, counted, here]
      unfold computesizesFrom
      by_cases more : 2 ^ lg / 2 < narray
      · rw [if_pos more]
        dsimp only
        have step : BestSize pairs (lg + 1) (if 0 < num ∧ 2 ^ lg / 2 < a + num then a + num else na)
            (if 0 < num ∧ 2 ^ lg / 2 < a + num then 2 ^ lg else n) := by
          by_cases better : 0 < num ∧ 2 ^ lg / 2 < a + num
          · rw [if_pos better, if_pos better]
            refine { count := total, power := .inr ⟨lg, by omega, rfl⟩, half := .inr better.2, largest := ?_ }
            intro bits inside _
            exact Nat.pow_le_pow_right (by omega) (by omega)
          · rw [if_neg better, if_neg better]
            refine { count := best.count, half := best.half, power := ?_, largest := ?_ }
            · apply best.power.imp_right
              intro power
              obtain ⟨bits, below, same⟩ := power
              exact ⟨bits, by omega, same⟩
            · intro bits inside enough
              by_cases below : bits < lg
              · exact best.largest bits below enough
              · have same : bits = lg := by omega
                -- no key of the slice itself, and those below it fill at most half
                rw [same, ← total] at enough
                have fill := countP_below_le distinct (2 ^ lg / 2)
                omega
        by_cases finished : a + num = narray
        · rw [if_pos finished]
          apply step.extend (by omega)
          intro bits above inside enough
          have doubled : 2 ^ (lg + 1) ≤ 2 ^ bits := Nat.pow_le_pow_right (by omega) above
          rw [Nat.pow_succ] at doubled
          have fill := countP_below_le distinct (2 ^ lg)
          have most := atMost bits inside
          omega
        · rw [if_neg finished]
          have doubled : 2 * 2 ^ lg = 2 ^ (lg + 1) := by rw [Nat.pow_succ, Nat.mul_comm]
          rw [doubled]
          apply ih (by omega) _ _ step
          · intro place inside
            have later := slices (place + 1) (by simpa using inside)
            rw [show lg + 1 + place = lg + (place + 1) by omega]
            simpa using later
          · rw [total, Nat.pow_succ, Nat.mul_div_cancel _ Nat.two_pos]
      · rw [if_neg more]
        apply best.extend (by omega)
        intro bits above inside enough
        have grows : 2 ^ lg ≤ 2 ^ bits := Nat.pow_le_pow_right (by omega) above
        have most := atMost bits inside
        omega

/-- `computesizes` finds the largest power of two such that more than half of the places up to
it are in use. -/
theorem computesizes_best (distinct : (pairs.map Prod.fst).Nodup) (tally : Tally nums pairs) :
    BestSize pairs (maxBits + 1) (computesizes nums (pairs.countP (Below maxAsize))).1
      (computesizes nums (pairs.countP (Below maxAsize))).2 := by
  have length : 0 + nums.length = maxBits + 1 := by rw [tally.1]; omega
  apply computesizesFrom_best distinct rfl nums length
  · intro place inside
    rw [tally.1] at inside
    rw [tally.2 place (by omega), Nat.zero_add]
  · symm
    rw [List.countP_eq_zero]
    intro entry _ below
    have bounds := below_iff.mp below
    simp at bounds
    omega
  · refine { count := ?_, power := .inl rfl, half := .inl rfl, largest := fun bits impossible => by omega }
    symm
    rw [List.countP_eq_zero]
    intro entry _ below
    have bounds := below_iff.mp below
    omega

end Compute

/-- The pairs of a table, those of the array part first. -/
def HashTable.pairs (t : HashTable) : List (Value × Value) :=
  arrayPairs 0 t.array ++ nodePairs t.node

/-- `rehash` makes the array part as large as is worth it and the hash part large enough for
all other keys, the new one among them. -/
theorem newSizes_best {t : HashTable} {ek : Value} (small : t.array.length ≤ maxAsize)
    (distinct : ((t.pairs ++ [(ek, Value.nil)]).map Prod.fst).Nodup) :
    ∃ na, BestSize (t.pairs ++ [(ek, Value.nil)]) (maxBits + 1) na (newSizes t ek).1 ∧
      (newSizes t ek).2 = (t.pairs ++ [(ek, Value.nil)]).countP fun entry => !Below (newSizes t ek).1 entry := by
  obtain ⟨inArray, tally⟩ := numusearray_tally small
  obtain ⟨total, candidates, tallied⟩ := numusehash_tally t.node tally
  obtain ⟨extra, counted⟩ := countint_tally tallied (ek, Value.nil)
  have placed : ∀ entry ∈ arrayPairs 0 t.array, Below maxAsize entry = true := by
    intro entry member
    obtain ⟨place, inside, rfl, -⟩ := mem_arrayPairs_iff.mp member
    have int : 0 + place + 1 ≤ 2147483647 := by
      simp only [maxAsize, maxBits] at small
      omega
    rw [below_position int]
    omega
  have whole : (numusearray t.array (List.replicate (maxBits + 1) 0)).1 +
      (numusehash t.node (numusearray t.array (List.replicate (maxBits + 1) 0)).2).2.1 +
      (countint ek (numusehash t.node (numusearray t.array (List.replicate (maxBits + 1) 0)).2).2.2).1 =
      (t.pairs ++ [(ek, Value.nil)]).countP (Below maxAsize) := by
    rw [inArray, candidates, extra, HashTable.pairs, List.countP_append, List.countP_append,
      List.countP_eq_length.mpr placed]
  have best := computesizes_best distinct counted
  have length : (t.pairs ++ [(ek, Value.nil)]).length =
      (arrayPairs 0 t.array).length + (nodePairs t.node).length + 1 := by
    simp [HashTable.pairs, Nat.add_assoc]
  obtain ⟨sizes, chosen⟩ : ∃ sizes, sizes = computesizes
      (countint ek (numusehash t.node (numusearray t.array (List.replicate (maxBits + 1) 0)).2).2.2).2
      ((t.pairs ++ [(ek, Value.nil)]).countP (Below maxAsize)) := ⟨_, rfl⟩
  have made : newSizes t ek = (sizes.2, (t.pairs ++ [(ek, Value.nil)]).length - sizes.1) := by
    simp only [newSizes, whole]
    rw [← chosen, inArray, total, length]
  change BestSize (t.pairs ++ [(ek, Value.nil)]) _ (computesizes _ _).1 (computesizes _ _).2 at best
  rw [← chosen] at best
  rw [made]
  refine ⟨sizes.1, best, ?_⟩
  have split : (t.pairs ++ [(ek, Value.nil)]).length =
      (t.pairs ++ [(ek, Value.nil)]).countP (Below sizes.2) +
        (t.pairs ++ [(ek, Value.nil)]).countP (fun entry => ¬ Below sizes.2 entry) :=
    List.length_eq_countP_add_countP _
  rw [split, best.count]
  simp

end GameServer.Lua
