import GameServer.Lua.Table
import Mathlib.Data.Finset.Card
import Mathlib.Order.Interval.Finset.Nat
import Mathlib.Algebra.Order.Ring.Rat

namespace GameServer.Lua

/-! Tables whose keys are 1, …, k, and the borders the length operator looks for. -/

/-- The number `index` as a key. -/
def Value.position (index : Nat) : Value := .number (.finite index)

theorem Value.position_injective : Function.Injective Value.position := by
  intro left right same
  have numbers : (left : Rat) = (right : Rat) := by
    injection same with same
    injection same
  exact_mod_cast numbers

/-- No array has this key. -/
def Value.Stray (key : Value) : Prop :=
  ∀ index, 1 ≤ index → key ≠ .position index

namespace Table

variable {table : Table} {length : Nat}

def keys (table : Table) : List Value :=
  table.entries.map Prod.fst

theorem length_keys (table : Table) : table.keys.length = table.entries.length :=
  List.length_map ..

private theorem lookup_mem {entries : List (Value × Value)} {key value : Value}
    (found : entries.lookup key = some value) : (key, value) ∈ entries := by
  induction entries with
  | nil => cases found
  | cons entry rest ih =>
      obtain ⟨head, content⟩ := entry
      by_cases same : key = head
      · subst same
        simp only [List.lookup_cons_self, Option.some.injEq] at found
        rw [found]
        exact List.mem_cons_self
      · rw [List.lookup_cons, beq_eq_false_iff_ne.mpr same] at found
        exact List.mem_cons_of_mem _ (ih found)

theorem get_ne_nil_iff {key : Value} : table.get key ≠ .nil ↔ key ∈ table.keys := by
  cases found : table.entries.lookup key with
  | some value =>
      have member := lookup_mem found
      have live : value ≠ .nil := table.live (key, value) member
      have present : key ∈ table.keys := List.mem_map_of_mem member
      simp only [get, found, Option.getD_some]
      exact iff_of_true live present
  | none =>
      have absent : key ∉ table.keys := by
        intro present
        obtain ⟨entry, member, rfl⟩ := List.mem_map.mp present
        have different := List.lookup_eq_none_iff.mp found entry member
        simp at different
      simp only [get, found, Option.getD_none]
      exact iff_of_false (fun live => live rfl) absent

/-- The keys are exactly 1, …, `length`. -/
def HasPositions (table : Table) (length : Nat) : Prop :=
  ∀ key, key ∈ table.keys ↔ ∃ index, 1 ≤ index ∧ index ≤ length ∧ key = .position index

def IsSequence (table : Table) : Prop :=
  ∃ length, table.HasPositions length

/-- An `n` with a value at `n` or `n = 0`, and no value at `n + 1`. -/
def IsBorder (table : Table) (border : Nat) : Prop :=
  (border = 0 ∨ table.get (.position border) ≠ .nil) ∧ table.get (.position (border + 1)) = .nil

instance (table : Table) (border : Nat) : Decidable (table.IsBorder border) :=
  inferInstanceAs (Decidable (_ ∧ _))

theorem HasPositions.mem_iff (positions : table.HasPositions length) {index : Nat} :
    .position index ∈ table.keys ↔ 1 ≤ index ∧ index ≤ length := by
  rw [positions]
  constructor
  · intro named
    obtain ⟨other, low, high, same⟩ := named
    rw [Value.position_injective same]
    exact ⟨low, high⟩
  · intro inside
    exact ⟨index, inside.1, inside.2, rfl⟩

theorem HasPositions.not_stray (positions : table.HasPositions length) {key : Value}
    (member : key ∈ table.keys) : ¬ key.Stray := by
  intro stray
  obtain ⟨index, low, -, same⟩ := (positions key).mp member
  exact stray index low same

/-- A sequence has one border, its length. -/
theorem HasPositions.border_eq (positions : table.HasPositions length) {border : Nat}
    (isBorder : table.IsBorder border) : border = length := by
  obtain ⟨present, absent⟩ := isBorder
  have outside : ¬ (1 ≤ border + 1 ∧ border + 1 ≤ length) := by
    intro inside
    exact get_ne_nil_iff.mpr (positions.mem_iff.mpr inside) absent
  cases present with
  | inl empty => omega
  | inr present =>
      have inside := positions.mem_iff.mp (get_ne_nil_iff.mp present)
      omega

private theorem positions_nodup (length : Nat) :
    ((List.range' 1 length).map Value.position).Nodup := by
  apply List.Nodup.map Value.position_injective
  exact List.nodup_range'

theorem HasPositions.length_entries (positions : table.HasPositions length) :
    table.entries.length = length := by
  have same : table.keys.Perm ((List.range' 1 length).map Value.position) := by
    apply (List.perm_ext_iff_of_nodup table.distinct (positions_nodup length)).mpr
    intro key
    change key ∈ table.keys ↔ _
    rw [positions]
    simp only [List.mem_map, List.mem_range'_1]
    constructor
    · intro named
      obtain ⟨index, low, high, rfl⟩ := named
      exact ⟨index, by omega, rfl⟩
    · intro named
      obtain ⟨index, inside, rfl⟩ := named
      exact ⟨index, by omega, by omega, rfl⟩
  have counted := same.length_eq
  simpa [length_keys] using counted

theorem hasPositions_of_length (inside : ∀ key ∈ table.keys,
    ∃ index, 1 ≤ index ∧ index ≤ length ∧ key = .position index)
    (counted : table.entries.length = length) : table.HasPositions length := by
  have within : table.keys ⊆ (List.range' 1 length).map Value.position := by
    intro key member
    obtain ⟨index, low, high, rfl⟩ := inside key member
    apply List.mem_map_of_mem
    rw [List.mem_range'_1]
    omega
  have same : table.keys.Perm ((List.range' 1 length).map Value.position) := by
    apply List.Subperm.perm_of_length_le
    · exact List.Nodup.subperm table.distinct within
    · simp [length_keys, counted]
  intro key
  constructor
  · exact inside key
  · intro named
    obtain ⟨index, low, high, rfl⟩ := named
    apply same.mem_iff.mpr
    apply List.mem_map_of_mem
    rw [List.mem_range'_1]
    omega

end Table

end GameServer.Lua
