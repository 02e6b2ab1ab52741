import GameServer.Lua.Sequence
import GameServer.Lua.Traversal
import GameServer.Module.LuaUtil

namespace GameServer

open Lua LuaM

/-! What the counting of `lua_table_is_array` decides. -/

/-- A key the loop counts: it reads as a number that is not above the length. -/
def Lua.Value.Counted (platform : Platform) (size : Nat) (key : Value) : Prop :=
  ∃ number, key.toNumber platform = some number ∧ LuaNumber.exceeds number size = false

/-- Stray keys make up for holes: there are as many keys as the length asks for, the loop
counts them all, and one is no array key. -/
def Lua.Table.Masked (platform : Platform) (table : Table) (size : Nat) : Prop :=
  table.entries.length = size ∧ (∀ key ∈ table.keys, key.Counted platform size) ∧
    ∃ key ∈ table.keys, key.Stray

theorem counted_position (platform : Platform) {size index : Nat} (inside : index ≤ size) :
    (Value.position index).Counted platform size := by
  have notAbove : ¬ (size : Rat) < index := by
    exact_mod_cast Nat.not_lt.mpr inside
  exact ⟨.finite index, rfl, by simp [LuaNumber.exceeds, notAbove]⟩

theorem position_of_counted {platform : Platform} {size : Nat} {key : Value}
    (counted : key.Counted platform size) (named : ¬ key.Stray) :
    ∃ index, 1 ≤ index ∧ index ≤ size ∧ key = .position index := by
  simp only [Value.Stray, not_forall, not_not] at named
  obtain ⟨index, low, rfl⟩ := named
  obtain ⟨number, read, below⟩ := counted
  simp only [Value.position, Value.toNumber, Option.some.injEq] at read
  subst read
  have inside : ¬ (size : Rat) < index := by simpa [LuaNumber.exceeds] using below
  have within : ¬ size < index := by exact_mod_cast inside
  exact ⟨index, low, by omega, rfl⟩

section Loop

variable {rt : Runtime Server} {address size : Nat} {below : List Value}
  {passed : List (Sink × CharPtr)} {world : World Server}

theorem luaIsnumber_top (platform : Platform) (value : Value) (stack : List Value) :
    luaIsnumber platform (-1) ⟨value :: stack, passed, world⟩ =
      .ok (value.toNumber platform).isSome ⟨value :: stack, passed, world⟩ := by
  simp [luaIsnumber, valueAt]

theorem luaTonumber_top (platform : Platform) (value : Value) (stack : List Value) :
    luaTonumber platform (-1) ⟨value :: stack, passed, world⟩ =
      .ok ((value.toNumber platform).getD (.finite 0)) ⟨value :: stack, passed, world⟩ := by
  simp [luaTonumber, valueAt]

/-- The loop from the pair after `key`, with `cnt` pairs before it: it gives the answer
for the pairs that are left, and the stack of the caller where all of them are counted. -/
theorem luaTableIsArrayFrom_answer {fuel cnt : Nat} {key : Value} {done rest : List (Value × Value)}
    (entries : (world.heap.tables address).entries = done ++ rest)
    (next : (world.heap.tables address).next key = some rest.head?) (enough : rest.length < fuel) :
    ∃ answer after, luaTableIsArrayFrom rt (below.length + 1) size fuel cnt
        ⟨key :: .table address :: below, passed, world⟩ = .ok answer after ∧
      (answer = true ↔ (∀ entry ∈ rest, entry.1.Counted rt.toPlatform size) ∧
        cnt + rest.length = size) ∧
      (after.stack = .table address :: below ↔
        ∀ entry ∈ rest, entry.1.Counted rt.toPlatform size) := by
  induction rest generalizing fuel cnt done key with
  | nil =>
      cases fuel with
      | zero => simp at enough
      | succ fuel =>
          have cut := luaSettop_length (.table address :: below) passed world []
          simp only [List.nil_append, List.length_cons, Nat.cast_add, Nat.cast_one] at cut
          refine ⟨decide (cnt = size), ⟨.table address :: below, passed, world⟩, ?_, by simp, by simp⟩
          simp [luaTableIsArrayFrom, luaNext_end next, cut]
  | cons entry rest ih =>
      obtain ⟨nextKey, value⟩ := entry
      cases fuel with
      | zero => simp at enough
      | succ fuel =>
          cases read : nextKey.toNumber rt.toPlatform with
          | none =>
              refine ⟨false, ⟨nextKey :: .table address :: below, passed, world⟩, ?_, ?_, ?_⟩
              · simp [luaTableIsArrayFrom, luaNext_more next, luaIsnumber_top, read]
              · simp [Value.Counted, read]
              · simp [Value.Counted, read]
          | some number =>
              cases above : LuaNumber.exceeds number size with
              | true =>
                  refine ⟨false, ⟨nextKey :: .table address :: below, passed, world⟩, ?_, ?_, ?_⟩
                  · simp [luaTableIsArrayFrom, luaNext_more next, luaIsnumber_top, luaTonumber_top,
                      read, above]
                  · simp [Value.Counted, read, above]
                  · simp [Value.Counted, read, above]
              | false =>
                  have counted : nextKey.Counted rt.toPlatform size := ⟨number, read, above⟩
                  obtain ⟨answer, after, ran, decides, restored⟩ :=
                    @ih fuel (cnt + 1) nextKey (done ++ [(nextKey, value)]) (by simpa using entries)
                      (Table.next_of_append entries) (by simpa using enough)
                  refine ⟨answer, after, ?_, ?_, ?_⟩
                  · simpa [luaTableIsArrayFrom, luaNext_more next, luaIsnumber_top,
                      luaTonumber_top, read, above] using ran
                  · rw [decides]
                    simp only [List.forall_mem_cons, counted, true_and, List.length_cons]
                    apply and_congr_right
                    intro _
                    omega
                  · rw [restored]
                    simp only [List.forall_mem_cons, counted, true_and]

end Loop

theorem luaTableIsArray_answer (rt : Runtime Server) (address fuel : Nat) (below : List Value)
    (passed : List (Sink × CharPtr)) (world : World Server)
    (enough : (world.heap.tables address).entries.length < fuel) :
    ∃ answer after, luaTableIsArray rt fuel ⟨.table address :: below, passed, world⟩ =
        .ok answer after ∧
      (answer = true ↔
        (∀ key ∈ (world.heap.tables address).keys,
          key.Counted rt.toPlatform (rt.border (world.heap.tables address))) ∧
        (world.heap.tables address).entries.length = rt.border (world.heap.tables address)) ∧
      (after.stack = .table address :: below ↔ ∀ key ∈ (world.heap.tables address).keys,
        key.Counted rt.toPlatform (rt.border (world.heap.tables address))) := by
  obtain ⟨answer, after, ran, decides, restored⟩ := @luaTableIsArrayFrom_answer rt address
    (rt.border (world.heap.tables address)) below passed world fuel 0 .nil [] _ rfl
    (Table.next_nil _) enough
  have isTable : luaIstable ((below.length : Int) + 1) ⟨.table address :: below, passed, world⟩ =
      .ok true ⟨.table address :: below, passed, world⟩ := by
    simp [luaIstable, valueAt, Value.isTable]
  have length : luaObjlen rt.toPlatform (-1) ⟨.table address :: below, passed, world⟩ =
      .ok (rt.border (world.heap.tables address)) ⟨.table address :: below, passed, world⟩ := by
    simp [luaObjlen, valueAt]
  refine ⟨answer, after, ?_, ?_, ?_⟩
  · simpa [luaTableIsArray, isTable, length, luaPushnil] using ran
  · rw [decides, Nat.zero_add]
    simp [Table.keys]
  · rw [restored]
    simp [Table.keys]

/-- The keys of a table are 1, …, k exactly when the function says so, unless stray keys
make up for holes. -/
theorem luaTableIsArray_iff (rt : Runtime Server) (address fuel : Nat) (below : List Value)
    (passed : List (Sink × CharPtr)) (world : World Server)
    (border : (world.heap.tables address).IsBorder (rt.border (world.heap.tables address)))
    (enough : (world.heap.tables address).entries.length < fuel) :
    ∃ answer after, luaTableIsArray rt fuel ⟨.table address :: below, passed, world⟩ =
        .ok answer after ∧
      ((answer = true ↔ (world.heap.tables address).IsSequence) ↔
        ¬ (world.heap.tables address).Masked rt.toPlatform (rt.border (world.heap.tables address))) := by
  obtain ⟨answer, after, ran, decides, -⟩ :=
    luaTableIsArray_answer rt address fuel below passed world enough
  refine ⟨answer, after, ran, ?_⟩
  rw [decides]
  generalize world.heap.tables address = table at border
  generalize rt.border table = size at border
  constructor
  · intro agrees masked
    obtain ⟨count, counted, key, member, stray⟩ := masked
    obtain ⟨length, positions⟩ := agrees.mp ⟨counted, count⟩
    exact positions.not_stray member stray
  · intro unmasked
    constructor
    · intro answered
      obtain ⟨counted, count⟩ := answered
      refine ⟨size, Table.hasPositions_of_length ?_ count⟩
      intro key member
      apply position_of_counted (counted key member)
      intro stray
      exact unmasked ⟨count, counted, key, member, stray⟩
    · intro sequence
      obtain ⟨length, positions⟩ := sequence
      have same : size = length := positions.border_eq border
      subst same
      constructor
      · intro key member
        obtain ⟨index, -, inside, rfl⟩ := (positions key).mp member
        exact counted_position rt.toPlatform inside
      · exact positions.length_entries

/-- A platform whose tables all have two as their length. -/
private def lengthTwo : Runtime Server :=
  { (default : Runtime Server) with border := fun _ => 2 }

private def array : Table where
  entries := [(.position 1, .string (lit "a")), (.position 2, .string (lit "b"))]
  distinct := by decide
  valid := by decide
  live := by decide

theorem luaTableIsArray_array :
    ∃ after, luaTableIsArray lengthTwo 3 ⟨[.table 0], [], .start (.ofTables [array])⟩ =
      .ok true after := by
  obtain ⟨answer, after, ran, decides⟩ := luaTableIsArray_iff lengthTwo 0 3 [] []
    (.start (.ofTables [array])) (by decide) (by decide)
  have unmasked : ¬ array.Masked lengthTwo.toPlatform 2 := by
    intro masked
    obtain ⟨-, -, key, member, stray⟩ := masked
    simp only [array, Table.keys, List.map_cons, List.map_nil, List.mem_cons, List.not_mem_nil,
      or_false] at member
    cases member with
    | inl first => exact stray 1 (by decide) first
    | inr second => exact stray 2 (by decide) second
  have sequence : array.IsSequence := by
    refine ⟨2, Table.hasPositions_of_length ?_ rfl⟩
    simp only [array, Table.keys, List.map_cons, List.map_nil, List.forall_mem_cons]
    exact ⟨⟨1, by decide⟩, ⟨2, by decide⟩, by simp⟩
  have answered : answer = true := (decides.mpr unmasked).mpr sequence
  exact ⟨after, answered ▸ ran⟩

/-- `{nil, "b", [0] = "a"}`: the key 0 makes up for the hole at 1. -/
private def holed : Table where
  entries := [(.position 0, .string (lit "a")), (.position 2, .string (lit "b"))]
  distinct := by decide
  valid := by decide
  live := by decide

theorem luaTableIsArray_counterexample :
    holed.IsBorder 2 ∧
    ¬ ((∃ after, luaTableIsArray lengthTwo 3 ⟨[.table 0], [], .start (.ofTables [holed])⟩ =
      .ok true after) ↔ holed.IsSequence) := by
  refine ⟨by decide, ?_⟩
  intro agrees
  obtain ⟨length, positions⟩ := agrees.mp ⟨_, rfl⟩
  have stray : (Value.position 0).Stray := by
    intro index low same
    have zero : 0 = index := Value.position_injective same
    omega
  exact positions.not_stray (List.mem_cons_self) stray

/-! ## The stack -/

/-- The stack is as it was exactly when the loop counts every key, whatever length the table
has: its two exits in the middle leave the key they met. -/
theorem luaTableIsArray_stack_iff (rt : Runtime Server) (address fuel : Nat) (below : List Value)
    (passed : List (Sink × CharPtr)) (world : World Server)
    (enough : (world.heap.tables address).entries.length < fuel) :
    ∃ answer after, luaTableIsArray rt fuel ⟨.table address :: below, passed, world⟩ =
        .ok answer after ∧
      (after.stack = .table address :: below ↔ ∀ key ∈ (world.heap.tables address).keys,
        key.Counted rt.toPlatform (rt.border (world.heap.tables address))) := by
  obtain ⟨answer, after, ran, -, restored⟩ :=
    luaTableIsArray_answer rt address fuel below passed world enough
  exact ⟨answer, after, ran, restored⟩

theorem luaTableIsArray_stack_array :
    ∃ after, luaTableIsArray lengthTwo 3 ⟨[.table 0, .nil], [], .start (.ofTables [array])⟩ =
      .ok true after ∧ after.stack = [.table 0, .nil] := by
  obtain ⟨answer, after, ran, restored⟩ := luaTableIsArray_stack_iff lengthTwo 0 3 [.nil] []
    (.start (.ofTables [array])) (by decide)
  have counted : ∀ key ∈ array.keys, key.Counted lengthTwo.toPlatform 2 := by
    simp only [array, Table.keys, List.map_cons, List.map_nil, List.forall_mem_cons]
    exact ⟨counted_position lengthTwo.toPlatform (by decide),
      counted_position lengthTwo.toPlatform (by decide), by simp⟩
  have answered : answer = true := by
    have known : luaTableIsArray lengthTwo 3 ⟨[.table 0, .nil], [], .start (.ofTables [array])⟩ =
        .ok true ⟨[.table 0, .nil], [], .start (.ofTables [array])⟩ := rfl
    rw [known] at ran
    cases ran
    rfl
  exact ⟨after, answered ▸ ran, restored.mpr counted⟩

/-- `{x = 1}`. -/
theorem luaTableIsArray_stack_counterexample :
    ¬ ∃ answer after, luaTableIsArray lengthTwo 2 ⟨[.table 0], [],
        .start (.ofTables [.ofFields [("x", .number (.finite 1))]])⟩ = .ok answer after ∧
      after.stack = [.table 0] := by
  intro restored
  obtain ⟨answer, after, ran, stack⟩ := restored
  have known : luaTableIsArray lengthTwo 2 ⟨[.table 0], [],
      .start (.ofTables [.ofFields [("x", .number (.finite 1))]])⟩ =
        .ok false ⟨[.string (lit "x"), .table 0], [],
          .start (.ofTables [.ofFields [("x", .number (.finite 1))]])⟩ := rfl
  rw [known] at ran
  cases ran
  cases stack

end GameServer
