import GameServer.Lua.Api
import Mathlib.Data.List.Perm.Subperm

namespace GameServer.Lua

open LuaM

/-! Loops over `lua_next`.  The loop state is the key on the stack, so what the body
leaves there decides where the next step goes on. -/

section Next

variable {H : Type} {address : Nat} {base : List Value} {passed : List (Sink × CharPtr)}
  {world : World H} {key : Value}

theorem luaNext_more {entry : Value × Value}
    (next : (world.heap.tables address).next key = some (some entry)) :
    luaNext (base.length + 1) ⟨key :: .table address :: base, passed, world⟩ =
      .ok true ⟨entry.2 :: entry.1 :: .table address :: base, passed, world⟩ := by
  simp [luaNext, tableAt, valueAt, next]

theorem luaNext_end (next : (world.heap.tables address).next key = some none) :
    luaNext (base.length + 1) ⟨key :: .table address :: base, passed, world⟩ =
      .ok false ⟨.table address :: base, passed, world⟩ := by
  simp [luaNext, tableAt, valueAt, next]

theorem luaNext_unknown (base above : List Value)
    (next : (world.heap.tables address).next key = none) :
    luaNext (base.length + 1) ⟨key :: (above ++ .table address :: base), passed, world⟩ =
      .raise (.string (lit "invalid key to 'next'"))
        ⟨key :: (above ++ .table address :: base), passed, world⟩ := by
  have position := index2adr_above (key :: above) (.table address) base
  simp only [List.cons_append, List.length_cons] at position
  simp [luaNext, tableAt, valueAt, position, next]

end Next

theorem Table.mem_of_next {table : Table} {key : Value} {entry : Value × Value}
    (next : table.next key = some (some entry)) : entry ∈ table.entries := by
  unfold Table.next at next
  split at next
  · simp only [Option.some.injEq] at next
    exact List.mem_of_mem_head? next
  · split at next
    · cases next
    · rename_i head rest dropped
      simp only [Option.some.injEq] at next
      have kept : entry ∈ table.entries.dropWhile fun other => other.1 != key := by
        rw [dropped]
        exact List.mem_cons_of_mem _ (List.mem_of_mem_head? next)
      exact (List.dropWhile_sublist _).subset kept

/-- The pairs a loop meets from `key` on, when its body leaves `after key` in the place of
each key. -/
inductive Visits (table : Table) (after : Value → Value) : Value → List (Value × Value) → Prop
  | finished {key : Value} (next : table.next key = some none) : Visits table after key []
  | visited {key : Value} {entry : Value × Value} {rest : List (Value × Value)}
      (next : table.next key = some (some entry)) (more : Visits table after (after entry.1) rest) :
      Visits table after key (entry :: rest)

namespace Visits

variable {table : Table} {after : Value → Value} {key : Value} {pairs : List (Value × Value)}

theorem deterministic {others : List (Value × Value)} (run : Visits table after key pairs)
    (other : Visits table after key others) : pairs = others := by
  induction run generalizing others with
  | finished next =>
      cases other with
      | finished _ => rfl
      | visited nextToo _ => simp [next] at nextToo
  | visited next more ih =>
      cases other with
      | finished nextToo => simp [next] at nextToo
      | visited nextToo moreToo =>
          rw [next] at nextToo
          cases nextToo
          rw [ih moreToo]

theorem subset (run : Visits table after key pairs) : pairs ⊆ table.entries := by
  induction run with
  | finished next => exact List.nil_subset _
  | visited next more ih =>
      intro entry member
      cases member with
      | head => exact Table.mem_of_next next
      | tail _ later => exact ih later

theorem behind {front back : List (Value × Value)} {entry : Value × Value}
    (run : Visits table after key pairs) (split : pairs = front ++ entry :: back) :
    Visits table after (after entry.1) back := by
  induction front generalizing key pairs with
  | nil =>
      subst split
      cases run with
      | visited next more => exact more
  | cons first front ih =>
      subst split
      cases run with
      | visited next more => exact ih more rfl

theorem same_place {front back front' back' : List (Value × Value)} {entry entry' : Value × Value}
    (run : Visits table after key pairs) (split : pairs = front ++ entry :: back)
    (split' : pairs = front' ++ entry' :: back') (alike : after entry.1 = after entry'.1) :
    entry = entry' := by
  have onward := run.behind split
  have onward' := run.behind split'
  rw [← alike] at onward'
  have backs : back = back' := onward.deterministic onward'
  subst backs
  have sides : front ++ [entry] ++ back = front' ++ [entry'] ++ back := by
    simpa using split.symm.trans split'
  have fronts := List.append_cancel_right sides
  have lasts := (List.append_inj' fronts rfl).2
  simpa using lasts

/-- A loop that ends meets no pair twice. -/
theorem nodup (run : Visits table after key pairs) : pairs.Nodup := by
  induction run with
  | finished next => exact List.nodup_nil
  | @visited key entry rest next more ih =>
      apply List.nodup_cons.mpr
      refine ⟨?_, ih⟩
      intro again
      obtain ⟨front, back, split⟩ := List.append_of_mem again
      have shorter : back = rest := (more.behind split).deterministic more
      have lengths := congrArg List.length split
      rw [shorter] at lengths
      simp only [List.length_append, List.length_cons] at lengths
      omega

/-- A body that leaves the keys alone meets every pair once, in order. -/
theorem entries_of_kept (kept : ∀ key ∈ table.entries.map Prod.fst, after key = key) :
    Visits table after .nil table.entries := by
  suffices onward : ∀ rest front key, table.entries = front ++ rest →
      table.next key = some rest.head? → Visits table after key rest from
    onward table.entries [] .nil rfl (Table.next_nil table)
  intro rest
  induction rest with
  | nil =>
      intro front key _ next
      exact .finished next
  | cons entry rest ih =>
      intro front key split next
      apply Visits.visited next
      have same : after entry.1 = entry.1 := by
        apply kept
        apply List.mem_map_of_mem
        simp [split]
      rw [same]
      apply ih (front ++ [entry]) entry.1
      · simp [split]
      · exact Table.next_of_append split

/-- A loop that ends after as many steps as there are pairs has left all keys alone. -/
theorem kept_of_length (run : Visits table after .nil pairs)
    (idempotent : ∀ key, after (after key) = after key) (notNil : ∀ key, key ≠ .nil → after key ≠ .nil)
    (all : pairs.length = table.entries.length) :
    ∀ key ∈ table.entries.map Prod.fst, after key = key := by
  have same : pairs.Perm table.entries := by
    apply List.Subperm.perm_of_length_le
    · exact List.Nodup.subperm run.nodup run.subset
    · exact all.ge
  intro key member
  obtain ⟨entry, inside, rfl⟩ := List.mem_map.mp member
  obtain ⟨front, back, split⟩ := List.append_of_mem (same.mem_iff.mpr inside)
  have onward := run.behind split
  -- what the key became is a key too: the loop went on from it
  have present : after entry.1 ∈ table.entries.map Prod.fst := by
    by_contra absent
    have unknown := Table.next_of_not_mem (notNil _ (table.valid entry inside).1) absent
    cases onward with
    | finished next => simp [unknown] at next
    | visited next more => simp [unknown] at next
  obtain ⟨other, otherInside, otherKey⟩ := List.mem_map.mp present
  obtain ⟨front', back', split'⟩ := List.append_of_mem (same.mem_iff.mpr otherInside)
  have alike : after entry.1 = after other.1 := by rw [otherKey, idempotent]
  have met := run.same_place split split' alike
  rw [← otherKey, ← met]

end Visits

end GameServer.Lua
