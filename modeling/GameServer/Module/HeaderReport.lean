import GameServer.Module.RequestHeader

namespace GameServer

open Lua LuaM

/-! The return value of `add_http_request_header`, against what became of the pairs. -/

variable {platform : Platform} {takes : TakesHeader}

/-- The header libevent stores for a pair. -/
def headerLine (platform : Platform) (entry : Value × Value) : Bytes × Bytes :=
  (cstr (stringForm platform entry.1), cstr (stringForm platform entry.2))

/-- libevent takes each of these headers when they are added one after the other. -/
def AllTaken (platform : Platform) (takes : TakesHeader) :
    List (CharPtr × CharPtr) → List (Value × Value) → Prop
  | _, [] => True
  | before, entry :: rest =>
      takes before (headerLine platform entry).1 (headerLine platform entry).2 = true ∧
        AllTaken platform takes
          (before ++ [(some (stringForm platform entry.1), some (stringForm platform entry.2))]) rest

theorem EvKeyValQ.offers_returned (before : EvKeyValQ) (pairs : List (Value × Value)) :
    (∀ status ∈ (before.offers platform takes pairs).returned, status = 0) ↔
      (∀ status ∈ before.returned, status = 0) ∧ AllTaken platform takes before.calls pairs := by
  induction pairs generalizing before with
  | nil => simp [offers, AllTaken]
  | cons entry rest ih =>
      rw [offers, ih, offered_calls, AllTaken]
      by_cases taken : takes before.calls (headerLine platform entry).1 (headerLine platform entry).2 = true
      · have added : (before.offered takes (stringForm platform entry.1)
            (stringForm platform entry.2)).returned = before.returned ++ [0] := by
          exact congrArg EvKeyValQ.returned (if_pos taken)
        rw [added, List.forall_mem_append, List.forall_mem_singleton, and_iff_left rfl,
          and_iff_right taken]
      · have refused : (before.offered takes (stringForm platform entry.1)
            (stringForm platform entry.2)).returned = before.returned ++ [-1] := by
          exact congrArg EvKeyValQ.returned (if_neg taken)
        rw [refused]
        simp [taken]

theorem EvKeyValQ.offers_headers {pairs : List (Value × Value)} {before : EvKeyValQ}
    (taken : AllTaken platform takes before.calls pairs) :
    (before.offers platform takes pairs).headers =
      before.headers ++ pairs.map (headerLine platform) := by
  induction pairs generalizing before with
  | nil => simp [offers]
  | cons entry rest ih =>
      obtain ⟨first, later⟩ := taken
      have added : (before.offered takes (stringForm platform entry.1)
          (stringForm platform entry.2)).headers = before.headers ++ [headerLine platform entry] := by
        exact congrArg EvKeyValQ.headers (if_pos first)
      rw [offers, ih, added]
      · simp
      · rw [offered_calls]
        exact later

theorem addHeaderFrom_valueless {address : Nat} {below : List Value} {table : Table}
    {front rest : List (Value × Value)} (entries : table.entries = front ++ rest)
    (named : ∀ entry ∈ rest, ∃ name, entry.1 = .string name)
    (valueless : ∃ entry ∈ rest, entry.2.toLuaString platform = none) {fuel : Nat}
    (enough : rest.length < fuel) {key : Value} (next : table.next key = some rest.head?)
    {passed : List (Sink × CharPtr)} {world : World EvKeyValQ}
    (located : world.heap.tables address = table) :
    ∃ state name, addHeaderFrom platform takes (below.length + 1) fuel
        ⟨key :: .table address :: below, passed, world⟩ = .fault .nullPointer state ∧
      (some name, none) ∈ state.world.host.calls := by
  induction rest generalizing front fuel key passed world with
  | nil => simp at valueless
  | cons entry rest ih =>
      obtain ⟨key', value⟩ := entry
      rw [List.forall_mem_cons] at named
      obtain ⟨⟨name, string⟩, laterNamed⟩ := named
      dsimp only at string
      subst string
      cases fuel with
      | zero => simp at enough
      | succ fuel =>
          have found : (world.heap.tables address).next key = some (some (.string name, value)) := by
            rw [located, next]
            rfl
          cases read : value.toLuaString platform with
          | none =>
              obtain ⟨state, faulted, handed⟩ := @addHeaderFrom_null platform takes address below passed
                world key (.string name, value) name found rfl read fuel
              exact ⟨state, name, faulted, handed⟩
          | some text =>
              have later : ∃ entry ∈ rest, entry.2.toLuaString platform = none := by
                obtain ⟨entry, member, none⟩ := valueless
                cases member with
                | head => simp [read] at none
                | tail _ inRest => exact ⟨entry, inRest, none⟩
              have onward : table.next (.string name) = some rest.head? := by
                apply Table.next_of_append
                exact entries
              rw [@addHeaderFrom_step platform takes address below passed world key (.string name, value)
                name text found rfl read fuel]
              exact @ih (front ++ [(.string name, value)]) (by simpa using entries) laterNamed later fuel
                (by simpa using enough) _ onward _ _ located

/-- What the return value promises: with 1 every pair is among the headers added, and no
value lacked a string form and no header was refused; no NULL goes to libevent. -/
structure ReportsTruthfully (platform : Platform) (listed : List (Bytes × Bytes))
    (entries : List (Value × Value)) (outcome : Outcome EvKeyValQ Int) : Prop where
  added : ∀ after, outcome = .ok 1 after → ∃ lines, after.world.host.headers = listed ++ lines ∧
    ∀ entry ∈ entries, headerLine platform entry ∈ lines
  valueless : (∃ entry ∈ entries, entry.2.toLuaString platform = none) →
    ∀ after, outcome ≠ .ok 1 after
  refused : ∀ after, outcome = .ok 1 after → ∀ status ∈ after.world.host.returned, status = 0
  noNull : outcome.All fun state => ∀ call ∈ state.world.host.calls, call.1 ≠ none ∧ call.2 ≠ none

theorem reportsTruthfully_offers {entries : List (Value × Value)} (listed : List (Bytes × Bytes))
    (texts : ∀ entry ∈ entries, entry.1.isString = true ∧ entry.2.isString = true)
    {final : LuaState EvKeyValQ}
    (offered : final.world.host = (⟨listed, [], []⟩ : EvKeyValQ).offers platform takes entries) :
    ReportsTruthfully platform listed entries (.ok 1 final) ↔ AllTaken platform takes [] entries := by
  have statuses := @EvKeyValQ.offers_returned platform takes ⟨listed, [], []⟩ entries
  simp only [List.not_mem_nil, false_implies, implies_true, true_and] at statuses
  constructor
  · intro truthful
    apply statuses.mp
    rw [← offered]
    exact truthful.refused final rfl
  · intro taken
    constructor
    · intro after same
      cases same
      refine ⟨entries.map (headerLine platform), ?_, ?_⟩
      · rw [offered]
        exact EvKeyValQ.offers_headers taken
      · intro entry member
        exact List.mem_map_of_mem member
    · intro valueless
      obtain ⟨entry, member, none⟩ := valueless
      have some := (texts entry member).2
      rw [← Value.toLuaString_isSome platform, none] at some
      cases some
    · intro after same
      cases same
      rw [offered]
      exact statuses.mpr taken
    · intro call member
      rw [offered, EvKeyValQ.offers_calls texts, List.nil_append] at member
      obtain ⟨entry, inEntries, rfl⟩ := List.mem_map.mp member
      obtain ⟨keyText, valueText⟩ := texts entry inEntries
      rw [← Value.toLuaString_isSome platform, Option.isSome_iff_ne_none] at keyText valueText
      exact ⟨keyText, valueText⟩

/-- For a table with string keys the return value is truthful exactly when every value has
a string form and libevent takes every header. -/
theorem addHttpRequestHeader_truthful_iff (platform : Platform) (takes : TakesHeader)
    (address fuel : Nat) (below : List Value) (passed : List (Sink × CharPtr))
    (world : World EvKeyValQ) (listed : List (Bytes × Bytes))
    (named : ∀ entry ∈ (world.heap.tables address).entries, ∃ name, entry.1 = .string name)
    (enough : (world.heap.tables address).entries.length < fuel) :
    ReportsTruthfully platform listed (world.heap.tables address).entries
        (addHttpRequestHeader platform takes fuel
          ⟨.table address :: below, passed, { world with host := ⟨listed, [], []⟩ }⟩) ↔
      (∀ entry ∈ (world.heap.tables address).entries, entry.2.isString = true) ∧
        AllTaken platform takes [] (world.heap.tables address).entries := by
  by_cases valued : ∀ entry ∈ (world.heap.tables address).entries, entry.2.isString = true
  · have texts : ∀ entry ∈ (world.heap.tables address).entries,
        entry.1.isString = true ∧ entry.2.isString = true := by
      intro entry member
      obtain ⟨name, string⟩ := named entry member
      rw [string]
      exact ⟨rfl, valued entry member⟩
    have kept : ∀ key ∈ (world.heap.tables address).entries.map Prod.fst,
        key.converted platform = key := by
      intro key member
      obtain ⟨entry, inEntries, rfl⟩ := List.mem_map.mp member
      obtain ⟨name, string⟩ := named entry inEntries
      rw [string]
      rfl
    obtain ⟨handed, looped⟩ := @addHeaderFrom_of_visits platform takes address below
      (world.heap.tables address) texts fuel .nil _ passed { world with host := ⟨listed, [], []⟩ } rfl
      (Visits.entries_of_kept kept) enough
    rw [addHttpRequestHeader_eq, looped, Outcome.ok_bind, luaSettop_table, Outcome.ok_bind]
    rw [reportsTruthfully_offers listed texts rfl]
    exact (and_iff_right valued).symm
  · have valueless : ∃ entry ∈ (world.heap.tables address).entries,
        entry.2.toLuaString platform = none := by
      by_contra all
      apply valued
      intro entry member
      rw [← Value.toLuaString_isSome platform, Option.isSome_iff_ne_none]
      intro none
      exact all ⟨entry, member, none⟩
    obtain ⟨state, name, faulted, handed⟩ := @addHeaderFrom_valueless platform takes address below
      (world.heap.tables address) [] _ rfl named valueless fuel enough .nil (Table.next_nil _) passed
      { world with host := ⟨listed, [], []⟩ } rfl
    rw [addHttpRequestHeader_eq, faulted, Outcome.fault_bind]
    constructor
    · intro truthful
      have noNull : ∀ call ∈ state.world.host.calls, call.1 ≠ none ∧ call.2 ≠ none := truthful.noNull
      exact absurd rfl (noNull _ handed).2
    · intro all
      exact absurd all.1 valued

/-- `evhttp_add_header` refuses a value with a bare line break. -/
private def noLineBreak : TakesHeader := fun _ _ value => !value.contains 10

/-- A table of headers, before anything is added. -/
private def headerWorld (fields : List (String × Value)) : World EvKeyValQ where
  heap := .ofTables [.ofFields fields]
  calls := []
  clock := 0
  host := ⟨[], [], []⟩

/-- Three headers, one with a number. -/
private def threeHeaders : World EvKeyValQ :=
  headerWorld [("Host", .string (lit "peer")), ("Accept", .string (lit "*/*")), ("Age", .number (.finite 7))]

theorem addHttpRequestHeader_truthful_plain :
    ReportsTruthfully default [] (threeHeaders.heap.tables 0).entries
      (addHttpRequestHeader default noLineBreak 4 ⟨[.table 0], [], threeHeaders⟩) := by
  have entries : (threeHeaders.heap.tables 0).entries = [(.string (lit "Host"), .string (lit "peer")),
      (.string (lit "Accept"), .string (lit "*/*")), (.string (lit "Age"), .number (.finite 7))] := by
    decide
  have named : ∀ entry ∈ (threeHeaders.heap.tables 0).entries, ∃ name, entry.1 = .string name := by
    rw [entries]
    intro entry member
    simp only [List.mem_cons, List.not_mem_nil, or_false] at member
    obtain rfl | rfl | rfl := member <;> exact ⟨_, rfl⟩
  apply (addHttpRequestHeader_truthful_iff default noLineBreak 0 4 [] [] threeHeaders [] named
    (by rw [entries]; decide)).mpr
  rw [entries]
  exact ⟨by decide, by decide, by decide, by decide, trivial⟩

/-- The refused header is not added, and the function returns 1. -/
theorem addHttpRequestHeader_truthful_counterexample :
    ¬ ReportsTruthfully default [] ((headerWorld [("X", .string (lit "a\nb"))]).heap.tables 0).entries
      (addHttpRequestHeader default noLineBreak 2 ⟨[.table 0], [], headerWorld [("X", .string (lit "a\nb"))]⟩) := by
  intro truthful
  have refused := truthful.refused _ rfl (-1) (by decide)
  cases refused

end GameServer
