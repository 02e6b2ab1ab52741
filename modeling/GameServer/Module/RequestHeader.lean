import GameServer.Lua.Sequence
import GameServer.Lua.Traversal
import GameServer.Module.HttpUtil

namespace GameServer

open Lua LuaM

/-! The traversal of `add_http_request_header`: `lua_tostring` turns a number key into a
string on the stack, and the loop goes on from that string. -/

variable {platform : Platform} {takes : TakesHeader}

/-- The two pointers `evhttp_add_header` is given for a pair. -/
def headerCall (platform : Platform) (entry : Value × Value) : CharPtr × CharPtr :=
  (entry.1.toLuaString platform, entry.2.toLuaString platform)

/-- The headers after `evhttp_add_header` was called with two strings. -/
def EvKeyValQ.offered (takes : TakesHeader) (before : EvKeyValQ) (key value : Bytes) : EvKeyValQ :=
  if takes before.calls (cstr key) (cstr value) then
    ⟨before.headers ++ [(cstr key, cstr value)], before.calls ++ [(some key, some value)],
      before.returned ++ [0]⟩
  else ⟨before.headers, before.calls ++ [(some key, some value)], before.returned ++ [-1]⟩

@[simp] theorem EvKeyValQ.offered_calls (before : EvKeyValQ) (key value : Bytes) :
    (before.offered takes key value).calls = before.calls ++ [(some key, some value)] := by
  unfold offered
  split <;> rfl

/-- The string form of a value, as far as it has one. -/
def stringForm (platform : Platform) (value : Value) : Bytes :=
  (value.toLuaString platform).getD []

theorem stringForm_eq {value : Value} {text : Bytes} (read : value.toLuaString platform = some text) :
    stringForm platform value = text := by
  rw [stringForm, read, Option.getD_some]

/-- The headers after `evhttp_add_header` was called for these pairs of strings. -/
def EvKeyValQ.offers (platform : Platform) (takes : TakesHeader) :
    EvKeyValQ → List (Value × Value) → EvKeyValQ
  | before, [] => before
  | before, entry :: rest =>
      offers platform takes
        (before.offered takes (stringForm platform entry.1) (stringForm platform entry.2)) rest

theorem EvKeyValQ.offers_calls {pairs : List (Value × Value)}
    (texts : ∀ entry ∈ pairs, entry.1.isString = true ∧ entry.2.isString = true) (before : EvKeyValQ) :
    (before.offers platform takes pairs).calls = before.calls ++ pairs.map (headerCall platform) := by
  induction pairs generalizing before with
  | nil => simp [offers]
  | cons entry rest ih =>
      rw [List.forall_mem_cons] at texts
      obtain ⟨keyText, valueText⟩ := texts.1
      rw [← Value.toLuaString_isSome platform] at keyText valueText
      obtain ⟨name, named⟩ := Option.isSome_iff_exists.mp keyText
      obtain ⟨text, valued⟩ := Option.isSome_iff_exists.mp valueText
      rw [offers, ih texts.2, offered_calls, stringForm_eq named, stringForm_eq valued]
      simp [headerCall, named, valued]

theorem evhttpAddHeader_some (key value : Bytes) (stack : List Value)
    (passed : List (Sink × CharPtr)) (world : World EvKeyValQ) :
    ∃ status, evhttpAddHeader takes (some key) (some value) ⟨stack, passed, world⟩ =
      .ok status ⟨stack, passed ++ [(.libevent, some key)] ++ [(.libevent, some value)],
        { world with host := world.host.offered takes key value }⟩ := by
  by_cases taken : takes world.host.calls (cstr key) (cstr value) = true
  · exact ⟨0, by simp [evhttpAddHeader, EvKeyValQ.offered, taken]⟩
  · exact ⟨-1, by simp [evhttpAddHeader, EvKeyValQ.offered, taken]⟩

theorem evhttpAddHeader_none (key : Bytes) (stack : List Value) (passed : List (Sink × CharPtr))
    (world : World EvKeyValQ) :
    ∃ handed, evhttpAddHeader takes (some key) none ⟨stack, passed, world⟩ =
      .fault .nullPointer ⟨stack, handed, { world with
        host := { world.host with calls := world.host.calls ++ [(some key, none)] } }⟩ :=
  ⟨passed ++ [(.libevent, some key)] ++ [(.libevent, none)], rfl⟩

section Step

variable {address : Nat} {below : List Value} {passed : List (Sink × CharPtr)}
  {world : World EvKeyValQ} {key : Value} {entry : Value × Value} {name text : Bytes}

theorem luaTostring_top₂ (value key : Value) (stack : List Value) :
    luaTostring platform (-2) ⟨value :: key :: stack, passed, world⟩ =
      .ok (key.toLuaString platform) ⟨value :: key.converted platform :: stack, passed, world⟩ :=
  luaTolstring_slot platform [value] stack passed world (index2adr_top₂ value key stack)

/-- A pair of two strings or numbers: what is left in the place of its key is a string. -/
theorem addHeaderFrom_step (next : (world.heap.tables address).next key = some (some entry))
    (named : entry.1.toLuaString platform = some name)
    (valued : entry.2.toLuaString platform = some text) (fuel : Nat) :
    addHeaderFrom platform takes (below.length + 1) (fuel + 1)
        ⟨key :: .table address :: below, passed, world⟩ =
      addHeaderFrom platform takes (below.length + 1) fuel
        ⟨entry.1.converted platform :: .table address :: below,
          passed ++ [(.libevent, some name)] ++ [(.libevent, some text)],
          { world with host := world.host.offered takes name text }⟩ := by
  obtain ⟨status, added⟩ := @evhttpAddHeader_some takes name text
    (entry.2.converted platform :: entry.1.converted platform :: .table address :: below) passed world
  simp only [addHeaderFrom, bind_apply, luaNext_more next, Outcome.ok_bind, if_true,
    luaTostring_top, luaTostring_top₂, named, valued, added, luaPop_one]

theorem addHeaderFrom_null (next : (world.heap.tables address).next key = some (some entry))
    (named : entry.1.toLuaString platform = some name)
    (valueless : entry.2.toLuaString platform = none) (fuel : Nat) :
    ∃ state, addHeaderFrom platform takes (below.length + 1) (fuel + 1)
        ⟨key :: .table address :: below, passed, world⟩ = .fault .nullPointer state ∧
      (some name, none) ∈ state.world.host.calls := by
  obtain ⟨handed, refused⟩ := @evhttpAddHeader_none takes name
    (entry.2.converted platform :: entry.1.converted platform :: .table address :: below) passed world
  let final : LuaState EvKeyValQ :=
    ⟨entry.2.converted platform :: entry.1.converted platform :: .table address :: below, handed,
      { world with host := { world.host with calls := world.host.calls ++ [(some name, none)] } }⟩
  have ran : addHeaderFrom platform takes (below.length + 1) (fuel + 1)
      ⟨key :: .table address :: below, passed, world⟩ = .fault .nullPointer final := by
    simp only [addHeaderFrom, bind_apply, luaNext_more next, Outcome.ok_bind, if_true,
      luaTostring_top, luaTostring_top₂, named, valueless, refused, Outcome.fault_bind, final]
  exact ⟨final, ran, List.mem_append_right _ List.mem_cons_self⟩

theorem addHeaderFrom_end (next : (world.heap.tables address).next key = some none) (fuel : Nat) :
    addHeaderFrom platform takes (below.length + 1) (fuel + 1)
        ⟨key :: .table address :: below, passed, world⟩ =
      .ok () ⟨.table address :: below, passed, world⟩ := by
  simp [addHeaderFrom, luaNext_end next]

theorem addHeaderFrom_unknown (next : (world.heap.tables address).next key = none) (fuel : Nat) :
    ∃ state, addHeaderFrom platform takes (below.length + 1) (fuel + 1)
        ⟨key :: .table address :: below, passed, world⟩ =
      .raise (.string (lit "invalid key to 'next'")) state := by
  have raised := @luaNext_unknown EvKeyValQ address passed world key below [] next
  rw [List.nil_append] at raised
  exact ⟨_, by simp only [addHeaderFrom, bind_apply, raised, Outcome.raise_bind]; rfl⟩

end Step

theorem converted_idempotent (platform : Platform) (value : Value) :
    (value.converted platform).converted platform = value.converted platform := by
  cases value <;> rfl

theorem converted_ne_nil (platform : Platform) (value : Value) (notNil : value ≠ .nil) :
    value.converted platform ≠ .nil := by
  cases value with
  | nil => exact absurd rfl notNil
  | _ => simp [Value.converted]

theorem luaSettop_world {idx : Int} {state after : LuaState H}
    (ran : luaSettop idx state = .ok () after) : after.world = state.world := by
  simp only [luaSettop, bind_apply, getStack_apply, Outcome.ok_bind, cond_apply] at ran
  split at ran
  · split at ran <;> cases ran <;> rfl
  · split at ran
    · cases ran
      rfl
    · cases ran

section Loop

variable {address : Nat} {below : List Value} {table : Table}

theorem visits_of_addHeaderFrom (texts : ∀ entry ∈ table.entries,
      entry.1.isString = true ∧ entry.2.isString = true)
    {fuel : Nat} {key : Value} {passed : List (Sink × CharPtr)} {world : World EvKeyValQ}
    {final : LuaState EvKeyValQ} (located : world.heap.tables address = table)
    (ran : addHeaderFrom platform takes (below.length + 1) fuel
      ⟨key :: .table address :: below, passed, world⟩ = .ok () final) :
    ∃ pairs, Visits table (Value.converted platform) key pairs ∧
      final.world.host.calls = world.host.calls ++ pairs.map (headerCall platform) := by
  induction fuel generalizing key passed world with
  | zero => cases ran
  | succ fuel ih =>
      cases next : table.next key with
      | none =>
          rw [← located] at next
          obtain ⟨state, raised⟩ := @addHeaderFrom_unknown platform takes address below passed world
            key next fuel
          rw [raised] at ran
          cases ran
      | some found =>
          cases found with
          | none =>
              rw [addHeaderFrom_end (by rw [located, next])] at ran
              cases ran
              exact ⟨[], .finished next, by simp⟩
          | some entry =>
              obtain ⟨keyText, valueText⟩ := texts entry (Table.mem_of_next next)
              rw [← Value.toLuaString_isSome platform] at keyText valueText
              obtain ⟨name, named⟩ := Option.isSome_iff_exists.mp keyText
              obtain ⟨text, valued⟩ := Option.isSome_iff_exists.mp valueText
              rw [addHeaderFrom_step (by rw [located, next]) named valued] at ran
              obtain ⟨pairs, visits, called⟩ :=
                @ih _ _ { world with host := world.host.offered takes name text } located ran
              refine ⟨entry :: pairs, .visited next visits, ?_⟩
              rw [called]
              simp [headerCall, named, valued]

theorem addHeaderFrom_of_visits (texts : ∀ entry ∈ table.entries,
      entry.1.isString = true ∧ entry.2.isString = true)
    {fuel : Nat} {key : Value} {pairs : List (Value × Value)} {passed : List (Sink × CharPtr)}
    {world : World EvKeyValQ} (located : world.heap.tables address = table)
    (visits : Visits table (Value.converted platform) key pairs) (enough : pairs.length < fuel) :
    ∃ handed, addHeaderFrom platform takes (below.length + 1) fuel
        ⟨key :: .table address :: below, passed, world⟩ =
      .ok () ⟨.table address :: below, handed,
        { world with host := world.host.offers platform takes pairs }⟩ := by
  induction visits generalizing fuel passed world with
  | finished next =>
      cases fuel with
      | zero => simp at enough
      | succ fuel => exact ⟨passed, addHeaderFrom_end (by rw [located, next]) fuel⟩
  | @visited key entry rest next more ih =>
      cases fuel with
      | zero => simp at enough
      | succ fuel =>
          obtain ⟨keyText, valueText⟩ := texts entry (Table.mem_of_next next)
          rw [← Value.toLuaString_isSome platform] at keyText valueText
          obtain ⟨name, named⟩ := Option.isSome_iff_exists.mp keyText
          obtain ⟨text, valued⟩ := Option.isSome_iff_exists.mp valueText
          rw [addHeaderFrom_step (by rw [located, next]) named valued]
          obtain ⟨handed, ran⟩ :=
            @ih fuel (passed ++ [(.libevent, some name)] ++ [(.libevent, some text)])
              { world with host := world.host.offered takes name text } located (by simpa using enough)
          rw [ran, EvKeyValQ.offers, stringForm_eq named, stringForm_eq valued]
          exact ⟨handed, rfl⟩

end Loop

section Traversal

variable (platform : Platform) (takes : TakesHeader) (address : Nat) (below : List Value)
  (passed : List (Sink × CharPtr)) (world : World EvKeyValQ)

theorem addHttpRequestHeader_eq (fuel : Nat) :
    addHttpRequestHeader platform takes fuel ⟨.table address :: below, passed, world⟩ =
      (addHeaderFrom platform takes (below.length + 1) fuel
        ⟨.nil :: .table address :: below, passed, world⟩).bind fun _ after =>
          (luaSettop (below.length + 1) after).bind fun _ cut => .ok 1 cut := by
  have isTable : luaIstable ((below.length : Int) + 1) ⟨.table address :: below, passed, world⟩ =
      .ok true ⟨.table address :: below, passed, world⟩ := by
    simp [luaIstable, valueAt, Value.isTable]
  simp [addHttpRequestHeader, isTable, luaPushnil]

theorem luaSettop_table :
    luaSettop ((below.length : Int) + 1) ⟨.table address :: below, passed, world⟩ =
      .ok () ⟨.table address :: below, passed, world⟩ := by
  have cut := luaSettop_length (.table address :: below) passed world []
  simpa only [List.nil_append, List.length_cons, Nat.cast_add, Nat.cast_one] using cut

/-- With enough iterations the function returns, with the stack as it was, and has called
`evhttp_add_header` once for each pair of the table. -/
def AddsEachPairOnce : Prop :=
  ∃ enough, ∀ fuel, enough ≤ fuel → ∃ final made,
    addHttpRequestHeader platform takes fuel ⟨.table address :: below, passed, world⟩ =
        .ok 1 final ∧
      final.stack = .table address :: below ∧
      final.world.host.calls = world.host.calls ++ made ∧
      made.Perm ((world.heap.tables address).entries.map (headerCall platform))

/-- In a table of strings and numbers each pair is added once exactly when no key is a
number, whatever the traversal order. -/
theorem addHttpRequestHeader_once_iff (texts : ∀ entry ∈ (world.heap.tables address).entries,
      entry.1.isString = true ∧ entry.2.isString = true) :
    AddsEachPairOnce platform takes address below passed world ↔
      ∀ number, Value.number number ∉ (world.heap.tables address).keys := by
  constructor
  · intro once number member
    obtain ⟨enough, once⟩ := once
    obtain ⟨final, made, ran, -, called, perm⟩ := once enough le_rfl
    rw [addHttpRequestHeader_eq, Outcome.bind_eq_ok] at ran
    obtain ⟨_, after, looped, cut⟩ := ran
    rw [Outcome.bind_eq_ok] at cut
    obtain ⟨_, middle, dropped, same⟩ := cut
    cases same
    obtain ⟨pairs, visits, visited⟩ := visits_of_addHeaderFrom texts rfl looped
    have unchanged : final.world = after.world := luaSettop_world dropped
    rw [unchanged, visited] at called
    have counted : pairs.length = (world.heap.tables address).entries.length := by
      rw [← List.append_cancel_left called] at perm
      simpa using perm.length_eq
    have kept := visits.kept_of_length (converted_idempotent platform) (converted_ne_nil platform)
      counted (.number number) member
    cases kept
  · intro named
    have kept : ∀ key ∈ (world.heap.tables address).keys, key.converted platform = key := by
      intro key member
      cases key with
      | number number => exact absurd member (named number)
      | _ => rfl
    refine ⟨(world.heap.tables address).entries.length + 1, ?_⟩
    intro fuel enough
    obtain ⟨handed, looped⟩ := @addHeaderFrom_of_visits platform takes address below
      (world.heap.tables address) texts fuel .nil _ passed world rfl (Visits.entries_of_kept kept) enough
    let final : LuaState EvKeyValQ := ⟨.table address :: below, handed, { world with
      host := world.host.offers platform takes (world.heap.tables address).entries }⟩
    have ran : addHttpRequestHeader platform takes fuel ⟨.table address :: below, passed, world⟩ =
        .ok 1 final := by
      rw [addHttpRequestHeader_eq, looped, Outcome.ok_bind, luaSettop_table, Outcome.ok_bind]
    exact ⟨final, _, ran, rfl, EvKeyValQ.offers_calls texts world.host, List.Perm.refl _⟩

end Traversal

private def headerPairs : World EvKeyValQ where
  heap := .ofTables [.ofFields [("a", .string (lit "1")), ("b", .string (lit "2"))]]
  calls := []
  clock := 0
  host := ⟨[], [], []⟩

theorem addHttpRequestHeader_once_pairs :
    AddsEachPairOnce default (fun _ _ _ => true) 0 [.nil] [] headerPairs := by
  have keys : (headerPairs.heap.tables 0).keys = [.string (lit "a"), .string (lit "b")] := by decide
  apply (addHttpRequestHeader_once_iff default (fun _ _ _ => true) 0 [.nil] [] headerPairs
    (by decide)).mpr
  intro number member
  simp [keys] at member

/-- A platform that writes every number as `1`. -/
private def writesOne : Platform :=
  { (default : Platform) with
    number2str := fun _ => lit "1"
    number2str_fits := fun _ => by decide }

private def numberedPair : World EvKeyValQ where
  heap := .ofTables [⟨[(.position 1, .string (lit "a"))], by decide, by decide, by decide⟩]
  calls := []
  clock := 0
  host := ⟨[], [], []⟩

/-- The key 1 has become the string `1`, which is no key. -/
theorem addHttpRequestHeader_once_counterexample :
    ¬ AddsEachPairOnce writesOne (fun _ _ _ => true) 0 [] [] numberedPair := by
  intro once
  obtain ⟨enough, once⟩ := once
  obtain ⟨final, made, ran, -⟩ := once (enough + 2) (by omega)
  have first : (numberedPair.heap.tables 0).next .nil =
      some (some (.position 1, .string (lit "a"))) := by decide
  have unknown : (numberedPair.heap.tables 0).next (.string (lit "1")) = none := by decide
  have step := @addHeaderFrom_step writesOne (fun _ _ _ => true) 0 [] [] numberedPair .nil
    (.position 1, .string (lit "a")) (lit "1") (lit "a") first rfl rfl (enough + 1)
  obtain ⟨state, raised⟩ := @addHeaderFrom_unknown writesOne (fun _ _ _ => true) 0 []
    ([] ++ [(.libevent, some (lit "1"))] ++ [(.libevent, some (lit "a"))])
    { numberedPair with host := numberedPair.host.offered (fun _ _ _ => true) (lit "1") (lit "a") }
    (.string (lit "1")) unknown enough
  rw [addHttpRequestHeader_eq, step] at ran
  simp only [Value.position, Value.converted, writesOne] at raised ran
  rw [raised] at ran
  cases ran

end GameServer
