import GameServer.Lua.Api

namespace GameServer.Lua

open LuaM

/-! `ll_require` of `loadlib.c`. -/

variable {H : Type}

/-- What the error functions of `lauxlib.c` say about a call: where it was made, and the
name the function was called by, perhaps as a method. -/
structure CallSite where
  position : Bytes
  name : Bytes
  method : Bool

/-- The address of `sentinel_`, the mark of a module that is being loaded. -/
def sentinel : Value :=
  .lightuserdata 1

def getHeap : LuaM H Heap := fun state => .ok state.world.heap state

section Api

variable (rt : Runtime H)

def luaLError (site : CallSite) (message : Bytes) : LuaM H α :=
  throw (.string (site.position ++ message))

def luaLCheckstring (site : CallSite) : LuaM H Bytes := do
  match ← luaTolstring rt.toPlatform 1 with
  | some bytes => return cstr bytes
  | none =>
      let got := ((← valueAt 1).map Value.typename).getD "no value"
      let bad := if site.method then lit "calling '" ++ site.name ++ lit "' on bad self"
        else lit "bad argument #1 to '" ++ site.name ++ lit "'"
      luaLError site (bad ++ lit " (string expected, got " ++ lit got ++ lit ")")

/-- `lua_getfield` of a value that is not on the stack. -/
def getfieldOf (object : Value) (name : Bytes) : LuaM H Unit := fun state =>
  pushResult (luaVGettable rt object (.string name) state.world) state

def getfieldAt (idx : Int) (name : Bytes) : LuaM H Unit := do
  getfieldOf rt ((← valueAt idx).getD .nil) name

def luaRawgeti (idx : Int) (n : Nat) : LuaM H Unit := do
  let table ← getTable (← tableAt idx)
  push (table.get (.number (.finite n)))

/-- `lua_touserdata(L, idx) == sentinel`. -/
def isSentinel (idx : Int) : LuaM H Bool := do
  return (← valueAt idx) = some sentinel

end Api

section Require

variable (rt : Runtime H) (site : CallSite)

/-- The loop of `ll_require`, from loader `i` on: it ends with the function of the module
on top. -/
def findLoader (name : Bytes) : Nat → Nat → LuaM H Unit
  | 0, _ => crash .outOfFuel
  | fuel + 1, i => do
      luaRawgeti (-2) i
      if ← luaIsnil (-1) then
        let tried := (← luaTostring rt.toPlatform (-2)).getD []
        luaLError site (lit "module '" ++ name ++ lit "' not found:" ++ cstr tried)
      else
        luaPushstring (some name)
        luaCall rt 1 (some 1)
        if ← luaIsfunction (-1) then return
        else if ← luaIsstring (-1) then
          luaConcat rt.toPlatform 2
          findLoader name fuel (i + 1)
        else
          luaPop 1
          findLoader name fuel (i + 1)

/-- Pushes the entry of the module, true in place of the mark of one being loaded. -/
def pushEntry (name : Bytes) : LuaM H Unit := do
  getfieldAt rt 2 name
  if ← isSentinel (-1) then
    luaPushboolean true
    luaPushvalue (-1)
    luaSetfield rt 2 name

/-- The end of `ll_require`, with the value the module returned on top. -/
def publish (name : Bytes) : LuaM H Unit := do
  if !(← luaIsnil (-1)) then luaSetfield rt 2 name
  pushEntry rt name

/-- `ll_require` of a module that has no entry yet, which is put on top of index 2. -/
def loadModule (environment : Nat) (fuel : Nat) (name : Bytes) : LuaM H Nat := do
  getfieldOf rt (.table environment) (lit "loaders")
  if !(← luaIstable (-1)) then luaLError site (lit "'package.loaders' must be a table")
  else
    luaPushlstring []
    findLoader rt site name fuel 1
    push sentinel
    luaSetfield rt 2 name
    luaPushstring (some name)
    luaCall rt 1 (some 1)
    publish rt name
    return 1

/-- `ll_require`; its environment is the `package` table. -/
def llRequire (environment : Nat) (fuel : Nat) : LuaM H Nat := do
  let name ← luaLCheckstring rt site
  luaSettop 1
  getfieldOf rt (.table (← getHeap).registry) (lit "_LOADED")
  getfieldAt rt 2 name
  if ← luaToboolean (-1) then
    if ← isSentinel (-1) then
      luaLError site (lit "loop or previous error loading module '" ++ name ++ lit "'")
    else return 1
  else loadModule rt site environment fuel name

end Require

/-! ## What it returns -/

/-- Reading an absent field of this table runs nothing: it has no metatable. -/
def Runtime.Unindexed (rt : Runtime H) (address : Nat) : Prop :=
  ∀ key world, rt.index (.table address) key world = .returns [] world

theorem luaVGettable_unindexed {rt : Runtime H} {address : Nat} (unindexed : rt.Unindexed address)
    (key : Value) (world : World H) :
    ∃ results time, luaVGettable rt (.table address) key world =
        .returns results { world with clock := time } ∧
      results.headD .nil = (world.heap.tables address).get key := by
  unfold luaVGettable
  dsimp only
  split
  · rename_i absent
    rw [unindexed]
    exact ⟨[], world.clock + 1, rfl, (Value.isNil_iff.mp absent).symm⟩
  · exact ⟨[_], world.clock, rfl, rfl⟩

/-- The table has no metatable: storing an absent field of it is a raw store, too. -/
structure Runtime.Bare (rt : Runtime H) (address : Nat) : Prop where
  unindexed : rt.Unindexed address
  stored : ∀ name value world, rt.newindex (.table address) (.string name) value world =
    .returns [] { world with heap := world.heap.storeField address name value }

theorem luaVSettable_bare {rt : Runtime H} {address : Nat} (bare : rt.Bare address) (name : Bytes)
    (value : Value) (world : World H) :
    ∃ time, luaVSettable rt (.table address) (.string name) value world =
      .returns [] { world with clock := time, heap := world.heap.storeField address name value } := by
  rw [luaVSettable_string]
  split
  · exact ⟨world.clock + 1, bare.stored _ _ _⟩
  · exact ⟨world.clock, rfl⟩

section Returns

variable {rt : Runtime H} {loaded : Nat} {first : Value} {above : List Value}
  {passed : List (Sink × CharPtr)} {world : World H}

theorem valueAt_two : valueAt 2 ⟨above ++ [.table loaded, first], passed, world⟩ =
    .ok (some (.table loaded)) ⟨above ++ [.table loaded, first], passed, world⟩ := by
  have address : index2adr (above ++ [.table loaded, first]) 2 = .slot above.length :=
    index2adr_above above (.table loaded) [first]
  simp [valueAt, address]

theorem getfieldAt_two (unindexed : rt.Unindexed loaded) (name : Bytes) :
    ∃ time, getfieldAt rt 2 name ⟨above ++ [.table loaded, first], passed, world⟩ =
      .ok () ⟨(world.heap.tables loaded).get (.string name) :: (above ++ [.table loaded, first]), passed,
        { world with clock := time }⟩ := by
  obtain ⟨results, time, read, field⟩ := luaVGettable_unindexed unindexed (.string name) world
  refine ⟨time, ?_⟩
  rw [getfieldAt, bind_apply, valueAt_two, Outcome.ok_bind, ← field]
  simp only [getfieldOf, Option.getD_some, read, pushResult_returns]

theorem luaSetfield_two (bare : rt.Bare loaded) (name : Bytes) (value : Value) :
    ∃ time, luaSetfield rt 2 name ⟨value :: (above ++ [.table loaded, first]), passed, world⟩ =
      .ok () ⟨above ++ [.table loaded, first], passed,
        { world with clock := time, heap := world.heap.storeField loaded name value }⟩ := by
  obtain ⟨time, stored⟩ := luaVSettable_bare bare name value world
  have found := @valueAt_two H loaded first (value :: above) passed world
  simp only [List.cons_append] at found
  refine ⟨time, ?_⟩
  simp only [luaSetfield, bind_apply, found, Outcome.ok_bind, getStack_apply, Option.getD_some, stored,
    finishStore_returns]

theorem isSentinel_top (value : Value) (below : List Value) :
    isSentinel (-1) ⟨value :: below, passed, world⟩ =
      .ok (decide (value = sentinel)) ⟨value :: below, passed, world⟩ := by
  simp [isSentinel, valueAt]

theorem pushEntry_top (bare : rt.Bare loaded) {name : Bytes} {final : LuaState H}
    (ran : pushEntry rt name ⟨above ++ [.table loaded, first], passed, world⟩ = .ok () final) :
    final.stack.head? = some ((final.world.heap.tables loaded).get (.string name)) := by
  obtain ⟨time, got⟩ := @getfieldAt_two H rt loaded first above passed world bare.unindexed name
  simp only [pushEntry, bind_apply, got, Outcome.ok_bind, isSentinel_top] at ran
  by_cases marked : (world.heap.tables loaded).get (.string name) = sentinel
  · obtain ⟨later, set⟩ := @luaSetfield_two H rt loaded first
      (.boolean true :: (world.heap.tables loaded).get (.string name) :: above) passed
      { world with clock := time } bare name (.boolean true)
    simp only [List.cons_append] at set
    simp only [decide_eq_true marked, if_true, bind_apply, luaPushboolean_apply, Outcome.ok_bind,
      luaPushvalue_top, set] at ran
    cases ran
    have written := Table.get_set_self (world.heap.tables loaded) (.string name)
      (validKey_string name) (show Value.boolean true ≠ .nil by decide)
    simp only [List.head?_cons, Heap.storeField, Heap.store_tables_self, written]
  · simp only [decide_eq_false marked, Bool.false_eq_true, if_false] at ran
    cases ran
    rfl

theorem publish_top (bare : rt.Bare loaded) {name : Bytes} {value : Value} {final : LuaState H}
    (ran : publish rt name ⟨value :: (above ++ [.table loaded, first]), passed, world⟩ = .ok () final) :
    final.stack.head? = some ((final.world.heap.tables loaded).get (.string name)) := by
  simp only [publish, bind_apply, luaIsnil_top, Outcome.ok_bind] at ran
  cases nil : value.isNil with
  | true =>
      rw [nil] at ran
      exact @pushEntry_top H rt loaded first (value :: above) passed world bare name final ran
  | false =>
      obtain ⟨time, set⟩ := @luaSetfield_two H rt loaded first above passed world bare name value
      rw [nil] at ran
      simp only [Bool.not_false, if_true, bind_apply, set, Outcome.ok_bind] at ran
      exact pushEntry_top bare ran

end Returns

section Loaders

variable {rt : Runtime H} {site : CallSite} {below : List Value} {passed : List (Sink × CharPtr)}
  {world : World H}

theorem luaRawgeti_below_top (a : Value) (table n : Nat) :
    luaRawgeti (-2) n ⟨a :: .table table :: below, passed, world⟩ =
      .ok () ⟨(world.heap.tables table).get (.number (.finite n)) :: a :: .table table :: below, passed,
        world⟩ := by
  simp [luaRawgeti, tableAt, valueAt]

theorem luaCall_one {argument function : Value} {after : LuaState H}
    (ran : luaCall rt 1 (some 1) ⟨argument :: function :: below, passed, world⟩ = .ok () after) :
    ∃ result, after.stack = result :: below ∧ after.passed = passed := by
  simp only [luaCall, bind_apply, getStack_apply, Outcome.ok_bind, List.drop_one, List.tail_cons] at ran
  split at ran
  · cases ran
    rw [adjustResults_one]
    exact ⟨_, rfl, rfl⟩
  · cases ran
  · cases ran

theorem luaConcat_two {platform : Platform} {a b : Value} {after : LuaState H}
    (ran : luaConcat platform 2 ⟨a :: b :: below, passed, world⟩ = .ok () after) :
    ∃ text, after = ⟨.string text :: below, passed, world⟩ := by
  have enough : ¬ (a :: b :: below).length < 2 := by simp
  simp only [luaConcat, OfNat.ofNat_ne_zero, OfNat.ofNat_ne_one, if_false, bind_apply, getStack_apply,
    Outcome.ok_bind, enough] at ran
  cases odd : ((a :: b :: below).take 2).find? fun value => !value.isString with
  | some value =>
      simp only [odd] at ran
      cases ran
  | none =>
      simp only [odd] at ran
      cases ran
      exact ⟨_, rfl⟩

/-- The search leaves one value more than it found, above the loaders. -/
theorem findLoader_stack {name : Bytes} {fuel i : Nat} {message : Value} {loaders : Nat}
    {final : LuaState H}
    (ran : findLoader rt site name fuel i ⟨message :: .table loaders :: below, passed, world⟩ =
      .ok () final) :
    ∃ function text, final.stack = function :: text :: .table loaders :: below := by
  induction fuel generalizing i message passed world with
  | zero => cases ran
  | succ fuel ih =>
      simp only [findLoader, bind_apply, luaRawgeti_below_top, Outcome.ok_bind, luaIsnil_top,
        cond_apply] at ran
      split at ran
      · obtain ⟨tried, middle, -, raised⟩ := Outcome.bind_eq_ok.mp ran
        cases raised
      obtain ⟨_, pushed, push, rest⟩ := Outcome.bind_eq_ok.mp ran
      cases push
      obtain ⟨_, called, call, rest⟩ := Outcome.bind_eq_ok.mp rest
      obtain ⟨result, stack, -⟩ := luaCall_one call
      obtain ⟨calledStack, handed, later⟩ := called
      dsimp only at stack
      subst stack
      simp only [luaIsfunction_top, Outcome.ok_bind] at rest
      split at rest
      · cases rest
        exact ⟨_, _, rfl⟩
      simp only [luaIsstring, valueAt, bind_apply, getStack_apply, Outcome.ok_bind, index2adr_top,
        pure_apply] at rest
      split at rest
      · obtain ⟨_, joined, concat, rest⟩ := Outcome.bind_eq_ok.mp rest
        obtain ⟨text, rfl⟩ := luaConcat_two concat
        exact ih rest
      · rw [luaPop_one, Outcome.ok_bind] at rest
        exact ih rest

end Loaders

section Returned

variable {rt : Runtime H} {site : CallSite} {loaded environment fuel : Nat} {above : List Value}
  {first : Value} {name : Bytes} {passed : List (Sink × CharPtr)} {world : World H}

theorem loadModule_top (bare : rt.Bare loaded) {final : LuaState H} {count : Nat}
    (ran : loadModule rt site environment fuel name ⟨above ++ [.table loaded, first], passed, world⟩ =
      .ok count final) :
    count = 1 ∧ final.stack.head? = some ((final.world.heap.tables loaded).get (.string name)) := by
  rw [loadModule, bind_apply, Outcome.bind_eq_ok] at ran
  obtain ⟨_, ⟨stack, handed, middle⟩, got, rest⟩ := ran
  obtain ⟨loaders, rfl⟩ : ∃ loaders, stack = loaders :: (above ++ [.table loaded, first]) := by
    unfold getfieldOf at got
    cases read : luaVGettable rt (.table environment) (.string (lit "loaders")) world with
    | returns results after =>
        rw [read] at got
        cases got
        exact ⟨_, rfl⟩
    | raises error after =>
        rw [read] at got
        cases got
    | faults reason after =>
        rw [read] at got
        cases got
  simp only [bind_apply, luaIstable_top, Outcome.ok_bind] at rest
  cases loaders with
  | table address =>
      simp only [Value.isTable, Bool.not_true, Bool.false_eq_true, if_false, bind_apply,
        luaPushlstring_apply, Outcome.ok_bind, Outcome.bind_eq_ok] at rest
      obtain ⟨_, ⟨foundStack, foundHanded, foundWorld⟩, found, _, marked, mark, rest⟩ := rest
      obtain ⟨function, text, stack⟩ := findLoader_stack found
      dsimp only at stack
      subst stack
      cases mark
      obtain ⟨time, set⟩ := @luaSetfield_two H rt loaded first
        (function :: text :: .table address :: above) foundHanded foundWorld bare name sentinel
      simp only [List.cons_append] at set
      obtain ⟨_, entered, enter, _, pushed, push, _, called, call, _, ended, publishes, returns⟩ := rest
      rw [set] at enter
      cases enter
      cases push
      obtain ⟨result, stack, -⟩ := luaCall_one call
      obtain ⟨calledStack, calledHanded, calledWorld⟩ := called
      dsimp only at stack
      subst stack
      cases returns
      exact ⟨rfl, @publish_top H rt loaded first (text :: .table address :: above) calledHanded
        calledWorld bare name result _ publishes⟩
  | _ => simp [Value.isTable, luaLError] at rest

theorem llRequire_top (bare : rt.Bare loaded) {module : Bytes}
    (registered : (world.heap.tables world.heap.registry).get (.string (lit "_LOADED")) = .table loaded)
    {final : LuaState H} {count : Nat}
    (ran : llRequire rt site environment fuel ⟨[.string module], [], world⟩ = .ok count final) :
    count = 1 ∧ final.stack.head? = some ((final.world.heap.tables loaded).get (.string (cstr module))) := by
  have checked : luaLCheckstring rt site ⟨[.string module], [], world⟩ =
      .ok (cstr module) ⟨[.string module], [], world⟩ := by
    simp [luaLCheckstring, luaTolstring, index2adr]
  have settled : luaSettop 1 ⟨[.string module], [], world⟩ = .ok () ⟨[.string module], [], world⟩ := by
    simp [luaSettop]
  have registry : getfieldOf rt (.table world.heap.registry) (lit "_LOADED") ⟨[.string module], [], world⟩ =
      .ok () ⟨[.table loaded, .string module], [], world⟩ := by
    simp [getfieldOf, luaVGettable, registered, Value.isNil]
  obtain ⟨time, entry⟩ := @getfieldAt_two H rt loaded (.string module) [] [] world bare.unindexed
    (cstr module)
  simp only [List.nil_append] at entry
  simp only [llRequire, bind_apply, checked, Outcome.ok_bind, settled, getHeap, registry, entry,
    luaToboolean_top, cond_apply] at ran
  split at ran
  · rw [isSentinel_top, Outcome.ok_bind] at ran
    split at ran
    · cases ran
    · cases ran
      exact ⟨rfl, rfl⟩
  · exact @loadModule_top H rt site loaded environment fuel
      [(world.heap.tables loaded).get (.string (cstr module))] (.string module) (cstr module) []
      { world with clock := time } bare final count ran

theorem require_returns (bare : rt.Bare loaded) {function : Value} {module : Bytes}
    (registered : (world.heap.tables world.heap.registry).get (.string (lit "_LOADED")) = .table loaded)
    {results : List Value} {after : World H}
    (returned : callNative function (llRequire rt site environment fuel) [.string module] world =
      .returns results after) :
    results.headD .nil = (after.heap.tables loaded).get (.string (cstr module)) := by
  simp only [callNative, List.reverse_singleton] at returned
  cases ran : llRequire rt site environment fuel ⟨[.string module], [], world⟩ with
  | ok count final =>
      obtain ⟨one, top⟩ := llRequire_top bare registered ran
      subst one
      obtain ⟨stack, handed, last⟩ := final
      cases stack with
      | nil => cases top
      | cons value below =>
          rw [ran] at returned
          cases returned
          exact Option.some.inj top
  | raise error final =>
      rw [ran] at returned
      cases returned
  | fault reason final =>
      rw [ran] at returned
      cases returned

end Returned

end GameServer.Lua
