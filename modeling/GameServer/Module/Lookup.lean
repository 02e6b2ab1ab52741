import GameServer.Lua.Frame
import GameServer.Module.LuaUtil

namespace GameServer

open Lua LuaM

/-! The contract of `load_lua_library` and `find_lua_function`.  The relations say
what a module is and which function of it a name means, without a stack. -/

variable (rt : Runtime Server)

/-- Looking up a global gives a value: no metatable of `_G` raises an error. -/
def GlobalsReadable : Prop :=
  ∀ key world, ∃ results after,
    rt.index (.table world.heap.globals) key world = .returns results after

/-- The value of a global variable, with the world its lookup leaves. -/
def Global (name : Bytes) (world : World Server) (value : Value) (after : World Server) : Prop :=
  ∃ results, luaVGettable rt (.table world.heap.globals) (.string name) world =
    .returns results after ∧ value = results.headD .nil

/-- `package.loaded` names this table. -/
def LoadedTable (heap : Heap) (loaded : Nat) : Prop :=
  ∃ package, (heap.tables heap.globals).get (.string (lit "package")) = .table package ∧
    (heap.tables package).get (.string (lit "loaded")) = .table loaded

/-- The table `find_lua_function` takes `package.loaded` from, made where it is missing. -/
def packageLoaded (world : World Server) : Option (Nat × World Server) :=
  searchTable rt (dotted "package.loaded") world.heap.globals world

/-- `require(module)` returns this value. -/
def Required (module : Bytes) (world : World Server) (value : Value) (after : World Server) : Prop :=
  ∃ require looked results, Global rt (lit "require") world require looked ∧
    luaDCall rt require [.string module] looked = .returns results after ∧
    value = results.headD .nil

/-- What a module is loaded as: its entry, or what `require` makes of its absence. -/
inductive LoadedAs (loaded : Nat) (module : Bytes) (world : World Server) :
    Value → World Server → Prop where
  | already {value : Value} (entry : (world.heap.tables loaded).get (.string module) = value)
      (present : value ≠ .nil) : LoadedAs loaded module world value world
  | required {value : Value} {after : World Server}
      (absent : (world.heap.tables loaded).get (.string module) = .nil)
      (returned : Required rt module world value after) : LoadedAs loaded module world value after

/-- The function a name means in a module loaded as `value`: the raw field of a table,
or the global of that name when the module left only `true`. -/
inductive Selected (func : Bytes) (world : World Server) :
    Value → Value → World Server → Prop where
  | field {address : Nat} {function : Value}
      (raw : (world.heap.tables address).get (.string func) = function)
      (callable : function.isFunction = true) : Selected func world (.table address) function world
  | global {function : Value} {after : World Server}
      (named : Global rt func world function after)
      (callable : function.isFunction = true) : Selected func world (.boolean true) function after

/-- The function `func` of `module`. -/
def ModuleFunction (loaded : Nat) (module func : Bytes) (world : World Server)
    (function : Value) (after : World Server) : Prop :=
  ∃ value middle, LoadedAs rt loaded module world value middle ∧
    Selected rt func middle value function after

variable {rt}

theorem ModuleFunction.isFunction {loaded : Nat} {module func : Bytes} {world after : World Server}
    {function : Value} (found : ModuleFunction rt loaded module func world function after) :
    function.isFunction = true := by
  obtain ⟨value, middle, -, selected⟩ := found
  cases selected with
  | field raw callable => exact callable
  | global named callable => exact callable

variable {base : List Value} {passed : List (Sink × CharPtr)} {world : World Server}

theorem Global.deterministic {name : Bytes} {value other : Value} {after later : World Server}
    (one : Global rt name world value after) (two : Global rt name world other later) :
    value = other ∧ after = later := by
  obtain ⟨results, looked, rfl⟩ := one
  obtain ⟨others, lookedToo, rfl⟩ := two
  rw [looked] at lookedToo
  cases lookedToo
  exact ⟨rfl, rfl⟩

/-- A global that is a field of `_G` is read without a metamethod. -/
theorem Global.raw {name : Bytes} {value : Value}
    (field : (world.heap.tables world.heap.globals).get (.string name) = value)
    (present : value ≠ .nil) : Global rt name world value world := by
  have notNil : value.isNil = false := Bool.eq_false_iff.mpr fun nil => present (Value.isNil_iff.mp nil)
  exact ⟨[value], by simp [luaVGettable, field, notNil], rfl⟩

theorem GlobalsReadable.global (readable : GlobalsReadable rt) (name : Bytes)
    (world : World Server) : ∃ value after, Global rt name world value after := by
  unfold Global luaVGettable
  dsimp only
  split
  · obtain ⟨results, after, looked⟩ := readable (.string name) { world with clock := world.clock + 1 }
    exact ⟨_, after, results, looked, rfl⟩
  · exact ⟨_, world, _, rfl, rfl⟩

theorem luaGetglobal_apply {name : Bytes} {value : Value} {after : World Server}
    (named : Global rt (cstr name) world value after) :
    luaGetglobal rt (some name) ⟨base, passed, world⟩ = .ok () ⟨value :: base, passed, after⟩ := by
  obtain ⟨results, looked, rfl⟩ := named
  simp [luaGetglobal, looked]

/-! ## `load_lua_library` -/

theorem luaGetglobal_lit {name : String} {value : Value} {after : World Server}
    (plain : cstr (lit name) = lit name) (named : Global rt (lit name) world value after) :
    luaGetglobal rt (some (lit name)) ⟨base, passed, world⟩ =
      .ok () ⟨value :: base, passed, after⟩ := by
  rw [← plain] at named
  exact luaGetglobal_apply named

/-- Up to the protected call, with the traceback function below `require`. -/
theorem loadLuaLibrary_eq {module : Bytes} {require : Value} {looked : World Server}
    (named : Global rt (lit "require") world require looked) :
    loadLuaLibrary rt (some module) ⟨base, passed, world⟩ =
      match luaDPcall rt (some (.function tracebackFunction)) require [.string (cstr module)] looked with
      | .returns results after => .ok true ⟨results.headD .nil :: base, passed, after⟩
      | .raises _ after => .ok false ⟨base, passed, after⟩
      | .faults reason after => .fault reason
          ⟨.string (cstr module) :: require :: .function tracebackFunction :: base, passed, after⟩ := by
  have got : luaGetglobal rt (some (lit "require"))
      ⟨.function tracebackFunction :: base, passed, world⟩ = _ := luaGetglobal_lit (by decide) named
  have called := luaPcall_handled rt (some 1) [.string (cstr module)] require
    (.function tracebackFunction) [] base passed looked
  simp only [List.length_singleton, List.reverse_singleton, List.singleton_append,
    List.nil_append] at called
  simp only [loadLuaLibrary, luaPushcfunction, luaPushstring, luaPushlstring, bind_apply,
    luaGettop_apply, Outcome.ok_bind, push_apply, got, called]
  cases luaDPcall rt (some (.function tracebackFunction)) require [.string (cstr module)] looked with
  | returns results after =>
      simp [adjustResults_one, luaRemove]
  | raises error after =>
      have cut := luaSettop_length base passed after [error, .function tracebackFunction]
      simp only [List.cons_append, List.nil_append] at cut
      simp [cut, errRun]
  | faults reason after => rfl

theorem loadLuaLibrary_contract (survives : rt.Survives) (readable : GlobalsReadable rt)
    (module : Bytes) (base : List Value) (passed : List (Sink × CharPtr)) (world : World Server) :
    (∃ value after, loadLuaLibrary rt (some module) ⟨base, passed, world⟩ =
        .ok true ⟨value :: base, passed, after⟩ ∧
      Required rt (cstr module) world value after) ∨
    (∃ after, loadLuaLibrary rt (some module) ⟨base, passed, world⟩ =
        .ok false ⟨base, passed, after⟩ ∧
      ∀ value later, ¬ Required rt (cstr module) world value later) := by
  obtain ⟨require, looked, named⟩ := readable.global (lit "require") world
  rw [loadLuaLibrary_eq named]
  cases called : luaDCall rt require [.string (cstr module)] looked with
  | returns results after =>
      rw [luaDPcall_returns rt called]
      exact .inl ⟨_, after, rfl, require, looked, results, named, called, rfl⟩
  | raises error after =>
      obtain ⟨replaced, final, protectedCall⟩ :=
        luaDPcall_raises rt (survives (.function tracebackFunction)) called
      rw [protectedCall]
      refine .inr ⟨final, rfl, ?_⟩
      intro value later loadedAs
      obtain ⟨other, lookedToo, results, namedToo, returned, -⟩ := loadedAs
      obtain ⟨rfl, rfl⟩ := named.deterministic namedToo
      simp [called] at returned
  | faults reason after => exact absurd called (survives _ _ _ _ _)

/-! ## `find_lua_function` -/

theorem LoadedTable.packageLoaded {loaded : Nat} (resolved : LoadedTable world.heap loaded) :
    packageLoaded rt world = some (loaded, world) := by
  obtain ⟨package, packageField, loadedField⟩ := resolved
  have parts : dotted "package.loaded" = [lit "package", lit "loaded"] := by decide
  simp only [GameServer.packageLoaded, parts, searchTable, packageField, loadedField]

theorem luaSettop_base (above : List Value) (name : Value) :
    luaSettop (base.length : Int) ⟨above ++ name :: base, passed, world⟩ =
      .ok () ⟨base, passed, world⟩ := by
  have cut := luaSettop_length base passed world (above ++ [name])
  simpa only [List.append_assoc, List.singleton_append] using cut

/-- `module_index` is the slot right above the caller's stack: a function on top ends up
there, over whatever was between. -/
theorem keepFunction_eq (function : Value) (above : List Value) (name : Value) :
    keepFunction (base.length : Int) (base.length + 1)
        ⟨function :: (above ++ name :: base), passed, world⟩ =
      if function.isFunction then .ok true ⟨function :: base, passed, world⟩
      else .ok false ⟨base, passed, world⟩ := by
  by_cases callable : function.isFunction = true
  · have address := index2adr_above (function :: above) name base
    have cut := luaSettop_length (function :: base) passed world above
    simp only [List.cons_append, List.length_cons, Nat.cast_add, Nat.cast_one] at address cut
    simp [keepFunction, callable, luaReplace, address, cut]
  · have cut : luaSettop (base.length : Int) ⟨function :: (above ++ name :: base), passed, world⟩ = _ :=
      luaSettop_base (function :: above) name
    simp [keepFunction, callable, cut]

theorem selectFunction_table (rt : Runtime Server) (func : Bytes) (address : Nat)
    (above : List Value) (name : Value) :
    selectFunction rt base.length (base.length + 1) (some func)
        ⟨.table address :: (above ++ name :: base), passed, world⟩ =
      keepFunction (base.length : Int) (base.length + 1)
        ⟨(world.heap.tables address).get (.string (cstr func)) ::
          (.table address :: above ++ name :: base), passed, world⟩ := by
  simp [selectFunction, Value.isTable, luaPushstring]

theorem selectFunction_true (rt : Runtime Server) (func : Bytes) (above : List Value) (moduleIndex : Int) :
    selectFunction rt base.length moduleIndex (some func) ⟨.boolean true :: above, passed, world⟩ =
      (luaGetglobal rt (some func) ⟨above, passed, world⟩).bind fun _ state =>
        keepFunction base.length moduleIndex state := by
  simp [selectFunction, Value.isTable, Value.isBoolean, Value.truthy]

theorem selectFunction_other (rt : Runtime Server) (func : CharPtr) (moduleIndex : Int) {value : Value}
    (notTable : value.isTable = false) (notTrue : value ≠ .boolean true) (above : List Value)
    (name : Value) :
    selectFunction rt base.length moduleIndex func ⟨value :: (above ++ name :: base), passed, world⟩ =
      .ok false ⟨base, passed, world⟩ := by
  have cut : luaSettop (base.length : Int) ⟨value :: (above ++ name :: base), passed, world⟩ = _ :=
    luaSettop_base (value :: above) name
  cases value with
  | table address => cases notTable
  | boolean value =>
      cases value with
      | true => exact absurd rfl notTrue
      | false =>
          simp [selectFunction, Value.isTable, Value.isBoolean, Value.truthy, luaSettop_base]
  | _ => simp [selectFunction, Value.isTable, Value.isBoolean, cut]

theorem selectFunction_contract (readable : GlobalsReadable rt) (func : Bytes) (value : Value)
    (above : List Value) (name : Value) (base : List Value) (passed : List (Sink × CharPtr))
    (world : World Server) :
    (∃ function after, selectFunction rt base.length (base.length + 1) (some func)
        ⟨value :: (above ++ name :: base), passed, world⟩ =
        .ok true ⟨function :: base, passed, after⟩ ∧
      Selected rt (cstr func) world value function after) ∨
    (∃ after, selectFunction rt base.length (base.length + 1) (some func)
        ⟨value :: (above ++ name :: base), passed, world⟩ = .ok false ⟨base, passed, after⟩ ∧
      ∀ function later, ¬ Selected rt (cstr func) world value function later) := by
  by_cases isTable : ∃ address, value = .table address
  · obtain ⟨address, rfl⟩ := isTable
    rw [selectFunction_table, keepFunction_eq]
    split
    · rename_i callable
      exact .inl ⟨_, world, rfl, .field rfl callable⟩
    · rename_i callable
      refine .inr ⟨world, rfl, ?_⟩
      intro function later chosen
      rcases chosen with ⟨rfl, called⟩ | _
      exact callable called
  by_cases isTrue : value = .boolean true
  · subst isTrue
    obtain ⟨function, after, named⟩ := readable.global (cstr func) world
    rw [selectFunction_true, luaGetglobal_apply named, Outcome.ok_bind, keepFunction_eq]
    split
    · rename_i callable
      exact .inl ⟨_, after, rfl, .global named callable⟩
    · rename_i callable
      refine .inr ⟨after, rfl, ?_⟩
      intro other later chosen
      rcases chosen with _ | ⟨namedToo, called⟩
      rw [(named.deterministic namedToo).1] at callable
      exact callable called
  · refine .inr ⟨world, selectFunction_other rt _ _ ?_ isTrue above name, ?_⟩
    · cases value <;> simp_all [Value.isTable]
    · intro function later selected
      cases selected with
      | field => exact isTable ⟨_, rfl⟩
      | global => exact isTrue rfl

theorem LoadedAs.deterministic {loaded : Nat} {module : Bytes} {value other : Value}
    {after later : World Server} (one : LoadedAs rt loaded module world value after)
    (two : LoadedAs rt loaded module world other later) : value = other ∧ after = later := by
  cases one with
  | already entry present =>
      cases two with
      | already entryToo => exact ⟨entry.symm.trans entryToo, rfl⟩
      | required absent => exact absurd (entry.symm.trans absent) present
  | required absent returned =>
      cases two with
      | already entry present => exact absurd (entry.symm.trans absent) present
      | required _ returnedToo =>
          obtain ⟨require, looked, results, named, called, rfl⟩ := returned
          obtain ⟨requireToo, lookedToo, others, namedToo, calledToo, rfl⟩ := returnedToo
          obtain ⟨rfl, rfl⟩ := named.deterministic namedToo
          rw [called] at calledToo
          cases calledToo
          exact ⟨rfl, rfl⟩

theorem Selected.deterministic {func : Bytes} {value function other : Value}
    {after later : World Server} (one : Selected rt func world value function after)
    (two : Selected rt func world value other later) : function = other ∧ after = later := by
  cases one with
  | field raw =>
      cases two with
      | field rawToo => exact ⟨raw.symm.trans rawToo, rfl⟩
  | global named =>
      cases two with
      | global namedToo => exact named.deterministic namedToo

theorem ModuleFunction.deterministic {loaded : Nat} {module func : Bytes} {function other : Value}
    {after later : World Server} (one : ModuleFunction rt loaded module func world function after)
    (two : ModuleFunction rt loaded module func world other later) :
    function = other ∧ after = later := by
  obtain ⟨value, middle, loadedAs, selected⟩ := one
  obtain ⟨valueToo, middleToo, loadedToo, selectedToo⟩ := two
  obtain ⟨rfl, rfl⟩ := loadedAs.deterministic loadedToo
  exact selected.deterministic selectedToo

/-- `find_lua_function` of two names that are not empty, up to the table of the modules. -/
theorem findLuaFunction_named_eq {module func : Bytes} (moduleNamed : cstr module ≠ [])
    (funcNamed : cstr func ≠ []) :
    findLuaFunction rt (some module) (some func) ⟨base, passed, world⟩ =
      (findtableFrom rt (dotted "package.loaded")
        ⟨.table world.heap.globals :: .string (cstr module) :: base,
          passed ++ [(.strlen, some module)] ++ [(.strlen, some func)], world⟩).bind fun _ state =>
      (luaPushvalue (base.length + 1) state).bind fun _ state =>
      (luaRawget (-2) state).bind fun _ state =>
      (luaIsnil (-1) state).bind fun isNil state =>
        (if isNil then do
          if !(← loadLuaLibrary rt (some module)) then
            luaSettop base.length
            return false
          else selectFunction rt base.length (base.length + 1) (some func)
        else selectFunction rt base.length (base.length + 1) (some func) : EngineM Bool) state := by
  have moduleLong : ¬ (cstr module).length < 1 := by
    simpa [Nat.lt_one_iff] using moduleNamed
  have funcLong : ¬ (cstr func).length < 1 := by
    simpa [Nat.lt_one_iff] using funcNamed
  simp only [findLuaFunction, bind_apply, strlen_some, Outcome.ok_bind, moduleLong, funcLong,
    if_false, luaGettop_apply, luaPushstring, luaPushlstring, push_apply, luaLFindtable,
    luaPushglobals_apply, List.length_cons, Nat.cast_add, Nat.cast_one]

/-- `find_lua_function` of two names that are not empty, up to the entry of the module. -/
theorem findLuaFunction_eq {module func : Bytes} (moduleNamed : cstr module ≠ [])
    (funcNamed : cstr func ≠ []) {loaded : Nat} {searched : World Server}
    (resolved : packageLoaded rt world = some (loaded, searched)) :
    findLuaFunction rt (some module) (some func) ⟨base, passed, world⟩ =
      (let entry := (searched.heap.tables loaded).get (.string (cstr module))
      let found : LuaState Server := ⟨entry :: .table loaded :: .string (cstr module) :: base,
        passed ++ [(.strlen, some module)] ++ [(.strlen, some func)], searched⟩
      if entry.isNil then
        (loadLuaLibrary rt (some module) found).bind fun isLoaded state =>
          if isLoaded then selectFunction rt base.length (base.length + 1) (some func) state
          else (luaSettop base.length state).bind fun _ state => .ok false state
      else selectFunction rt base.length (base.length + 1) (some func) found) := by
  rw [findLuaFunction_named_eq moduleNamed funcNamed]
  unfold packageLoaded at resolved
  rcases findtableFrom_search rt (dotted "package.loaded") world.heap.globals
      (.string (cstr module) :: base)
      (passed ++ [(.strlen, some module)] ++ [(.strlen, some func)]) world with
    ⟨_, _, same, ran⟩ | ⟨missing, -⟩
  · rw [resolved] at same
    cases same
    simp only [ran, Outcome.ok_bind, luaPushvalue_base₁, luaRawget_below_top, luaIsnil_top, cond_apply]
    split
    · simp only [bind_apply]
      congr 1
      funext isLoaded state
      cases isLoaded <;> rfl
    · rfl
  · rw [resolved] at missing
    cases missing

/-- Without that table the lookup does not return: where `luaL_findtable` pushed nothing, the key
is looked up in the module name. -/
theorem findLuaFunction_unsearchable {module func : Bytes} (moduleNamed : cstr module ≠ [])
    (funcNamed : cstr func ≠ []) (missing : packageLoaded rt world = none) (isFound : Bool)
    (found : LuaState Server) :
    findLuaFunction rt (some module) (some func) ⟨base, passed, world⟩ ≠ .ok isFound found := by
  intro returned
  rw [findLuaFunction_named_eq moduleNamed funcNamed] at returned
  unfold packageLoaded at missing
  rcases findtableFrom_search rt (dotted "package.loaded") world.heap.globals
      (.string (cstr module) :: base)
      (passed ++ [(.strlen, some module)] ++ [(.strlen, some func)]) world with
    ⟨_, _, same, -⟩ | ⟨-, ⟨after, ran⟩ | ⟨error, final, ran⟩ | ⟨reason, final, ran⟩⟩
  · rw [missing] at same
    cases same
  · rw [ran] at returned
    simp [luaPushvalue_base₀, luaRawget, tableAt, valueAt] at returned
  · rw [ran] at returned
    cases returned
  · rw [ran] at returned
    cases returned

theorem selectFunction_loaded (readable : GlobalsReadable rt) {loaded : Nat} {module value : Value}
    {name func : Bytes} {middle : World Server} (loadedAs : LoadedAs rt loaded name world value middle)
    (above base : List Value) (passed : List (Sink × CharPtr)) :
    (∃ function after, selectFunction rt base.length (base.length + 1) (some func)
        ⟨value :: (above ++ module :: base), passed, middle⟩ =
        .ok true ⟨function :: base, passed, after⟩ ∧
      ModuleFunction rt loaded name (cstr func) world function after) ∨
    (∃ after, selectFunction rt base.length (base.length + 1) (some func)
        ⟨value :: (above ++ module :: base), passed, middle⟩ = .ok false ⟨base, passed, after⟩ ∧
      ∀ function later, ¬ ModuleFunction rt loaded name (cstr func) world function later) := by
  rcases selectFunction_contract readable func value above module base passed middle with
    ⟨function, after, ran, selected⟩ | ⟨after, ran, none⟩
  · exact .inl ⟨function, after, ran, value, middle, loadedAs, selected⟩
  · refine .inr ⟨after, ran, ?_⟩
    intro function later moduleFunction
    obtain ⟨other, otherMiddle, loadedToo, selected⟩ := moduleFunction
    obtain ⟨rfl, rfl⟩ := loadedAs.deterministic loadedToo
    exact none function later selected

theorem findLuaFunction_named (survives : rt.Survives) (readable : GlobalsReadable rt)
    {module func : Bytes} (moduleNamed : cstr module ≠ []) (funcNamed : cstr func ≠ [])
    (base : List Value) (passed : List (Sink × CharPtr)) {loaded : Nat}
    (resolved : LoadedTable world.heap loaded) :
    ∃ handed,
      (∃ function after, findLuaFunction rt (some module) (some func) ⟨base, passed, world⟩ =
          .ok true ⟨function :: base, handed, after⟩ ∧
        ModuleFunction rt loaded (cstr module) (cstr func) world function after) ∨
      (∃ after, findLuaFunction rt (some module) (some func) ⟨base, passed, world⟩ =
          .ok false ⟨base, handed, after⟩ ∧
        ∀ function later,
          ¬ ModuleFunction rt loaded (cstr module) (cstr func) world function later) := by
  refine ⟨passed ++ [(.strlen, some module)] ++ [(.strlen, some func)], ?_⟩
  rw [findLuaFunction_eq moduleNamed funcNamed resolved.packageLoaded]
  dsimp only
  by_cases absent : (world.heap.tables loaded).get (.string (cstr module)) = .nil
  · rw [absent]
    simp only [Value.isNil, if_true]
    rcases loadLuaLibrary_contract survives readable module
        (.nil :: .table loaded :: .string (cstr module) :: base)
        (passed ++ [(.strlen, some module)] ++ [(.strlen, some func)]) world with
      ⟨value, after, ran, required⟩ | ⟨after, ran, failed⟩
    · rw [ran]
      exact selectFunction_loaded readable (.required absent required) [.nil, .table loaded] base _
    · have cut := luaSettop_length base
        (passed ++ [(.strlen, some module)] ++ [(.strlen, some func)]) after
        [.nil, .table loaded, .string (cstr module)]
      simp only [List.cons_append, List.nil_append] at cut
      rw [ran]
      refine .inr ⟨after, ?_, ?_⟩
      · simp only [Outcome.ok_bind, Bool.false_eq_true, if_false, cut]
      intro function later moduleFunction
      obtain ⟨value, middle, loadedAs, -⟩ := moduleFunction
      cases loadedAs with
      | already entry present => exact present (entry.symm.trans absent)
      | required _ required => exact failed _ _ required
  · have notNil : ((world.heap.tables loaded).get (.string (cstr module))).isNil = false :=
      Bool.eq_false_iff.mpr fun nil => absent (Value.isNil_iff.mp nil)
    rw [notNil]
    exact selectFunction_loaded readable (.already rfl absent) [.table loaded] base _

/-- The stack contract of both lookups: exactly one value more, or the stack as it was,
and a function that exists is found. -/
theorem moduleLookup_contract (rt : Runtime Server) (survives : rt.Survives)
    (readable : GlobalsReadable rt) (module func : Bytes) (base : List Value)
    (passed : List (Sink × CharPtr)) (world : World Server) (loaded : Nat)
    (resolved : LoadedTable world.heap loaded) :
    (∃ handed,
      (∃ function after, findLuaFunction rt (some module) (some func) ⟨base, passed, world⟩ =
          .ok true ⟨function :: base, handed, after⟩ ∧ function.isFunction = true ∧
        cstr module ≠ [] ∧ cstr func ≠ [] ∧
        ModuleFunction rt loaded (cstr module) (cstr func) world function after) ∨
      (∃ after, findLuaFunction rt (some module) (some func) ⟨base, passed, world⟩ =
          .ok false ⟨base, handed, after⟩ ∧
        (cstr module ≠ [] → cstr func ≠ [] → ∀ function later,
          ¬ ModuleFunction rt loaded (cstr module) (cstr func) world function later))) ∧
    ((∃ value after, loadLuaLibrary rt (some module) ⟨base, passed, world⟩ =
          .ok true ⟨value :: base, passed, after⟩ ∧
        Required rt (cstr module) world value after) ∨
      (∃ after, loadLuaLibrary rt (some module) ⟨base, passed, world⟩ =
          .ok false ⟨base, passed, after⟩ ∧
        ∀ value later, ¬ Required rt (cstr module) world value later)) := by
  refine ⟨?_, loadLuaLibrary_contract survives readable module base passed world⟩
  by_cases moduleNamed : cstr module = []
  · refine ⟨passed ++ [(.strlen, some module)], .inr ⟨world, ?_, fun named => absurd moduleNamed named⟩⟩
    simp [findLuaFunction, moduleNamed]
  by_cases funcNamed : cstr func = []
  · refine ⟨passed ++ [(.strlen, some module)] ++ [(.strlen, some func)],
      .inr ⟨world, ?_, fun _ named => absurd funcNamed named⟩⟩
    simp [findLuaFunction, moduleNamed, funcNamed]
  obtain ⟨handed, ⟨function, after, ran, found⟩ | ⟨after, ran, none⟩⟩ :=
    findLuaFunction_named survives readable moduleNamed funcNamed base passed resolved
  · exact ⟨handed, .inl ⟨function, after, ran, found.isFunction, moduleNamed, funcNamed, found⟩⟩
  · exact ⟨handed, .inr ⟨after, ran, fun _ _ => none⟩⟩

/-- A state in which the module `init` is loaded, with one function in it. -/
private def initLoaded : World Server :=
  .start (.ofTables [.ofFields [("package", .table 1)], .ofFields [("loaded", .table 2)],
    .ofFields [("init", .table 3)], .ofFields [("run", .function (.closure 0))]])

theorem moduleLookup_contract_init :
    ∃ handed, findLuaFunction default (some (lit "init")) (some (lit "run"))
      ⟨[.boolean true], [], initLoaded⟩ =
        .ok true ⟨[.function (.closure 0), .boolean true], handed, initLoaded⟩ := by
  have module : ModuleFunction default 2 (cstr (lit "init")) (cstr (lit "run")) initLoaded
      (.function (.closure 0)) initLoaded :=
    ⟨.table 3, initLoaded, .already (by decide) (by decide), .field (by decide) rfl⟩
  obtain ⟨⟨handed, ⟨function, after, ran, -, -, -, found⟩ | ⟨after, -, missing⟩⟩, -⟩ :=
    moduleLookup_contract default (fun _ _ _ _ _ => nofun) (fun _ world => ⟨[], world, rfl⟩)
      (lit "init") (lit "run") [.boolean true] [] initLoaded 2 ⟨1, by decide, by decide⟩
  · obtain ⟨rfl, rfl⟩ := module.deterministic found
    exact ⟨handed, ran⟩
  · exact absurd module (missing (by decide) (by decide) _ _)

end GameServer
