import GameServer.Module.Lookup

namespace GameServer

open Lua LuaM

/-! What the lookup of a function makes of `_G`, `package.loaded` and `require`, without a stack:
when it returns, and what it finds. -/

section Choice

variable (rt : Runtime Server)

/-- What `find_lua_function` looks at in a module of this value: a raw field, a global, or
nothing. -/
inductive Chosen (func : Bytes) (world : World Server) : Value → Value → World Server → Prop where
  | field (address : Nat) : Chosen func world (.table address)
      ((world.heap.tables address).get (.string func)) world
  | global {value : Value} {after : World Server} (named : Global rt func world value after) :
      Chosen func world (.boolean true) value after
  | nothing {module : Value} (notTable : module.isTable = false) (notTrue : module ≠ .boolean true) :
      Chosen func world module .nil world

variable {rt} {base : List Value} {passed : List (Sink × CharPtr)} {world : World Server}

theorem luaGetglobal_named {name : Bytes} {final : LuaState Server}
    (got : luaGetglobal rt (some name) ⟨base, passed, world⟩ = .ok () final) :
    ∃ value after, Global rt (cstr name) world value after := by
  unfold luaGetglobal at got
  cases looked : luaVGettable rt (.table world.heap.globals) (.string (cstr name)) world with
  | returns results after => exact ⟨_, after, results, looked, rfl⟩
  | raises error after =>
      simp only [Option.getD_some, looked] at got
      cases got
  | faults reason after =>
      simp only [Option.getD_some, looked] at got
      cases got

/-- The end of a lookup: the value is kept when it is a function. -/
def kept (base : List Value) (passed : List (Sink × CharPtr)) (function : Value)
    (after : World Server) : LuaState Server :=
  ⟨if function.isFunction then function :: base else base, passed, after⟩

theorem selectFunction_chosen {func : Bytes} {module function : Value} {after : World Server}
    (chosen : Chosen rt (cstr func) world module function after) (above : List Value) (name : Value) :
    selectFunction rt base.length (base.length + 1) (some func)
        ⟨module :: (above ++ name :: base), passed, world⟩ =
      .ok function.isFunction (kept base passed function after) := by
  cases chosen with
  | field address =>
      rw [selectFunction_table, keepFunction_eq, kept]
      cases Value.isFunction _ <;> rfl
  | global named =>
      rw [selectFunction_true, luaGetglobal_apply named, Outcome.ok_bind, keepFunction_eq, kept]
      cases Value.isFunction _ <;> rfl
  | nothing notTable notTrue => exact selectFunction_other rt _ _ notTable notTrue above name

theorem chosen_of_selectFunction {func : Bytes} {module name : Value} {above : List Value}
    {isFound : Bool} {final : LuaState Server}
    (ran : selectFunction rt base.length (base.length + 1) (some func)
      ⟨module :: (above ++ name :: base), passed, world⟩ = .ok isFound final) :
    ∃ function after, Chosen rt (cstr func) world module function after ∧
      isFound = function.isFunction ∧ final = kept base passed function after := by
  have answer {function : Value} {after : World Server}
      (chosen : Chosen rt (cstr func) world module function after) :
      ∃ function after, Chosen rt (cstr func) world module function after ∧
        isFound = function.isFunction ∧ final = kept base passed function after := by
    rw [selectFunction_chosen chosen] at ran
    cases ran
    exact ⟨function, after, chosen, rfl, rfl⟩
  by_cases isTable : module.isTable = true
  · cases module with
    | table address => exact answer (.field address)
    | _ => cases isTable
  by_cases isTrue : module = .boolean true
  · subst isTrue
    have looked := ran
    rw [selectFunction_true, Outcome.bind_eq_ok] at looked
    obtain ⟨_, middle, got, -⟩ := looked
    obtain ⟨value, after, named⟩ := luaGetglobal_named got
    exact answer (.global named)
  · exact answer (.nothing (Bool.eq_false_iff.mpr isTable) isTrue)

/-! ## The lookup -/

section Lookups

variable {module func : Bytes} {loaded : Nat} {searched : World Server}

/-- Of a module that has an entry the lookup runs no more than reading a global. -/
theorem findLuaFunction_warm (moduleNamed : cstr module ≠ []) (funcNamed : cstr func ≠ [])
    (resolved : packageLoaded rt world = some (loaded, searched)) {entry function : Value}
    {after : World Server} (isEntry : (searched.heap.tables loaded).get (.string (cstr module)) = entry)
    (present : entry ≠ .nil) (chosen : Chosen rt (cstr func) searched entry function after) :
    ∃ handed, findLuaFunction rt (some module) (some func) ⟨base, passed, world⟩ =
      .ok function.isFunction (kept base handed function after) := by
  have notNil : entry.isNil = false := Bool.eq_false_iff.mpr fun nil => present (Value.isNil_iff.mp nil)
  refine ⟨passed ++ [(.strlen, some module)] ++ [(.strlen, some func)], ?_⟩
  rw [findLuaFunction_eq moduleNamed funcNamed resolved]
  simp only [isEntry, notNil, Bool.false_eq_true, if_false]
  exact selectFunction_chosen chosen [.table loaded] (.string (cstr module))

theorem luaGErrormsg_ne_returns (handler : Value) (depth : Nat) (error : Value) (results : List Value)
    (world after : World Server) : luaGErrormsg rt handler depth error world ≠ .returns results after := by
  induction depth generalizing error world with
  | zero =>
      intro returned
      cases returned
  | succ depth ih =>
      intro returned
      unfold luaGErrormsg at returned
      split at returned
      · split at returned
        · cases returned
        · exact ih _ _ returned
        · cases returned
      · cases returned

theorem luaDCall_of_luaDPcall {handler : Option Value} {function : Value} {arguments results : List Value}
    {after : World Server} (returned : luaDPcall rt handler function arguments world = .returns results after) :
    luaDCall rt function arguments world = .returns results after := by
  cases called : luaDCall rt function arguments world with
  | returns others later =>
      rw [luaDPcall_returns rt called] at returned
      exact returned
  | raises error later =>
      cases handler with
      | none => rw [luaDPcall_none, called] at returned; cases returned
      | some handler =>
          simp only [luaDPcall, called] at returned
          exact absurd returned (luaGErrormsg_ne_returns _ _ _ _ _ _)
  | faults reason later =>
      simp only [luaDPcall, called] at returned
      cases returned

theorem loadLuaLibrary_named {isLoaded : Bool} {final : LuaState Server}
    (ran : loadLuaLibrary rt (some module) ⟨base, passed, world⟩ = .ok isLoaded final) :
    ∃ require looked, Global rt (lit "require") world require looked := by
  have plain : cstr (lit "require") = lit "require" := by decide
  simp only [loadLuaLibrary, luaPushcfunction, bind_apply, luaGettop_apply, Outcome.ok_bind,
    push_apply] at ran
  obtain ⟨_, middle, got, -⟩ := Outcome.bind_eq_ok.mp ran
  rw [← plain]
  exact luaGetglobal_named got

theorem loadLuaLibrary_required {isLoaded : Bool} {final : LuaState Server}
    (ran : loadLuaLibrary rt (some module) ⟨base, passed, world⟩ = .ok isLoaded final) :
    (∃ value after, isLoaded = true ∧ final = ⟨value :: base, passed, after⟩ ∧
      Required rt (cstr module) world value after) ∨
    (∃ after, isLoaded = false ∧ final = ⟨base, passed, after⟩ ∧
      ∀ value later, ¬ Required rt (cstr module) world value later) := by
  obtain ⟨require, looked, named⟩ := loadLuaLibrary_named ran
  rw [loadLuaLibrary_eq named] at ran
  cases called : luaDPcall rt (some (.function tracebackFunction)) require [.string (cstr module)] looked with
  | returns results after =>
      rw [called] at ran
      cases ran
      exact .inl ⟨_, after, rfl, rfl, require, looked, results, named, luaDCall_of_luaDPcall called, rfl⟩
  | raises error after =>
      rw [called] at ran
      cases ran
      refine .inr ⟨after, rfl, rfl, ?_⟩
      intro value later required
      obtain ⟨other, lookedToo, results, namedToo, returned, -⟩ := required
      obtain ⟨same, sameLooked⟩ := named.deterministic namedToo
      subst same sameLooked
      rw [luaDPcall_returns rt returned] at called
      cases called
  | faults reason after =>
      rw [called] at ran
      cases ran

/-- Of a module without an entry: `require` ran, and a function was chosen from what it returned;
or it raised an error, and nothing was found. -/
theorem findLuaFunction_cold (moduleNamed : cstr module ≠ []) (funcNamed : cstr func ≠ [])
    (resolved : packageLoaded rt world = some (loaded, searched))
    (absent : (searched.heap.tables loaded).get (.string (cstr module)) = .nil) {isFound : Bool}
    {first : LuaState Server}
    (ran : findLuaFunction rt (some module) (some func) ⟨base, passed, world⟩ = .ok isFound first) :
    (∃ value middle function after handed, Required rt (cstr module) searched value middle ∧
      Chosen rt (cstr func) middle value function after ∧ isFound = function.isFunction ∧
      first = kept base handed function after) ∨
    (∃ after handed, isFound = false ∧ first = ⟨base, handed, after⟩ ∧
      ∀ value later, ¬ Required rt (cstr module) searched value later) := by
  rw [findLuaFunction_eq moduleNamed funcNamed resolved] at ran
  simp only [absent, Value.isNil, if_true] at ran
  obtain ⟨isLoaded, loadedState, load, rest⟩ := Outcome.bind_eq_ok.mp ran
  rcases loadLuaLibrary_required load with
    ⟨value, middle, rfl, rfl, required⟩ | ⟨after, rfl, rfl, failed⟩
  · simp only [if_true] at rest
    obtain ⟨function, after, chosen, same, ended⟩ :=
      @chosen_of_selectFunction rt base _ middle func value (.string (cstr module))
        [.nil, .table loaded] isFound first rest
    exact .inl ⟨value, middle, function, after, _, required, chosen, same, ended⟩
  · have cut := luaSettop_length base (passed ++ [(.strlen, some module)] ++ [(.strlen, some func)])
      after [.nil, .table loaded, .string (cstr module)]
    simp only [List.cons_append, List.nil_append] at cut
    simp only [Bool.false_eq_true, if_false, cut, Outcome.ok_bind] at rest
    cases rest
    exact .inr ⟨after, _, rfl, rfl, failed⟩

/-! ## When it returns -/

variable (rt) in
/-- Choosing a function from a module of this value returns: where the module is just `true`,
reading the global raises no error. -/
def Choosable (func : Bytes) (value : Value) (world : World Server) : Prop :=
  value = .boolean true → ∃ function after, Global rt func world function after

variable (rt) in
/-- Loading a module without an entry returns: reading the global `require` raises no error, the
protected call of it does not break the process, and what it returned can be chosen from. -/
def Loadable (module func : Bytes) (world : World Server) : Prop :=
  ∃ require looked, Global rt (lit "require") world require looked ∧
    (∀ reason after, luaDPcall rt (some (.function tracebackFunction)) require [.string module] looked ≠
      .faults reason after) ∧
    ∀ results after, luaDCall rt require [.string module] looked = .returns results after →
      Choosable rt func (results.headD .nil) after

variable (rt) in
/-- The lookup of two names returns: `package.loaded` is a table or can be made one, and its entry
can be chosen from, or loaded where there is none. -/
def Lookable (module func : Bytes) (world : World Server) : Prop :=
  module ≠ [] → func ≠ [] → ∃ loaded searched, packageLoaded rt world = some (loaded, searched) ∧
    ((searched.heap.tables loaded).get (.string module) ≠ .nil →
      Choosable rt func ((searched.heap.tables loaded).get (.string module)) searched) ∧
    ((searched.heap.tables loaded).get (.string module) = .nil → Loadable rt module func searched)

theorem Choosable.chosen {func : Bytes} {value : Value} (choosable : Choosable rt func value world) :
    ∃ function after, Chosen rt func world value function after := by
  by_cases isTrue : value = .boolean true
  · obtain ⟨function, after, named⟩ := choosable isTrue
    subst isTrue
    exact ⟨function, after, .global named⟩
  · cases value with
    | table address => exact ⟨_, world, .field address⟩
    | _ => exact ⟨.nil, world, .nothing rfl isTrue⟩

theorem Chosen.choosable {func : Bytes} {value function : Value} {after : World Server}
    (chosen : Chosen rt func world value function after) : Choosable rt func value world := by
  intro isTrue
  subst isTrue
  cases chosen with
  | global named => exact ⟨function, after, named⟩
  | nothing notTable notTrue => exact absurd rfl notTrue

theorem selectFunction_returns_iff {value name : Value} {above : List Value} :
    (∃ isFound final, selectFunction rt base.length (base.length + 1) (some func)
      ⟨value :: (above ++ name :: base), passed, world⟩ = .ok isFound final) ↔
      Choosable rt (cstr func) value world := by
  constructor
  · intro returned
    obtain ⟨isFound, final, ran⟩ := returned
    obtain ⟨function, after, chosen, -⟩ := chosen_of_selectFunction ran
    exact chosen.choosable
  · intro choosable
    obtain ⟨function, after, chosen⟩ := choosable.chosen
    exact ⟨_, _, selectFunction_chosen chosen above name⟩

theorem loadModule_returns_iff (above : List Value) (name : Value) :
    (∃ isFound final, ((loadLuaLibrary rt (some module)
        ⟨above ++ name :: base, passed, world⟩).bind fun isLoaded state =>
      if isLoaded then selectFunction rt base.length (base.length + 1) (some func) state
      else (luaSettop base.length state).bind fun _ state => .ok false state) = .ok isFound final) ↔
      Loadable rt (cstr module) (cstr func) world := by
  constructor
  · intro returned
    obtain ⟨isFound, final, ran⟩ := returned
    obtain ⟨isLoaded, loadedState, load, rest⟩ := Outcome.bind_eq_ok.mp ran
    obtain ⟨require, looked, named⟩ := loadLuaLibrary_named load
    refine ⟨require, looked, named, ?_, ?_⟩
    · intro reason after faulted
      rw [loadLuaLibrary_eq named, faulted] at load
      cases load
    · intro results after called
      rw [loadLuaLibrary_eq named, luaDPcall_returns rt called] at load
      cases load
      exact selectFunction_returns_iff.mp ⟨isFound, final, rest⟩
  · intro loadable
    obtain ⟨require, looked, named, survives, choosable⟩ := loadable
    rw [loadLuaLibrary_eq named]
    cases called : luaDPcall rt (some (.function tracebackFunction)) require [.string (cstr module)] looked with
    | returns results after =>
        exact selectFunction_returns_iff.mpr (choosable results after (luaDCall_of_luaDPcall called))
    | raises error after =>
        have cut : luaSettop (base.length : Int) ⟨above ++ name :: base, passed, after⟩ = _ :=
          luaSettop_base above name
        refine ⟨false, ⟨base, passed, after⟩, ?_⟩
        simp only [Outcome.ok_bind, Bool.false_eq_true, if_false, cut]
    | faults reason after => exact absurd called (survives reason after)

/-- The lookup returns exactly where `_G`, `package.loaded` and `require` let it. -/
theorem findLuaFunction_returns_iff (rt : Runtime Server) (module func : Bytes) (base : List Value)
    (passed : List (Sink × CharPtr)) (world : World Server) :
    (∃ isFound found, findLuaFunction rt (some module) (some func) ⟨base, passed, world⟩ =
      .ok isFound found) ↔ Lookable rt (cstr module) (cstr func) world := by
  by_cases moduleNamed : cstr module = []
  · refine iff_of_true ⟨false, ⟨base, passed ++ [(.strlen, some module)], world⟩, ?_⟩
      fun named => absurd moduleNamed named
    simp [findLuaFunction, moduleNamed]
  by_cases funcNamed : cstr func = []
  · refine iff_of_true
      ⟨false, ⟨base, passed ++ [(.strlen, some module)] ++ [(.strlen, some func)], world⟩, ?_⟩
      fun _ named => absurd funcNamed named
    simp [findLuaFunction, moduleNamed, funcNamed]
  cases searched : packageLoaded rt world with
  | none =>
      apply iff_of_false
      · intro returned
        obtain ⟨isFound, found, ran⟩ := returned
        exact findLuaFunction_unsearchable moduleNamed funcNamed searched isFound found ran
      · intro lookable
        obtain ⟨loaded, middle, same, -⟩ := lookable moduleNamed funcNamed
        rw [searched] at same
        cases same
  | some package =>
      obtain ⟨loaded, middle⟩ := package
      rw [findLuaFunction_eq moduleNamed funcNamed searched]
      have only : Lookable rt (cstr module) (cstr func) world ↔
          ((middle.heap.tables loaded).get (.string (cstr module)) ≠ .nil →
            Choosable rt (cstr func) ((middle.heap.tables loaded).get (.string (cstr module))) middle) ∧
          ((middle.heap.tables loaded).get (.string (cstr module)) = .nil →
            Loadable rt (cstr module) (cstr func) middle) := by
        constructor
        · intro lookable
          obtain ⟨loaded', middle', same, entries⟩ := lookable moduleNamed funcNamed
          rw [searched] at same
          cases same
          exact entries
        · exact fun entries _ _ => ⟨loaded, middle, searched, entries⟩
      rw [only]
      dsimp only
      by_cases absent : (middle.heap.tables loaded).get (.string (cstr module)) = .nil
      · simp only [absent, Value.isNil, if_true]
        refine (loadModule_returns_iff [.nil, .table loaded] (.string (cstr module))).trans ?_
        exact ⟨fun loadable => ⟨fun present => absurd rfl present, fun _ => loadable⟩,
          fun entries => entries.2 trivial⟩
      · have notNil : ((middle.heap.tables loaded).get (.string (cstr module))).isNil = false :=
          Bool.eq_false_iff.mpr fun nil => absent (Value.isNil_iff.mp nil)
        simp only [notNil, Bool.false_eq_true, if_false]
        refine (@selectFunction_returns_iff rt base _ middle func _ (.string (cstr module))
          [.table loaded]).trans ?_
        exact ⟨fun choosable => ⟨fun _ => choosable, fun nil => absurd nil absent⟩,
          fun entries => entries.1 absent⟩

/-! ## What it finds -/

variable (rt) in
/-- The function two names mean in a state, with the state its lookup leaves. -/
def Resolves (module func : Bytes) (world : World Server) (function : Value) (after : World Server) : Prop :=
  module ≠ [] ∧ func ≠ [] ∧ ∃ loaded searched, packageLoaded rt world = some (loaded, searched) ∧
    ModuleFunction rt loaded module func searched function after

theorem Resolves.deterministic {module func : Bytes} {function other : Value} {after later : World Server}
    (one : Resolves rt module func world function after) (two : Resolves rt module func world other later) :
    function = other ∧ after = later := by
  obtain ⟨-, -, loaded, searched, resolved, means⟩ := one
  obtain ⟨-, -, loadedToo, searchedToo, resolvedToo, meansToo⟩ := two
  rw [resolved] at resolvedToo
  cases resolvedToo
  exact means.deterministic meansToo

theorem Chosen.selected {func : Bytes} {value function : Value} {after : World Server}
    (chosen : Chosen rt func world value function after) (callable : function.isFunction = true) :
    Selected rt func world value function after := by
  cases chosen with
  | field address => exact .field rfl callable
  | global named => exact .global named callable
  | nothing => cases callable

theorem Selected.chosen {func : Bytes} {value function : Value} {after : World Server}
    (selected : Selected rt func world value function after) :
    Chosen rt func world value function after := by
  cases selected with
  | field raw => exact raw ▸ .field _
  | global named => exact .global named

/-- What was found was chosen from the module, as it is loaded. -/
theorem findLuaFunction_chosen (moduleNamed : cstr module ≠ []) (funcNamed : cstr func ≠ [])
    (resolved : packageLoaded rt world = some (loaded, searched)) {found : LuaState Server}
    (ran : findLuaFunction rt (some module) (some func) ⟨base, passed, world⟩ = .ok true found) :
    ∃ value middle function after, LoadedAs rt loaded (cstr module) searched value middle ∧
      Chosen rt (cstr func) middle value function after ∧ function.isFunction = true ∧
      found = kept base (passed ++ [(.strlen, some module)] ++ [(.strlen, some func)]) function after := by
  rw [findLuaFunction_eq moduleNamed funcNamed resolved] at ran
  dsimp only at ran
  split at ran
  · rename_i nil
    obtain ⟨isLoaded, loadedState, load, rest⟩ := Outcome.bind_eq_ok.mp ran
    rcases loadLuaLibrary_required load with
      ⟨value, middle, rfl, rfl, required⟩ | ⟨after, rfl, rfl, -⟩
    · obtain ⟨function, after, chosen, same, ended⟩ :=
        @chosen_of_selectFunction rt base _ middle func value (.string (cstr module))
          [_, .table loaded] true found rest
      exact ⟨value, middle, function, after, .required (Value.isNil_iff.mp nil) required, chosen,
        same.symm, ended⟩
    · obtain ⟨_, _, -, ended⟩ := Outcome.bind_eq_ok.mp rest
      cases ended
  · rename_i notNil
    obtain ⟨function, after, chosen, same, ended⟩ :=
      @chosen_of_selectFunction rt base _ searched func _ (.string (cstr module)) [.table loaded] true
        found ran
    exact ⟨_, searched, function, after, .already rfl fun nil => notNil (Value.isNil_iff.mpr nil), chosen,
      same.symm, ended⟩

/-- A function is found exactly where the names mean one, and it is that function. -/
theorem findLuaFunction_found_iff (rt : Runtime Server) (module func : Bytes) (base : List Value)
    (passed : List (Sink × CharPtr)) (world : World Server) (found : LuaState Server) :
    findLuaFunction rt (some module) (some func) ⟨base, passed, world⟩ = .ok true found ↔
      ∃ function after, Resolves rt (cstr module) (cstr func) world function after ∧
        found = ⟨function :: base, passed ++ [(.strlen, some module)] ++ [(.strlen, some func)], after⟩ := by
  by_cases moduleNamed : cstr module = []
  · apply iff_of_false
    · simp [findLuaFunction, moduleNamed]
    · intro resolved
      obtain ⟨_, _, ⟨named, -⟩, -⟩ := resolved
      exact named moduleNamed
  by_cases funcNamed : cstr func = []
  · apply iff_of_false
    · simp [findLuaFunction, moduleNamed, funcNamed]
    · intro resolved
      obtain ⟨_, _, ⟨-, named, -⟩, -⟩ := resolved
      exact named funcNamed
  constructor
  · intro ran
    cases searched : packageLoaded rt world with
    | none => exact absurd ran (findLuaFunction_unsearchable moduleNamed funcNamed searched true found)
    | some package =>
        obtain ⟨loaded, middle⟩ := package
        obtain ⟨value, chosenIn, function, after, loadedAs, chosen, callable, rfl⟩ :=
          findLuaFunction_chosen moduleNamed funcNamed searched ran
        refine ⟨function, after, ⟨moduleNamed, funcNamed, loaded, middle, searched, value, chosenIn,
          loadedAs, chosen.selected callable⟩, ?_⟩
        simp [kept, callable]
  · intro resolved
    obtain ⟨function, after, ⟨-, -, loaded, middle, searched, value, chosenIn, loadedAs, selected⟩, rfl⟩ :=
      resolved
    have callable : function.isFunction = true := by
      cases selected with
      | field raw callable => exact callable
      | global named callable => exact callable
    rw [findLuaFunction_eq moduleNamed funcNamed searched]
    dsimp only
    cases loadedAs with
    | already entry present =>
        have notNil : value.isNil = false :=
          Bool.eq_false_iff.mpr fun nil => present (Value.isNil_iff.mp nil)
        have ran := @selectFunction_chosen rt base
          (passed ++ [(.strlen, some module)] ++ [(.strlen, some func)]) _ func _ _ _ selected.chosen
          [.table loaded] (.string (cstr module))
        rw [callable] at ran
        simp only [kept, callable, if_true] at ran
        simp only [entry, notNil, Bool.false_eq_true, if_false]
        exact ran
    | required absent returned =>
        obtain ⟨require, looked, results, named, called, rfl⟩ := returned
        have ran := @selectFunction_chosen rt base
          (passed ++ [(.strlen, some module)] ++ [(.strlen, some func)]) _ func _ _ _ selected.chosen
          [.nil, .table loaded] (.string (cstr module))
        rw [callable] at ran
        simp only [kept, callable, if_true] at ran
        simp only [absent, Value.isNil, if_true, loadLuaLibrary_eq named, luaDPcall_returns rt called,
          Outcome.ok_bind]
        exact ran

end Lookups

end Choice

end GameServer
