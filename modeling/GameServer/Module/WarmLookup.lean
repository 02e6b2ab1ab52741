import GameServer.Lua.Require
import GameServer.Module.Resolution

namespace GameServer

open Lua LuaM

/-! A second lookup of a function in the module the first one had to load. -/

/-! ## Cold and warm -/

section Agreement

variable (rt : Runtime Server)

/-- The global `require` is the one of `loadlib.c`, whatever Lua code it runs; its table is
`package.loaded`, which has no metatable. -/
structure StandardRequire (loaded : Nat) (world : World Server) : Prop where
  resolved : LoadedTable world.heap loaded
  runs : ∀ require looked, Global rt (lit "require") world require looked →
    (looked.heap.tables looked.heap.registry).get (.string (lit "_LOADED")) = .table loaded ∧
    ∀ arguments begun, ∃ inner site environment fuel, inner.Bare loaded ∧
      rt.call require arguments begun =
        callNative require (llRequire inner site environment fuel) arguments begun

/-- Read once more, this global is the same function, or again none; the module is still just
`true`. -/
structure Rereads (loaded : Nat) (module func : Bytes) (world : World Server) (value : Value) : Prop where
  entry : (world.heap.tables loaded).get (.string module) = .boolean true
  again : ∃ again later, Global rt func world again later ∧
    (again = value ∨ value.isFunction = false ∧ again.isFunction = false)

/-- No function can be chosen from an entry of this value. -/
def Functionless (func : Bytes) (world : World Server) (entry : Value) : Prop :=
  (∀ address, entry = .table address →
    ((world.heap.tables address).get (.string func)).isFunction = false) ∧
  (entry = .boolean true → ∃ value after, Global rt func world value after ∧ value.isFunction = false)

/-- The lookup that loads the module, and one made at once in the state it leaves, the
function removed: once a function was found or the module has an entry, the second lookup
answers as the first did, with the same function, and all it runs is what reading a global
runs, for a module that is just `true`. -/
def LookupsAgree (loaded : Nat) (module func : Bytes) (base : List Value)
    (passed : List (Sink × CharPtr)) (world : World Server) : Prop :=
  ∀ isFound first,
    findLuaFunction rt (some module) (some func) ⟨base, passed, world⟩ = .ok isFound first →
    LoadedTable first.world.heap loaded →
    isFound = true ∨ (first.world.heap.tables loaded).get (.string (cstr module)) ≠ .nil →
    ∃ handed after,
      findLuaFunction rt (some module) (some func) ⟨base, first.passed, first.world⟩ =
        .ok isFound ⟨first.stack, handed, after⟩ ∧
      (after = first.world ∨
        (first.world.heap.tables loaded).get (.string (cstr module)) = .boolean true ∧
        ∃ value, Global rt (cstr func) first.world value after)

variable {rt} {loaded : Nat} {module func : Bytes} {world : World Server}

theorem StandardRequire.entry (standard : StandardRequire rt loaded world) {value : Value}
    {middle : World Server} (required : Required rt (cstr module) world value middle) :
    value = (middle.heap.tables loaded).get (.string (cstr module)) := by
  obtain ⟨require, looked, results, named, returned, rfl⟩ := required
  obtain ⟨registered, runs⟩ := standard.runs require looked named
  let begun : World Server := { looked with
    calls := looked.calls ++ [⟨require, [.string (cstr module)]⟩]
    clock := looked.clock + 1 }
  have same : (begun.heap.tables begun.heap.registry).get (.string (lit "_LOADED")) = .table loaded :=
    registered
  obtain ⟨inner, site, environment, fuel, bare, ran⟩ := runs [.string (cstr module)] begun
  rw [luaDCall, ran] at returned
  have entry := require_returns bare same returned
  rwa [cstr_cstr] at entry

/-- Chosen once more, the global ends up on the stack as it did before. -/
theorem Rereads.chosen {value : Value} (rereads : Rereads rt loaded (cstr module) func world value) :
    ∃ again later, Global rt func world again later ∧ again.isFunction = value.isFunction ∧
      ∀ base handed, kept base handed again later =
        ⟨(kept base handed value world).stack, handed, later⟩ := by
  obtain ⟨again, later, named, same | ⟨notFunction, noneAgain⟩⟩ := rereads.again
  · subst same
    exact ⟨again, later, named, rfl, fun _ _ => rfl⟩
  · refine ⟨again, later, named, noneAgain.trans notFunction.symm, ?_⟩
    intro base handed
    simp [kept, notFunction, noneAgain]

/-- What the lookup chooses from such an entry is no function, and choosing it runs no more than
reading a global. -/
theorem Functionless.chosen {entry : Value} (functionless : Functionless rt func world entry) :
    ∃ value after, Chosen rt func world entry value after ∧ value.isFunction = false ∧
      (after = world ∨ entry = .boolean true ∧ ∃ read, Global rt func world read after) := by
  by_cases isTrue : entry = .boolean true
  · obtain ⟨value, after, named, notFunction⟩ := functionless.2 isTrue
    subst isTrue
    exact ⟨value, after, .global named, notFunction, .inr ⟨rfl, value, named⟩⟩
  cases entry with
  | table address => exact ⟨_, world, .field address, functionless.1 address rfl, .inl rfl⟩
  | _ => exact ⟨.nil, world, .nothing rfl isTrue, rfl, .inl rfl⟩

/-- Cold and warm lookups agree where the global that stands for a function of a module that is
just `true` reads the second time as it did the first, and where a module that failed left no
function in its entry. -/
theorem findLuaFunction_coldWarm (rt : Runtime Server) (loaded : Nat) (module func : Bytes)
    (base : List Value) (passed : List (Sink × CharPtr)) (world : World Server)
    (standard : StandardRequire rt loaded world) (moduleNamed : cstr module ≠ [])
    (funcNamed : cstr func ≠ [])
    (absent : (world.heap.tables loaded).get (.string (cstr module)) = .nil)
    (steady : ∀ middle value after, Required rt (cstr module) world (.boolean true) middle →
      Global rt (cstr func) middle value after →
      Rereads rt loaded (cstr module) (cstr func) after value)
    (failed : (∀ value middle, ¬ Required rt (cstr module) world value middle) →
      ∀ first, findLuaFunction rt (some module) (some func) ⟨base, passed, world⟩ = .ok false first →
      Functionless rt (cstr func) first.world
        ((first.world.heap.tables loaded).get (.string (cstr module)))) :
    LookupsAgree rt loaded module func base passed world := by
  intro isFound first ran still answered
  rcases findLuaFunction_cold moduleNamed funcNamed standard.resolved.packageLoaded absent ran with
    ⟨value, middle, function, after, handed, required, chosen, rfl, rfl⟩ | ⟨after, handed, rfl, rfl, none⟩
  · have entry := standard.entry required
    cases chosen with
    | field address =>
        obtain ⟨handed', second⟩ := @findLuaFunction_warm rt base handed middle module func loaded middle
          moduleNamed funcNamed still.packageLoaded _ _ _ entry.symm (by simp) (.field address)
        exact ⟨handed', middle, second, .inl rfl⟩
    | global named =>
        have rereads := steady middle function after required named
        obtain ⟨again, later, reread, same, stack⟩ := rereads.chosen
        obtain ⟨handed', second⟩ := @findLuaFunction_warm rt base handed after module func loaded after
          moduleNamed funcNamed still.packageLoaded _ _ _ rereads.entry (by simp) (.global reread)
        rw [same, stack] at second
        exact ⟨handed', later, second, .inr ⟨rereads.entry, again, reread⟩⟩
    | nothing notTable notTrue =>
        have present : value ≠ .nil := by
          intro nil
          rcases answered with found | filled
          · cases found
          · exact filled (entry.symm.trans nil)
        obtain ⟨handed', second⟩ := @findLuaFunction_warm rt base handed middle module func loaded middle
          moduleNamed funcNamed still.packageLoaded _ _ _ entry.symm present (.nothing notTable notTrue)
        exact ⟨handed', middle, second, .inl rfl⟩
  · obtain ⟨value, last, chosen, notFunction, effect⟩ := (failed none _ ran).chosen
    have present := answered.resolve_left (by simp)
    obtain ⟨handed', second⟩ := @findLuaFunction_warm rt base handed after module func loaded after
      moduleNamed funcNamed still.packageLoaded _ _ _ rfl present chosen
    rw [kept, notFunction] at second
    exact ⟨handed', last, second, effect⟩

/-! ### Three modules -/

/-- `package.loaded` is table 2; its module may publish table 4, which has a function. -/
private def unloaded : World Server :=
  .start { Heap.ofTables [
      .ofFields [("package", .table 1), ("require", .function (.native 9))],
      .ofFields [("loaded", .table 2), ("loaders", .table 3)], .empty,
      Table.empty.set (.number (.finite 1)) (.function (.closure 1)) (by decide),
      .ofFields [("f", .function (.closure 3))],
      .ofFields [("_LOADED", .table 2)]] with registry := 5 }

/-- Lua code with one loader, closure 1, which finds the chunk of any module. -/
private def loading (chunk : World Server → CallResult Server)
    (index : Value → Value → World Server → CallResult Server) : Runtime Server :=
  { (default : Runtime Server) with
    index
    newindex := fun object key value world =>
      match object, key with
      | .table address, .string name =>
          .returns [] { world with heap := world.heap.storeField address name value }
      | _, _ => .returns [] world
    call := fun function _ world =>
      if function = .function (.closure 1) then .returns [.function (.closure 2)] world
      else if function = .function (.closure 2) then chunk world
      else .returns [] world }

/-- The same with the standard `require`. -/
private def requiring (chunk : World Server → CallResult Server)
    (index : Value → Value → World Server → CallResult Server) : Runtime Server :=
  { loading chunk index with
    call := fun function arguments world =>
      if function = .function (.native 9) then
        callNative function (llRequire (loading chunk index) ⟨[], lit "require", false⟩ 1 2) arguments world
      else (loading chunk index).call function arguments world }

private theorem requiring_standard {chunk : World Server → CallResult Server}
    {index : Value → Value → World Server → CallResult Server}
    (unindexed : ∀ key world, index (.table 2) key world = .returns [] world) :
    StandardRequire (requiring chunk index) 2 unloaded where
  resolved := ⟨1, by decide, by decide⟩
  runs := by
    intro require looked named
    have raw : Global (requiring chunk index) (lit "require") unloaded (.function (.native 9)) unloaded :=
      ⟨[.function (.native 9)], rfl, rfl⟩
    obtain ⟨rfl, rfl⟩ := named.deterministic raw
    exact ⟨by decide, fun arguments begun => ⟨loading chunk index, _, _, _,
      ⟨unindexed, fun _ _ _ => rfl⟩, rfl⟩⟩

/-- Both lookups of `m:f`, with the entries of `package.loaded` and of `m` between them. -/
private def lookTwice (rt : Runtime Server) : EngineM (Bool × Option Value × List Value × Bool × Option Value) := do
  let first ← findLuaFunction rt (some (lit "m")) (some (lit "f"))
  let top := (← getStack).head?
  let heap ← getHeap
  setStack []
  let second ← findLuaFunction rt (some (lit "m")) (some (lit "f"))
  return (first, top, [(heap.tables heap.globals).get (.string (lit "package")),
    (heap.tables 1).get (.string (lit "loaded")), (heap.tables 2).get (.string (lit "m"))],
    second, (← getStack).head?)

private theorem lookTwice_differs {rt : Runtime Server} {first second : Bool} {entry : Value}
    {top again : Option Value}
    (looked : (lookTwice rt ⟨[], [], unloaded⟩).value? =
      some (first, top, [.table 1, .table 2, entry], second, again))
    (answered : first = true ∨ entry ≠ .nil) (differs : (first, top) ≠ (second, again)) :
    ¬ LookupsAgree rt 2 (lit "m") (lit "f") [] [] unloaded := by
  intro agree
  obtain ⟨state, looked⟩ := Outcome.value?_eq_some.mp looked
  rw [lookTwice, bind_apply, Outcome.bind_eq_ok] at looked
  obtain ⟨isFound, found, ran, looked⟩ := looked
  simp only [bind_apply, getStack_apply, Outcome.ok_bind, getHeap, setStack_apply, pure_apply,
    Outcome.bind_eq_ok, Outcome.ok.injEq, Prod.mk.injEq, List.cons.injEq, and_true] at looked
  obtain ⟨isAgain, last, ranAgain, ⟨rfl, rfl, ⟨package, loaded, rfl⟩, rfl, rfl⟩, -⟩ := looked
  have plain : cstr (lit "m") = lit "m" := by decide
  obtain ⟨handed, after, second, -⟩ := agree isFound found ran ⟨1, package, loaded⟩ (by rwa [plain])
  rw [ranAgain] at second
  cases second
  exact differs rfl

/-- A module that returns nothing, where `_G` makes a function when it is first read, and
keeps it. -/
private def caching : Runtime Server :=
  requiring (fun world => .returns [] world) fun object _ world =>
    if object = .table 0 then .returns [.function (.closure 7)] { world with
      heap := world.heap.storeField 0 (lit "f") (.function (.closure 7)) }
    else .returns [] world

private theorem caching_rereads {world after : World Server} {value : Value}
    (named : Global caching (lit "f") world value after)
    (entry : (world.heap.tables 2).get (.string (lit "m")) = .boolean true) :
    Rereads caching 2 (lit "m") (lit "f") after value := by
  obtain ⟨results, looked, rfl⟩ := named
  by_cases absent : (world.heap.tables world.heap.globals).get (.string (lit "f")) = .nil
  · by_cases globals : world.heap.globals = 0
    · -- made and kept
      have made : luaVGettable caching (.table world.heap.globals) (.string (lit "f")) world =
          .returns [.function (.closure 7)] { world with
            heap := world.heap.storeField 0 (lit "f") (.function (.closure 7)), clock := world.clock + 1 } := by
        simp only [luaVGettable, absent, Value.isNil, if_true]
        simp only [globals]
        rfl
      rw [made] at looked
      cases looked
      refine ⟨?_, .function (.closure 7), _, Global.raw ?_ (by decide), .inl rfl⟩
      · rw [Heap.get_storeField, if_neg (by simp)]
        exact entry
      · exact (Heap.get_storeField _ _ _ _ _ _).trans (if_pos ⟨globals, rfl⟩)
    · have nothing (time : Nat) : luaVGettable caching (.table world.heap.globals) (.string (lit "f"))
          { world with clock := time } = .returns [] { world with clock := time + 1 } := by
        simp [luaVGettable, absent, Value.isNil, caching, requiring, loading, globals]
      rw [nothing world.clock] at looked
      cases looked
      exact ⟨entry, .nil, _, ⟨[], nothing _, rfl⟩, .inl rfl⟩
  · obtain ⟨-, rfl⟩ := Global.deterministic ⟨results, looked, rfl⟩ (Global.raw rfl absent)
    exact ⟨entry, _, _, ⟨results, looked, rfl⟩, .inl rfl⟩

theorem findLuaFunction_coldWarm_cached :
    LookupsAgree caching 2 (lit "m") (lit "f") [] [] unloaded ∧
    (findLuaFunction caching (some (lit "m")) (some (lit "f")) ⟨[], [], unloaded⟩).value? = some true := by
  have standard : StandardRequire caching 2 unloaded := requiring_standard fun _ _ => rfl
  have loads : (findLuaFunction caching (some (lit "m")) (some (lit "f")) ⟨[], [], unloaded⟩).value? =
      some true := by decide +kernel
  refine ⟨?_, loads⟩
  apply findLuaFunction_coldWarm caching 2 (lit "m") (lit "f") [] [] unloaded standard
  · decide
  · decide
  · decide
  · intro middle value after required named
    exact caching_rereads named (standard.entry required).symm
  · intro none first ran
    rw [ran] at loads
    cases loads

/-- A module that publishes itself, as `module` does, and then fails. -/
private def halfway : Runtime Server :=
  requiring (fun world => .raises (.string (lit "failed")) { world with
      heap := world.heap.store 2
        ((world.heap.tables 2).set (.string (lit "m")) (.table 4) (validKey_string _)) })
    fun _ _ world => .returns [] world

/-- A module that returns nothing, where `_G` makes a new function for each absent global. -/
private def changing : Runtime Server :=
  requiring (fun world => .returns [] world) fun object _ world =>
    if object = .table 0 then .returns [.function (.closure world.clock)] world
    else .returns [] world

/-- The function of a module that failed is found by the second lookup; a global read twice
may be two functions. -/
theorem findLuaFunction_coldWarm_counterexample :
    (StandardRequire halfway 2 unloaded ∧
      ¬ LookupsAgree halfway 2 (lit "m") (lit "f") [] [] unloaded) ∧
    StandardRequire changing 2 unloaded ∧
      ¬ LookupsAgree changing 2 (lit "m") (lit "f") [] [] unloaded := by
  have published : (lookTwice halfway ⟨[], [], unloaded⟩).value? =
      some (false, none, [.table 1, .table 2, .table 4], true, some (.function (.closure 3))) := by
    decide +kernel
  have renewed : (lookTwice changing ⟨[], [], unloaded⟩).value? =
      some (true, some (.function (.closure 5)), [.table 1, .table 2, .boolean true], true,
        some (.function (.closure 6))) := by
    decide +kernel
  refine ⟨⟨requiring_standard fun _ _ => rfl, ?_⟩, requiring_standard fun _ _ => rfl, ?_⟩
  · exact lookTwice_differs published (.inr (by decide)) (by decide)
  · exact lookTwice_differs renewed (.inl rfl) (by decide)

end Agreement

end GameServer
