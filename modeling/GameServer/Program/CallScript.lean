import GameServer.Program.Registered

namespace GameServer

open Lua LuaM

/-! `call_script` as a protected application of the function a module name and a function
name mean. -/

def Lua.CallResult.error? : CallResult H → Option Value
  | .raises error _ => some error
  | _ => none

/-- `call_script(module, func, …)` called from a script. -/
def callScript (rt : Runtime Server) (module func : Bytes) (arguments : List Value)
    (world : World Server) : CallResult Server :=
  callNative (.function (.native 3)) (Int.toNat <$> luaCallScript rt)
    (.string module :: .string func :: arguments) world

/-- The frame in which `call_script` looks the function up: the arguments, with the
traceback function inserted below them. -/
def lookupFrame (module func : Bytes) (arguments : List Value) : List Value :=
  arguments.reverse ++ [.string func, .string module, .function tracebackFunction]

/-- What `call_script` promises: the results of the function two names mean with exactly these
arguments; nothing, and no error, where it fails or there is none. -/
structure AppliesTransparently (rt : Runtime Server) (module func : Bytes) (arguments : List Value)
    (world : World Server) : Prop where
  returned : ∀ function looked results after,
    Resolves rt (cstr module) (cstr func) world function looked →
    luaDCall rt function arguments looked = .returns results after →
    callScript rt module func arguments world = .returns results after
  raised : ∀ function looked error after,
    Resolves rt (cstr module) (cstr func) world function looked →
    luaDCall rt function arguments looked = .raises error after →
    ∃ final, callScript rt module func arguments world = .returns [] final
  unresolved : (∀ function looked, ¬ Resolves rt (cstr module) (cstr func) world function looked) →
    ∃ final, callScript rt module func arguments world = .returns [] final

section Apply

variable {rt : Runtime Server} {module func : Bytes} {arguments : List Value}
  {passed : List (Sink × CharPtr)} {world : World Server}

theorem luaTostring_module (platform : Platform) :
    luaTostring platform 2 ⟨lookupFrame module func arguments, passed, world⟩ =
      .ok (some module) ⟨lookupFrame module func arguments, passed, world⟩ := by
  let above : List Value := arguments.reverse ++ [.string func]
  have address := index2adr_above above (.string module) [.function tracebackFunction]
  have read := luaTolstring_slot platform above [.function tracebackFunction] passed world address
  simpa [above, lookupFrame, luaTostring, Value.toLuaString, Value.converted] using read

theorem luaTostring_func (platform : Platform) :
    luaTostring platform 3 ⟨lookupFrame module func arguments, passed, world⟩ =
      .ok (some func) ⟨lookupFrame module func arguments, passed, world⟩ := by
  have address := index2adr_above arguments.reverse (.string func)
    [.string module, .function tracebackFunction]
  have read := luaTolstring_slot platform arguments.reverse
    [.string module, .function tracebackFunction] passed world address
  simpa [lookupFrame, luaTostring, Value.toLuaString, Value.converted] using read

/-- Up to the lookup: the count of arguments is what is above the two names. -/
theorem luaCallScript_lookup :
    luaCallScript rt ⟨(.string module :: .string func :: arguments).reverse, passed, world⟩ =
      callNamed rt arguments.length (some module) (some func)
        ⟨lookupFrame module func arguments, passed, world⟩ := by
  have inserted : luaInsert 1 ⟨.function tracebackFunction ::
        (.string module :: .string func :: arguments).reverse, passed, world⟩ =
      .ok () ⟨lookupFrame module func arguments, passed, world⟩ := by
    rw [luaInsert_bottom]
    simp [lookupFrame]
  have height : ((lookupFrame module func arguments).length : Int) - 3 = arguments.length := by
    simp only [lookupFrame, List.length_append, List.length_reverse, List.length_cons,
      List.length_nil]
    omega
  have enough : ¬ (.string module :: .string func :: arguments).reverse.length < 2 := by
    simp
  have natural : ¬ (arguments.length : Int) < 0 := by omega
  simp only [luaCallScript, bind_apply, luaGettop_apply, Outcome.ok_bind, enough, if_false,
    luaPushcfunction, push_apply, inserted, height, natural, luaTostring_module, luaTostring_func]
  rfl

theorem luaReplace_name (function : Value) :
    luaReplace 3 ⟨function :: lookupFrame module func arguments, passed, world⟩ =
      .ok () ⟨arguments.reverse ++ function :: [.string module, .function tracebackFunction], passed,
        world⟩ := by
  have address := index2adr_above (function :: arguments.reverse) (.string func)
    [.string module, .function tracebackFunction]
  simp only [List.length_cons, List.cons_append, List.length_reverse] at address
  change index2adr _ 3 = _ at address
  simp only [luaReplace, lookupFrame, bind_apply, getStack_apply, Outcome.ok_bind, address,
    setStack_apply]
  rw [List.set_append_right _ _ (by simp)]
  simp

theorem callFound (function : Value) :
    (do
      luaReplace 3
      if (← luaPcall rt (arguments.length : Int).toNat none 1) ≠ 0 then
        return 0
      else
        let ret : Int := (← luaGettop) - 2
        return if ret < 0 then 0 else ret : EngineM Int)
        ⟨function :: lookupFrame module func arguments, passed, world⟩ =
      match luaDPcall rt (some (.function tracebackFunction)) function arguments world with
      | .returns results after => .ok results.length
          ⟨results.reverse ++ [.string module, .function tracebackFunction], passed, after⟩
      | .raises error after => .ok 0
          ⟨[error, .string module, .function tracebackFunction], passed, after⟩
      | .faults reason after => .fault reason ⟨arguments.reverse ++
          function :: [.string module, .function tracebackFunction], passed, after⟩ := by
  have called := luaPcall_handled rt none arguments function (.function tracebackFunction)
    [.string module] [] passed world
  simp only [List.length_nil, Nat.cast_zero, zero_add, List.singleton_append] at called
  simp only [bind_apply, luaReplace_name, Outcome.ok_bind, Int.toNat_natCast, called]
  cases luaDPcall rt (some (.function tracebackFunction)) function arguments world with
  | returns results after =>
      have count : ((results.reverse ++ [Value.string module, .function tracebackFunction]).length : Int)
          - 2 = results.length := by
        simp only [List.length_append, List.length_reverse, List.length_cons, List.length_nil]
        omega
      have natural : ¬ (results.length : Int) < 0 := by omega
      simp only [finishPcall_returns, adjustResults, Outcome.ok_bind, ne_eq, not_true_eq_false,
        if_false, bind_apply, luaGettop_apply, count, natural, pure_apply]
  | raises error after => simp [errRun]
  | faults reason after => rfl

theorem callScript_found {function : Value} {looked : World Server}
    (resolves : Resolves rt (cstr module) (cstr func) world function looked) :
    callScript rt module func arguments world =
      match luaDPcall rt (some (.function tracebackFunction)) function arguments looked with
      | .returns results after => .returns results after
      | .raises _ after => .returns [] after
      | .faults reason after => .faults reason after := by
  have found := (findLuaFunction_found_iff rt module func (lookupFrame module func arguments) []
    world _).mpr ⟨function, looked, resolves, rfl⟩
  have call := @callFound rt module func arguments (lengthChecks [] module func) looked function
  simp only [lengthChecks] at call
  simp only [callScript, callNative, map_apply, luaCallScript_lookup, callNamed, bind_apply, found,
    Outcome.ok_bind, if_true] at call ⊢
  rw [call]
  cases luaDPcall rt (some (.function tracebackFunction)) function arguments looked with
  | returns results after => simp
  | raises error after => rfl
  | faults reason after => rfl

theorem callScript_missing {state : LuaState Server}
    (missing : findLuaFunction rt (some module) (some func)
        ⟨lookupFrame module func arguments, [], world⟩ = .ok false state) :
    ∃ final, callScript rt module func arguments world = .returns [] final := by
  have pushes := findLuaFunction_pushes rt (some module) (some func)
    (lookupFrame module func arguments) [] world
  rw [missing] at pushes
  obtain ⟨stack, handed, after⟩ := state
  change stack = _ at pushes
  subst pushes
  simp only [callScript, callNative, map_apply, luaCallScript_lookup, callNamed, bind_apply, missing,
    Outcome.ok_bind, Bool.false_eq_true, if_false, reportMissing, luaTostring_module,
    luaTostring_func, logDebug_apply, pure_apply]
  exact ⟨_, rfl⟩

/-- Without a function the call does what the lookup does, and then reports. -/
theorem callScript_unresolved (missing : ∀ function looked,
      ¬ Resolves rt (cstr module) (cstr func) world function looked) :
    (∃ final, callScript rt module func arguments world = .returns [] final) ↔
      Lookable rt (cstr module) (cstr func) world := by
  rw [← findLuaFunction_returns_iff rt module func (lookupFrame module func arguments) [] world]
  cases lookup : findLuaFunction rt (some module) (some func)
      ⟨lookupFrame module func arguments, [], world⟩ with
  | ok isFound found =>
      apply iff_of_true _ ⟨isFound, found, rfl⟩
      cases isFound with
      | false => exact callScript_missing lookup
      | true =>
          obtain ⟨function, looked, resolves, -⟩ :=
            (findLuaFunction_found_iff rt module func _ [] world found).mp lookup
          exact absurd resolves (missing function looked)
  | raise error state =>
      apply iff_of_false
      · intro returned
        obtain ⟨final, ran⟩ := returned
        simp only [callScript, callNative, map_apply, luaCallScript_lookup, callNamed, bind_apply,
          lookup, Outcome.raise_bind] at ran
        cases ran
      · intro returned
        obtain ⟨isFound, found, ran⟩ := returned
        cases ran
  | fault reason state =>
      apply iff_of_false
      · intro returned
        obtain ⟨final, ran⟩ := returned
        simp only [callScript, callNative, map_apply, luaCallScript_lookup, callNamed, bind_apply,
          lookup, Outcome.fault_bind] at ran
        cases ran
      · intro returned
        obtain ⟨isFound, found, ran⟩ := returned
        cases ran

end Apply

/-- Where the traceback function does not break the process, `call_script` keeps its promise
exactly when `_G`, `package.loaded` and `require` let the function be looked up. -/
theorem callScript_transparent_iff (rt : Runtime Server)
    (survives : rt.SurvivesIn (.function tracebackFunction)) (module func : Bytes)
    (arguments : List Value) (world : World Server) :
    AppliesTransparently rt module func arguments world ↔
      Lookable rt (cstr module) (cstr func) world := by
  by_cases resolved : ∃ function looked, Resolves rt (cstr module) (cstr func) world function looked
  · obtain ⟨function, looked, resolves⟩ := resolved
    apply iff_of_true _ resolves.lookable
    constructor
    · intro other lookedToo results after means returned
      rw [callScript_found means, luaDPcall_returns rt returned]
    · intro other lookedToo error after means raised
      obtain ⟨replaced, final, protectedCall⟩ := luaDPcall_raises rt survives raised
      rw [callScript_found means, protectedCall]
      exact ⟨final, rfl⟩
    · exact fun missing => absurd resolves (missing function looked)
  · have missing (function : Value) (looked : World Server) :
        ¬ Resolves rt (cstr module) (cstr func) world function looked :=
      fun resolves => resolved ⟨function, looked, resolves⟩
    rw [← callScript_unresolved missing]
    constructor
    · exact fun promise => promise.unresolved missing
    · intro returned
      exact ⟨fun function looked _ _ resolves => absurd resolves (missing function looked),
        fun function looked _ _ resolves => absurd resolves (missing function looked),
        fun _ => returned⟩

private def moduleLoaded (value : Value) : World Server :=
  .start (.ofTables [.ofFields [("package", .table 1)], .ofFields [("loaded", .table 2)],
    .ofFields [("m", value)], .ofFields [("f", .function (.closure 0))]])

private theorem moduleLoaded_packageLoaded (rt : Runtime Server) (value : Value) :
    packageLoaded rt (moduleLoaded value) = some (2, moduleLoaded value) :=
  LoadedTable.packageLoaded ⟨1, rfl, rfl⟩

theorem callScript_transparent_field :
    AppliesTransparently default (lit "m") (lit "f") [.boolean true] (moduleLoaded (.table 3)) := by
  have survives : (default : Runtime Server).SurvivesIn (.function tracebackFunction) := by
    intro arguments world reason after faulted
    cases faulted
  apply (callScript_transparent_iff default survives (lit "m") (lit "f") [.boolean true]
    (moduleLoaded (.table 3))).mpr
  intro _ _
  refine ⟨2, moduleLoaded (.table 3), moduleLoaded_packageLoaded default _, ?_, ?_⟩
  · intro _ isTrue
    exact absurd isTrue (by decide)
  · intro absent
    exact absurd absent (by decide)

/-- Globals that raise an error when an undeclared one is read. -/
private def strictGlobals : Runtime Server :=
  { (default : Runtime Server) with
    index := fun _ _ world => .raises (.string (lit "undeclared variable")) world }

/-- A module without a value of its own: its function is looked for among the globals, and
the error raised there goes to the script. -/
theorem callScript_transparent_counterexample :
    ¬ AppliesTransparently strictGlobals (lit "m") (lit "f") [] (moduleLoaded (.boolean true)) := by
  intro promise
  have raised : (callScript strictGlobals (lit "m") (lit "f") [] (moduleLoaded (.boolean true))).error? =
      some (.string (lit "undeclared variable")) := by
    decide +kernel
  have missing (function : Value) (looked : World Server) :
      ¬ Resolves strictGlobals (cstr (lit "m")) (cstr (lit "f")) (moduleLoaded (.boolean true))
        function looked := by
    intro resolves
    have found := (findLuaFunction_found_iff strictGlobals (lit "m") (lit "f") [] []
      (moduleLoaded (.boolean true)) _).mpr ⟨function, looked, resolves, rfl⟩
    have unfound : (findLuaFunction strictGlobals (some (lit "m")) (some (lit "f"))
        ⟨[], [], moduleLoaded (.boolean true)⟩).value? = none := by
      decide +kernel
    rw [found] at unfound
    cases unfound
  obtain ⟨final, ran⟩ := promise.unresolved missing
  rw [ran] at raised
  cases raised

end GameServer
