import GameServer.Lua.Handing
import GameServer.Program.Neutral
import GameServer.Program.Report

namespace GameServer

open Lua LuaM

/-! The C functions scripts can call, and the pointers they hand on. -/

/-- The registered functions, with what the libraries below do during the call. -/
inductive CFunction where
  | root
  | catch_
  | this (records : Nat → Option LuaDebug)
  | callScript
  | writeFile (outcome : FileOutcome) (datetime : Bytes)
  | encodeUri (allocated : Bool)
  | decodeUri (allocated : Bool)
  | encodeHeader (fuel : Nat)
  | decodeHeader
  | get (allocation : Allocation) (network : Network)
  | post (allocation : Allocation) (network : Network)
  | isArray (fuel : Nat)

/-- The body of the C function, with the number of results it returns. -/
def CFunction.body (rt : Runtime Server) : CFunction → EngineM Int
  | root => do return (← luaRoot)
  | catch_ => do return (← luaCatch rt)
  | this records => do return (← luaThis rt records)
  | callScript => luaCallScript rt
  | writeFile outcome datetime => do return (← luaWriteFile rt outcome datetime)
  | encodeUri allocated => do return (← luaHttpUriEncode rt allocated)
  | decodeUri allocated => do return (← luaHttpUriDecode rt allocated)
  | encodeHeader fuel => do return (← luaHttpUriHeaderEncode rt fuel)
  | decodeHeader => do return (← luaHttpUriHeaderDecode)
  | get allocation network => do return (← luaHttpRequestGet rt allocation network)
  | post allocation network => do return (← luaHttpRequestPost rt allocation network)
  | isArray fuel => do return (← testArray rt fuel)

variable {rt : Runtime Server}

/-! ## Functions that hand on no NULL -/

theorem hands_modifyHost (change : Server → Server) : (modifyHost change).HandsNoNull :=
  fun _ sound => sound

theorem hands_luaThis (records : Nat → Option LuaDebug) : (luaThis rt records).HandsNoNull := by
  have answered (name : Bytes) :
      (do luaPushstring (some name); return 1 : EngineM Nat).HandsNoNull :=
    hands_bind (hands_luaPushstring _) fun _ => hands_pure _
  have level : (levelArgument rt).HandsNoNull :=
    hands_bind hands_luaGettop fun _ => hands_ite
      (hands_bind (hands_look 1 fun value => (value.bind (Value.toNumber rt.toPlatform)).getD _)
        fun _ => hands_pure _) (hands_pure _)
  apply hands_bind level
  intro level
  dsimp only
  split
  · exact answered _
  · apply hands_ite (answered _)
    apply hands_ite (answered _)
    exact hands_bind (Buffer.hands_addlstring _ _ _) fun b =>
      hands_bind (Buffer.hands_pushresult _ b) fun _ => hands_pure _

theorem hands_evbufferAddPrintf (buffer format : Bytes) (arguments : List Printf.Arg) :
    (evbufferAddPrintf buffer (some format) arguments).HandsNoNull := by
  apply hands_bind (hands_read _ _)
  intro text
  split
  · exact hands_pure _
  · exact hands_crash _

theorem hands_evbufferWriteToFile (outcome : FileOutcome) (file : CharPtr) (buffer : Bytes) :
    (evbufferWriteToFile outcome file buffer).HandsNoNull := by
  refine hands_ite ?_ (hands_modifyHost _)
  apply hands_bind (hands_modifyHost _)
  intro _
  apply hands_bind (hands_modifyHost _)
  intro _
  apply hands_bind (hands_ite (hands_modifyHost _) (hands_pure _))
  intro _
  exact hands_bind (hands_modifyHost _) fun _ => hands_modifyHost _

theorem hands_logFile (outcome : FileOutcome) (file : CharPtr) (message : Bytes) :
    (logFile outcome file (some message)).HandsNoNull := by
  apply hands_ite (hands_pure _)
  exact hands_bind (hands_evbufferAddPrintf _ _ _) fun _ =>
    hands_bind (hands_evbufferAddPrintf _ _ _) fun _ => hands_evbufferWriteToFile _ _ _

theorem hands_logFileWithTime (outcome : FileOutcome) (datetime : Bytes) (file : CharPtr)
    (message : Bytes) : (logFileWithTime outcome datetime file (some message)).HandsNoNull := by
  apply hands_ite (hands_pure _)
  apply hands_bind (hands_evbufferAddPrintf _ _ _)
  intro _
  exact hands_bind (hands_evbufferAddPrintf _ _ _) fun _ =>
    hands_bind (hands_evbufferAddPrintf _ _ _) fun _ => hands_evbufferWriteToFile _ _ _

theorem hands_answer (answer : Bool) :
    (do luaPushboolean answer; return 1 : EngineM Nat).HandsNoNull :=
  hands_bind (hands_push _) fun _ => hands_pure _

theorem hands_luaWriteFile (outcome : FileOutcome) (datetime : Bytes) :
    (luaWriteFile rt outcome datetime).HandsNoNull := by
  apply hands_bind hands_luaGettop
  intro top
  apply hands_ite (hands_answer _)
  apply hands_bind (hands_luaTolstring _ _)
  intro file
  apply hands_ite (hands_answer _)
  apply hands_bind (hands_look 2 fun value => (value.map Value.truthy).getD false)
  intro isWithTime
  apply hands_bind (hands_luaTolstring _ _)
  intro msg
  cases msg with
  | none => exact hands_answer false
  | some msg =>
      refine hands_ite (hands_answer _) (hands_ite ?_ ?_)
      · exact hands_bind (hands_logFileWithTime _ _ _ _) fun _ => hands_answer _
      · exact hands_bind (hands_logFile _ _ _) fun _ => hands_answer _

theorem hands_pushText (bytes : Bytes) :
    (do luaPushstring (some bytes); return 1 : EngineM Nat).HandsNoNull :=
  hands_bind (hands_luaPushstring _) fun _ => hands_pure _

theorem hands_luaHttpUriEncode (allocated : Bool) : (luaHttpUriEncode rt allocated).HandsNoNull := by
  apply hands_bind hands_luaGettop
  intro top
  apply hands_ite (hands_pushText _)
  apply hands_bind (hands_look 1 fun value => (value.map Value.isString).getD false)
  intro isString
  apply hands_ite (hands_pushText _)
  apply hands_bind (hands_luaTolstring _ _)
  intro uri
  cases uri with
  | none => exact hands_pushText []
  | some uri =>
      apply hands_ite (hands_pushText _)
      apply hands_bind (hands_read _ uri)
      intro bytes
      exact hands_ite (hands_pushText _) (hands_pushText _)

theorem hands_luaHttpUriDecode (allocated : Bool) : (luaHttpUriDecode rt allocated).HandsNoNull := by
  apply hands_bind hands_luaGettop
  intro top
  apply hands_ite (hands_pushText _)
  apply hands_bind (hands_look 1 fun value => (value.map Value.isString).getD false)
  intro isString
  apply hands_ite (hands_pushText _)
  apply hands_bind (hands_luaTolstring _ _)
  intro uri
  cases uri with
  | none => exact hands_pushText []
  | some uri =>
      apply hands_ite (hands_pushText _)
      apply hands_bind (hands_read _ uri)
      intro bytes
      exact hands_ite (hands_pushText _) (hands_bind (hands_push _) fun _ => hands_pure _)

theorem hands_headerEncodeFrom (base : Int) (fuel : Nat) (b : Buffer) (isHead : Bool) :
    (headerEncodeFrom rt base fuel b isHead).HandsNoNull := by
  induction fuel generalizing b isHead with
  | zero => exact hands_crash _
  | succ fuel ih =>
      refine hands_bind (hands_luaNext base) fun more => hands_ite ?_ (hands_pure _)
      apply hands_bind (hands_ite (hands_pure _) (Buffer.hands_addlstring _ _ _))
      intro b
      apply hands_bind (hands_luaPushvalue _)
      intro _
      apply hands_bind (Buffer.hands_addvalue _ _)
      intro b
      apply hands_bind (Buffer.hands_addlstring _ _ _)
      intro b
      exact hands_bind (Buffer.hands_addvalue _ _) fun b => ih b false

theorem hands_luaHttpUriHeaderEncode (fuel : Nat) : (luaHttpUriHeaderEncode rt fuel).HandsNoNull := by
  apply hands_bind hands_luaGettop
  intro base
  apply hands_ite (hands_pushText _)
  apply hands_bind (hands_look base fun value => (value.map Value.isTable).getD false)
  intro isTable
  apply hands_ite (hands_pushText _)
  apply hands_bind (hands_push _)
  intro _
  apply hands_bind (hands_headerEncodeFrom _ _ _ _)
  intro b
  apply hands_bind (Buffer.hands_pushresult _ b)
  intro _
  apply hands_bind (hands_luaReplace _)
  intro _
  exact hands_bind (hands_luaSettop _) fun _ => hands_pure _

theorem hands_luaTableIsArrayFrom (base : Int) (size fuel cnt : Nat) :
    (luaTableIsArrayFrom rt base size fuel cnt).HandsNoNull := by
  induction fuel generalizing cnt with
  | zero => exact hands_crash _
  | succ fuel ih =>
      refine hands_bind (hands_luaNext base) fun more => hands_ite ?_ ?_
      · apply hands_bind (hands_luaPop 1)
        intro _
        apply hands_bind (hands_look (-1) fun value => (value.bind (Value.toNumber rt.toPlatform)).isSome)
        intro isNumber
        apply hands_ite (hands_pure _)
        apply hands_bind (hands_look (-1) fun value => (value.bind (Value.toNumber rt.toPlatform)).getD _)
        intro number
        exact hands_ite (hands_pure _) (ih _)
      · exact hands_bind (hands_luaSettop _) fun _ => hands_pure _

theorem hands_testArray (fuel : Nat) : (testArray rt fuel).HandsNoNull := by
  refine hands_bind ?_ fun isArray => hands_ite ?_ ?_
  · apply hands_bind hands_luaGettop
    intro base
    apply hands_ite (hands_pure _)
    apply hands_bind (hands_look base fun value => (value.map Value.isTable).getD false)
    intro isTable
    apply hands_ite (hands_pure _)
    apply hands_bind (hands_luaObjlen _ _)
    intro size
    exact hands_bind (hands_push _) fun _ => hands_luaTableIsArrayFrom _ _ _ _
  · exact hands_bind (hands_push _) fun _ => hands_pure _
  · exact hands_bind (hands_push _) fun _ => hands_pure _

theorem hands_luaRoot : (luaRoot : EngineM Nat).HandsNoNull :=
  hands_bind (fun _ sound => sound) fun _ => hands_pure _

/-! ## `find_lua_function` -/

theorem hands_loadLuaLibrary (module : CharPtr) : (loadLuaLibrary rt module).HandsNoNull := by
  apply hands_bind hands_luaGettop
  intro base
  apply hands_bind (hands_push _)
  intro _
  apply hands_bind (hands_luaGetglobal _ _)
  intro _
  apply hands_bind (hands_luaPushstring _)
  intro _
  refine hands_bind (hands_luaPcall _ _ _ _) fun status => hands_ite ?_ ?_
  · exact hands_bind (hands_luaSettop _) fun _ => hands_pure _
  · exact hands_bind (hands_luaRemove _) fun _ => hands_pure _

theorem hands_keepFunction (base moduleIndex : Int) :
    (keepFunction base moduleIndex).HandsNoNull := by
  refine hands_bind (hands_look _ _) fun isFunction => hands_ite ?_ ?_
  · exact hands_bind (hands_luaReplace _) fun _ => hands_bind (hands_luaSettop _) fun _ => hands_pure _
  · exact hands_bind (hands_luaSettop _) fun _ => hands_pure _

theorem hands_selectFunction (base moduleIndex : Int) (func : CharPtr) :
    (selectFunction rt base moduleIndex func).HandsNoNull := by
  have dropped : (do luaSettop base; return false : EngineM Bool).HandsNoNull :=
    hands_bind (hands_luaSettop _) fun _ => hands_pure _
  refine hands_bind (hands_look _ _) fun isTable => hands_ite ?_ ?_
  · exact hands_bind (hands_luaPushstring _) fun _ => hands_bind (hands_luaRawget _) fun _ =>
      hands_keepFunction _ _
  apply hands_bind (hands_look _ _)
  intro isBoolean
  apply hands_ite dropped
  apply hands_bind (hands_look _ _)
  intro isTrue
  apply hands_bind (hands_luaPop 1)
  intro _
  exact hands_ite (hands_bind (hands_luaGetglobal _ _) fun _ => hands_keepFunction _ _) dropped

theorem hands_findLuaFunction (module func : Bytes) :
    (findLuaFunction rt (some module) (some func)).HandsNoNull := by
  apply hands_bind (hands_strlen _)
  intro length
  apply hands_ite (hands_pure _)
  apply hands_bind (hands_strlen _)
  intro length
  apply hands_ite (hands_pure _)
  apply hands_bind hands_luaGettop
  intro base
  apply hands_bind (hands_luaPushstring _)
  intro _
  apply hands_bind hands_luaGettop
  intro moduleIndex
  apply hands_bind (hands_luaLFindtable rt _)
  intro _
  apply hands_bind (hands_luaPushvalue _)
  intro _
  apply hands_bind (hands_luaRawget _)
  intro _
  refine hands_bind (hands_look _ _) fun isNil => hands_ite ?_ (hands_selectFunction _ _ _)
  refine hands_bind (hands_loadLuaLibrary _) fun loaded => hands_ite ?_ (hands_selectFunction _ _ _)
  exact hands_bind (hands_luaSettop _) fun _ => hands_pure _

/-! ## `call_script` -/

theorem luaInsert_bottom (value : Value) (stack : List Value) (passed : List (Sink × CharPtr))
    (world : World Server) :
    luaInsert 1 ⟨value :: stack, passed, world⟩ = .ok () ⟨stack ++ [value], passed, world⟩ := by
  simp [luaInsert, index2adr]

def reportMissing (rt : Runtime Server) : EngineM Int := do
  let module ← luaTostring rt.toPlatform 2
  let func ← luaTostring rt.toPlatform 3
  logDebug "lua call_script: cannot find %s:%s" [.str module, .str func]
  return 0

/-- `call_script` from where it has read the two names. -/
def callNamed (rt : Runtime Server) (args : Int) (module func : CharPtr) : EngineM Int := do
  if ← findLuaFunction rt module func then
    luaReplace 3
    if (← luaPcall rt args.toNat none 1) ≠ 0 then
      return 0
    else
      let ret : Int := (← luaGettop) - 2
      return if ret < 0 then 0 else ret
  else reportMissing rt

/-- The traceback function lies below the arguments, which are read where they are. -/
theorem luaCallScript_apply {arguments : List Value} (enough : 2 ≤ arguments.length)
    (passed : List (Sink × CharPtr)) (world : World Server) :
    ∃ (frame : List Value) (args : Int), luaCallScript rt ⟨arguments.reverse, passed, world⟩ =
        callNamed rt args (argumentText rt.toPlatform arguments 0)
          (argumentText rt.toPlatform arguments 1) ⟨frame.reverse, passed, world⟩ ∧
      ∀ position, argumentText rt.toPlatform frame (position + 1) =
        argumentText rt.toPlatform arguments position := by
  let framed : List Value := .function tracebackFunction :: arguments
  let first := convertArgument rt.toPlatform framed 1
  let second := convertArgument rt.toPlatform first 2
  have readModule := @luaTolstring_argument rt.toPlatform Server framed 2 1 rfl passed world
  have readFunc := @luaTolstring_argument rt.toPlatform Server first 3 2 rfl passed world
  have notShort : ¬ arguments.length < 2 := by omega
  have shifted (position : Nat) : argumentText rt.toPlatform framed (position + 1) =
      argumentText rt.toPlatform arguments position := rfl
  simp only [first, argumentText_convertArgument, shifted] at readModule readFunc
  simp only [framed, List.reverse_cons] at readModule
  simp only [framed] at readFunc
  let args : Int := (arguments.reverse ++ [Value.function tracebackFunction]).length - 3
  refine ⟨second, if args < 0 then 0 else args, ?_, ?_⟩
  · simp only [luaCallScript, bind_apply, luaGettop_apply, Outcome.ok_bind, List.length_reverse,
      notShort, if_false, luaPushcfunction, push_apply, luaInsert_bottom, luaTostring, readModule,
      readFunc]
    rfl
  · intro position
    rw [argumentText_convertArgument, argumentText_convertArgument, shifted]

theorem reportMissing_handsNoNull_iff (frame : List Value) {passed : List (Sink × CharPtr)}
    (sound : Sound passed) (world : World Server) :
    (reportMissing rt ⟨frame.reverse, passed, world⟩).HandsNoNull ↔
      (argumentText rt.toPlatform frame 1).isSome ∧ (argumentText rt.toPlatform frame 2).isSome := by
  have readModule := @luaTolstring_argument rt.toPlatform Server frame 2 1 rfl passed world
  have readFunc := @luaTolstring_argument rt.toPlatform Server
    (convertArgument rt.toPlatform frame 1) 3 2 rfl passed world
  rw [argumentText_convertArgument] at readFunc
  simp only [reportMissing, bind_apply, luaTostring, readModule, readFunc, Outcome.ok_bind,
    logDebug_apply, pure_apply, Outcome.HandsNoNull, Outcome.all_ok, stringArguments,
    Option.isSome_iff_ne_none]
  rw [← List.singleton_append, ← List.append_assoc, sound_append, sound_append]
  constructor
  · intro sound
    obtain ⟨⟨-, module⟩, func⟩ := sound
    exact ⟨module, func⟩
  · intro present
    obtain ⟨module, func⟩ := present
    exact ⟨⟨sound, module⟩, func⟩

theorem luaCallScript_handsNoNull_iff (arguments : List Value) (world : World Server) :
    (luaCallScript rt ⟨arguments.reverse, [], world⟩).HandsNoNull ↔ arguments.length < 2 ∨
      (argumentText rt.toPlatform arguments 0).isSome ∧ (argumentText rt.toPlatform arguments 1).isSome := by
  by_cases short : arguments.length < 2
  · refine iff_of_true ?_ (.inl short)
    simp only [luaCallScript, bind_apply, luaGettop_apply, Outcome.ok_bind, List.length_reverse,
      short, if_true, pure_apply]
    exact sound_nil
  obtain ⟨frame, args, called, same⟩ :=
    @luaCallScript_apply rt arguments (by omega) [] world
  have report {passed : List (Sink × CharPtr)} (sound : Sound passed) (after : World Server) :
      (reportMissing rt ⟨frame.reverse, passed, after⟩).HandsNoNull ↔ _ :=
    reportMissing_handsNoNull_iff frame sound after
  simp only [same] at report
  rw [called, or_iff_right short]
  cases moduleText : argumentText rt.toPlatform arguments 0 with
  | none =>
      refine iff_of_false (fun sound => ?_) (by simp)
      simp only [callNamed, findLuaFunction, bind_apply, strlen_none, Outcome.fault_bind] at sound
      exact (sound_append.mp sound).2 rfl
  | some module =>
  cases funcText : argumentText rt.toPlatform arguments 1 with
  | none =>
      refine iff_of_false (fun sound => ?_) (by simp)
      by_cases empty : cstr module = []
      · have missing : callNamed rt args (some module) none ⟨frame.reverse, [], world⟩ =
            reportMissing rt ⟨frame.reverse, [(.strlen, some module)], world⟩ := by
          simp [callNamed, findLuaFunction, empty]
        rw [missing] at sound
        have both := (report (sound_append_some sound_nil .strlen module) world).mp sound
        simp [funcText] at both
      · have nonempty : ¬ (cstr module).length < 1 := by simpa using empty
        simp only [callNamed, findLuaFunction, bind_apply, strlen_some, Outcome.ok_bind, cond_apply,
          nonempty, if_false, strlen_none, Outcome.fault_bind] at sound
        exact (sound_append.mp sound).2 rfl
  | some func =>
      refine iff_of_true ?_ (by simp)
      have lookup : (findLuaFunction rt (some module) (some func)
          ⟨frame.reverse, [], world⟩).HandsNoNull := hands_findLuaFunction module func _ sound_nil
      have pushes := findLuaFunction_pushes rt (some module) (some func) frame.reverse [] world
      rw [callNamed, bind_apply]
      cases ran : findLuaFunction rt (some module) (some func) ⟨frame.reverse, [], world⟩ with
      | raise error state => rw [ran] at lookup; exact lookup
      | fault reason state => rw [ran] at lookup; exact lookup
      | ok isFound state =>
          rw [ran] at lookup pushes
          cases isFound with
          | false =>
              obtain ⟨stack, passed, after⟩ := state
              cases pushes
              exact (report lookup after).mpr (by simp [moduleText, funcText])
          | true =>
              have rest : (do
                  luaReplace 3
                  if (← luaPcall rt args.toNat none 1) ≠ 0 then return 0
                  let ret : Int := (← luaGettop) - 2
                  return if ret < 0 then 0 else ret : EngineM Int).HandsNoNull := by
                apply hands_bind (hands_luaReplace _)
                intro _
                apply hands_bind (hands_luaPcall _ _ _ _)
                intro status
                apply hands_ite (hands_pure _)
                exact hands_bind hands_luaGettop fun _ => hands_pure _
              exact rest state lookup

/-! ## `catch` -/

def finishCatch (rt : Runtime Server) (status : Nat) : EngineM Nat := do
  logCaught rt status
  luaRemove 1
  return 0

/-- The protected call of `catch`, with the traceback function as its handler and, where
there are no arguments, as the function called. -/
theorem luaCatch_apply (arguments : List Value) (world : World Server) :
    ∃ below, (below = [] ∨ below = [.function tracebackFunction]) ∧
      luaCatch rt ⟨arguments.reverse, [], world⟩ =
        (finishPcall none below (luaDPcall rt (some (.function tracebackFunction))
          (arguments.headD (.function tracebackFunction)) arguments.tail world)
          ⟨arguments.reverse ++ [.function tracebackFunction], [], world⟩).bind
            fun status after => finishCatch rt status after := by
  cases arguments with
  | nil =>
      refine ⟨[], .inl rfl, ?_⟩
      simp [luaCatch, luaPushcfunction, luaInsert_bottom, luaPcall, handlerAt, valueAt, index2adr]
      rfl
  | cons first rest =>
      refine ⟨[.function tracebackFunction], .inr rfl, ?_⟩
      have called := luaPcall_handled rt none rest first (.function tracebackFunction) [] [] [] world
      have count : (rest.length : Int) + (1 + 1) - 2 = rest.length := by omega
      have nonnegative : ¬ (rest.length : Int) < 0 := by omega
      simp only [List.nil_append, List.length_nil, Nat.cast_zero, zero_add] at called
      simp only [luaCatch, luaPushcfunction, bind_apply, push_apply, Outcome.ok_bind, luaInsert_bottom,
        luaGettop_apply, List.reverse_cons, List.append_assoc, List.singleton_append,
        List.length_append, List.length_reverse, List.length_cons, List.length_nil, zero_add,
        Nat.cast_add, Nat.cast_one, List.headD_cons, List.tail_cons, count, nonnegative, if_false,
        Int.toNat_natCast, called]
      rfl

theorem luaCatch_handsNoNull_iff (arguments : List Value) (world : World Server) :
    (luaCatch rt ⟨arguments.reverse, [], world⟩).HandsNoNull ↔
      ∀ error after, luaDPcall rt (some (.function tracebackFunction))
        (arguments.headD (.function tracebackFunction)) arguments.tail world = .raises error after →
          error.isString = true := by
  obtain ⟨below, height, ran⟩ := @luaCatch_apply rt arguments world
  rw [ran]
  cases ended : luaDPcall rt (some (.function tracebackFunction))
      (arguments.headD (.function tracebackFunction)) arguments.tail world with
  | returns results after =>
      refine iff_of_true ?_ fun _ _ raised => by cases raised
      have finished : (finishCatch rt 0).HandsNoNull :=
        hands_bind (hands_pure _) fun _ => hands_bind (hands_luaRemove 1) fun _ => hands_pure _
      exact finished _ sound_nil
  | faults reason after => exact iff_of_true sound_nil fun _ _ raised => by cases raised
  | raises error after =>
      have converts : error.toLuaString rt.toPlatform ≠ none ↔ error.isString = true := by
        rw [← Option.isSome_iff_ne_none, Value.toLuaString_isSome]
      have only : (∀ other later, (CallResult.raises error after : CallResult Server) =
          .raises other later → other.isString = true) ↔ error.isString = true :=
        ⟨fun all => all error after rfl, fun isString other later same => by cases same; exact isString⟩
      rw [only, ← converts, finishPcall_raises, Outcome.ok_bind]
      rcases height with rfl | rfl <;>
        simp [finishCatch, logCaught, errRun, luaRemove, index2adr, stringArguments,
          Outcome.HandsNoNull, Sound]

/-! ## `http.get` and `http.post` -/

theorem hands_evhttpRequest (request : Nat) : (evhttpRequest request).HandsNoNull := by
  refine hands_bind (fun _ sound => sound) fun server => ?_
  split
  · exact hands_pure _
  · exact hands_crash _

/-- A request that does not complete at once. -/
theorem hands_evhttpMakeRequest {make : MakeRequest} (late : ∀ response, make ≠ .completed response)
    (callback : Response → Nat → EngineM Unit) (connection request : Nat) (command : Command)
    (uri : Bytes) :
    (evhttpMakeRequest make callback connection request command (some uri)).HandsNoNull := by
  apply hands_bind (hands_read _ uri)
  intro target
  apply hands_bind (hands_evhttpRequest _)
  intro object
  cases make with
  | rejected => exact hands_bind (hands_modifyHost _) fun _ => hands_pure _
  | accepted => exact hands_bind (hands_modifyHost _) fun _ => hands_pure _
  | completed response => exact absurd rfl (late response)

theorem hands_evhttpConnectionBaseNew (succeeds : Bool) (address : Bytes) (port : Nat) :
    (evhttpConnectionBaseNew succeeds (some address) port).HandsNoNull :=
  hands_bind (hands_read _ address) fun _ =>
    hands_ite (fun _ sound => sound) (hands_pure _)

theorem httpRequestNew_handsNoNull_iff (network : Network) (address : Bytes) (port : Int)
    (callback : Response → Nat → EngineM Unit) (arg : Nat) (command : Command) (uri : CharPtr)
    (stack : List Value) {passed : List (Sink × CharPtr)} (sound : Sound passed) (world : World Server) :
    (httpRequestNew network (some address) port callback arg command uri
        ⟨stack, passed, world⟩).HandsNoNull ↔
      (network.connection = true → network.request = true → ∃ target, uri = some target ∧
        ∀ response, network.make = .completed response → (callback response arg
          ⟨stack, passed ++ [(.libevent, some address)] ++ [(.libevent, some target)],
            requestMade world arg ⟨cstr address, intToUshort port⟩⟩).HandsNoNull) := by
  obtain ⟨connection, request, make⟩ := network
  have connected : Sound (passed ++ [(.libevent, some address)]) := sound_append_some sound .libevent address
  cases connection with
  | false => exact iff_of_true connected (by simp)
  | true =>
  cases request with
  | false => exact iff_of_true connected (by simp)
  | true =>
  cases uri with
  | none =>
      apply iff_of_false
      · exact fun handed => (sound_append.mp handed).2 rfl
      · intro safe
        obtain ⟨target, same, -⟩ := safe rfl rfl
        cases same
  | some uri =>
  simp only [true_imp_iff, Option.some.injEq, exists_eq_left']
  by_cases early : ∃ response, make = .completed response
  · obtain ⟨response, rfl⟩ := early
    rw [httpRequestNew_completed]
    refine (Outcome.handsNoNull_bind_iff fun _ after => ?_).trans ?_
    · exact Eq.refl after.passed
    exact ⟨fun handed other same => by cases same; exact handed, fun all => all response rfl⟩
  · have late (response : Response) : make ≠ .completed response := fun same => early ⟨response, same⟩
    refine iff_of_true ?_ fun response same => absurd same (late response)
    refine hands_bind (hands_evhttpConnectionBaseNew _ _ _) (fun connection => ?_) _ sound
    split
    · exact hands_pure _
    refine hands_bind (hands_ite (fun _ sound => sound) (hands_pure _)) fun request => ?_
    split
    · exact hands_bind (hands_modifyHost _) fun _ => hands_pure _
    refine hands_bind (hands_evhttpMakeRequest late _ _ _ _ uri) fun made => hands_ite ?_ (hands_pure _)
    exact hands_bind (hands_modifyHost _) fun _ => hands_bind (hands_modifyHost _) fun _ =>
      hands_pure _

/-- Every error of the function two names mean is a string or a number. -/
def RaisesText (rt : Runtime Server) (table function : Bytes) (world : World Server) : Prop :=
  ∀ callee looked, Resolves rt table function world callee looked →
    ∀ error after, luaDCall rt callee [] looked = .raises error after → error.isString = true

theorem runCallback_handsNoNull_iff (table function : Bytes) (base : List Value)
    {passed : List (Sink × CharPtr)} (sound : Sound passed) (world : World Server) :
    (runCallback rt (some table) (some function) ⟨base, passed, world⟩).HandsNoNull ↔
      RaisesText rt (cstr table) (cstr function) world := by
  have checked : Sound (lengthChecks passed table function) :=
    sound_append_some (sound_append_some sound _ table) _ function
  by_cases resolved : ∃ callee looked, Resolves rt (cstr table) (cstr function) world callee looked
  · obtain ⟨callee, looked, resolved⟩ := resolved
    have only : RaisesText rt (cstr table) (cstr function) world ↔ ∀ error after,
        luaDCall rt callee [] looked = .raises error after → error.isString = true := by
      refine ⟨fun all => all callee looked resolved, fun text other later resolvedToo => ?_⟩
      obtain ⟨rfl, rfl⟩ := resolved.deterministic resolvedToo
      exact text
    rw [runCallback_resolved resolved, only]
    cases luaDCall rt callee [] looked with
    | returns results after => exact iff_of_true checked fun _ _ raised => by cases raised
    | faults reason after => exact iff_of_true checked fun _ _ raised => by cases raised
    | raises error after =>
        have handed : (Outcome.ok () (⟨error.converted rt.toPlatform :: base,
            lengthChecks passed table function ++ [(.printf, error.toLuaString rt.toPlatform)],
            logged after "%s" [.str (error.toLuaString rt.toPlatform)]⟩ : LuaState Server)).HandsNoNull ↔
            error.isString = true := by
          rw [← Value.toLuaString_isSome rt.toPlatform, Option.isSome_iff_ne_none]
          exact sound_append.trans (and_iff_right checked)
        rw [handed]
        exact ⟨fun isString other later same => by cases same; exact isString,
          fun all => all error after rfl⟩
  · have missing (callee : Value) (looked : World Server) :
        ¬ Resolves rt (cstr table) (cstr function) world callee looked :=
      fun found => resolved ⟨callee, looked, found⟩
    apply iff_of_true
    · rw [runCallback_unresolved missing]
      refine (Outcome.handsNoNull_bind_iff fun _ after => ?_).mpr ?_
      · exact Eq.refl after.passed
      · exact hands_findLuaFunction table function _ sound
    · exact fun callee looked found => absurd found (missing callee looked)

theorem httpRequestCb_handsNoNull_iff {names : CallbackNames} {junk : UInt8} (base : List Value)
    {passed : List (Sink × CharPtr)} (sound : Sound passed) {world : World Server}
    (live : world.host.pools.live? names.pool =
      some (callbackMemory names.pool names.table names.function junk)) (response : Response) :
    (httpRequestCb rt response names.pool ⟨base, passed, world⟩).HandsNoNull ↔
      ∀ code, response = some code →
        RaisesText rt (cstr names.table) (cstr names.function) (announced code names world) := by
  cases response with
  | none => exact iff_of_true sound fun _ missing => by cases missing
  | some code =>
      have noted : Sound (passed ++
          [(.printf, some (cstr names.table)), (.printf, some (cstr names.function))]) := by
        have both := sound_append_some (sound_append_some sound .printf (cstr names.table)) .printf
          (cstr names.function)
        simpa using both
      have ended (after : LuaState Server) :
          ((callbackInfo names.pool after).bind fun ptr read => poolFree ptr.pool read).All fun state =>
            state.passed = after.passed := by
        simp only [callbackInfo, poolMemory, bind_apply, getHost_apply, Outcome.ok_bind]
        cases after.world.host.pools.live? names.pool with
        | none => exact Eq.refl after.passed
        | some memory =>
            obtain ⟨info, blocks⟩ := memory
            cases info <;> exact Eq.refl after.passed
      rw [httpRequestCb_announced rt code live, Outcome.handsNoNull_bind_iff fun _ after => ended after,
        runCallback_handsNoNull_iff _ _ _ noted]
      simp only [cstr_cstr, Option.some.injEq, forall_eq']

/-- `http.get` and `http.post` check every argument they use but the URI.  Of a request that
completes at once the callback logs the error of the function it calls. -/
def RequestSafe (rt : Runtime Server) (allocation : Allocation) (network : Network)
    (arguments : List Value) (world : World Server) : Prop :=
  arguments.length < 3 ∨ ∃ ip, argumentText rt.toPlatform arguments 0 = some ip ∧
    ∀ table function, isIpText (cstr ip) = true →
      argumentText rt.toPlatform arguments 3 = some table →
      argumentText rt.toPlatform arguments 4 = some function →
      allocation.complete = true → network.connection = true → network.request = true →
      (argumentText rt.toPlatform arguments 2).isSome ∧
      ∀ code, network.make = .completed (some code) →
        RaisesText rt (cstr table) (cstr function)
          (announced code ⟨world.host.pools.length, table, function⟩
            (calledBack rt.toPlatform arguments ip table function allocation.junk world))

theorem finishRequest_handsNoNull_iff (pool : Nat) (outcome : Outcome Server (Option Nat)) :
    (outcome.bind fun request after => finishRequest pool request after).HandsNoNull ↔
      outcome.HandsNoNull := by
  cases outcome with
  | ok request state => cases request <;> exact Iff.rfl
  | raise error state => exact Iff.rfl
  | fault reason state => exact Iff.rfl

theorem sendRequest_handsNoNull_iff (rt : Runtime Server) (command : Command)
    (allocation : Allocation) (network : Network) (ip : Bytes) (port : Int)
    (uri : CharPtr) {table function : Bytes} (tableFits : table.length + 1 < 4294967296)
    (functionFits : function.length + 1 < 4294967296) (stack : List Value)
    {passed : List (Sink × CharPtr)} (sound : Sound passed) (world : World Server) :
    (sendRequest rt command allocation network ⟨some ip, port, uri, table, function⟩
        ⟨stack, passed, world⟩).HandsNoNull ↔
      (allocation.complete = true → network.connection = true → network.request = true →
        uri.isSome ∧ ∀ code, network.make = .completed (some code) →
          RaisesText rt (cstr table) (cstr function)
            (announced code ⟨world.host.pools.length, table, function⟩
              (requestMade (withCallback world table function allocation.junk) world.host.pools.length
                ⟨cstr ip, intToUshort port⟩))) := by
  rw [sendRequest, bind_apply]
  rcases newCallbackInfo_apply allocation tableFits functionFits stack passed world with
    ⟨complete, ran⟩ | ⟨incomplete, -, ran⟩ | ⟨incomplete, memory, ran⟩
  case inr.inl =>
    rw [ran]
    exact iff_of_true sound fun complete => by simp [incomplete] at complete
  case inr.inr =>
    rw [ran]
    exact iff_of_true sound fun complete => by simp [incomplete] at complete
  have handed : Sound (passed ++ [(.strncpy, some table)] ++ [(.strncpy, some function)]) :=
    sound_append_some (sound_append_some sound _ table) _ function
  have live : (requestMade (withCallback world table function allocation.junk) world.host.pools.length
      ⟨cstr ip, intToUshort port⟩).host.pools.live? world.host.pools.length =
      some (callbackMemory world.host.pools.length table function allocation.junk) :=
    Ledger.live?_acquire_self _
  simp only [ran, Outcome.ok_bind, complete, true_imp_iff]
  rw [bind_apply, finishRequest_handsNoNull_iff, httpRequestNew_handsNoNull_iff _ _ _ _ _ _ _ _ handed]
  apply imp_congr_right
  intro connected
  apply imp_congr_right
  intro requested
  cases uri with
  | none => simp
  | some uri =>
      have called (response : Response) := @httpRequestCb_handsNoNull_iff rt
        ⟨world.host.pools.length, table, function⟩ allocation.junk stack _
        (sound_append_some (sound_append_some handed .libevent ip) .libevent uri) _ live response
      simp only [Option.some.injEq, exists_eq_left', Option.isSome_some, true_and, called]
      constructor
      · exact fun all code early => all (some code) early code rfl
      · intro all response early code same
        subst same
        exact all code early

theorem luaHttpRequest_handsNoNull_iff (command : Command) (allocation : Allocation)
    (network : Network) (arguments : Arguments) (world : World Server) :
    (luaHttpRequest rt command allocation network ⟨arguments.values.reverse, [], world⟩).HandsNoNull ↔
      RequestSafe rt allocation network arguments.values world := by
  by_cases short : arguments.values.length < 3
  · refine iff_of_true ?_ (.inl short)
    rw [luaHttpRequest, bind_apply, httpArguments_short rt short]
    exact sound_nil
  have enough : 3 ≤ arguments.values.length := by omega
  rw [RequestSafe, or_iff_right short]
  cases given : argumentText rt.toPlatform arguments.values 0 with
  | none =>
      obtain ⟨stack, faulted⟩ := httpArguments_noIp rt enough given [] world
      refine iff_of_false (fun sound => ?_) (by simp)
      rw [luaHttpRequest, bind_apply, faulted] at sound
      exact (sound_append.mp sound).2 rfl
  | some ip =>
  simp only [Option.some.injEq, exists_eq_left']
  obtain ⟨stack, ran⟩ := httpArguments_apply rt enough given [] world
  have checked : Sound ([] ++ [(Sink.strlen, some ip)]) := sound_append_some sound_nil _ _
  rw [luaHttpRequest, bind_apply, ran, Outcome.ok_bind]
  by_cases isAddress : isIpText (cstr ip) = true
  case neg =>
    rw [accepted, if_neg isAddress]
    exact iff_of_true checked fun _ _ isIp => absurd isIp isAddress
  rw [accepted, if_pos isAddress]
  cases tableText : argumentText rt.toPlatform arguments.values 3 with
  | none => exact iff_of_true checked fun _ _ _ missing => by cases missing
  | some table =>
  cases functionText : argumentText rt.toPlatform arguments.values 4 with
  | none => exact iff_of_true checked fun _ _ _ _ missing => by cases missing
  | some function =>
  have sent := sendRequest_handsNoNull_iff rt command allocation network ip
    (argumentNumber rt.toPlatform arguments.values 1).toInt
    (argumentText rt.toPlatform arguments.values 2) (arguments.argumentText_fits _ _ tableText)
    (arguments.argumentText_fits _ _ functionText) stack checked world
  refine sent.trans ⟨fun safe other otherFunction _ same sameFunction => ?_, fun safe =>
    safe table function isAddress rfl rfl⟩
  cases same
  cases sameFunction
  exact safe

/-! ## All registered functions -/

/-- When a registered function hands on no NULL. -/
def CFunction.Safe (rt : Runtime Server) (arguments : List Value) (world : World Server) :
    CFunction → Prop
  | catch_ => ∀ error after, luaDPcall rt (some (.function tracebackFunction))
      (arguments.headD (.function tracebackFunction)) arguments.tail world = .raises error after →
        error.isString = true
  | callScript => arguments.length < 2 ∨ (argumentText rt.toPlatform arguments 0).isSome ∧
      (argumentText rt.toPlatform arguments 1).isSome
  | get allocation network => RequestSafe rt allocation network arguments world
  | post allocation network => RequestSafe rt allocation network arguments world
  | _ => True

theorem handsNoNull_return_iff {action : EngineM α} (result : α → Int) (state : LuaState Server) :
    ((do return result (← action) : EngineM Int) state).HandsNoNull ↔ (action state).HandsNoNull := by
  rw [bind_apply]
  cases action state <;> exact Iff.rfl

/-- For any list of arguments, the pointers a registered function hands on are all
non-NULL exactly when the call is safe. -/
theorem CFunction.handsNoNull_iff (rt : Runtime Server) (function : CFunction)
    (arguments : Arguments) (world : World Server) :
    (function.body rt ⟨arguments.values.reverse, [], world⟩).HandsNoNull ↔
      function.Safe rt arguments.values world := by
  have always {action : EngineM Nat} (hands : action.HandsNoNull) :
      ((do return (← action) : EngineM Int) ⟨arguments.values.reverse, [], world⟩).HandsNoNull ↔ True :=
    (handsNoNull_return_iff _ _).trans (iff_true_intro (hands _ sound_nil))
  cases function with
  | root => exact always hands_luaRoot
  | catch_ => exact (handsNoNull_return_iff _ _).trans (luaCatch_handsNoNull_iff _ world)
  | this records => exact always (hands_luaThis records)
  | callScript => exact luaCallScript_handsNoNull_iff _ world
  | writeFile outcome datetime => exact always (hands_luaWriteFile outcome datetime)
  | encodeUri allocated => exact always (hands_luaHttpUriEncode allocated)
  | decodeUri allocated => exact always (hands_luaHttpUriDecode allocated)
  | encodeHeader fuel => exact always (hands_luaHttpUriHeaderEncode fuel)
  | decodeHeader => exact always (hands_pure 0)
  | get allocation network =>
      exact (handsNoNull_return_iff _ _).trans
        (luaHttpRequest_handsNoNull_iff .get allocation network arguments world)
  | post allocation network =>
      exact (handsNoNull_return_iff _ _).trans
        (luaHttpRequest_handsNoNull_iff .post allocation network arguments world)
  | isArray fuel => exact always (hands_testArray fuel)

/-- `http.get({}, 80, "/")`. -/
theorem CFunction.handsNoNull_counterexample :
    ¬ ((CFunction.get ⟨true, true, true, true, 0⟩ ⟨true, true, .accepted⟩).body default
      ⟨[.string (lit "/"), .number (.finite 80), .table 0], [], .start (.ofTables [])⟩).HandsNoNull :=
  fun sound => sound (.strlen, none) (List.mem_singleton_self _) rfl

end GameServer
