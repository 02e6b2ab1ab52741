import GameServer.Module.Resolution
import GameServer.Program.Handler
import GameServer.Program.Ownership

namespace GameServer

open Lua LuaM

/-! How `http_request_cb` reports to the function its record names, and the request that
completes while it is made. -/

/-! ## The script call of a callback -/

section Script

variable {rt : Runtime Server} {table function : Bytes} {base : List Value}
  {passed : List (Sink × CharPtr)} {world : World Server}

/-- What the lookup of two names hands on. -/
def lengthChecks (passed : List (Sink × CharPtr)) (table function : Bytes) : List (Sink × CharPtr) :=
  passed ++ [(.strlen, some table)] ++ [(.strlen, some function)]

theorem runCallback_resolved {callee : Value} {looked : World Server}
    (resolves : Resolves rt (cstr table) (cstr function) world callee looked) :
    runCallback rt (some table) (some function) ⟨base, passed, world⟩ =
      match luaDCall rt callee [] looked with
      | .returns results after =>
          .ok () ⟨results.reverse ++ base, lengthChecks passed table function, after⟩
      | .raises error after => .ok () ⟨error.converted rt.toPlatform :: base,
          lengthChecks passed table function ++ [(.printf, error.toLuaString rt.toPlatform)],
          logged after "%s" [.str (error.toLuaString rt.toPlatform)]⟩
      | .faults reason after => .fault reason ⟨callee :: base, lengthChecks passed table function, after⟩ := by
  have found := (findLuaFunction_found_iff rt table function base passed world _).mpr
    ⟨callee, looked, resolves, rfl⟩
  have call := @callLuaScript_apply rt (lengthChecks passed table function) looked [] callee base
  simp only [List.length_nil, Nat.cast_zero, List.reverse_nil, List.nil_append, lengthChecks] at call
  simp only [runCallback, bind_apply, found, Outcome.ok_bind, if_true, call, lengthChecks]
  cases luaDCall rt callee [] looked <;> rfl

/-- Where the names mean no function, the lookup is all there is. -/
theorem runCallback_unresolved (missing : ∀ callee looked,
      ¬ Resolves rt (cstr table) (cstr function) world callee looked) :
    runCallback rt (some table) (some function) ⟨base, passed, world⟩ =
      (findLuaFunction rt (some table) (some function) ⟨base, passed, world⟩).bind
        fun _ found => .ok () found := by
  rw [runCallback, bind_apply]
  cases lookup : findLuaFunction rt (some table) (some function) ⟨base, passed, world⟩ with
  | raise error found => rfl
  | fault reason found => rfl
  | ok isFound found =>
      cases isFound with
      | false => rfl
      | true =>
          obtain ⟨callee, looked, resolves, -⟩ :=
            (findLuaFunction_found_iff rt table function base passed world found).mp lookup
          exact absurd resolves (missing callee looked)

theorem Resolves.lookable {callee : Value} {looked : World Server}
    (resolves : Resolves rt (cstr table) (cstr function) world callee looked) :
    Lookable rt (cstr table) (cstr function) world :=
  (findLuaFunction_returns_iff rt table function [] [] world).mp
    ⟨true, _, (findLuaFunction_found_iff rt table function [] [] world _).mpr
      ⟨callee, looked, resolves, rfl⟩⟩

end Script

/-! ## The callback -/

/-- The world in which `http_request_cb` looks its function up. -/
def announced (code : Int) (names : CallbackNames) (world : World Server) : World Server :=
  let begun := logged world "ok!!!!!!!!!!request %d" [.int code]
  let noted := { begun with host := { begun.host with read := begun.host.read ++ [names.seen] } }
  logged noted "table:%s, function:%s" [.str (some (cstr names.table)), .str (some (cstr names.function))]

section Callback

variable {rt : Runtime Server} {names : CallbackNames} {junk : UInt8} {base : List Value}
  {passed : List (Sink × CharPtr)} {world : World Server}

theorem readCallback_apply (code : Int) (live : world.host.pools.live? names.pool =
      some (callbackMemory names.pool names.table names.function junk)) :
    readCallback (some code) names.pool ⟨base, passed, world⟩ =
      .ok (cstr names.table, cstr names.function) ⟨base,
        passed ++ [(.printf, some (cstr names.table)), (.printf, some (cstr names.function))],
        announced code names world⟩ := by
  let begun : LuaState Server := ⟨base, passed, logged world "ok!!!!!!!!!!request %d" [.int code]⟩
  have liveLogged : begun.world.host.pools.live? names.pool =
      some (callbackMemory names.pool names.table names.function junk) := live
  obtain ⟨tableRead, functionRead⟩ := callbackString_apply liveLogged
  have infoRead := callbackInfo_apply liveLogged
  simp only [begun] at tableRead functionRead infoRead
  simp only [readCallback, evhttpRequestGetResponseCode, bind_apply, pure_apply, Outcome.ok_bind,
    logDebug_apply, stringArguments, List.append_nil, infoRead, tableRead, functionRead,
    modifyHost_apply]
  rfl

/-- Past the names: the function is called, then the record is read once more and freed. -/
theorem httpRequestCb_announced (rt : Runtime Server) (code : Int)
    (live : world.host.pools.live? names.pool =
      some (callbackMemory names.pool names.table names.function junk)) :
    httpRequestCb rt (some code) names.pool ⟨base, passed, world⟩ =
      (runCallback rt (some (cstr names.table)) (some (cstr names.function)) ⟨base,
        passed ++ [(.printf, some (cstr names.table)), (.printf, some (cstr names.function))],
        announced code names world⟩).bind fun _ after =>
          (callbackInfo names.pool after).bind fun ptr read => poolFree ptr.pool read := by
  simp only [httpRequestCb, bind_apply, readCallback_apply code live, Outcome.ok_bind]

end Callback

/-! ## A request that completes while it is made -/

section Early

variable {arg connection request : Nat} {uri ip : Bytes} {state : LuaState Server}

theorem evhttpMakeRequest_completed (callback : Response → Nat → EngineM Unit) (command : Command)
    (response : Response) (alive : state.world.host.requests.live? request = some ⟨arg⟩) :
    evhttpMakeRequest (.completed response) callback connection request command (some uri) state =
      (callback response arg
        { state with passed := state.passed ++ [(.libevent, some uri)] }).bind fun _ after =>
          (evhttpRequestFree request after).bind fun _ freed => .ok true freed := by
  have used (passed : List (Sink × CharPtr)) : evhttpRequest request { state with passed } =
      .ok ⟨arg⟩ { state with passed } := by simp [evhttpRequest, alive]
  simp only [evhttpMakeRequest, completeRequest, bind_apply, read_some, Outcome.ok_bind, used,
    pure_apply, Outcome.bind_bind]

/-- The world in which libevent runs the callback of a request that completes while it is
made. -/
def requestMade (world : World Server) (arg : Nat) (connection : Connection) : World Server :=
  { world with host := { world.host with
    connections := world.host.connections.acquire connection
    requests := world.host.requests.acquire ⟨arg⟩ } }

/-- Past the callback the request is freed and nothing else happens. -/
theorem httpRequestNew_completed (callback : Response → Nat → EngineM Unit) (command : Command)
    (response : Response) (port : Int) (stack : List Value) (passed : List (Sink × CharPtr))
    (world : World Server) :
    httpRequestNew ⟨true, true, .completed response⟩ (some ip) port callback arg command (some uri)
        ⟨stack, passed, world⟩ =
      (callback response arg
        ⟨stack, passed ++ [(.libevent, some ip)] ++ [(.libevent, some uri)],
          requestMade world arg ⟨cstr ip, intToUshort port⟩⟩).bind fun _ after =>
        (evhttpRequestFree world.host.requests.length after).bind fun _ freed =>
          .ok (some world.host.requests.length) freed := by
  let asked : LuaState Server :=
    ⟨stack, passed ++ [(.libevent, some ip)], requestMade world arg ⟨cstr ip, intToUshort port⟩⟩
  have alive : asked.world.host.requests.live? world.host.requests.length = some ⟨arg⟩ :=
    Ledger.live?_acquire_self _
  have made := @evhttpMakeRequest_completed arg world.host.connections.length _ uri asked callback
    command response alive
  simp only [httpRequestNew, evhttpConnectionBaseNew, evhttpRequestNew, bind_apply, read_some,
    Outcome.ok_bind, if_true, getHost_apply, setHost_apply, pure_apply]
  simp only [asked, requestMade] at made
  simp only [made, Outcome.bind_bind, Outcome.ok_bind, Bool.not_true, Bool.false_eq_true, if_false,
    pure_apply]
  rfl

/-- The world in which the callback of such a request of a script runs. -/
def calledBack (platform : Platform) (arguments : List Value) (ip table function : Bytes) (junk : UInt8)
    (world : World Server) : World Server :=
  requestMade (withCallback world table function junk) world.host.pools.length
    ⟨cstr ip, intToUshort (argumentNumber platform arguments 1).toInt⟩

theorem luaHttpRequest_completed (rt : Runtime Server) (command : Command) (arguments : Arguments)
    {allocation : Allocation} (complete : allocation.complete = true) (response : Response)
    {table function : Bytes} (isAddress : isIpText (cstr ip) = true)
    (ipText : argumentText rt.toPlatform arguments.values 0 = some ip)
    (uriText : argumentText rt.toPlatform arguments.values 2 = some uri)
    (tableText : argumentText rt.toPlatform arguments.values 3 = some table)
    (functionText : argumentText rt.toPlatform arguments.values 4 = some function)
    (world : World Server) :
    ∃ stack passed, luaHttpRequest rt command allocation ⟨true, true, .completed response⟩
        ⟨arguments.values.reverse, [], world⟩ =
      (httpRequestCb rt response world.host.pools.length ⟨stack, passed,
        calledBack rt.toPlatform arguments.values ip table function allocation.junk world⟩).bind
          fun _ after => (evhttpRequestFree world.host.requests.length after).bind fun _ freed =>
            finishRequest world.host.pools.length (some world.host.requests.length) freed := by
  obtain ⟨stack, called⟩ := luaHttpRequest_apply rt command allocation ⟨true, true, .completed response⟩
    isAddress ipText uriText tableText functionText world
  have made := newCallbackInfo_apply allocation (arguments.argumentText_fits _ _ tableText)
    (arguments.argumentText_fits _ _ functionText) stack [(.strlen, some ip)] world
  rw [complete] at made
  simp only [true_and, Bool.true_eq_false, false_and, or_false] at made
  have sent := @httpRequestNew_completed world.host.pools.length uri ip (httpRequestCb rt)
    command response (argumentNumber rt.toPlatform arguments.values 1).toInt stack
    ([(.strlen, some ip)] ++ [(.strncpy, some table)] ++ [(.strncpy, some function)])
    (withCallback world table function allocation.junk)
  simp only [called, sendRequest, bind_apply, made, Outcome.ok_bind, sent, Outcome.bind_bind]
  exact ⟨stack, _, rfl⟩

end Early

end GameServer
