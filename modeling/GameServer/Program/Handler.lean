import GameServer.Module.Lookup
import GameServer.Program.Runs

namespace GameServer

open Lua LuaM

/-! What `http_handler` does with a request, through the functions it calls. -/

variable {rt : Runtime Server} {base : List Value} {passed : List (Sink × CharPtr)}
  {world : World Server}

theorem luaGetglobal_cases (rt : Runtime Server) (name : Bytes) (base : List Value)
    (passed : List (Sink × CharPtr)) (world : World Server) :
    (∃ value after, Global rt (cstr name) world value after) ∨
    (∃ error after, luaGetglobal rt (some name) ⟨base, passed, world⟩ =
      .raise error ⟨base, passed, after⟩) ∨
    (∃ reason after, luaGetglobal rt (some name) ⟨base, passed, world⟩ =
      .fault reason ⟨base, passed, after⟩) := by
  unfold luaGetglobal Global
  dsimp only [Option.getD_some]
  cases luaVGettable rt (.table world.heap.globals) (.string (cstr name)) world with
  | returns results after => exact .inl ⟨_, after, results, rfl, rfl⟩
  | raises error after => exact .inr (.inl ⟨error, after, rfl⟩)
  | faults reason after => exact .inr (.inr ⟨reason, after, rfl⟩)

theorem findLuaGlobalFunction_apply {name : Bytes} {value : Value} {after : World Server}
    (named : Global rt (cstr name) world value after) :
    findLuaGlobalFunction rt (some name) ⟨base, passed, world⟩ =
      if value.isFunction then .ok true ⟨value :: base, passed, after⟩
      else .ok false ⟨base, passed, after⟩ := by
  simp only [findLuaGlobalFunction, bind_apply, luaGetglobal_apply named, Outcome.ok_bind,
    luaIsfunction_top, cond_apply]
  split
  · rfl
  · simp

/-! ## `call_lua_script` -/

/-- Function and arguments give way to all results, or to the error, which is logged. -/
theorem callLuaScript_apply (arguments : List Value) (function : Value) (below : List Value) :
    callLuaScript rt arguments.length ⟨arguments.reverse ++ function :: below, passed, world⟩ =
      match luaDCall rt function arguments world with
      | .returns results after => .ok results.length ⟨results.reverse ++ below, passed, after⟩
      | .raises error after => .ok 0 ⟨error.converted rt.toPlatform :: below,
          passed ++ [(.printf, error.toLuaString rt.toPlatform)],
          logged after "%s" [.str (error.toLuaString rt.toPlatform)]⟩
      | .faults reason after => .fault reason
          ⟨arguments.reverse ++ function :: below, passed, after⟩ := by
  have natural : ¬ (arguments.length : Int) < 0 := by omega
  have height : ((arguments.reverse ++ function :: below).length : Int) - 1 - arguments.length =
      below.length := by
    simp only [List.length_append, List.length_reverse, List.length_cons]
    omega
  have inside : ¬ (below.length : Int) < 0 := by omega
  simp only [callLuaScript, natural, if_false, bind_apply, luaGettop_apply, Outcome.ok_bind, height,
    inside, Int.toNat_natCast, luaPcall_apply]
  cases luaDCall rt function arguments world with
  | returns results after =>
      have count : ((results.reverse ++ below).length : Int) - below.length = results.length := by
        simp only [List.length_append, List.length_reverse]
        omega
      simp only [finishPcall_returns, adjustResults, Outcome.ok_bind, ne_eq, not_true_eq_false,
        if_false, bind_apply, luaGettop_apply, count]
      simp
  | raises error after =>
      simp [errRun, stringArguments]
  | faults reason after => rfl

theorem callLuaScript_short {arguments : Nat} (short : base.length < arguments + 1) :
    callLuaScript rt arguments ⟨base, passed, world⟩ = .ok 0 ⟨base, passed, world⟩ := by
  have natural : ¬ (arguments : Int) < 0 := by omega
  have missing : (base.length : Int) - 1 - arguments < 0 := by omega
  simp only [callLuaScript, natural, if_false, bind_apply, luaGettop_apply, Outcome.ok_bind, missing,
    if_true, pure_apply]

/-! ## The table of a request -/

def pushedString : CharPtr → Value
  | none => .nil
  | some bytes => .string (cstr bytes)

@[simp] theorem luaPushstring_apply (pointer : CharPtr) (state : LuaState Server) :
    luaPushstring pointer state =
      .ok () { state with stack := pushedString pointer :: state.stack } := by
  cases pointer <;> rfl

/-- The fields a script finds in a request. -/
def requestTable (req : IncomingRequest) (uri : Uri) : Table :=
  .ofFields [("path", pushedString uri.path), ("query", pushedString uri.query),
    ("host", pushedString req.host), ("code", .number (.finite req.responseCode)),
    ("command", .number (.finite req.command))]

/-- The world after a request was made a table. -/
def withRequest (world : World Server) (req : IncomingRequest) (uri : Uri) : World Server :=
  { world with heap := world.heap.allocate (requestTable req uri) }

theorem setRequestField_apply {name : String} (plain : cstr (lit name) = lit name)
    {pushValue : EngineM Unit} {value : Value}
    (pushes : ∀ state, pushValue state = .ok () { state with stack := value :: state.stack })
    (table : Table) :
    setRequestField name pushValue ⟨.table world.heap.nextTable :: base, passed,
        { world with heap := world.heap.allocate table }⟩ =
      .ok () ⟨.table world.heap.nextTable :: base, passed, { world with
        heap := world.heap.allocate (table.set (.string (lit name)) value (validKey_string _)) }⟩ := by
  simp [setRequestField, pushedString, plain, pushes]

theorem httpRequestToLuaTable_apply {req : IncomingRequest} {uri : Uri} (parsed : req.uri = some uri) :
    httpRequestToLuaTable req ⟨base, passed, world⟩ =
      .ok () ⟨.table world.heap.nextTable :: base, passed, withRequest world req uri⟩ := by
  simp only [httpRequestToLuaTable, parsed, bind_apply, luaCreatetable_apply, Outcome.ok_bind]
  rw [setRequestField_apply (by decide) fun _ => luaPushstring_apply _ _, Outcome.ok_bind]
  rw [setRequestField_apply (by decide) fun _ => luaPushstring_apply _ _, Outcome.ok_bind]
  rw [setRequestField_apply (by decide) fun _ => luaPushstring_apply _ _, Outcome.ok_bind]
  rw [setRequestField_apply (by decide) fun _ => luaPushnumber_apply _ _, Outcome.ok_bind]
  rw [setRequestField_apply (by decide) fun _ => luaPushnumber_apply _ _]
  rfl

/-! ## `http_handler` -/

/-- A call as `call_lua_script` finds it on the stack. -/
structure ScriptCall where
  function : Value
  arguments : List Value
  below : List Value
  world : World Server

/-- The call `http_handler` makes.  For a request without a parsed URI nothing is pushed
above the handler, and the handler becomes the argument of whatever was below it. -/
def handlerCall (req : IncomingRequest) (handler : Value) (base : List Value)
    (world : World Server) : Option ScriptCall :=
  match req.uri, base with
  | some uri, _ =>
      some ⟨handler, [.table world.heap.nextTable], base, withRequest world req uri⟩
  | none, function :: below => some ⟨function, [handler], below, world⟩
  | none, [] => none

def errorReply (req : IncomingRequest) : Reply :=
  .error req.id httpInternal "Internal Server Error"

/-- What the body of a reply becomes as a format without arguments, `none` for a NULL or
where formatting is undefined. -/
def printedBody (platform : Platform) (body : Value) : Option Bytes :=
  (body.toLuaString platform).bind fun text => Printf.format (cstr text) []

/-- The reply to a call that returned these results, `none` where there is none to send. -/
def answer (platform : Platform) (req : IncomingRequest) : List Value → Option Reply
  | [first, body] =>
      if first.truthy then (printedBody platform body).map fun text => .reply req.id httpOk "OK" (some text)
      else some (errorReply req)
  | _ => some (errorReply req)

/-- What the results of the call become on the stack. -/
def leftOver (platform : Platform) : List Value → List Value
  | [first, body] => if first.truthy then [body.converted platform, first] else [body, first]
  | results => results.reverse

def replied (world : World Server) (reply : Reply) : World Server :=
  { world with host := { world.host with replies := world.host.replies ++ [reply] } }

@[simp] theorem evhttpSendError_apply (request code : Nat) (reason : String)
    (state : LuaState Server) :
    evhttpSendError request code reason state =
      .ok () { state with world := replied state.world (.error request code reason) } := rfl

@[simp] theorem evhttpSendReply_apply (request code : Nat) (reason : String) (body : Option Bytes)
    (state : LuaState Server) :
    evhttpSendReply request code reason body state =
      .ok () { state with world := replied state.world (.reply request code reason body) } := rfl

theorem answerRequest_other (rt : Runtime Server) (req : IncomingRequest) {count : Int}
    (other : count ≠ 2) :
    answerRequest rt req count ⟨base, passed, world⟩ =
      .ok () ⟨base, passed, replied world (errorReply req)⟩ := by
  simp [answerRequest, other, errorReply]

theorem answerRequest_two (rt : Runtime Server) (req : IncomingRequest) (first body : Value) :
    (∃ handed, answerRequest rt req 2 ⟨body :: first :: base, passed, world⟩ =
      if first.truthy then
        match printedBody rt.toPlatform body with
        | some text => .ok () ⟨body.converted rt.toPlatform :: first :: base, handed,
            replied world (.reply req.id httpOk "OK" (some text))⟩
        | none => .fault (if (body.toLuaString rt.toPlatform).isSome then .undefinedFormat else .nullPointer)
            ⟨body.converted rt.toPlatform :: first :: base, handed, world⟩
      else .ok () ⟨body :: first :: base, handed, replied world (errorReply req)⟩) := by
  by_cases truthy : first.truthy = true
  · refine ⟨passed ++ [(.printf, body.toLuaString rt.toPlatform)], ?_⟩
    cases text : body.toLuaString rt.toPlatform with
    | none => simp [answerRequest, truthy, evbufferAddPrintf, text, printedBody]
    | some text' =>
        cases printed : Printf.format (cstr text') [] <;>
          simp [answerRequest, truthy, evbufferAddPrintf, text, printedBody, printed]
  · exact ⟨passed, by simp [answerRequest, truthy, errorReply]⟩

theorem answer_other (platform : Platform) (req : IncomingRequest) {results : List Value}
    (other : results.length ≠ 2) :
    answer platform req results = some (errorReply req) ∧
      leftOver platform results = results.reverse := by
  match results with
  | [] => exact ⟨rfl, rfl⟩
  | [value] => exact ⟨rfl, rfl⟩
  | [first, second] => exact absurd rfl other
  | first :: second :: third :: rest => exact ⟨rfl, rfl⟩

/-- The reply to the results of a call; without one the run ends in `evbuffer_add_printf`. -/
theorem answerRequest_results (rt : Runtime Server) (req : IncomingRequest)
    (results below : List Value) (passed : List (Sink × CharPtr)) (world : World Server) :
    (∃ reply handed, answer rt.toPlatform req results = some reply ∧
      answerRequest rt req results.length ⟨results.reverse ++ below, passed, world⟩ =
        .ok () ⟨leftOver rt.toPlatform results ++ below, handed, replied world reply⟩) ∨
    (∃ reason state, answer rt.toPlatform req results = none ∧
      answerRequest rt req results.length ⟨results.reverse ++ below, passed, world⟩ =
        .fault reason state) := by
  by_cases two : results.length = 2
  · obtain ⟨first, body, rfl⟩ := List.length_eq_two.mp two
    obtain ⟨handed, ran⟩ := @answerRequest_two below passed world rt req first body
    by_cases truthy : first.truthy = true
    · cases printed : printedBody rt.toPlatform body with
      | some text =>
          rw [if_pos truthy, printed] at ran
          refine .inl ⟨.reply req.id httpOk "OK" (some text), handed, ?_, ?_⟩
          · simp [answer, truthy, printed]
          · simpa [leftOver, truthy] using ran
      | none =>
          rw [if_pos truthy, printed] at ran
          exact .inr ⟨_, _, by simp [answer, truthy, printed], ran⟩
    · rw [if_neg truthy] at ran
      refine .inl ⟨errorReply req, handed, ?_, ?_⟩
      · simp [answer, truthy]
      · simpa [leftOver, truthy] using ran
  · obtain ⟨answered, left⟩ := answer_other rt.toPlatform req two
    rw [answered, left]
    exact .inl ⟨_, passed, rfl, answerRequest_other rt req (by omega)⟩

section Handler

variable {req : IncomingRequest} {handler : Value} {looked : World Server} {call : ScriptCall}

theorem handlerCall_arguments (called : handlerCall req handler base looked = some call) :
    call.arguments.length = 1 := by
  unfold handlerCall at called
  split at called <;> cases called <;> rfl

theorem httpHandler_missing
    (named : Global rt (lit "http_request_handler") world handler looked)
    (other : handler.isFunction = false) :
    httpHandler rt req ⟨base, passed, world⟩ = .ok () ⟨base, passed, looked⟩ := by
  have plain : cstr (lit "http_request_handler") = lit "http_request_handler" := by decide
  rw [← plain] at named
  simp [httpHandler, findLuaGlobalFunction_apply named, other]

variable (named : Global rt (lit "http_request_handler") world handler looked)
  (callable : handler.isFunction = true)

include named callable

theorem httpHandler_uncalled (missing : handlerCall req handler base looked = none) :
    httpHandler rt req ⟨base, passed, world⟩ =
      .ok () ⟨[handler], passed, replied looked (errorReply req)⟩ := by
  have plain : cstr (lit "http_request_handler") = lit "http_request_handler" := by decide
  rw [← plain] at named
  have unparsed : req.uri = none ∧ base = [] := by
    unfold handlerCall at missing
    split at missing <;> simp_all
  obtain ⟨unparsed, rfl⟩ := unparsed
  have short : callLuaScript rt (1 : Nat) ⟨[handler], passed, looked⟩ = _ :=
    callLuaScript_short (by simp)
  simp only [Nat.cast_one] at short
  simp [httpHandler, findLuaGlobalFunction_apply named, callable, httpRequestToLuaTable,
    unparsed, short, answerRequest_other]

theorem httpHandler_called (called : handlerCall req handler base looked = some call) :
    httpHandler rt req ⟨base, passed, world⟩ =
      (callLuaScript rt (1 : Nat)
        ⟨call.arguments.reverse ++ call.function :: call.below, passed, call.world⟩).bind
        (answerRequest rt req) := by
  have plain : cstr (lit "http_request_handler") = lit "http_request_handler" := by decide
  rw [← plain] at named
  cases parsed : req.uri with
  | some uri =>
      simp only [handlerCall, parsed, Option.some.injEq] at called
      subst called
      simp [httpHandler, findLuaGlobalFunction_apply named, callable,
        httpRequestToLuaTable_apply parsed]
  | none =>
      cases base with
      | nil => simp [handlerCall, parsed] at called
      | cons function below =>
          simp only [handlerCall, parsed, Option.some.injEq] at called
          subst called
          simp [httpHandler, findLuaGlobalFunction_apply named, callable, httpRequestToLuaTable,
            parsed]

variable (passed)

theorem httpHandler_returned (called : handlerCall req handler base looked = some call)
    {results : List Value} {after : World Server}
    (returned : luaDCall rt call.function call.arguments call.world = .returns results after) :
    (∃ reply handed, answer rt.toPlatform req results = some reply ∧
      httpHandler rt req ⟨base, passed, world⟩ =
        .ok () ⟨leftOver rt.toPlatform results ++ call.below, handed, replied after reply⟩) ∨
    (∃ reason state, answer rt.toPlatform req results = none ∧
      httpHandler rt req ⟨base, passed, world⟩ = .fault reason state) := by
  rw [httpHandler_called named callable called, ← handlerCall_arguments called, callLuaScript_apply,
    returned]
  exact answerRequest_results rt req results call.below passed after

theorem httpHandler_raised (called : handlerCall req handler base looked = some call)
    {error : Value} {after : World Server}
    (raised : luaDCall rt call.function call.arguments call.world = .raises error after) :
    httpHandler rt req ⟨base, passed, world⟩ =
      .ok () ⟨error.converted rt.toPlatform :: call.below,
        passed ++ [(.printf, error.toLuaString rt.toPlatform)],
        replied (logged after "%s" [.str (error.toLuaString rt.toPlatform)]) (errorReply req)⟩ := by
  rw [httpHandler_called named callable called, ← handlerCall_arguments called, callLuaScript_apply,
    raised]
  exact answerRequest_other rt req (by simp)

theorem httpHandler_faulted (called : handlerCall req handler base looked = some call)
    {reason : Fault} {after : World Server}
    (faulted : luaDCall rt call.function call.arguments call.world = .faults reason after) :
    ∃ state, httpHandler rt req ⟨base, passed, world⟩ = .fault reason state := by
  rw [httpHandler_called named callable called, ← handlerCall_arguments called, callLuaScript_apply,
    faulted]
  exact ⟨_, rfl⟩

end Handler

theorem httpHandler_unnamed (req : IncomingRequest) (base : List Value)
    (passed : List (Sink × CharPtr))
    (unnamed : ∀ handler looked, ¬ Global rt (lit "http_request_handler") world handler looked) :
    (∃ error state, httpHandler rt req ⟨base, passed, world⟩ = .raise error state) ∨
    (∃ reason state, httpHandler rt req ⟨base, passed, world⟩ = .fault reason state) := by
  rcases luaGetglobal_cases rt (lit "http_request_handler") base passed world with
    ⟨value, after, named⟩ | ⟨error, after, raised⟩ | ⟨reason, after, faulted⟩
  · exact absurd named (unnamed value after)
  · have ended : httpHandler rt req ⟨base, passed, world⟩ = .raise error ⟨base, passed, after⟩ := by
      simp only [httpHandler, findLuaGlobalFunction, bind_apply, raised, Outcome.raise_bind]
    exact .inl ⟨error, _, ended⟩
  · have ended : httpHandler rt req ⟨base, passed, world⟩ = .fault reason ⟨base, passed, after⟩ := by
      simp only [httpHandler, findLuaGlobalFunction, bind_apply, faulted, Outcome.fault_bind]
    exact .inr ⟨reason, _, ended⟩

/-! ## A request and a handler -/

def getRoot : IncomingRequest where
  id := 0
  uri := some ⟨some (lit "/"), none⟩
  host := some (lit "localhost")
  responseCode := 0
  command := 1

/-- A script whose functions all return `true` and this text. -/
def answering (text : String) : Runtime Server :=
  { (default : Runtime Server) with
    call := fun _ _ world => .returns [.boolean true, .string (lit text)] world }

/-- A state with a global `http_request_handler`. -/
def handlerSet : World Server :=
  .start (.ofTables [.ofFields [("http_request_handler", .function (.closure 0))]])

theorem handlerSet_named (rt : Runtime Server) :
    Global rt (lit "http_request_handler") handlerSet (.function (.closure 0)) handlerSet :=
  ⟨[.function (.closure 0)], rfl, rfl⟩

end GameServer
