import GameServer.Program.Handler

namespace GameServer

open Lua LuaM

/-! The stack contract of `call_lua_script`, and what `http_handler` calls through it. -/

/-- What the return value of `call_lua_script(L, n)` says about the stack. -/
structure StackContract (rt : Runtime Server) (n : Nat) (state : LuaState Server) : Prop where
  returned : ∀ arguments function below results after,
    state.stack = arguments.reverse ++ function :: below → arguments.length = n →
    luaDCall rt function arguments state.world = .returns results after →
    ∃ final, callLuaScript rt n state = .ok results.length final ∧
      final.stack = results.reverse ++ below
  raised : ∀ arguments function below error after,
    state.stack = arguments.reverse ++ function :: below → arguments.length = n →
    luaDCall rt function arguments state.world = .raises error after →
    ∃ final, callLuaScript rt n state = .ok 0 final ∧ final.stack = below
  short : state.stack.length < n + 1 → callLuaScript rt n state = .ok 0 state

/-- The contract holds exactly when the called function raises no error. -/
theorem callLuaScript_contract_iff (rt : Runtime Server) (n : Nat) (state : LuaState Server) :
    StackContract rt n state ↔ ∀ arguments function below error after,
      state.stack = arguments.reverse ++ function :: below → arguments.length = n →
      luaDCall rt function arguments state.world ≠ .raises error after := by
  obtain ⟨stack, passed, world⟩ := state
  constructor
  · intro contract arguments function below error after split count raised
    obtain ⟨final, ran, left⟩ := contract.raised arguments function below error after split count raised
    dsimp only at split raised
    subst split count
    rw [callLuaScript_apply, raised] at ran
    cases ran
    -- the error value is still there
    have lengths := congrArg List.length left
    simp at lengths
  · intro quiet
    constructor
    · intro arguments function below results after split count returned
      dsimp only at split returned
      subst split count
      refine ⟨⟨results.reverse ++ below, passed, after⟩, ?_, rfl⟩
      rw [callLuaScript_apply, returned]
    · intro arguments function below error after split count raised
      exact absurd raised (quiet arguments function below error after split count)
    · intro short
      exact callLuaScript_short short

def failing : Runtime Server :=
  { (default : Runtime Server) with
    call := fun _ _ world => .raises (.string (lit "failed")) world }

theorem callLuaScript_contract_counterexample :
    ¬ StackContract failing 0 ⟨[.function (.closure 0)], [], .start (.ofTables [])⟩ := by
  intro contract
  obtain ⟨final, ran, left⟩ := contract.raised [] (.function (.closure 0)) [] _ _ rfl rfl rfl
  have result := @callLuaScript_apply failing [] (.start (.ofTables [])) [] (.function (.closure 0)) []
  simp only [List.reverse_nil, List.nil_append, List.length_nil] at result
  rw [result] at ran
  cases ran
  cases left

/-! ## The log of calls -/

def Lua.CallResult.withCalls (calls : List Call) : CallResult H → CallResult H
  | .returns results world => .returns results { world with calls }
  | .raises error world => .raises error { world with calls }
  | .faults reason world => .faults reason { world with calls }

theorem Lua.CallResult.withCalls_calls (calls : List Call) (result : CallResult H) :
    (result.withCalls calls).world.calls = calls := by
  cases result <;> rfl

/-- The same Lua code, which leaves the log as it finds it: the log then holds the calls
the C functions make themselves. -/
def Lua.Runtime.recording (rt : Runtime H) : Runtime H :=
  { rt with
    call := fun function arguments world => (rt.call function arguments world).withCalls world.calls
    index := fun object key world => (rt.index object key world).withCalls world.calls
    newindex := fun object key value world =>
      (rt.newindex object key value world).withCalls world.calls }

theorem luaDCall_recorded (rt : Runtime H) (function : Value) (arguments : List Value)
    (world : World H) :
    (luaDCall rt.recording function arguments world).world.calls =
      world.calls ++ [⟨function, arguments⟩] :=
  CallResult.withCalls_calls _ _

theorem luaVGettable_recorded (rt : Runtime H) (object key : Value) (world : World H) :
    (luaVGettable rt.recording object key world).world.calls = world.calls := by
  cases object with
  | table address =>
      simp only [luaVGettable]
      split
      · exact CallResult.withCalls_calls _ _
      · rfl
  | _ => exact CallResult.withCalls_calls _ _

def Lua.Outcome.Logs (calls : List Call) (outcome : Outcome H α) : Prop :=
  outcome.All fun state => state.world.calls = calls

def Lua.LuaM.CallsNothing (action : LuaM H α) : Prop :=
  ∀ state, (action state).Logs state.world.calls

theorem callsNothing_bind {action : LuaM H α} {next : α → LuaM H β} (first : action.CallsNothing)
    (second : ∀ value, (next value).CallsNothing) : (action >>= next).CallsNothing := by
  intro state
  apply Outcome.All.bind (first state)
  intro value after same
  change Outcome.Logs _ _
  rw [← same]
  exact second value after

theorem callsNothing_ite {condition : Prop} [Decidable condition] {yes no : LuaM H α}
    (left : yes.CallsNothing) (right : no.CallsNothing) :
    (if condition then yes else no).CallsNothing := by
  split
  · exact left
  · exact right

theorem callsNothing_pure (value : α) : (pure value : LuaM H α).CallsNothing :=
  fun _ => rfl

theorem callsNothing_luaToboolean (idx : Int) : (luaToboolean idx : LuaM H Bool).CallsNothing := by
  intro state
  simp only [luaToboolean, valueAt, bind_apply, getStack_apply, Outcome.ok_bind]
  cases index2adr state.stack idx <;> rfl

theorem callsNothing_luaTostring (platform : Platform) (idx : Int) :
    (luaTostring platform idx : LuaM H CharPtr).CallsNothing := by
  intro state
  simp only [luaTostring, luaTolstring, bind_apply, getStack_apply, Outcome.ok_bind]
  cases index2adr state.stack idx with
  | slot position =>
      dsimp only
      cases state.stack[position]? with
      | none => rfl
      | some value => cases value <;> rfl
  | above => rfl
  | invalid => rfl

theorem callsNothing_evbufferAddPrintf (buffer : Bytes) (format : CharPtr)
    (arguments : List Printf.Arg) : (evbufferAddPrintf buffer format arguments).CallsNothing := by
  intro state
  cases format with
  | none => rfl
  | some format =>
      simp only [evbufferAddPrintf, bind_apply, read_some, Outcome.ok_bind]
      cases Printf.format (cstr format) arguments <;> rfl

theorem callsNothing_answerRequest (rt : Runtime Server) (req : IncomingRequest) (count : Int) :
    (answerRequest rt req count).CallsNothing := by
  apply callsNothing_ite
  · apply callsNothing_bind
    · intro state
      rfl
    · intro _
      exact callsNothing_pure ()
  · apply callsNothing_bind (callsNothing_luaToboolean _)
    intro isTrue
    apply callsNothing_ite
    · apply callsNothing_bind (callsNothing_luaTostring _ _)
      intro body
      apply callsNothing_bind (callsNothing_evbufferAddPrintf _ _ _)
      intro evb state
      rfl
    · intro state
      rfl

section Recorded

variable {rt : Runtime Server} {req : IncomingRequest} {base : List Value}
  {passed : List (Sink × CharPtr)} {world : World Server}

/-- The call of `call_lua_script` is logged, and nothing after it. -/
theorem callLuaScript_logs (arguments : List Value) (function : Value) (below : List Value) :
    (callLuaScript rt.recording arguments.length
        ⟨arguments.reverse ++ function :: below, passed, world⟩).Logs
      (world.calls ++ [⟨function, arguments⟩]) := by
  have logged := luaDCall_recorded rt function arguments world
  rw [callLuaScript_apply]
  cases called : luaDCall rt.recording function arguments world with
  | returns results after =>
      rw [called] at logged
      exact logged
  | raises error after =>
      rw [called] at logged
      exact logged
  | faults reason after =>
      rw [called] at logged
      exact logged

theorem httpHandler_logs {handler : Value} {looked : World Server} {call : ScriptCall}
    (named : Global rt.recording (lit "http_request_handler") world handler looked)
    (callable : handler.isFunction = true) (called : handlerCall req handler base looked = some call) :
    (httpHandler rt.recording req ⟨base, passed, world⟩).Logs
      (world.calls ++ [⟨call.function, call.arguments⟩]) := by
  have lookedCalls : looked.calls = world.calls := by
    obtain ⟨results, looked', -⟩ := named
    have logged := luaVGettable_recorded rt (.table world.heap.globals)
      (.string (lit "http_request_handler")) world
    rw [looked'] at logged
    exact logged
  have callCalls : call.world.calls = world.calls := by
    unfold handlerCall at called
    split at called <;> cases called <;> exact lookedCalls
  rw [httpHandler_called named callable called, ← handlerCall_arguments called, ← callCalls]
  apply Outcome.All.bind (callLuaScript_logs call.arguments call.function call.below)
  intro count state same
  change Outcome.Logs _ _
  rw [← same]
  exact callsNothing_answerRequest _ _ _ state

theorem httpHandler_logs_nothing
    (uncalled : ∀ handler looked, Global rt.recording (lit "http_request_handler") world handler looked →
      handler.isFunction = true → handlerCall req handler base looked = none) :
    (httpHandler rt.recording req ⟨base, passed, world⟩).Logs world.calls := by
  have logged := luaVGettable_recorded rt (.table world.heap.globals)
    (.string (lit "http_request_handler")) world
  have plain : cstr (lit "http_request_handler") = lit "http_request_handler" := by decide
  cases looked : luaVGettable rt.recording (.table world.heap.globals)
      (.string (lit "http_request_handler")) world with
  | returns results after =>
      rw [looked] at logged
      have named : Global rt.recording (lit "http_request_handler") world (results.headD .nil) after :=
        ⟨results, looked, rfl⟩
      cases callable : (results.headD .nil).isFunction with
      | false =>
          rw [httpHandler_missing named callable]
          exact logged
      | true =>
          rw [httpHandler_uncalled named callable (uncalled _ _ named callable)]
          exact logged
  | raises error after =>
      rw [looked] at logged
      simp only [httpHandler, findLuaGlobalFunction, luaGetglobal, bind_apply, Option.getD_some, plain,
        looked, pushResult_raises, Outcome.raise_bind]
      exact logged
  | faults reason after =>
      rw [looked] at logged
      simp only [httpHandler, findLuaGlobalFunction, luaGetglobal, bind_apply, Option.getD_some, plain,
        looked, pushResult_faults, Outcome.fault_bind]
      exact logged

end Recorded

/-- The call is one of the global `http_request_handler`, with the table made for this
request as its only argument. -/
def CallsHandler (rt : Runtime Server) (world : World Server) (call : Call) : Prop :=
  ∃ looked, Global rt (lit "http_request_handler") world call.function looked ∧
    call.function.isFunction = true ∧ call.arguments = [.table looked.heap.nextTable]

/-- Whatever is on the stack, all `http_handler` calls is the handler with one table, exactly
when the request has a parsed URI, or the stack is empty, or there is no handler. -/
theorem httpHandler_callsHandler_iff (rt : Runtime Server) (req : IncomingRequest) (base : List Value)
    (passed : List (Sink × CharPtr)) (world : World Server) :
    ((httpHandler rt.recording req ⟨base, passed, world⟩).All fun state =>
        ∀ call ∈ state.world.calls.drop world.calls.length, CallsHandler rt.recording world call) ↔
      req.uri ≠ none ∨ base = [] ∨
        ∀ handler looked, Global rt.recording (lit "http_request_handler") world handler looked →
          handler.isFunction = false := by
  by_cases calls : ∃ handler looked call,
      Global rt.recording (lit "http_request_handler") world handler looked ∧
      handler.isFunction = true ∧ handlerCall req handler base looked = some call
  · obtain ⟨handler, looked, call, named, callable, called⟩ := calls
    have logs := @httpHandler_logs rt req base passed world handler looked call named callable called
    have only : ((httpHandler rt.recording req ⟨base, passed, world⟩).All fun state =>
        ∀ call ∈ state.world.calls.drop world.calls.length, CallsHandler rt.recording world call) ↔
        CallsHandler rt.recording world ⟨call.function, call.arguments⟩ := by
      cases ran : httpHandler rt.recording req ⟨base, passed, world⟩ <;>
      · rw [ran] at logs
        simp [Outcome.All, show _ = _ from logs]
    rw [only]
    cases parsed : req.uri with
    | some uri =>
        simp only [handlerCall, parsed, Option.some.injEq] at called
        subst called
        apply iff_of_true
        · exact ⟨looked, named, callable, rfl⟩
        · exact .inl (by simp)
    | none =>
        cases base with
        | nil => simp [handlerCall, parsed] at called
        | cons function below =>
            simp only [handlerCall, parsed, Option.some.injEq] at called
            subst called
            apply iff_of_false
            · intro right
              obtain ⟨other, -, -, arguments⟩ := right
              rw [List.cons.injEq] at arguments
              rw [arguments.1] at callable
              cases callable
            · intro safe
              rcases safe with parsed' | empty | missing
              · exact parsed' rfl
              · cases empty
              · rw [missing handler looked named] at callable
                cases callable
  · have uncalled : ∀ handler looked,
        Global rt.recording (lit "http_request_handler") world handler looked →
        handler.isFunction = true → handlerCall req handler base looked = none := by
      intro handler looked named callable
      cases called : handlerCall req handler base looked with
      | none => rfl
      | some call => exact absurd ⟨handler, looked, call, named, callable, called⟩ calls
    have logs := @httpHandler_logs_nothing rt req base passed world uncalled
    apply iff_of_true
    · apply Outcome.All.imp logs
      intro state same
      rw [same]
      simp
    · by_contra exposed
      simp only [not_or, not_not, not_forall, Bool.not_eq_false] at exposed
      obtain ⟨unparsed, filled, handler, looked, named, callable⟩ := exposed
      have called := uncalled handler looked named callable
      cases base with
      | nil => exact filled rfl
      | cons function below => simp [handlerCall, unparsed] at called

/-- A request whose URI libevent could not parse. -/
private def unparsed : IncomingRequest :=
  { getRoot with uri := none }

/-- A function left on the stack is called, with the handler as its argument. -/
theorem httpHandler_callsHandler_counterexample :
    ¬ (httpHandler (answering "hello").recording unparsed
        ⟨[.function (.closure 7)], [], handlerSet⟩).All fun state =>
      ∀ call ∈ state.world.calls.drop handlerSet.calls.length,
        CallsHandler (answering "hello").recording handlerSet call := by
  intro right
  obtain ⟨looked, -, -, arguments⟩ := right ⟨.function (.closure 7), [.function (.closure 0)]⟩ (by decide +kernel)
  cases arguments

end GameServer
