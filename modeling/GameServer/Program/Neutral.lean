import GameServer.Program.Handler

namespace GameServer

open Lua LuaM

/-! What the events of the daemon leave on the shared Lua stack. -/

variable {rt : Runtime Server} {base : List Value} {passed : List (Sink × CharPtr)}
  {world : World Server}

/-! ## Lookups -/

/-- A lookup that returns leaves one function more on the stack, or the stack as it was. -/
def Pushes (base : List Value) : Outcome Server Bool → Prop
  | .ok true state => ∃ function, state.stack = function :: base ∧ function.isFunction = true
  | .ok false state => state.stack = base
  | _ => True

theorem Pushes.bind {outcome : Outcome Server α} {next : α → LuaState Server → Outcome Server Bool}
    (continued : ∀ value state, outcome = .ok value state → Pushes base (next value state)) :
    Pushes base (outcome.bind next) := by
  cases outcome with
  | ok value state => exact continued value state rfl
  | raise error state => trivial
  | fault reason state => trivial

theorem keepFunction_pushes (function : Value) (above : List Value) (name : Value) :
    Pushes base (keepFunction (base.length : Int) (base.length + 1)
      ⟨function :: (above ++ name :: base), passed, world⟩) := by
  rw [keepFunction_eq]
  split
  · rename_i callable
    exact ⟨function, rfl, callable⟩
  · rfl

theorem luaGetglobal_stack {name : CharPtr} {state after : LuaState Server}
    (ran : luaGetglobal rt name state = .ok () after) :
    ∃ value, after.stack = value :: state.stack := by
  unfold luaGetglobal at ran
  cases found : luaVGettable rt (.table state.world.heap.globals) (.string (cstr (name.getD [])))
      state.world with
  | returns results looked =>
      rw [found] at ran
      cases ran
      exact ⟨_, rfl⟩
  | raises error looked => rw [found] at ran; cases ran
  | faults reason looked => rw [found] at ran; cases ran

theorem selectFunction_pushes (func : Bytes) (value : Value) (above : List Value) (name : Value) :
    Pushes base (selectFunction rt base.length (base.length + 1) (some func)
      ⟨value :: (above ++ name :: base), passed, world⟩) := by
  by_cases isTable : ∃ address, value = .table address
  · obtain ⟨address, rfl⟩ := isTable
    rw [selectFunction_table]
    exact keepFunction_pushes _ (.table address :: above) name
  by_cases isTrue : value = .boolean true
  · subst isTrue
    rw [selectFunction_true]
    apply Pushes.bind
    intro _ state ran
    obtain ⟨function, stack⟩ := luaGetglobal_stack ran
    obtain ⟨after, handed, looked⟩ := state
    cases stack
    exact keepFunction_pushes function above name
  · have notTable : value.isTable = false := by
      cases value <;> simp_all [Value.isTable]
    rw [selectFunction_other rt _ _ notTable isTrue above name]
    rfl

theorem loadLuaLibrary_stack {module : Bytes} {isLoaded : Bool} {after : LuaState Server}
    (ran : loadLuaLibrary rt (some module) ⟨base, passed, world⟩ = .ok isLoaded after) :
    if isLoaded then ∃ value, after.stack = value :: base else after.stack = base := by
  rcases luaGetglobal_cases rt (lit "require") (.function tracebackFunction :: base) passed world with
    ⟨require, looked, named⟩ | ⟨error, looked, raised⟩ | ⟨reason, looked, faulted⟩
  · rw [loadLuaLibrary_eq named] at ran
    split at ran <;> cases ran
    · exact ⟨_, rfl⟩
    · rfl
  · simp [loadLuaLibrary, luaPushcfunction, raised] at ran
  · simp [loadLuaLibrary, luaPushcfunction, faulted] at ran

theorem findLuaFunction_pushes (rt : Runtime Server) (module func : CharPtr) (base : List Value)
    (passed : List (Sink × CharPtr)) (world : World Server) :
    Pushes base (findLuaFunction rt module func ⟨base, passed, world⟩) := by
  cases module with
  | none => simp [findLuaFunction, Pushes]
  | some module =>
  by_cases moduleEmpty : cstr module = []
  · simp [findLuaFunction, moduleEmpty, Pushes]
  cases func with
  | none => simp [findLuaFunction, moduleEmpty, Pushes]
  | some func =>
  by_cases funcEmpty : cstr func = []
  · simp [findLuaFunction, moduleEmpty, funcEmpty, Pushes]
  cases searched : packageLoaded rt world with
  | none =>
      have returns := @findLuaFunction_unsearchable rt base passed world module func moduleEmpty
        funcEmpty searched
      cases ran : findLuaFunction rt (some module) (some func) ⟨base, passed, world⟩ with
      | ok isFound found => exact absurd ran (returns isFound found)
      | raise error final => trivial
      | fault reason final => trivial
  | some package =>
  obtain ⟨loaded, looked⟩ := package
  rw [findLuaFunction_eq moduleEmpty funcEmpty searched]
  dsimp only
  split
  · apply Pushes.bind
    intro isLoaded after loadedLibrary
    have stack := loadLuaLibrary_stack loadedLibrary
    obtain ⟨stackAfter, handed, later⟩ := after
    cases isLoaded with
    | false =>
        cases stack
        have cut (entry : Value) : luaSettop (base.length : Int)
            ⟨entry :: .table loaded :: .string (cstr module) :: base, handed, later⟩ = _ :=
          luaSettop_base [entry, .table loaded] _
        simp only [Bool.false_eq_true, if_false, cut, Outcome.ok_bind]
        rfl
    | true =>
        obtain ⟨value, rfl⟩ := stack
        exact selectFunction_pushes func value [_, .table loaded] _
  · exact selectFunction_pushes func _ [.table loaded] _

/-! ## Code that leaves the stack alone -/

/-- The stack is the same whenever the action returns. -/
def FixesStack (action : EngineM α) : Prop :=
  ∀ state value after, action state = .ok value after → after.stack = state.stack

theorem fixesStack_bind {action : EngineM α} {next : α → EngineM β} (first : FixesStack action)
    (second : ∀ value, FixesStack (next value)) : FixesStack (action >>= next) := by
  intro state result final ran
  obtain ⟨value, middle, start, rest⟩ := Outcome.bind_eq_ok.mp ran
  rw [second value middle result final rest, first state value middle start]

theorem fixesStack_pure (value : α) : FixesStack (pure value) := by
  intro state result after ran
  cases ran
  rfl

theorem fixesStack_crash (reason : Fault) : FixesStack (crash reason : EngineM α) := nofun

theorem fixesStack_getHost : FixesStack getHost := by
  intro state result after ran
  cases ran
  rfl

theorem fixesStack_modifyHost (change : Server → Server) : FixesStack (modifyHost change) := by
  intro state result after ran
  cases ran
  rfl

theorem fixesStack_logDebug (format : String) (arguments : List Printf.Arg) :
    FixesStack (logDebug format arguments) := by
  intro state result after ran
  cases ran
  rfl

theorem fixesStack_poolMemory (pool : Nat) : FixesStack (poolMemory pool) := by
  apply fixesStack_bind fixesStack_getHost
  intro server
  split
  · exact fixesStack_pure _
  · exact fixesStack_crash _

theorem fixesStack_callbackInfo (arg : Nat) : FixesStack (callbackInfo arg) := by
  apply fixesStack_bind (fixesStack_poolMemory arg)
  intro memory
  split
  · exact fixesStack_pure _
  · exact fixesStack_crash _

theorem fixesStack_callbackString (pool : Nat) (block : Option Nat) :
    FixesStack (callbackString pool block) := by
  cases block with
  | none => exact fixesStack_crash _
  | some block =>
      refine fixesStack_bind (fixesStack_bind (fixesStack_poolMemory pool) fun memory => ?_) fun _ =>
        fixesStack_pure _
      split
      · exact fixesStack_pure _
      · exact fixesStack_crash _

theorem fixesStack_readCallback (response : Response) (arg : Nat) :
    FixesStack (readCallback response arg) := by
  refine fixesStack_bind ?_ fun code => fixesStack_bind (fixesStack_logDebug _ _) fun _ => ?_
  · cases response with
    | none => exact fixesStack_crash _
    | some code => exact fixesStack_pure code
  apply fixesStack_bind (fixesStack_callbackInfo arg)
  intro ptr
  apply fixesStack_bind (fixesStack_callbackString arg _)
  intro table
  apply fixesStack_bind (fixesStack_callbackString arg _)
  intro function
  apply fixesStack_bind (fixesStack_modifyHost _)
  intro _
  exact fixesStack_bind (fixesStack_logDebug _ _) fun _ => fixesStack_pure _

/-! ## Events -/

/-- The Lua function an event calls, with its arguments and the world it is called in. -/
inductive EventCall (rt : Runtime Server) :
    Event → LuaState Server → Value → List Value → World Server → Prop where
  | handler {req : IncomingRequest} {state : LuaState Server} {handler : Value}
      {looked : World Server} {made : ScriptCall}
      (named : Global rt (lit "http_request_handler") state.world handler looked)
      (callable : handler.isFunction = true)
      (called : handlerCall req handler state.stack looked = some made) :
      EventCall rt (.serve req) state made.function made.arguments made.world
  | callback {position : Nat} {response : Response} {pending : Pending} {object : OutgoingRequest}
      {table func : Bytes} {function : Value} {state taken ready noted found : LuaState Server}
      (waiting : takePending position state = .ok (some pending) taken)
      (alive : evhttpRequest pending.request taken = .ok object ready)
      (names : readCallback response object.arg ready = .ok (table, func) noted)
      (lookup : findLuaFunction rt (some table) (some func) noted = .ok true found)
      (top : found.stack = function :: state.stack) :
      EventCall rt (.complete position response) state function [] found.world

/-- The call returns no value and raises no error. -/
def ReturnsNothing (result : CallResult Server) : Prop :=
  ∃ after, result = .returns [] after

/-- The Lua function the event calls, if any, returns no value and raises no error. -/
def QuietEvent (rt : Runtime Server) (event : Event) (state : LuaState Server) : Prop :=
  ∀ function arguments world, EventCall rt event state function arguments world →
    ReturnsNothing (luaDCall rt function arguments world)

theorem leftOver_eq_nil {platform : Platform} {results : List Value} :
    leftOver platform results = [] ↔ results = [] := by
  unfold leftOver
  split
  · split <;> simp
  · simp

theorem returnsNothing_returns {results : List Value} {after : World Server} :
    ReturnsNothing (.returns results after) ↔ results = [] := by
  simp [ReturnsNothing]

theorem not_returnsNothing_raises {error : Value} {after : World Server} :
    ¬ ReturnsNothing (.raises error after) := nofun

theorem serve_stack_iff {req : IncomingRequest} (parsed : req.uri.isSome = true)
    {state after : LuaState Server} (ran : step rt (.serve req) state = .ok () after) :
    after.stack = state.stack ↔ QuietEvent rt (.serve req) state := by
  obtain ⟨base, passed, world⟩ := state
  obtain ⟨uri, parsed⟩ := Option.isSome_iff_exists.mp parsed
  change httpHandler rt req ⟨base, passed, world⟩ = _ at ran
  by_cases named : ∃ handler looked, Global rt (lit "http_request_handler") world handler looked
  case neg =>
    rcases httpHandler_unnamed req base passed
        (fun handler looked present => named ⟨handler, looked, present⟩) with
      ⟨error, ended, unnamed⟩ | ⟨reason, ended, unnamed⟩ <;>
    · rw [unnamed] at ran
      cases ran
  obtain ⟨handler, looked, named⟩ := named
  by_cases callable : handler.isFunction = true
  case neg =>
    rw [httpHandler_missing named (Bool.eq_false_iff.mpr callable)] at ran
    cases ran
    refine ⟨fun _ function arguments world call => ?_, fun _ => rfl⟩
    cases call with
    | handler namedToo callableToo =>
        rw [(named.deterministic namedToo).1] at callable
        exact absurd callableToo callable
  -- the one call the event makes
  have called : handlerCall req handler base looked =
      some ⟨handler, [.table looked.heap.nextTable], base, withRequest looked req uri⟩ := by
    simp [handlerCall, parsed]
  have quiet : QuietEvent rt (.serve req) ⟨base, passed, world⟩ ↔ ReturnsNothing
      (luaDCall rt handler [.table looked.heap.nextTable] (withRequest looked req uri)) := by
    have only := @EventCall.handler rt req ⟨base, passed, world⟩ handler looked _ named callable called
    refine ⟨fun quiet => quiet _ _ _ only, ?_⟩
    intro nothing function arguments world call
    cases call with
    | handler namedToo callableToo calledToo =>
        obtain ⟨rfl, rfl⟩ := named.deterministic namedToo
        rw [called] at calledToo
        cases calledToo
        exact nothing
  rw [quiet]
  cases ended : luaDCall rt handler [.table looked.heap.nextTable] (withRequest looked req uri) with
  | returns results final =>
      rw [returnsNothing_returns]
      rcases httpHandler_returned passed named callable called ended with
        ⟨reply, handed, -, returned⟩ | ⟨reason, state, -, faulted⟩
      · rw [returned] at ran
        cases ran
        exact List.append_left_eq_self.trans leftOver_eq_nil
      · rw [faulted] at ran
        cases ran
  | raises error final =>
      rw [httpHandler_raised passed named callable called ended] at ran
      cases ran
      exact iff_of_false (List.cons_ne_self _ _) not_returnsNothing_raises
  | faults reason final =>
      obtain ⟨state, faulted⟩ := httpHandler_faulted passed named callable called ended
      rw [faulted] at ran
      cases ran

theorem runCallback_stack_iff {table func : CharPtr} {state after : LuaState Server}
    (ran : runCallback rt table func state = .ok () after) :
    after.stack = state.stack ↔ ∀ function found,
      findLuaFunction rt table func state = .ok true found → found.stack = function :: state.stack →
        ReturnsNothing (luaDCall rt function [] found.world) := by
  obtain ⟨base, passed, world⟩ := state
  have pushes := findLuaFunction_pushes rt table func base passed world
  obtain ⟨isFound, found, lookup, rest⟩ := Outcome.bind_eq_ok.mp ran
  rw [lookup] at pushes
  cases isFound with
  | false =>
      cases rest
      apply iff_of_true pushes
      intro function other lookupToo
      rw [lookup] at lookupToo
      cases lookupToo
  | true =>
      obtain ⟨function, stack, -⟩ := pushes
      obtain ⟨stackFound, handed, middle⟩ := found
      cases stack
      have only : (∀ other later, findLuaFunction rt table func ⟨base, passed, world⟩ = .ok true later →
          later.stack = other :: base → ReturnsNothing (luaDCall rt other [] later.world)) ↔
          ReturnsNothing (luaDCall rt function [] middle) := by
        refine ⟨fun all => all function _ lookup rfl, fun nothing other later lookupToo top => ?_⟩
        rw [lookup] at lookupToo
        cases lookupToo
        cases top
        exact nothing
      rw [only]
      obtain ⟨count, final, called, ended⟩ := Outcome.bind_eq_ok.mp rest
      cases ended
      have call := @callLuaScript_apply rt handed middle [] function base
      simp only [List.length_nil, Nat.cast_zero, List.reverse_nil, List.nil_append] at call
      rw [call] at called
      cases result : luaDCall rt function [] middle with
      | returns results last =>
          rw [result] at called
          cases called
          rw [returnsNothing_returns]
          exact List.append_left_eq_self.trans List.reverse_eq_nil_iff
      | raises error last =>
          rw [result] at called
          cases called
          exact iff_of_false (List.cons_ne_self _ _) not_returnsNothing_raises
      | faults reason last =>
          rw [result] at called
          cases called

theorem fixesStack_takePending (position : Nat) : FixesStack (takePending position) := by
  intro state result after ran
  cases ran
  rfl

theorem fixesStack_evhttpRequest (request : Nat) : FixesStack (evhttpRequest request) := by
  apply fixesStack_bind fixesStack_getHost
  intro server
  split
  · exact fixesStack_pure _
  · exact fixesStack_crash _

theorem complete_stack_iff {position : Nat} {response : Response} {state after : LuaState Server}
    (ran : step rt (.complete position response) state = .ok () after) :
    after.stack = state.stack ↔ QuietEvent rt (.complete position response) state := by
  rw [step, bind_apply] at ran
  obtain ⟨pending, taken, waiting, rest⟩ := Outcome.bind_eq_ok.mp ran
  have takenStack := fixesStack_takePending position _ _ _ waiting
  cases pending with
  | none =>
      cases rest
      apply iff_of_true takenStack
      intro function arguments world call
      cases call with
      | callback waitingToo =>
          rw [waiting] at waitingToo
          cases waitingToo
  | some pending =>
      simp only [completeRequest, bind_apply] at rest
      obtain ⟨object, ready, alive, rest⟩ := Outcome.bind_eq_ok.mp rest
      have readyStack := (fixesStack_evhttpRequest _ _ _ _ alive).trans takenStack
      obtain ⟨_, called, callback, rest⟩ := Outcome.bind_eq_ok.mp rest
      cases rest
      rw [httpRequestCb, bind_apply] at callback
      obtain ⟨⟨table, func⟩, noted, names, rest⟩ := Outcome.bind_eq_ok.mp callback
      have notedStack : noted.stack = state.stack :=
        (fixesStack_readCallback _ _ _ _ _ names).trans readyStack
      simp only [bind_apply] at rest
      obtain ⟨_, final, ran, rest⟩ := Outcome.bind_eq_ok.mp rest
      have finalStack : called.stack = final.stack := by
        refine fixesStack_bind (fixesStack_callbackInfo object.arg) (fun ptr => ?_) _ _ _ rest
        exact fixesStack_modifyHost _
      have same := runCallback_stack_iff ran
      rw [notedStack] at same
      change called.stack = state.stack ↔ _
      rw [finalStack, same]
      constructor
      · intro nothing function arguments world call
        cases call with
        | callback waitingToo aliveToo namesToo lookup top =>
            rw [waiting] at waitingToo
            cases waitingToo
            rw [alive] at aliveToo
            cases aliveToo
            rw [names] at namesToo
            cases namesToo
            exact nothing function _ lookup top
      · intro quiet function found lookup top
        exact quiet function [] found.world (.callback waiting alive names lookup top)

theorem runScript_stack {platform : Platform} {body : Script} {state after : LuaState Server}
    (ran : runScript platform body state = .ok () after) : after.stack = state.stack := by
  unfold runScript at ran
  split at ran <;> cases ran <;> rfl

/-- An event that returns leaves the stack as it was exactly when it is quiet. -/
theorem step_stack_iff {event : Event} (parsed : ∀ req, event = .serve req → req.uri.isSome = true)
    {state after : LuaState Server} (ran : step rt event state = .ok () after) :
    after.stack = state.stack ↔ QuietEvent rt event state := by
  cases event with
  | serve req => exact serve_stack_iff (parsed req rfl) ran
  | complete position response => exact complete_stack_iff ran
  | script body => exact iff_of_true (runScript_stack ran) nofun

/-- Every event of the run that returned was quiet. -/
def QuietRun (rt : Runtime Server) : List Event → LuaState Server → Prop
  | [], _ => True
  | event :: rest, state =>
      ∀ after, step rt event state = .ok () after → QuietEvent rt event state ∧ QuietRun rt rest after

/-- The stack stays what it was through a whole run exactly when every event is quiet. -/
theorem trace_stack_iff (rt : Runtime Server) (events : List Event) (state : LuaState Server)
    (parsed : ∀ req, .serve req ∈ events → req.uri.isSome = true) :
    (∀ reached ∈ trace rt events state, reached.stack = state.stack) ↔ QuietRun rt events state := by
  induction events generalizing state with
  | nil => simp [trace, QuietRun]
  | cons event rest ih =>
      have eventParsed (req : IncomingRequest) (serving : event = .serve req) : req.uri.isSome = true :=
        parsed req (serving ▸ List.mem_cons_self ..)
      have restParsed (req : IncomingRequest) (member : .serve req ∈ rest) : req.uri.isSome = true :=
        parsed req (List.mem_cons_of_mem _ member)
      simp only [trace, QuietRun, List.forall_mem_cons, true_and]
      cases ran : step rt event state with
      | raise error after => simp
      | fault reason after => simp
      | ok value after =>
          have stepped := step_stack_iff eventParsed ran
          constructor
          · intro same other ranToo
            cases ranToo
            have atAfter : after.stack = state.stack := same after (trace_start rt rest after)
            refine ⟨stepped.mp atAfter, (ih after restParsed).mp fun reached member => ?_⟩
            rw [atAfter]
            exact same reached member
          · intro quiet reached member
            obtain ⟨quietEvent, quietRest⟩ := quiet after rfl
            rw [(ih after restParsed).mpr quietRest reached member]
            exact stepped.mpr quietEvent

theorem trace_stack_quiet :
    (trace default [.serve getRoot, .serve getRoot] ⟨[], [], handlerSet⟩).length = 3 ∧
    ∀ reached ∈ trace default [.serve getRoot, .serve getRoot] ⟨[], [], handlerSet⟩,
      reached.stack = [] := by
  have quiet (event : Event) (state : LuaState Server) : QuietEvent default event state :=
    fun function arguments world _ => ⟨_, rfl⟩
  refine ⟨by decide +kernel,
    (trace_stack_iff default [.serve getRoot, .serve getRoot] ⟨[], [], handlerSet⟩ ?_).mpr ?_⟩
  · simp [getRoot]
  · exact fun after _ => ⟨quiet _ _, fun after _ => ⟨quiet _ _, trivial⟩⟩

/-- The two results of an ordinary handler stay on the stack. -/
theorem trace_stack_counterexample :
    ¬ ∀ reached ∈ trace (answering "hello") [.serve getRoot] ⟨[], [], handlerSet⟩,
      reached.stack = [] := by
  intro same
  rcases @httpHandler_returned (answering "hello") [] [] handlerSet getRoot _ _ _
      (handlerSet_named _) rfl rfl _ _ rfl with
    ⟨reply, handed, -, served⟩ | ⟨reason, state, unanswered, -⟩
  · have second := same ⟨[.string (lit "hello"), .boolean true], handed, replied _ reply⟩ (by
      simp only [trace, step, served]
      exact List.mem_cons_of_mem _ (List.mem_singleton_self _))
    cases second
  · exact absurd unanswered (by decide)

end GameServer
