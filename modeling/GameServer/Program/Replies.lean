import GameServer.Program.Framing
import GameServer.Program.Handler

namespace GameServer

open Lua LuaM

/-! The replies of `http_handler`: how many a request gets, and what is in them. -/

/-! ## Scripts send no replies -/

/-- These replies were sent, whatever else happened. -/
abbrev Replied (replies : List Reply) (host : Server) : Prop :=
  host.replies = replies

abbrev anyEnd : Ends Server := ⟨True, True, fun _ => True⟩

namespace Replied

variable {rt : Runtime Server} {replies : List Reply}

theorem silent_replied : Silent (Replied replies) :=
  fun _ _ _ _ holds => holds

theorem keeps_anyFault (reason : Fault) :
    (crash reason : EngineM α).Keeps (Replied replies) anyEnd :=
  fun _ _ => ⟨fun _ => trivial, fun _ => trivial⟩

theorem keeps_getHost : (getHost : EngineM Server).Keeps (Replied replies) anyEnd :=
  fun _ holds => holds

theorem keeps_poolFree (pool : Nat) : (poolFree pool).Keeps (Replied replies) anyEnd :=
  keeps_modifyHost fun _ holds => holds

theorem keeps_poolNew (succeeds : Bool) : (poolNew succeeds).Keeps (Replied replies) anyEnd := by
  refine keeps_ite (fun state holds => holds) (keeps_pure _)

theorem keeps_poolMemory (pool : Nat) : (poolMemory pool).Keeps (Replied replies) anyEnd := by
  apply keeps_bind keeps_getHost
  intro server
  split
  · exact keeps_pure _
  · exact keeps_anyFault _

theorem keeps_setPoolMemory (pool : Nat) (memory : Pool) :
    (setPoolMemory pool memory).Keeps (Replied replies) anyEnd :=
  keeps_modifyHost fun _ holds => holds

theorem keeps_poolPalloc (succeeds : Bool) (junk : UInt8) (pool : Nat) (size : Int) :
    (poolPalloc succeeds junk pool size).Keeps (Replied replies) anyEnd := by
  refine keeps_bind (keeps_poolMemory pool) fun memory => keeps_ite ?_ (keeps_pure _)
  exact keeps_bind (keeps_setPoolMemory _ _) fun _ => keeps_pure _

theorem keeps_poolBlock (pool block : Nat) : (poolBlock pool block).Keeps (Replied replies) anyEnd := by
  apply keeps_bind (keeps_poolMemory pool)
  intro memory
  split
  · exact keeps_pure _
  · exact keeps_anyFault _

theorem keeps_setPoolBlock (pool block : Nat) (bytes : Bytes) :
    (setPoolBlock pool block bytes).Keeps (Replied replies) anyEnd :=
  keeps_bind (keeps_poolMemory pool) fun _ => keeps_ite (keeps_setPoolMemory _ _) (keeps_anyFault _)

theorem keeps_strncpy (pool block : Nat) (source : CharPtr) (n : Nat) :
    (strncpy pool block source n).Keeps (Replied replies) anyEnd :=
  keeps_bind (keeps_read _ _) fun _ => keeps_bind (keeps_poolBlock _ _) fun _ =>
    keeps_setPoolBlock _ _ _

theorem keeps_terminate (pool block n : Nat) :
    (terminate pool block n).Keeps (Replied replies) anyEnd :=
  keeps_bind (keeps_poolBlock _ _) fun _ => keeps_ite (keeps_setPoolBlock _ _ _) (keeps_anyFault _)

theorem keeps_callbackInfo (arg : Nat) : (callbackInfo arg).Keeps (Replied replies) anyEnd := by
  apply keeps_bind (keeps_poolMemory arg)
  intro memory
  split
  · exact keeps_pure _
  · exact keeps_anyFault _

theorem keeps_evhttpRequest (request : Nat) :
    (evhttpRequest request).Keeps (Replied replies) anyEnd := by
  apply keeps_bind keeps_getHost
  intro server
  split
  · exact keeps_pure _
  · exact keeps_anyFault _

theorem keeps_callbackString (pool : Nat) (block : Option Nat) :
    (callbackString pool block).Keeps (Replied replies) anyEnd := by
  cases block with
  | none => exact keeps_anyFault _
  | some block => exact keeps_bind (keeps_poolBlock pool block) fun _ => keeps_pure _

theorem keeps_readCallback (response : Response) (arg : Nat) :
    (readCallback response arg).Keeps (Replied replies) anyEnd := by
  refine keeps_bind ?_ fun code => keeps_bind (keeps_logDebug silent_replied _ _) fun _ => ?_
  · cases response with
    | none => exact keeps_anyFault _
    | some code => exact keeps_pure code
  apply keeps_bind (keeps_callbackInfo arg)
  intro ptr
  apply keeps_bind (keeps_callbackString arg _)
  intro table
  apply keeps_bind (keeps_callbackString arg _)
  intro function
  refine keeps_bind (keeps_modifyHost fun _ holds => holds) fun _ => ?_
  exact keeps_bind (keeps_logDebug silent_replied _ _) fun _ => keeps_pure _

theorem keeps_httpArguments (rt : Runtime Server) :
    (httpArguments rt).Keeps (Replied replies) anyEnd := by
  apply keeps_bind keeps_luaGettop
  intro top
  apply keeps_ite (keeps_pure _)
  apply keeps_bind (keeps_luaTostring _ _)
  intro ip
  apply keeps_bind (keeps_bind (keeps_strlen _) fun _ => keeps_ite (keeps_pure _) (keeps_pure _))
  intro isIp
  apply keeps_ite (keeps_pure _)
  apply keeps_bind (keeps_luaTonumber _ _)
  intro port
  apply keeps_bind (keeps_luaTostring _ _)
  intro uri
  apply keeps_bind (keeps_luaTolstring _ _)
  intro table
  split
  · exact keeps_pure _
  apply keeps_bind (keeps_luaTolstring _ _)
  intro function
  split <;> exact keeps_pure _

theorem keeps_newCallbackInfo (allocation : Allocation) (table function : Bytes) :
    (newCallbackInfo allocation table function).Keeps (Replied replies) anyEnd := by
  have freed (pool : Nat) :
      (do poolFree pool; return none : EngineM (Option Nat)).Keeps (Replied replies) anyEnd :=
    keeps_bind (keeps_poolFree pool) fun _ => keeps_pure _
  apply keeps_bind (keeps_poolNew _)
  intro pool
  split
  · exact keeps_pure _
  apply keeps_ite (freed _)
  apply keeps_bind (keeps_poolPalloc _ _ _ _)
  intro tableBlock
  apply keeps_bind (keeps_poolPalloc _ _ _ _)
  intro functionBlock
  apply keeps_bind (keeps_poolMemory _)
  intro memory
  apply keeps_bind (keeps_setPoolMemory _ _)
  intro _
  split
  · apply keeps_bind (keeps_strncpy _ _ _ _)
    intro _
    apply keeps_bind (keeps_terminate _ _ _)
    intro _
    apply keeps_bind (keeps_strncpy _ _ _ _)
    intro _
    apply keeps_bind (keeps_terminate _ _ _)
    intro _
    exact keeps_bind (keeps_modifyHost fun _ holds => holds) fun _ => keeps_pure _
  · exact freed _

variable (keeps : rt.Keeps (Replied replies) anyEnd)

include keeps

theorem keeps_httpRequestCb (response : Response) (arg : Nat) :
    (httpRequestCb rt response arg).Keeps (Replied replies) anyEnd := by
  apply keeps_bind (keeps_readCallback response arg)
  intro names
  apply keeps_bind (keeps_runCallback keeps silent_replied _ _)
  intro _
  exact keeps_bind (keeps_callbackInfo arg) fun _ => keeps_poolFree _

theorem keeps_completeRequest (response : Response) (request : Nat) :
    (completeRequest (httpRequestCb rt) response request).Keeps (Replied replies) anyEnd := by
  apply keeps_bind (keeps_evhttpRequest request)
  intro object
  exact keeps_bind (keeps_httpRequestCb keeps _ _) fun _ => keeps_modifyHost fun _ holds => holds

theorem keeps_evhttpMakeRequest (make : MakeRequest) (connection request : Nat) (command : Command)
    (uri : CharPtr) :
    (evhttpMakeRequest make (httpRequestCb rt) connection request command uri).Keeps
      (Replied replies) anyEnd := by
  apply keeps_bind (keeps_read _ _)
  intro target
  apply keeps_bind (keeps_evhttpRequest _)
  intro object
  cases make with
  | rejected => exact keeps_bind (keeps_modifyHost fun _ holds => holds) fun _ => keeps_pure _
  | accepted => exact keeps_bind (keeps_modifyHost fun _ holds => holds) fun _ => keeps_pure _
  | completed response =>
      exact keeps_bind (keeps_completeRequest keeps _ _) fun _ => keeps_pure _

theorem keeps_httpRequestNew (network : Network) (address : CharPtr) (port : Int) (arg : Nat)
    (command : Command) (uri : CharPtr) :
    (httpRequestNew network address port (httpRequestCb rt) arg command uri).Keeps
      (Replied replies) anyEnd := by
  have freeConnection (connection : Nat) :
      (evhttpConnectionFree connection).Keeps (Replied replies) anyEnd :=
    keeps_modifyHost fun _ holds => holds
  refine keeps_bind (keeps_bind (keeps_read _ _) fun _ =>
    keeps_ite (fun _ holds => holds) (keeps_pure _)) fun connection => ?_
  split
  · exact keeps_pure _
  refine keeps_bind (keeps_ite (fun _ holds => holds) (keeps_pure _)) fun request => ?_
  split
  · exact keeps_bind (freeConnection _) fun _ => keeps_pure _
  refine keeps_bind (keeps_evhttpMakeRequest keeps _ _ _ _ _) fun made => keeps_ite ?_ (keeps_pure _)
  exact keeps_bind (keeps_modifyHost fun _ holds => holds) fun _ =>
    keeps_bind (freeConnection _) fun _ => keeps_pure _

theorem keeps_luaHttpRequest (command : Command) (allocation : Allocation) (network : Network) :
    (luaHttpRequest rt command allocation network).Keeps (Replied replies) anyEnd := by
  have answered (answer : Bool) :
      (do luaPushboolean answer; return 1 : EngineM Nat).Keeps (Replied replies) anyEnd :=
    keeps_bind (keeps_luaPushboolean _) fun _ => keeps_pure _
  apply keeps_bind (keeps_httpArguments rt)
  intro arguments
  split
  · exact answered false
  apply keeps_bind (keeps_newCallbackInfo _ _ _)
  intro pool
  split
  · exact answered false
  apply keeps_bind (keeps_httpRequestNew keeps _ _ _ _ _ _)
  intro request
  cases request with
  | none => exact keeps_bind (keeps_poolFree _) fun _ => answered false
  | some request => exact answered true

omit keeps

theorem admits_any (script : Script) : script.Admits (fun _ => True) anyEnd := by
  induction script with
  | returns results => trivial
  | raises error => trivial
  | exits => trivial
  | writes heap log files fileSteps rest ih => exact ih
  | request command arguments allocation network call index returned raised ihCall ihIndex
      ihReturned ihRaised =>
      exact ⟨trivial, fun _ => ⟨ihCall, fun time => ⟨ihIndex time, .inr trivial⟩⟩, ihReturned, ihRaised⟩

theorem keeps_scripted (platform : Platform) (call index : Nat → Script) (replies : List Reply) :
    (scripted platform call index).Keeps (Replied replies) anyEnd := by
  have script (body : Script) (world : World Server) (holds : Replied replies world.host) :
      (body.run platform world).Keeps (Replied replies) anyEnd := by
    let invariant : Unit → Server → Prop := fun _ => Replied replies
    change (body.run platform world).Keeps (invariant ()) anyEnd.mayRaise
    refine Script.run_keeps (fun _ => silent_replied) (fun _ _ _ => trivial) ?_ (admits_any body) () world holds
    intro rt command arguments allocation network _ keeps _ world holds
    exact callNative_keeps _ (keeps_luaHttpRequest (keeps ()) command allocation network _ holds)
  exact engine_keeps ⟨fun _ _ world holds => script _ world holds,
    fun _ _ world holds => script _ world holds, fun _ _ _ world holds => script _ world holds⟩

end Replied

/-! ## Exactly one reply -/

/-- `http_handler` returns and has sent one reply more, to this request. -/
def RepliesOnce (rt : Runtime Server) (req : IncomingRequest) (state : LuaState Server) : Prop :=
  ∃ reply after, httpHandler rt req state = .ok () after ∧
    after.world.host.replies = state.world.host.replies ++ [reply] ∧ reply.request = req.id

/-- The call ends, and not with two results of which the first is true and the second no
text to print: neither a string nor a number, or a string that is no format by itself. -/
def Answerable (platform : Platform) : CallResult Server → Prop
  | .returns results _ => ∀ first body, results = [first, body] → first.truthy = true →
      ∃ text, body.toLuaString platform = some text ∧ (Printf.format (cstr text) []).isSome = true
  | .raises _ _ => True
  | .faults _ _ => False

theorem answer_isSome_iff (platform : Platform) (req : IncomingRequest) (results : List Value)
    (world : World Server) :
    (answer platform req results).isSome = true ↔ Answerable platform (.returns results world) := by
  have printed (body : Value) : (printedBody platform body).isSome = true ↔
      ∃ text, body.toLuaString platform = some text ∧ (Printf.format (cstr text) []).isSome = true := by
    cases text : body.toLuaString platform <;> simp [printedBody, text]
  by_cases two : results.length = 2
  · obtain ⟨first, body, rfl⟩ := List.length_eq_two.mp two
    by_cases truthy : first.truthy = true
    · rw [answer, if_pos truthy, Option.isSome_map, printed]
      constructor
      · intro text first' body' same _
        cases same
        exact text
      · exact fun answerable => answerable first body rfl truthy
    · refine iff_of_true (by simp [answer, truthy]) ?_
      intro first' body' same truthy'
      cases same
      exact absurd truthy' truthy
  · rw [(answer_other platform req two).1]
    refine iff_of_true rfl ?_
    intro first body same
    exact absurd (congrArg List.length same) two

theorem answer_request {platform : Platform} {req : IncomingRequest} {results : List Value}
    {reply : Reply} (answered : answer platform req results = some reply) :
    reply.request = req.id := by
  unfold answer at answered
  split at answered
  · split at answered
    · obtain ⟨text, -, rfl⟩ := Option.map_eq_some_iff.mp answered
      rfl
    · cases answered
      rfl
  · cases answered
    rfl

theorem Global.keeps {rt : Runtime Server} {invariant : Server → Prop} {ends : Ends Server} {name : Bytes}
    {world after : World Server} {value : Value} (named : Global rt name world value after)
    (keeps : rt.Keeps invariant ends) (holds : invariant world.host) : invariant after.host := by
  obtain ⟨results, looked, -⟩ := named
  have kept := luaVGettable_keeps keeps holds (.table world.heap.globals) (.string name)
  rw [looked] at kept
  exact kept

theorem handlerCall_host {req : IncomingRequest} {handler : Value} {base : List Value}
    {looked : World Server} {made : ScriptCall} (called : handlerCall req handler base looked = some made) :
    made.world.host = looked.host := by
  unfold handlerCall at called
  split at called <;> cases called <;> rfl

/-- One reply to every request for which the script side names a function and the call
made ends in something `http_handler` can answer; in every other case none. -/
theorem httpHandler_repliesOnce_iff (platform : Platform) (call index : Nat → Script)
    (req : IncomingRequest) (base : List Value) (passed : List (Sink × CharPtr))
    (world : World Server) :
    RepliesOnce (scripted platform call index) req ⟨base, passed, world⟩ ↔
      ∃ handler looked,
        Global (scripted platform call index) (lit "http_request_handler") world handler looked ∧
        handler.isFunction = true ∧
        ∀ made, handlerCall req handler base looked = some made → Answerable platform
          (luaDCall (scripted platform call index) made.function made.arguments made.world) := by
  have keeps := Replied.keeps_scripted platform call index world.host.replies
  have same : (scripted platform call index).toPlatform = platform := rfl
  generalize scripted platform call index = rt at keeps same
  subst same
  constructor
  · intro replied
    obtain ⟨reply, after, ran, sent, -⟩ := replied
    by_cases named : ∃ handler looked, Global rt (lit "http_request_handler") world handler looked
    · obtain ⟨handler, looked, named⟩ := named
      by_cases callable : handler.isFunction = true
      · refine ⟨handler, looked, named, callable, fun made called => ?_⟩
        cases ended : luaDCall rt made.function made.arguments made.world with
        | returns results final =>
            rcases httpHandler_returned passed named callable called ended with
              ⟨reply, handed, answered, -⟩ | ⟨reason, state, -, faulted⟩
            · exact (answer_isSome_iff _ req results final).mp (by rw [answered]; rfl)
            · rw [faulted] at ran
              cases ran
        | raises error final => trivial
        | faults reason final =>
            obtain ⟨state, faulted⟩ := httpHandler_faulted passed named callable called ended
            rw [faulted] at ran
            cases ran
      · rw [httpHandler_missing named (Bool.eq_false_iff.mpr callable)] at ran
        cases ran
        have unchanged : looked.host.replies = world.host.replies := named.keeps keeps rfl
        simp [unchanged] at sent
    · rcases httpHandler_unnamed req base passed
          (fun handler looked named' => named ⟨handler, looked, named'⟩) with
        ⟨error, state, ended⟩ | ⟨reason, state, ended⟩ <;>
      · rw [ended] at ran
        cases ran
  · intro answered
    obtain ⟨handler, looked, named, callable, answerable⟩ := answered
    have lookedReplies : looked.host.replies = world.host.replies := named.keeps keeps rfl
    cases called : handlerCall req handler base looked with
    | none =>
        exact ⟨_, _, httpHandler_uncalled named callable called,
          congrArg (· ++ [errorReply req]) lookedReplies, rfl⟩
    | some made =>
        have madeReplies : made.world.host.replies = world.host.replies := by
          rw [handlerCall_host called, lookedReplies]
        have kept := luaDCall_keeps keeps madeReplies made.function made.arguments
        have answerable := answerable made called
        cases ended : luaDCall rt made.function made.arguments made.world with
        | returns results final =>
            rw [ended] at kept answerable
            rcases httpHandler_returned passed named callable called ended with
              ⟨reply, handed, answered, ran⟩ | ⟨reason, state, unanswered, -⟩
            · exact ⟨reply, _, ran, congrArg (· ++ [reply]) kept, answer_request answered⟩
            · have answers := (answer_isSome_iff _ req results final).mpr answerable
              rw [unanswered] at answers
              cases answers
        | raises error final =>
            rw [ended] at kept
            exact ⟨_, _, httpHandler_raised passed named callable called ended,
              congrArg (· ++ [errorReply req]) kept.2, rfl⟩
        | faults reason final =>
            rw [ended] at answerable
            exact answerable.elim

/-- Without the global there is no reply at all. -/
theorem httpHandler_repliesOnce_counterexample :
    ¬ RepliesOnce (scripted default (fun _ => .returns []) fun _ => .returns []) getRoot
      ⟨[], [], .start (.ofTables [])⟩ := by
  intro replied
  obtain ⟨reply, after, ran, sent, -⟩ := replied
  have missing : Global (scripted default (fun _ => .returns []) fun _ => .returns [])
      (lit "http_request_handler") (.start (.ofTables [])) .nil
      { (World.start (.ofTables [])) with clock := 1 } := ⟨[], rfl, rfl⟩
  rw [httpHandler_missing missing rfl] at ran
  cases ran
  cases sent

/-! ## The body of a reply -/

/-- The body is the string of the script exactly when the string holds neither a `%` nor
a NUL. -/
theorem httpHandler_body_iff (rt : Runtime Server) (req : IncomingRequest) (base : List Value)
    (passed : List (Sink × CharPtr)) (world : World Server) {handler first : Value} {text : Bytes}
    {looked after : World Server} {made : ScriptCall}
    (named : Global rt (lit "http_request_handler") world handler looked)
    (callable : handler.isFunction = true)
    (called : handlerCall req handler base looked = some made)
    (returned : luaDCall rt made.function made.arguments made.world =
      .returns [first, .string text] after)
    (truthy : first.truthy = true) :
    (∃ final, httpHandler rt req ⟨base, passed, world⟩ = .ok () final ∧
      final.world.host.replies =
        after.host.replies ++ [.reply req.id httpOk "OK" (some text)]) ↔
      37 ∉ text ∧ 0 ∉ text := by
  have answered : answer rt.toPlatform req [first, .string text] =
      (Printf.format (cstr text) []).map fun printed => .reply req.id httpOk "OK" (some printed) := by
    simp [answer, truthy, printedBody, Value.toLuaString]
  rw [← Printf.format_cstr_eq_self_iff]
  rcases httpHandler_returned passed named callable called returned with
    ⟨reply, handed, replied, ran⟩ | ⟨reason, state, unanswered, faulted⟩
  · rw [answered] at replied
    obtain ⟨printed, formatted, rfl⟩ := Option.map_eq_some_iff.mp replied
    rw [ran, formatted]
    constructor
    · intro replied
      obtain ⟨final, ended, sent⟩ := replied
      cases ended
      simpa [GameServer.replied] using sent
    · intro same
      cases same
      exact ⟨_, rfl, rfl⟩
  · rw [answered, Option.map_eq_none_iff] at unanswered
    rw [unanswered, faulted]
    apply iff_of_false
    · intro replied
      obtain ⟨final, ended, -⟩ := replied
      cases ended
    · intro same
      cases same

theorem httpHandler_body_hello :
    ∃ final, httpHandler (answering "hello") getRoot ⟨[], [], handlerSet⟩ = .ok () final ∧
      final.world.host.replies = [.reply 0 httpOk "OK" (some (lit "hello"))] :=
  (httpHandler_body_iff (answering "hello") getRoot [] [] handlerSet (handlerSet_named _) rfl rfl
    rfl rfl).mpr (by decide)

/-- A `%` at the end asks for a conversion that is not there. -/
theorem httpHandler_body_counterexample :
    ¬ ∃ final, httpHandler (answering "100%") getRoot ⟨[], [], handlerSet⟩ = .ok () final ∧
      final.world.host.replies = [.reply 0 httpOk "OK" (some (lit "100%"))] := by
  intro replied
  obtain ⟨final, ran, sent⟩ := replied
  rcases @httpHandler_returned (answering "100%") [] [] handlerSet getRoot _ _ _
      (handlerSet_named _) rfl rfl _ _ rfl with
    ⟨reply, handed, answered, replied⟩ | ⟨reason, state, -, faulted⟩
  · have undefined : answer (answering "100%").toPlatform getRoot
        [.boolean true, .string (lit "100%")] = none := by decide
    rw [undefined] at answered
    cases answered
  · rw [faulted] at ran
    cases ran

end GameServer
