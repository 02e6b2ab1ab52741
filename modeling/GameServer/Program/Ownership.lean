import GameServer.Program.Accounts

namespace GameServer

open Lua LuaM

/-! Requests and their callbacks keep the accounts. -/

/-- How code ends that keeps the accounts: a process may be left by `os.exit` with its
accounts in order. -/
def Slips.ends (slips : Slips) : Ends Server :=
  ⟨slips.raises, False, fun server => ∃ held, Accounted slips held server⟩

variable {slips : Slips} {pools requests connections : List Nat} {rt : Runtime Server} {ends : Ends Server}

theorem modifyHost_yields {change : Server → Server} {post recover : Server → Prop}
    {state : LuaState Server} (holds : post (change state.world.host)) :
    (modifyHost change state).Yields (fun _ => post) recover ends :=
  holds

/-! ## Callbacks -/

section Record

variable {state : LuaState Server} {arg : Nat} {table function : Bytes} {junk : UInt8}

theorem callbackInfo_apply
    (live : state.world.host.pools.live? arg = some (callbackMemory arg table function junk)) :
    callbackInfo arg state = .ok ⟨arg, some 0, some 1⟩ state := by
  simp [callbackInfo, poolMemory, live, callbackMemory]

theorem callbackString_apply
    (live : state.world.host.pools.live? arg = some (callbackMemory arg table function junk)) :
    callbackString arg (some 0) state = .ok (cstr table) state ∧
      callbackString arg (some 1) state = .ok (cstr function) state := by
  constructor <;>
    simp [callbackString, poolBlock, poolMemory, live, callbackMemory, cstr_copied_fresh]

end Record

theorem evhttpRequestGetResponseCode_keeps (invariant : Server → Prop) (response : Response) :
    (evhttpRequestGetResponseCode response).Keeps invariant ends := by
  cases response with
  | none => exact keeps_crash rfl (by decide)
  | some code => exact keeps_pure code

theorem readCallback_accounted {held : Held} {arg : Nat} (member : arg ∈ held.pools)
    (response : Response) : (readCallback response arg).Keeps (Accounted slips held) ends := by
  apply keeps_bind (evhttpRequestGetResponseCode_keeps _ response)
  intro code
  apply keeps_bind (keeps_logDebug (Accounted.silent held) _ _)
  intro _ state accounted
  obtain ⟨table, function, junk, live, asked⟩ :=
    accounted.filled arg (List.mem_append_left _ member)
  obtain ⟨tableRead, functionRead⟩ := callbackString_apply live
  simp only [bind_apply, callbackInfo_apply live, Outcome.ok_bind, tableRead, functionRead]
  apply Outcome.Yields.bind (modifyHost_yields (accounted.readNames asked))
  intro _ noted accounted
  exact Outcome.Yields.bind (keeps_logDebug (Accounted.silent held) _ _ noted accounted)
    fun _ _ accounted => accounted

/-- A callback frees the pool of its record, unless an error leaves it. -/
theorem httpRequestCb_accounted (keeps : ∀ held, rt.Keeps (Accounted slips held) ends)
    (response : Response) {arg : Nat} {state : LuaState Server}
    (accounted : Accounted slips ⟨arg :: pools, requests, connections⟩ state.world.host) :
    (httpRequestCb rt response arg state).Yields
      (fun _ => Accounted slips ⟨pools, requests, connections⟩)
      (Accounted slips ⟨arg :: pools, requests, connections⟩) ends := by
  have member : arg ∈ arg :: pools := List.mem_cons_self ..
  refine Outcome.Yields.bind (readCallback_accounted member response state accounted)
    fun names named accounted => ?_
  refine Outcome.Yields.bind (keeps_runCallback (keeps _) (Accounted.silent _) _ _ named accounted)
    fun _ called accounted => ?_
  obtain ⟨table, function, junk, live, -⟩ := accounted.filled arg (List.mem_append_left _ member)
  simp only [bind_apply, callbackInfo_apply live, Outcome.ok_bind]
  exact modifyHost_yields accounted.freePool

theorem completeRequest_accounted (keeps : ∀ held, rt.Keeps (Accounted slips held) ends)
    (response : Response) {arg request : Nat} {state : LuaState Server}
    (accounted : Accounted slips ⟨arg :: pools, request :: requests, connections⟩ state.world.host)
    (alive : state.world.host.requests.live? request = some ⟨arg⟩) :
    (completeRequest (httpRequestCb rt) response request state).Yields
      (fun _ => Accounted slips ⟨pools, requests, connections⟩)
      (Accounted slips ⟨arg :: pools, request :: requests, connections⟩) ends := by
  have used : evhttpRequest request state = .ok ⟨arg⟩ state := by simp [evhttpRequest, alive]
  rw [completeRequest, bind_apply, used, Outcome.ok_bind]
  refine Outcome.Yields.bind (httpRequestCb_accounted keeps response accounted)
    fun _ called accounted => accounted.freeRequest

/-! ## Requests -/

/-- What libevent does with a request it was handed is among the slips. -/
def MakeRequest.Allowed (slips : Slips) : MakeRequest → Prop
  | .rejected => slips.rejects
  | .accepted => True
  | .completed _ => slips.completes

def Network.Allowed (slips : Slips) (network : Network) : Prop :=
  network.connection = true → network.request = true → network.make.Allowed slips

/-- After `evhttp_make_request`, which has freed a request it does not accept. -/
def Made (slips : Slips) (held : Held) (arg connection request : Nat) : Bool → Server → Prop
  | true, server => Accounted slips held server
  | false, server => Accounted slips { held with pools := arg :: held.pools } { server with
      requests := server.requests.release request
      connections := server.connections.release connection }

variable (keeps : ∀ held, rt.Keeps (Accounted slips held) slips.ends)

include keeps

theorem evhttpMakeRequest_accounted {make : MakeRequest} (allowed : make.Allowed slips)
    {arg connection request : Nat} (command : Command) (uri : CharPtr) {state : LuaState Server}
    (accounted : Accounted slips ⟨arg :: pools, request :: requests, connection :: connections⟩
      state.world.host)
    (alive : state.world.host.requests.live? request = some ⟨arg⟩) :
    (evhttpMakeRequest make (httpRequestCb rt) connection request command uri state).Yields
      (Made slips ⟨pools, requests, connections⟩ arg connection request)
      (Accounted slips ⟨pools, requests, connections⟩) slips.ends := by
  cases uri with
  | none => exact ⟨fun memory => absurd memory Bool.false_ne_true, fun exited => by cases exited⟩
  | some uri =>
  have used (passed : List (Sink × CharPtr)) : evhttpRequest request { state with passed } =
      .ok ⟨arg⟩ { state with passed } := by simp [evhttpRequest, alive]
  simp only [evhttpMakeRequest, bind_apply, read_some, Outcome.ok_bind, used]
  cases make with
  | rejected => exact (accounted.freeRequestTwice allowed).disconnect
  | accepted => exact accounted.accept command (cstr uri) alive
  | completed response =>
      let handed : LuaState Server := { state with passed := state.passed ++ [(.libevent, some uri)] }
      have lost : Accounted slips ⟨arg :: pools, request :: requests, connections⟩ handed.world.host :=
        accounted.loseConnection allowed
      refine Outcome.Yields.bind ?_ fun _ _ accounted => accounted
      exact (completeRequest_accounted keeps response lost alive).imp (fun _ _ accounted => accounted)
        fun raises _ accounted => (accounted.losePool raises).loseRequest

/-- After `http_request_new`: without a request the record stays with the caller. -/
def Sent (slips : Slips) (held : Held) (arg : Nat) : Option Nat → Server → Prop
  | some _, server => Accounted slips held server
  | none, server => Accounted slips { held with pools := arg :: held.pools } server

theorem httpRequestNew_accounted {network : Network} (allowed : network.Allowed slips) (ip : Bytes)
    (port : Int) {arg : Nat} (command : Command) (uri : CharPtr) {state : LuaState Server}
    (accounted : Accounted slips ⟨arg :: pools, requests, connections⟩ state.world.host) :
    (httpRequestNew network (some ip) port (httpRequestCb rt) arg command uri state).Yields
      (Sent slips ⟨pools, requests, connections⟩ arg)
      (Accounted slips ⟨pools, requests, connections⟩) slips.ends := by
  obtain ⟨connection, request, make⟩ := network
  cases connection with
  | false => exact accounted
  | true =>
  cases request with
  | false => exact (accounted.connect _).disconnect
  | true =>
  -- libevent is asked with a connection and a request
  have asked := (accounted.connect ⟨cstr ip, intToUshort port⟩).request ⟨arg⟩
  have alive := @Ledger.live?_acquire_self _ state.world.host.requests ⟨arg⟩
  simp only [httpRequestNew, evhttpConnectionBaseNew, evhttpRequestNew, bind_apply, read_some,
    Outcome.ok_bind, if_true, getHost_apply, setHost_apply, pure_apply]
  refine Outcome.Yields.bind (evhttpMakeRequest_accounted keeps (allowed rfl rfl) command uri asked alive)
    fun made _ accounted => ?_
  cases made with
  | true => exact accounted
  | false => exact accounted

theorem sendRequest_accounted (command : Command) (allocation : Allocation) {network : Network}
    (allowed : network.Allowed slips) {held : Held} {ip table function : Bytes} (port : Int)
    (uri : CharPtr) (tableFits : table.length + 1 < 4294967296)
    (functionFits : function.length + 1 < 4294967296) (stack : List Value)
    (passed : List (Sink × CharPtr)) {world : World Server} (accounted : Accounted slips held world.host) :
    (sendRequest rt command allocation network ⟨some ip, port, uri, table, function⟩
      ⟨stack, passed, world⟩).Keeps (Accounted slips held) slips.ends := by
  rw [sendRequest, bind_apply]
  rcases newCallbackInfo_apply allocation tableFits functionFits stack passed world with
    ⟨-, ran⟩ | ⟨-, -, ran⟩ | ⟨-, memory, ran⟩
  case inr.inl =>
    rw [ran]
    exact accounted
  case inr.inr =>
    rw [ran]
    exact accounted.giveUp memory
  rw [ran, Outcome.ok_bind]
  have asked := accounted.ask table function allocation.junk
  refine Outcome.Yields.bind (httpRequestNew_accounted keeps allowed ip port command uri asked)
    fun request _ accounted => ?_
  cases request with
  | none => exact accounted.freePool
  | some request => exact accounted

theorem luaHttpRequest_accounted (command : Command) (arguments : Arguments)
    (allocation : Allocation) {network : Network} (allowed : network.Allowed slips) {held : Held}
    {world : World Server} (accounted : Accounted slips held world.host) :
    (luaHttpRequest rt command allocation network ⟨arguments.values.reverse, [], world⟩).Keeps
      (Accounted slips held) slips.ends := by
  rw [luaHttpRequest, bind_apply]
  by_cases short : arguments.values.length < 3
  · rw [httpArguments_short rt short]
    exact accounted
  have enough : 3 ≤ arguments.values.length := by omega
  cases given : argumentText rt.toPlatform arguments.values 0 with
  | none =>
      obtain ⟨stack, faulted⟩ := httpArguments_noIp rt enough given [] world
      rw [faulted]
      exact ⟨fun memory => absurd memory Bool.false_ne_true, fun exited => by cases exited⟩
  | some ip =>
  obtain ⟨stack, ran⟩ := httpArguments_apply rt enough given [] world
  rw [ran, Outcome.ok_bind]
  cases read : accepted rt.toPlatform arguments.values ip _ with
  | none => exact accounted
  | some request =>
      obtain ⟨table, function, rfl, tableText, functionText⟩ := accepted_eq_some _ read
      exact sendRequest_accounted keeps command allocation allowed _ _
        (arguments.argumentText_fits _ _ tableText) (arguments.argumentText_fits _ _ functionText) _ _
        accounted

omit keeps

end GameServer
