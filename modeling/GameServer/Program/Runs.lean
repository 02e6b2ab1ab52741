import GameServer.Lua.Frame
import GameServer.Program.Httpd

namespace GameServer

open Lua LuaM

/-! Whole runs of the daemon.  libevent delivers events one after the other; the Lua
code they reach is any code at all, seen through what it can do to the process. -/

/-- The arguments of a call.  `luaS_newlstr` makes no string whose terminator would
not fit in a `size_t` any more. -/
structure Arguments where
  values : List Value
  fits : ∀ bytes, Value.string bytes ∈ values → bytes.length + 1 < 4294967296

/-- What one activation of Lua code does, in order, up to how it ends.  A request may
complete before its call returns; `call` and `index` are what called values and metamethods,
`__index` or `__newindex`, do then, one activation for each value of the clock. -/
inductive Script where
  | returns (results : List Value)
  | raises (error : Value)
  /-- `os.exit` -/
  | exits
  /-- assignments in the Lua state, and records written by `write_file` or the log -/
  | writes (heap : Heap) (log : List LogCall) (files : Bytes → Option Bytes)
      (fileSteps : List FileStep) (rest : Script)
  /-- a call of `http.get` or `http.post`, and how the script goes on after it -/
  | request (command : Command) (arguments : Arguments) (allocation : Allocation)
      (network : Network) (call index : Nat → Script)
      (returned : List Value → Script) (raised : Value → Script)

namespace Script

variable (platform : Platform)

/-- A runtime in which called values are what `call` does at each time, and metamethods what
`index` does. -/
def runtimeOf (call index : Nat → World Server → CallResult Server) : Runtime Server :=
  engine { platform with
    call := fun _ _ world => call world.clock world
    index := fun _ _ world => index world.clock world
    newindex := fun _ _ _ world => index world.clock world }

/-- The C functions behind `http.get` and `http.post`, as Lua values. -/
def httpFunction : Command → Value
  | .get => .function (.native 1)
  | .post => .function (.native 2)

def run : Script → World Server → CallResult Server
  | .returns results, world => .returns results world
  | .raises error, world => .raises error world
  | .exits, world => .faults .exited world
  | .writes heap log files fileSteps rest, world =>
      rest.run { world with heap, host := { world.host with log, files, fileSteps } }
  | .request command arguments allocation network call index returned raised, world =>
      match callNative (httpFunction command)
          (luaHttpRequest (runtimeOf platform (fun time => (call time).run) fun time => (index time).run)
            command allocation network)
          arguments.values world with
      | .returns results after => (returned results).run after
      | .raises error after => (raised error).run after
      | .faults reason after => .faults reason after

end Script

/-- The runtime of a daemon whose Lua code behaves as these scripts. -/
def scripted (platform : Platform) (call index : Nat → Script) : Runtime Server :=
  Script.runtimeOf platform (fun time => (call time).run platform)
    fun time => (index time).run platform

/-- What libevent delivers: an incoming request, or the end of one the engine made,
named by its place among those pending.  `script` is Lua code run on its own, as the
initial script is. -/
inductive Event where
  | serve (request : IncomingRequest)
  | complete (position : Nat) (response : Response)
  | script (body : Script)

def takePending (position : Nat) : EngineM (Option Pending) := do
  let server ← getHost
  setHost { server with pending := server.pending.eraseIdx position }
  return server.pending[position]?

/-- The Lua code of a script event, called protected as `init_lua` does. -/
def runScript (platform : Platform) (body : Script) : EngineM Unit := fun state =>
  match body.run platform state.world with
  | .returns _ world => .ok () { state with world }
  | .raises _ world => .ok () { state with world }
  | .faults reason world => .fault reason { state with world }

variable (rt : Runtime Server)

def step : Event → EngineM Unit
  | .serve request => httpHandler rt request
  | .complete position response => do
      match ← takePending position with
      | none => return
      | some pending => completeRequest (httpRequestCb rt) response pending.request
  | .script body => runScript rt.toPlatform body

/-- The states between events, up to an event that does not return. -/
def trace : List Event → LuaState Server → List (LuaState Server)
  | [], state => [state]
  | event :: rest, state => state ::
      match step rt event state with
      | .ok _ after => trace rest after
      | _ => []

/-- The end of a run. -/
def runEvents : List Event → EngineM Unit
  | [] => return
  | event :: rest => do
      step rt event
      runEvents rest

theorem trace_start (events : List Event) (state : LuaState Server) :
    state ∈ trace rt events state := by
  cases events <;> simp [trace]

/-- What the initial state has and every event preserves holds between all events. -/
theorem trace_induction {property : LuaState Server → Prop} {events : List Event}
    {state : LuaState Server} (start : property state)
    (preserved : ∀ event ∈ events, ∀ before after, property before →
      step rt event before = .ok () after → property after) :
    ∀ reached ∈ trace rt events state, property reached := by
  induction events generalizing state with
  | nil => simpa [trace] using start
  | cons event rest ih =>
      intro reached member
      rcases List.mem_cons.mp member with rfl | later
      · exact start
      · cases stepped : step rt event state with
        | ok value after =>
            rw [stepped] at later
            exact ih (preserved event (List.mem_cons_self ..) state after start stepped)
              (fun event inRest => preserved event (List.mem_cons_of_mem _ inRest)) reached later
        | raise error after => rw [stepped] at later; cases later
        | fault reason after => rw [stepped] at later; cases later

end GameServer
