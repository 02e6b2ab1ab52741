import GameServer.Program.Ownership

namespace GameServer

open Lua LuaM

/-! Over whole runs: which objects are still held between events, and that none is used
once it is released. -/

def Script.Within (slips : Slips) (script : Script) : Prop :=
  script.Admits (Network.Allowed slips) slips.ends

def Event.Within (slips : Slips) : Event → Prop
  | .serve _ => True
  | .complete _ _ => slips.completes
  | .script body => body.Within slips

variable {slips : Slips} {platform : Platform} {call index : Nat → Script}

theorem Script.run_accounted {script : Script} (within : script.Within slips) (held : Held)
    {world : World Server} (accounted : Accounted slips held world.host) :
    (script.run platform world).Keeps (Accounted slips held) slips.ends.mayRaise := by
  have exits (held : Held) (host : Server) (accounted : Accounted slips held host) :
      slips.ends.exiting host := ⟨held, accounted⟩
  refine run_keeps Accounted.silent exits ?_ within held world accounted
  intro rt command arguments allocation network allowed keeps held world accounted
  exact callNative_keeps _ (luaHttpRequest_accounted keeps command arguments allocation allowed accounted)

theorem scripted_accounted (calls : ∀ time, (call time).Within slips)
    (indexes : ∀ time, (index time).Within slips) (held : Held) :
    (scripted platform call index).Keeps (Accounted slips held) slips.ends.mayRaise :=
  engine_keeps ⟨fun _ _ _ accounted => Script.run_accounted (calls _) held accounted,
    fun _ _ _ accounted => Script.run_accounted (indexes _) held accounted,
    fun _ _ _ _ accounted => Script.run_accounted (indexes _) held accounted⟩

def Held.nothing : Held := ⟨[], [], []⟩

theorem Accounted.started (base : List Value) (heap : Heap) :
    Accounted slips Held.nothing (LuaState.mk base [] (.start heap)).world.host :=
  .start

section Events

variable {rt : Runtime Server} (keeps : ∀ held, rt.Keeps (Accounted slips held) slips.ends.mayRaise)

include keeps

/-- Between events only pending requests hold anything. -/
theorem step_accounted {event : Event} (within : event.Within slips) {state : LuaState Server}
    (accounted : Accounted slips Held.nothing state.world.host) :
    (step rt event state).Yields (fun _ => Accounted slips Held.nothing) (fun _ => True) slips.ends.mayRaise := by
  cases event with
  | serve req =>
      have served := keeps_httpHandler (keeps Held.nothing) trivial (Accounted.silent _)
        (fun _ replies accounted => accounted.reply replies) req state accounted
      exact served.imp (fun _ _ accounted => accounted) fun _ _ _ => trivial
  | complete position response =>
      let left : LuaState Server := { state with world := { state.world with
        host := { state.world.host with pending := state.world.host.pending.eraseIdx position } } }
      have taken : takePending position state = .ok state.world.host.pending[position]? left := rfl
      rw [step, bind_apply, taken, Outcome.ok_bind]
      cases found : state.world.host.pending[position]? with
      | none =>
          have same : state.world.host.pending.eraseIdx position = state.world.host.pending := by
            rw [List.eraseIdx_eq_self]
            exact List.getElem?_eq_none_iff.mp found
          change Accounted slips Held.nothing left.world.host
          simp only [left, same]
          exact accounted
      | some pending =>
          have owned : Accounted slips ⟨[pending.arg], [pending.request], []⟩ left.world.host :=
            (accounted.take found).loseConnection within
          have alive := accounted.addressed pending (List.mem_of_getElem? found)
          exact (completeRequest_accounted keeps response owned alive).imp
            (fun _ _ accounted => accounted) fun _ _ _ => trivial
  | script body =>
      have kept := @Script.run_accounted slips rt.toPlatform body within Held.nothing _ accounted
      simp only [step, runScript]
      cases ran : body.run rt.toPlatform state.world with
      | returns results world => rw [ran] at kept; exact kept
      | raises error world => rw [ran] at kept; exact kept.2
      | faults reason world => rw [ran] at kept; exact kept

theorem trace_accounted {events : List Event} (within : ∀ event ∈ events, event.Within slips)
    {state : LuaState Server} (accounted : Accounted slips Held.nothing state.world.host) :
    ∀ reached ∈ trace rt events state, Accounted slips Held.nothing reached.world.host := by
  refine trace_induction rt accounted fun event member before after accounted ran => ?_
  have stepped := step_accounted keeps (within event member) accounted
  rw [ran] at stepped
  exact stepped

/-- No run uses memory that was released, or past its end. -/
theorem runEvents_accounted {events : List Event} (within : ∀ event ∈ events, event.Within slips)
    {state : LuaState Server} (accounted : Accounted slips Held.nothing state.world.host) :
    (runEvents rt events state).Yields (fun _ => Accounted slips Held.nothing) (fun _ => True)
      slips.ends.mayRaise := by
  induction events generalizing state with
  | nil => exact accounted
  | cons event rest ih =>
      refine Outcome.Yields.bind (step_accounted keeps (within event (List.mem_cons_self ..)) accounted)
        fun _ after accounted => ih (fun later member => within later (List.mem_cons_of_mem _ member))
          accounted

end Events

/-! ## What holds between events -/

namespace Slips

/-- Requests may be rejected and errors may leave callbacks; nothing completes. -/
def noCompletion : Slips := ⟨True, True, False⟩

def noRejection : Slips := ⟨True, False, True⟩

end Slips

/-! A script that asks for one page. -/

section Example

/-- `http.get("127.0.0.1", 80, "/", "m", "f")`. -/
def getArguments : Arguments where
  values := [.string (lit "127.0.0.1"), .number (.finite 80), .string (lit "/"), .string (lit "m"),
    .string (lit "f")]
  fits := by
    intro bytes member
    simp only [List.mem_cons, Value.string.injEq, reduceCtorEq, List.not_mem_nil, or_false,
      false_or] at member
    rcases member with rfl | rfl | rfl | rfl <;> decide

/-- The call, with what libevent does and what global lookups do meanwhile; an error of
the call is caught. -/
def getting (make : MakeRequest) (lookup : Script) : Script :=
  .request .get getArguments ⟨true, true, true, true, 0⟩ ⟨true, true, make⟩
    (fun _ => .returns []) (fun _ => lookup) (fun _ => .returns []) (fun _ => .returns [])

def idle : Nat → Script := fun _ => .returns []

theorem idle_within (slips : Slips) (time : Nat) : (idle time).Within slips :=
  trivial

theorem getting_within {slips : Slips} {make : MakeRequest} (allowed : make.Allowed slips) :
    (getting make (.returns [])).Within slips :=
  ⟨fun _ _ => allowed, fun _ => ⟨fun _ => trivial, fun _ => ⟨trivial, .inl trivial⟩⟩,
    fun _ => trivial, fun _ => trivial⟩

end Example

section Runs

variable (platform : Platform) (call index : Nat → Script) (events : List Event)
  (base : List Value) (heap : Heap)

/-- Where no request completes, the connections not freed are those of the pending requests. -/
theorem connections_pending (calls : ∀ time, (call time).Within .noCompletion)
    (indexes : ∀ time, (index time).Within .noCompletion)
    (within : ∀ event ∈ events, event.Within .noCompletion) :
    ∀ reached ∈ trace (scripted platform call index) events ⟨base, [], .start heap⟩,
      reached.world.host.connections.Balanced (reached.world.host.pending.map Pending.connection) :=
  fun reached member =>
    (trace_accounted (scripted_accounted calls indexes) within .start reached member).connections.balanced

/-- One request refused by libevent, one waiting. -/
theorem connections_pending_get :
    (trace (scripted default idle idle)
        [.script (getting .rejected (.returns [])), .script (getting .accepted (.returns []))]
        ⟨[], [], .start (.ofTables [])⟩).length = 3 ∧
    ∀ reached ∈ trace (scripted default idle idle)
        [.script (getting .rejected (.returns [])), .script (getting .accepted (.returns []))]
        ⟨[], [], .start (.ofTables [])⟩,
      reached.world.host.connections.Balanced (reached.world.host.pending.map Pending.connection) :=
  ⟨by decide +kernel, connections_pending default idle idle
    [.script (getting .rejected (.returns [])), .script (getting .accepted (.returns []))] []
    (.ofTables []) (idle_within _) (idle_within _) (by
      simp only [List.forall_mem_cons, List.not_mem_nil, false_implies, implies_true, and_true]
      exact ⟨getting_within trivial, getting_within trivial⟩)⟩

/-- The connection of a completed request stays. -/
theorem connections_pending_counterexample :
    ¬ ∀ reached ∈ trace (scripted default idle idle)
        [.script (getting .accepted (.returns [])), .complete 0 (some 200)]
        ⟨[], [], .start (.ofTables [])⟩,
      reached.world.host.connections.Balanced (reached.world.host.pending.map Pending.connection) := by
  intro balanced
  have leaked : ((trace (scripted default idle idle)
      [.script (getting .accepted (.returns [])), .complete 0 (some 200)]
      ⟨[], [], .start (.ofTables [])⟩).any fun reached => reached.world.host.pending.isEmpty &&
        reached.world.host.connections.map Lease.releases == [0]) = true := by
    decide +kernel
  obtain ⟨reached, member, left⟩ := List.any_eq_true.mp leaked
  simp only [Bool.and_eq_true, List.isEmpty_iff, beq_iff_eq] at left
  have total := balanced reached member
  rw [left.1] at total
  exact Ledger.not_balanced_of_held left.2 total

/-- Where libevent rejects no request, each one is freed at most once, and none is used
after that. -/
theorem requests_freed_once (calls : ∀ time, (call time).Within .noRejection)
    (indexes : ∀ time, (index time).Within .noRejection)
    (within : ∀ event ∈ events, event.Within .noRejection) :
    (∀ reached ∈ trace (scripted platform call index) events ⟨base, [], .start heap⟩,
      ∀ request, reached.world.host.requests.releases request ≤ 1) ∧
    ∀ after, runEvents (scripted platform call index) events ⟨base, [], .start heap⟩ ≠
      .fault .released after := by
  have keeps := @scripted_accounted _ platform _ _ calls indexes
  refine ⟨fun reached member request => ?_, fun after faulted => ?_⟩
  · have accounted := trace_accounted keeps within .start reached member
    exact (accounted.requests.once request).resolve_left not_false
  · have ended := runEvents_accounted keeps within (Accounted.started base heap)
    rw [faulted] at ended
    exact ended.1 rfl

/-- A request that completes. -/
theorem requests_freed_once_get :
    (∀ reached ∈ trace (scripted default idle idle)
        [.script (getting .accepted (.returns [])), .complete 0 (some 200)]
        ⟨[], [], .start (.ofTables [])⟩,
      ∀ request, reached.world.host.requests.releases request ≤ 1) ∧
    ∀ after, runEvents (scripted default idle idle)
      [.script (getting .accepted (.returns [])), .complete 0 (some 200)]
      ⟨[], [], .start (.ofTables [])⟩ ≠ .fault .released after :=
  requests_freed_once default idle idle
    [.script (getting .accepted (.returns [])), .complete 0 (some 200)] [] (.ofTables [])
    (idle_within _) (idle_within _) (by
      simp only [List.forall_mem_cons, List.not_mem_nil, false_implies, implies_true, and_true]
      exact ⟨getting_within trivial, trivial⟩)

/-- libevent has freed a request it rejects, and the engine frees it again. -/
theorem requests_freed_once_counterexample :
    ¬ ∀ reached ∈ trace (scripted default idle idle) [.script (getting .rejected (.returns []))]
        ⟨[], [], .start (.ofTables [])⟩,
      ∀ request, reached.world.host.requests.releases request ≤ 1 := by
  intro once
  have twice : ((trace (scripted default idle idle) [.script (getting .rejected (.returns []))]
      ⟨[], [], .start (.ofTables [])⟩).any fun reached =>
        reached.world.host.requests.releases 0 == 2) = true := by
    decide +kernel
  obtain ⟨reached, member, released⟩ := List.any_eq_true.mp twice
  have bounded := once reached member 0
  rw [beq_iff_eq.mp released] at bounded
  omega

end Runs

end GameServer
