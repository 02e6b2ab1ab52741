import GameServer.Program.Balance
import GameServer.Program.Report
import GameServer.Program.ScriptCall

namespace GameServer

open Lua LuaM

/-! The callback of an outgoing request, for every end libevent may report. -/

/-- A run that may meet anything. -/
def Slips.any : Slips := ⟨True, True, True⟩

theorem Script.within_any (script : Script) : script.Within .any := by
  induction script with
  | returns results => trivial
  | raises error => trivial
  | exits => trivial
  | writes heap log files fileSteps rest ih => exact ih
  | request command arguments allocation network call index returned raised ihCall ihIndex ihReturned
      ihRaised =>
      have allowed : network.Allowed .any := by
        intro _ _
        cases network.make <;> trivial
      refine ⟨allowed, ?_, ihReturned, ihRaised⟩
      intro _
      exact ⟨ihCall, fun time => ⟨ihIndex time, .inr trivial⟩⟩

theorem Event.within_any (event : Event) : event.Within .any := by
  cases event with
  | serve request => trivial
  | complete position response => trivial
  | script body => exact body.within_any

theorem recording_keeps {invariant : H → Prop} {ends : Ends H} {rt : Runtime H}
    (keeps : rt.Keeps invariant ends) : rt.recording.Keeps invariant ends where
  call := by
    intro function arguments world holds
    have kept := keeps.call function arguments world holds
    change ((rt.call function arguments world).withCalls world.calls).Keeps _ _
    cases ran : rt.call function arguments world <;> rw [ran] at kept <;> exact kept
  index := by
    intro object key world holds
    have kept := keeps.index object key world holds
    change ((rt.index object key world).withCalls world.calls).Keeps _ _
    cases ran : rt.index object key world <;> rw [ran] at kept <;> exact kept
  newindex := by
    intro object key value world holds
    have kept := keeps.newindex object key value world holds
    change ((rt.newindex object key value world).withCalls world.calls).Keeps _ _
    cases ran : rt.newindex object key value world <;> rw [ran] at kept <;> exact kept

/-! ## The callback -/

/-- `http_request_cb` runs to its end and frees its record, and where its names mean a
function, all it calls after the lookup is that function, once. -/
def ReportsBack (rt : Runtime Server) (response : Response) (names : CallbackNames)
    (state : LuaState Server) : Prop :=
  ∃ final, httpRequestCb rt response names.pool state = .ok () final ∧
    final.world.host.pools.releases names.pool = 1 ∧
    ∀ code callee looked, response = some code →
      Resolves rt (cstr names.table) (cstr names.function) (announced code names state.world) callee
        looked →
      final.world.calls = looked.calls ++ [⟨callee, []⟩]

/-- There is a response, the names can be looked up, and the function they mean does not break
the process. -/
def Reportable (rt : Runtime Server) (response : Response) (names : CallbackNames)
    (world : World Server) : Prop :=
  ∃ code, response = some code ∧
    Lookable rt (cstr names.table) (cstr names.function) (announced code names world) ∧
    ∀ callee looked,
      Resolves rt (cstr names.table) (cstr names.function) (announced code names world) callee looked →
      ∀ reason after, luaDCall rt callee [] looked ≠ .faults reason after

section Callback

variable {rt : Runtime Server} {slips : Slips} {held : Held} {ends : Ends Server}
  {state : LuaState Server} {names : CallbackNames}

theorem freeRecord (accounted : Accounted slips held state.world.host)
    (member : names.pool ∈ held.pools) :
    ∃ final, ((callbackInfo names.pool state).bind fun ptr read => poolFree ptr.pool read) =
        .ok () final ∧
      final.world.host.pools.releases names.pool = 1 ∧ final.world.calls = state.world.calls := by
  obtain ⟨table, function, junk, live, -⟩ :=
    accounted.filled names.pool (List.mem_append_left _ member)
  have alive := Ledger.live?_isSome_iff.mp (by rw [live]; rfl)
  rw [callbackInfo_apply live, Outcome.ok_bind]
  refine ⟨_, rfl, ?_, rfl⟩
  change (state.world.host.pools.release names.pool).releases names.pool = 1
  rw [Ledger.releases_release alive.1, alive.2, if_pos rfl]

variable {table function : Bytes} {base : List Value} {passed : List (Sink × CharPtr)}
  {world : World Server}

/-- The script call returns exactly where the lookup does and the function keeps the process. -/
theorem runCallback_returns_iff :
    (∃ after, runCallback rt (some table) (some function) ⟨base, passed, world⟩ = .ok () after) ↔
      Lookable rt (cstr table) (cstr function) world ∧ ∀ callee looked,
        Resolves rt (cstr table) (cstr function) world callee looked →
        ∀ reason after, luaDCall rt callee [] looked ≠ .faults reason after := by
  by_cases resolved : ∃ callee looked, Resolves rt (cstr table) (cstr function) world callee looked
  · obtain ⟨callee, looked, resolves⟩ := resolved
    rw [runCallback_resolved resolves, and_iff_right resolves.lookable]
    have only : (∀ other later, Resolves rt (cstr table) (cstr function) world other later →
        ∀ reason after, luaDCall rt other [] later ≠ .faults reason after) ↔
        ∀ reason after, luaDCall rt callee [] looked ≠ .faults reason after := by
      refine ⟨fun all => all callee looked resolves, fun survives other later means => ?_⟩
      obtain ⟨rfl, rfl⟩ := resolves.deterministic means
      exact survives
    rw [only]
    cases luaDCall rt callee [] looked with
    | returns results after => exact iff_of_true ⟨_, rfl⟩ fun _ _ faulted => by cases faulted
    | raises error after => exact iff_of_true ⟨_, rfl⟩ fun _ _ faulted => by cases faulted
    | faults reason after =>
        apply iff_of_false
        · intro returned
          obtain ⟨final, ran⟩ := returned
          cases ran
        · exact fun survives => survives reason after rfl
  · have missing (callee : Value) (looked : World Server) :
        ¬ Resolves rt (cstr table) (cstr function) world callee looked :=
      fun resolves => resolved ⟨callee, looked, resolves⟩
    rw [runCallback_unresolved missing, ← findLuaFunction_returns_iff rt table function base passed world]
    constructor
    · intro returned
      obtain ⟨final, ran⟩ := returned
      obtain ⟨isFound, found, lookup, -⟩ := Outcome.bind_eq_ok.mp ran
      exact ⟨⟨isFound, found, lookup⟩, fun callee looked means => absurd means (missing callee looked)⟩
    · intro lookable
      obtain ⟨⟨isFound, found, lookup⟩, -⟩ := lookable
      exact ⟨found, by rw [lookup]; rfl⟩

/-- The log of a callback that returned ends with the function its names mean. -/
theorem runCallback_recorded {callee : Value} {looked : World Server} {after : LuaState Server}
    (resolves : Resolves rt.recording (cstr table) (cstr function) world callee looked)
    (ran : runCallback rt.recording (some table) (some function) ⟨base, passed, world⟩ = .ok () after) :
    after.world.calls = looked.calls ++ [⟨callee, []⟩] := by
  have recorded := luaDCall_recorded rt callee [] looked
  rw [runCallback_resolved resolves] at ran
  cases called : luaDCall rt.recording callee [] looked with
  | returns results last =>
      rw [called] at ran recorded
      cases ran
      exact recorded
  | raises error last =>
      rw [called] at ran recorded
      cases ran
      exact recorded
  | faults reason last =>
      rw [called] at ran
      cases ran

end Callback

/-- In a state in which the accounts hold, a callback does its work exactly when it can be
answered: there is a response and the Lua code it reaches returns. -/
theorem reportsBack_iff {rt : Runtime Server} {slips : Slips} {held : Held} {ends : Ends Server}
    (keeps : ∀ held, rt.recording.Keeps (Accounted slips held) ends) {names : CallbackNames}
    {junk : UInt8} {base : List Value} {passed : List (Sink × CharPtr)} {world : World Server}
    (accounted : Accounted slips held world.host)
    (member : names.pool ∈ held.pools) (asked : names ∈ world.host.asked)
    (live : world.host.pools.live? names.pool =
      some (callbackMemory names.pool names.table names.function junk)) (response : Response) :
    ReportsBack rt.recording response names ⟨base, passed, world⟩ ↔
      Reportable rt.recording response names world := by
  cases response with
  | none =>
      apply iff_of_false
      · intro reports
        obtain ⟨final, ran, -⟩ := reports
        cases ran
      · intro answerable
        obtain ⟨code, none, -⟩ := answerable
        cases none
  | some code =>
      have ended := @httpRequestCb_announced names junk base passed world rt.recording code live
      have noted : Accounted slips held (announced code names world).host := by
        have read := accounted.readNames asked
        exact ⟨read.pools, read.requests, read.connections, read.filled, read.addressed, read.distinct,
          read.made, read.read⟩
      have returns := @runCallback_returns_iff rt.recording (cstr names.table) (cstr names.function) base
        (passed ++ [(.printf, some (cstr names.table)), (.printf, some (cstr names.function))])
        (announced code names world)
      simp only [cstr_cstr] at returns
      constructor
      · intro reports
        obtain ⟨final, ran, -⟩ := reports
        rw [ended, Outcome.bind_eq_ok] at ran
        obtain ⟨_, after, called, -⟩ := ran
        exact ⟨code, rfl, returns.mp ⟨after, called⟩⟩
      · intro answerable
        obtain ⟨code', same, lookable, survives⟩ := answerable
        cases same
        obtain ⟨after, called⟩ := returns.mpr ⟨lookable, survives⟩
        have kept := keeps_runCallback (keeps held) (Accounted.silent held)
          (some (cstr names.table)) (some (cstr names.function)) ⟨base,
            passed ++ [(.printf, some (cstr names.table)), (.printf, some (cstr names.function))],
            announced code names world⟩ noted
        rw [called] at kept
        obtain ⟨final, freed, released, same⟩ := freeRecord kept member
        refine ⟨final, ?_, released, ?_⟩
        · rw [ended, called, Outcome.ok_bind, freed]
        · intro code' callee looked sameCode resolves
          cases sameCode
          rw [same]
          rw [← cstr_cstr names.table, ← cstr_cstr names.function] at resolves
          exact runCallback_recorded resolves called

/-! ## Runs -/

/-- The daemon of these scripts; its log holds the calls the engine itself makes. -/
abbrev recorded (platform : Platform) (call index : Nat → Script) : Runtime Server :=
  (scripted platform call index).recording

theorem recorded_keeps (platform : Platform) (call index : Nat → Script) (held : Held) :
    (recorded platform call index).Keeps (Accounted .any held) Slips.any.ends.mayRaise :=
  recording_keeps (scripted_accounted (fun time => (call time).within_any)
    (fun time => (index time).within_any) held)

/-- Wherever Lua code exits the process, the accounts are in order. -/
theorem exited_accounted {platform : Platform} {call index : Nat → Script} {events : List Event}
    {base : List Value} {heap : Heap} {left : LuaState Server}
    (exited : runEvents (recorded platform call index) events ⟨base, [], .start heap⟩ =
      .fault .exited left) : ∃ held, Accounted .any held left.world.host := by
  have within (event : Event) (_ : event ∈ events) : event.Within .any := event.within_any
  have ended := runEvents_accounted (recorded_keeps platform call index) within
    (Accounted.started base heap)
  rw [exited] at ended
  exact ended.2 rfl

/-- The state a callback begins in when libevent completes a pending request. -/
def completing (position : Nat) (state : LuaState Server) : LuaState Server :=
  { state with world := { state.world with
    host := { state.world.host with pending := state.world.host.pending.eraseIdx position } } }

theorem step_complete (rt : Runtime Server) {position : Nat} {pending : Pending}
    {state : LuaState Server} (found : state.world.host.pending[position]? = some pending)
    (alive : state.world.host.requests.live? pending.request = some ⟨pending.arg⟩)
    (response : Response) :
    step rt (.complete position response) state =
      (httpRequestCb rt response pending.arg (completing position state)).bind
          fun _ after => evhttpRequestFree pending.request after := by
  have taken : takePending position state = .ok state.world.host.pending[position]?
      (completing position state) := rfl
  have used : evhttpRequest pending.request (completing position state) =
      .ok ⟨pending.arg⟩ (completing position state) := by
    simp [evhttpRequest, completing, alive]
  simp only [step, bind_apply, taken, Outcome.ok_bind, found, completeRequest, used]

theorem Accounted.requestMade {held : Held} {world : World Server}
    (accounted : Accounted .any held world.host) (table function : Bytes) (junk : UInt8)
    (address : Connection) :
    Accounted .any ⟨world.host.pools.length :: held.pools, world.host.requests.length :: held.requests,
        world.host.connections.length :: held.connections⟩
      (GameServer.requestMade (withCallback world table function junk) world.host.pools.length
        address).host :=
  ((accounted.ask table function junk).connect address).request ⟨world.host.pools.length⟩

/-- For every request a script makes in a run, whether it completes later or while it is made,
and however it ends: its callback reports back exactly when there is a response, the names can
be looked up, and the function they mean returns.  A script can make a request wherever it
could exit instead. -/
theorem completion_reports_iff (platform : Platform) (call index : Nat → Script)
    (events : List Event) (base : List Value) (heap : Heap) :
    (∀ reached ∈ trace (recorded platform call index) events ⟨base, [], .start heap⟩,
      ∀ position pending, reached.world.host.pending[position]? = some pending →
      ∃ names ∈ reached.world.host.asked, names.pool = pending.arg ∧
        (∀ other ∈ reached.world.host.asked, other.pool = pending.arg → other = names) ∧
        ∀ response,
          (step (recorded platform call index) (.complete position response) reached =
            (httpRequestCb (recorded platform call index) response names.pool
              (completing position reached)).bind fun _ after =>
                evhttpRequestFree pending.request after) ∧
          (ReportsBack (recorded platform call index) response names (completing position reached) ↔
            Reportable (recorded platform call index) response names
              (completing position reached).world)) ∧
    ∀ left, runEvents (recorded platform call index) events ⟨base, [], .start heap⟩ =
        .fault .exited left →
      ∀ (during meanwhile : Nat → Script) command (arguments : Arguments) allocation response ip uri
        table function,
      allocation.complete = true → isIpText (cstr ip) = true →
      argumentText platform arguments.values 0 = some ip →
      argumentText platform arguments.values 2 = some uri →
      argumentText platform arguments.values 3 = some table →
      argumentText platform arguments.values 4 = some function →
      ∃ begun : LuaState Server,
        begun.world = calledBack platform arguments.values ip table function allocation.junk left.world ∧
        luaHttpRequest (recorded platform during meanwhile) command allocation
            ⟨true, true, .completed response⟩ ⟨arguments.values.reverse, [], left.world⟩ =
          ((httpRequestCb (recorded platform during meanwhile) response left.world.host.pools.length
            begun).bind fun _ after =>
              (evhttpRequestFree left.world.host.requests.length after).bind fun _ freed =>
                finishRequest left.world.host.pools.length (some left.world.host.requests.length)
                  freed) ∧
        (ReportsBack (recorded platform during meanwhile) response
            ⟨left.world.host.pools.length, table, function⟩ begun ↔
          Reportable (recorded platform during meanwhile) response
            ⟨left.world.host.pools.length, table, function⟩ begun.world) := by
  constructor
  · intro reached member position pending found
    have accounted := trace_accounted (recorded_keeps platform call index)
      (fun event _ => event.within_any) (.started base heap) reached member
    have alive := accounted.addressed pending (List.mem_of_getElem? found)
    obtain ⟨table, function, junk, live, asked⟩ :=
      accounted.filled pending.arg (List.mem_map_of_mem (List.mem_of_getElem? found))
    have taken : Accounted .any ⟨[pending.arg], [pending.request], [pending.connection]⟩
        (completing position reached).world.host := accounted.take found
    refine ⟨⟨pending.arg, table, function⟩, asked, rfl, ?_, ?_⟩
    · intro other otherAsked same
      exact List.inj_on_of_nodup_map accounted.distinct otherAsked asked same
    · intro response
      constructor
      · exact step_complete _ found alive response
      · exact reportsBack_iff (fun held => recorded_keeps platform call index held)
          taken (List.mem_cons_self ..) asked live response
  · intro left exited during meanwhile command arguments allocation response ip uri table function
      complete isAddress ipText uriText tableText functionText
    obtain ⟨held, accounted⟩ := exited_accounted exited
    obtain ⟨stack, passed, ran⟩ := luaHttpRequest_completed (recorded platform during meanwhile) command
      arguments complete response isAddress ipText uriText tableText functionText left.world
    have made := accounted.requestMade table function allocation.junk
      ⟨cstr ip, intToUshort (argumentNumber platform arguments.values 1).toInt⟩
    refine ⟨⟨stack, passed, _⟩, rfl, ran, ?_⟩
    exact reportsBack_iff (fun held => recorded_keeps platform during meanwhile held) made
      (List.mem_cons_self ..) (List.mem_append_right _ (List.mem_singleton_self _))
      (Ledger.live?_acquire_self _) response

/-- A state in which the module `m` is loaded, with a function `f` in it. -/
private def reportHeap : Heap :=
  .ofTables [.ofFields [("package", .table 1)], .ofFields [("loaded", .table 2)],
    .ofFields [("m", .table 3)], .ofFields [("f", .function (.closure 0))]]

/-- A daemon whose script asked for one page; its functions do nothing. -/
private def waiting : List (LuaState Server) :=
  trace (recorded default idle idle) [.script (getting .accepted (.returns []))]
    ⟨[], [], .start reportHeap⟩

private theorem reportHeap_resolves {world : World Server}
    (package : (world.heap.tables world.heap.globals).get (.string (lit "package")) = .table 1)
    (loaded : (world.heap.tables 1).get (.string (lit "loaded")) = .table 2)
    (entry : (world.heap.tables 2).get (.string (lit "m")) = .table 3)
    (field : (world.heap.tables 3).get (.string (lit "f")) = .function (.closure 0)) :
    Resolves (recorded default idle idle) (cstr (lit "m")) (cstr (lit "f")) world
      (.function (.closure 0)) world :=
  ⟨by decide, by decide, 2, world, LoadedTable.packageLoaded ⟨1, package, loaded⟩, .table 3, world,
    .already entry (by decide), .field field rfl⟩

private theorem reportable_of_resolves {names : CallbackNames} {world : World Server}
    (resolves : Resolves (recorded default idle idle) (cstr names.table) (cstr names.function)
      (announced 200 names world) (.function (.closure 0)) (announced 200 names world)) :
    Reportable (recorded default idle idle) (some 200) names world := by
  refine ⟨200, rfl, resolves.lookable, ?_⟩
  intro callee looked means reason after faulted
  obtain ⟨rfl, rfl⟩ := resolves.deterministic means
  cases faulted

/-- Its callback calls `f` of `m`, and nothing else, when the answer arrives; and so does a
request that completes while it is made. -/
theorem completion_reports_get :
    (∃ reached ∈ waiting, ∃ (names : CallbackNames) (final : LuaState Server),
      httpRequestCb (recorded default idle idle) (some 200) names.pool (completing 0 reached) =
        .ok () final ∧
      final.world.host.pools.releases names.pool = 1 ∧
      final.world.calls = [⟨.function (.closure 0), []⟩]) ∧
    ∃ begun final : LuaState Server,
      httpRequestCb (recorded default idle idle) (some 200) 0 begun = .ok () final ∧
      luaHttpRequest (recorded default idle idle) .get ⟨true, true, true, true, 0⟩
          ⟨true, true, .completed (some 200)⟩ ⟨getArguments.values.reverse, [], .start reportHeap⟩ =
        ((evhttpRequestFree 0 final).bind fun _ freed => finishRequest 0 (some 0) freed) ∧
      final.world.host.pools.releases 0 = 1 ∧
      final.world.calls = [⟨.function (.closure 0), []⟩] := by
  constructor
  · have looked : (waiting.any fun reached => reached.world.host.pending.map Pending.arg == [0] &&
        reached.world.host.asked == [⟨0, lit "m", lit "f"⟩] && reached.world.calls == [] &&
        (reached.world.heap.tables reached.world.heap.globals).get (.string (lit "package")) ==
          .table 1 &&
        (reached.world.heap.tables 1).get (.string (lit "loaded")) == .table 2 &&
        (reached.world.heap.tables 2).get (.string (lit "m")) == .table 3 &&
        (reached.world.heap.tables 3).get (.string (lit "f")) == .function (.closure 0)) = true := by
      decide +kernel
    obtain ⟨reached, member, looked⟩ := List.any_eq_true.mp looked
    simp only [Bool.and_eq_true, beq_iff_eq] at looked
    obtain ⟨⟨⟨⟨⟨⟨one, asked⟩, uncalled⟩, package⟩, loaded⟩, entry⟩, field⟩ := looked
    obtain ⟨pending, single, arg⟩ := List.map_eq_singleton_iff.mp one
    have found : reached.world.host.pending[0]? = some pending := by rw [single]; rfl
    obtain ⟨names, namesAsked, pool, -, ends⟩ :=
      (completion_reports_iff default idle idle _ _ _).1 reached member 0 pending found
    rw [asked, List.mem_singleton] at namesAsked
    subst namesAsked
    have resolves := @reportHeap_resolves
      (announced 200 ⟨0, lit "m", lit "f"⟩ (completing 0 reached).world) package loaded entry field
    obtain ⟨final, ran, released, calls⟩ := (ends (some 200)).2.mpr (reportable_of_resolves resolves)
    refine ⟨reached, member, _, final, ran, released, ?_⟩
    rw [calls 200 _ _ rfl resolves]
    exact congrArg (· ++ [_]) uncalled
  · obtain ⟨begun, began, made, ends⟩ := (completion_reports_iff default idle idle [.script .exits] []
      reportHeap).2 ⟨[], [], .start reportHeap⟩ rfl idle idle .get getArguments
      ⟨true, true, true, true, 0⟩ (some 200) (lit "127.0.0.1") (lit "/") (lit "m") (lit "f") rfl
      (by decide) rfl rfl rfl rfl
    have resolves := @reportHeap_resolves (announced 200 ⟨0, lit "m", lit "f"⟩ begun.world)
      (by rw [began]; rfl) (by rw [began]; rfl) (by rw [began]; rfl) (by rw [began]; rfl)
    obtain ⟨final, ran, released, calls⟩ := ends.mpr (reportable_of_resolves resolves)
    change httpRequestCb _ _ 0 _ = _ at ran
    refine ⟨begun, final, ran, ?_, released, ?_⟩
    · refine made.trans ?_
      change (Outcome.bind (httpRequestCb _ _ 0 _) _) = _
      rw [ran, Outcome.ok_bind]
      rfl
    · rw [calls 200 _ _ rfl resolves, began]
      rfl

/-- libevent reports a connection that was refused with a NULL request. -/
theorem completion_reports_counterexample :
    ¬ ∀ reached ∈ waiting, ∀ pending, reached.world.host.pending[0]? = some pending →
      ∀ names ∈ reached.world.host.asked, names.pool = pending.arg →
      ReportsBack (recorded default idle idle) none names (completing 0 reached) := by
  intro reports
  have accepted : (waiting.any fun reached => reached.world.host.pending.map Pending.arg == [0] &&
      reached.world.host.asked == [⟨0, lit "m", lit "f"⟩]) = true := by
    decide +kernel
  obtain ⟨reached, member, accepted⟩ := List.any_eq_true.mp accepted
  simp only [Bool.and_eq_true, beq_iff_eq] at accepted
  obtain ⟨one, asked⟩ := accepted
  obtain ⟨pending, single, arg⟩ := List.map_eq_singleton_iff.mp one
  have found : reached.world.host.pending[0]? = some pending := by rw [single]; rfl
  have namesAsked : ⟨0, lit "m", lit "f"⟩ ∈ reached.world.host.asked := by simp [asked]
  obtain ⟨final, ran, -⟩ := reports reached member pending found _ namesAsked arg.symm
  cases ran

end GameServer
