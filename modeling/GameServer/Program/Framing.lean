import GameServer.Program.Runs

namespace GameServer

open Lua LuaM

/-! What the functions of the engine keep of an invariant of the process, and what
whole scripts keep of one that every request keeps. -/

/-- The invariant does not depend on what is logged or written to files. -/
def Silent (invariant : Server → Prop) : Prop :=
  ∀ host log files fileSteps, invariant host → invariant { host with log, files, fileSteps }

section Engine

variable {invariant : Server → Prop} {ends : Ends Server} {rt : Runtime Server}

theorem keeps_modifyHost {change : Server → Server}
    (kept : ∀ host, invariant host → invariant (change host)) :
    (modifyHost change).Keeps invariant ends :=
  fun state holds => kept state.world.host holds

theorem keeps_logDebug (silent : Silent invariant) (format : String) (arguments : List Printf.Arg) :
    (logDebug format arguments).Keeps invariant ends :=
  fun state holds => silent state.world.host _ _ _ holds

theorem keeps_evbufferAddPrintf (buffer : Bytes) (format : CharPtr) (arguments : List Printf.Arg) :
    (evbufferAddPrintf buffer format arguments).Keeps invariant ends := by
  apply keeps_bind (keeps_read _ _)
  intro text
  split
  · exact keeps_pure _
  · exact keeps_crash rfl (by decide)

theorem keeps_traceback (keeps : rt.Keeps invariant ends) :
    (traceback rt).Keeps invariant ends.mayRaise := by
  have may := keeps.mayRaise
  apply keeps_bind (keeps_luaIsstring 1)
  intro isString
  apply keeps_ite (keeps_pure _)
  apply keeps_bind (keeps_luaGetglobal may _)
  intro _
  refine keeps_bind (keeps_luaIstable _) fun isTable => keeps_ite ?_ ?_
  · exact keeps_bind (keeps_luaPop 1) fun _ => keeps_pure _
  apply keeps_bind (keeps_luaGetfield may _ _)
  intro _
  refine keeps_bind (keeps_luaIsfunction _) fun isFunction => keeps_ite ?_ ?_
  · exact keeps_bind (keeps_luaPop 2) fun _ => keeps_pure _
  apply keeps_bind (keeps_luaPushvalue 1)
  intro _
  apply keeps_bind (keeps_push _)
  intro _
  exact keeps_bind (keeps_luaCall keeps 2 (some 1)) fun _ => keeps_pure _

theorem engine_keeps (keeps : rt.Keeps invariant ends) : (engine rt).Keeps invariant ends where
  call := by
    intro function arguments world holds
    unfold engine
    dsimp only
    split
    · exact callNative_keeps function (keeps_traceback keeps _ holds)
    · exact keeps.call function arguments world holds
  index := keeps.index
  newindex := keeps.newindex

theorem keeps_loadLuaLibrary (keeps : rt.Keeps invariant ends) (module : CharPtr) :
    (loadLuaLibrary rt module).Keeps invariant ends := by
  apply keeps_bind keeps_luaGettop
  intro height
  apply keeps_bind (keeps_luaPushcfunction _)
  intro _
  apply keeps_bind (keeps_luaGetglobal keeps _)
  intro _
  apply keeps_bind (keeps_luaPushstring _)
  intro _
  refine keeps_bind (keeps_luaPcall keeps _ _ _) fun status => keeps_ite ?_ ?_
  · exact keeps_bind (keeps_luaSettop _) fun _ => keeps_pure _
  · exact keeps_bind (keeps_luaRemove _) fun _ => keeps_pure _

theorem keeps_keepFunction (base moduleIndex : Int) :
    (keepFunction base moduleIndex).Keeps invariant ends := by
  refine keeps_bind (keeps_luaIsfunction _) fun isFunction => keeps_ite ?_ ?_
  · exact keeps_bind (keeps_luaReplace _) fun _ => keeps_bind (keeps_luaSettop _) fun _ =>
      keeps_pure _
  · exact keeps_bind (keeps_luaSettop _) fun _ => keeps_pure _

theorem keeps_selectFunction (keeps : rt.Keeps invariant ends) (base moduleIndex : Int)
    (func : CharPtr) : (selectFunction rt base moduleIndex func).Keeps invariant ends := by
  refine keeps_bind (keeps_luaIstable _) fun isTable => keeps_ite ?_ ?_
  · exact keeps_bind (keeps_luaPushstring _) fun _ => keeps_bind (keeps_luaRawget _) fun _ =>
      keeps_keepFunction _ _
  refine keeps_bind (keeps_luaIsboolean _) fun isBoolean => keeps_ite ?_ ?_
  · exact keeps_bind (keeps_luaSettop _) fun _ => keeps_pure _
  apply keeps_bind (keeps_luaToboolean _)
  intro isTrue
  apply keeps_bind (keeps_luaPop 1)
  intro _
  refine keeps_ite ?_ ?_
  · exact keeps_bind (keeps_luaGetglobal keeps _) fun _ => keeps_keepFunction _ _
  · exact keeps_bind (keeps_luaSettop _) fun _ => keeps_pure _

theorem keeps_findLuaFunction (keeps : rt.Keeps invariant ends) (module func : CharPtr) :
    (findLuaFunction rt module func).Keeps invariant ends := by
  apply keeps_bind (keeps_strlen _)
  intro length
  apply keeps_ite (keeps_pure _)
  apply keeps_bind (keeps_strlen _)
  intro length
  apply keeps_ite (keeps_pure _)
  apply keeps_bind keeps_luaGettop
  intro base
  apply keeps_bind (keeps_luaPushstring _)
  intro _
  apply keeps_bind keeps_luaGettop
  intro moduleIndex
  apply keeps_bind (keeps_luaLFindtable keeps _)
  intro found
  apply keeps_bind (keeps_luaPushvalue _)
  intro _
  apply keeps_bind (keeps_luaRawget _)
  intro _
  apply keeps_bind (keeps_luaIsnil _)
  intro isNil
  refine keeps_ite (keeps_bind (keeps_loadLuaLibrary keeps _) fun loaded => keeps_ite ?_ ?_) ?_
  · exact keeps_bind (keeps_luaSettop _) fun _ => keeps_pure _
  · exact keeps_selectFunction keeps _ _ _
  · exact keeps_selectFunction keeps _ _ _

theorem keeps_findLuaGlobalFunction (keeps : rt.Keeps invariant ends) (func : CharPtr) :
    (findLuaGlobalFunction rt func).Keeps invariant ends := by
  apply keeps_bind (keeps_luaGetglobal keeps _)
  intro _
  apply keeps_bind (keeps_luaIsfunction _)
  intro isFunction
  apply keeps_ite (keeps_pure _)
  exact keeps_bind (keeps_luaPop 1) fun _ => keeps_pure _

theorem keeps_callLuaScript (keeps : rt.Keeps invariant ends) (silent : Silent invariant)
    (arguments : Int) : (callLuaScript rt arguments).Keeps invariant ends := by
  apply keeps_bind keeps_luaGettop
  intro height
  apply keeps_ite (keeps_pure _)
  refine keeps_bind (keeps_luaPcall keeps _ _ _) fun status => keeps_ite ?_ ?_
  · exact keeps_bind (keeps_luaTostring _ _) fun _ => keeps_bind (keeps_logDebug silent _ _) fun _ =>
      keeps_pure _
  · exact keeps_bind keeps_luaGettop fun _ => keeps_pure _

theorem keeps_runCallback (keeps : rt.Keeps invariant ends) (silent : Silent invariant)
    (table function : CharPtr) : (runCallback rt table function).Keeps invariant ends := by
  refine keeps_bind (keeps_findLuaFunction keeps _ _) fun found => keeps_ite ?_ (keeps_pure _)
  exact keeps_bind (keeps_callLuaScript keeps silent 0) fun _ => keeps_pure _

theorem keeps_setRequestField (allowed : ends.raising) (name : String) {pushValue : EngineM Unit}
    (pushes : pushValue.Keeps invariant ends) : (setRequestField name pushValue).Keeps invariant ends :=
  keeps_bind (keeps_luaPushstring _) fun _ => keeps_bind pushes fun _ => keeps_luaRawset allowed _

theorem keeps_httpRequestToLuaTable (allowed : ends.raising) (req : IncomingRequest) :
    (httpRequestToLuaTable req).Keeps invariant ends := by
  unfold httpRequestToLuaTable
  split
  · exact keeps_pure _
  · apply keeps_bind keeps_luaCreatetable
    intro _
    apply keeps_bind (keeps_setRequestField allowed _ (keeps_luaPushstring _))
    intro _
    apply keeps_bind (keeps_setRequestField allowed _ (keeps_luaPushstring _))
    intro _
    apply keeps_bind (keeps_setRequestField allowed _ (keeps_luaPushstring _))
    intro _
    apply keeps_bind (keeps_setRequestField allowed _ (keeps_luaPushnumber _))
    intro _
    exact keeps_setRequestField allowed _ (keeps_luaPushnumber _)

theorem keeps_httpHandler (keeps : rt.Keeps invariant ends) (allowed : ends.raising)
    (silent : Silent invariant)
    (reply : ∀ host replies, invariant host → invariant { host with replies })
    (req : IncomingRequest) : (httpHandler rt req).Keeps invariant ends := by
  have failed : (evhttpSendError req.id httpInternal "Internal Server Error").Keeps invariant ends :=
    keeps_modifyHost fun host => reply host _
  apply keeps_bind (keeps_findLuaGlobalFunction keeps _)
  intro found
  apply keeps_ite (keeps_pure _)
  apply keeps_bind (keeps_httpRequestToLuaTable allowed req)
  intro _
  apply keeps_bind (keeps_callLuaScript keeps silent 1)
  intro count
  apply keeps_ite (keeps_bind failed fun _ => keeps_pure _)
  refine keeps_bind (keeps_luaToboolean _) fun isTrue => keeps_ite ?_ failed
  apply keeps_bind (keeps_luaTostring _ _)
  intro body
  apply keeps_bind (keeps_evbufferAddPrintf _ _ _)
  intro evb
  exact keeps_modifyHost fun host => reply host _

end Engine

namespace Script

/-- No error leaves the script. -/
def Quiet : Script → Prop
  | .returns _ => True
  | .raises _ => False
  | .exits => True
  | .writes _ _ _ _ rest => rest.Quiet
  | .request _ _ _ _ _ _ returned raised =>
      (∀ results, (returned results).Quiet) ∧ ∀ error, (raised error).Quiet

/-- Every request of the script meets an allowed network, and a metamethod that runs
during one raises an error only where `ends` allows it. -/
def Admits (allowed : Network → Prop) (ends : Ends Server) : Script → Prop
  | .returns _ => True
  | .raises _ => True
  | .exits => True
  | .writes _ _ _ _ rest => rest.Admits allowed ends
  | .request _ _ _ network call index returned raised =>
      allowed network ∧
      (network.early = true → (∀ time, (call time).Admits allowed ends) ∧
        ∀ time, (index time).Admits allowed ends ∧ ((index time).Quiet ∨ ends.raising)) ∧
      (∀ results, (returned results).Admits allowed ends) ∧
      ∀ error, (raised error).Admits allowed ends

theorem run_ne_raises {platform : Platform} {script : Script} (quiet : script.Quiet)
    (world : World Server) (error : Value) (after : World Server) :
    script.run platform world ≠ .raises error after := by
  induction script generalizing world with
  | returns results =>
      intro raised
      cases raised
  | raises error => exact quiet.elim
  | exits =>
      intro raised
      cases raised
  | writes heap log files fileSteps rest ih => exact ih quiet _
  | request command arguments allocation network call index returned raised _ _ ihReturned ihRaised =>
      unfold run
      split
      · exact ihReturned _ (quiet.1 _) _
      · exact ihRaised _ (quiet.2 _) _
      · intro raised
        cases raised

variable {own : Type} {invariant : own → Server → Prop} {ends : Ends Server}
  {allowed : Network → Prop} {platform : Platform}

def inert (platform : Platform) : Runtime Server :=
  { platform with
    call := fun _ _ world => .returns [] world
    index := fun _ _ world => .returns [] world
    newindex := fun _ _ _ world => .returns [] world }

theorem inert_keeps {invariant : Server → Prop} : (inert platform).Keeps invariant ends :=
  ⟨fun _ _ _ holds => holds, fun _ _ _ holds => holds, fun _ _ _ _ holds => holds⟩

/-- A callback that does not run during the call does not matter to it. -/
theorem httpRequestNew_late {network : Network} (late : network.early = false) (address : CharPtr)
    (port : Int) (callback other : Response → Nat → EngineM Unit) (arg : Nat) (command : Command)
    (uri : CharPtr) :
    httpRequestNew network address port callback arg command uri =
      httpRequestNew network address port other arg command uri := by
  by_cases reached : network.connection = true ∧ network.request = true
  · have made (connection request : Nat) :
        evhttpMakeRequest network.make callback connection request command uri =
          evhttpMakeRequest network.make other connection request command uri := by
      cases make : network.make with
      | rejected => rfl
      | accepted => rfl
      | completed response => simp [Network.early, make, reached] at late
    simp only [httpRequestNew, made]
  · funext state
    simp only [httpRequestNew, evhttpConnectionBaseNew, evhttpRequestNew]
    cases connection : network.connection with
    | false => cases address <;> simp
    | true =>
        have request : network.request = false := by simpa [connection] using reached
        cases address <;> simp [request]

theorem luaHttpRequest_late (rt other : Runtime Server) (same : other.toPlatform = rt.toPlatform)
    (command : Command) (allocation : Allocation) {network : Network} (late : network.early = false) :
    luaHttpRequest rt command allocation network = luaHttpRequest other command allocation network := by
  simp only [luaHttpRequest, httpArguments, sendRequest, same,
    httpRequestNew_late late _ _ (httpRequestCb rt) (httpRequestCb other)]

/-- What every call of `http.get` and `http.post` keeps, whole scripts keep.  `own`
stands for what the C functions that are still running hold. -/
theorem run_keeps (silent : ∀ held, Silent (invariant held))
    (exits : ∀ held host, invariant held host → ends.exiting host)
    (request : ∀ rt command (arguments : Arguments) allocation network, allowed network →
      (∀ held, rt.Keeps (invariant held) ends) → ∀ held world, invariant held world.host →
      (callNative (httpFunction command) (luaHttpRequest rt command allocation network)
        arguments.values world).Keeps (invariant held) ends)
    {script : Script} (admits : script.Admits allowed ends) (held : own) (world : World Server)
    (holds : invariant held world.host) : (script.run platform world).Keeps (invariant held) ends.mayRaise := by
  induction script generalizing held world with
  | returns results => exact holds
  | raises error => exact ⟨trivial, holds⟩
  | exits => exact ⟨fun memory => absurd memory Bool.false_ne_true, fun _ => exits held _ holds⟩
  | writes heap log files fileSteps rest ih => exact ih admits held _ (silent held _ _ _ _ holds)
  | request command arguments allocation network call index returned raised ihCall ihIndex
      ihReturned ihRaised =>
      obtain ⟨networkAllowed, duringAdmits, returnedAdmits, raisedAdmits⟩ := admits
      have called : (callNative (httpFunction command) (luaHttpRequest
          (runtimeOf platform (fun time => (call time).run platform)
            fun time => (index time).run platform) command allocation network)
          arguments.values world).Keeps (invariant held) ends := by
        cases early : network.early with
        | false =>
            have late := luaHttpRequest_late (runtimeOf platform (fun time => (call time).run platform)
              fun time => (index time).run platform) (inert platform) rfl command allocation early
            rw [late]
            exact request _ command arguments allocation network networkAllowed
              (fun held => inert_keeps) held world holds
        | true =>
            obtain ⟨callAdmits, indexAdmits⟩ := duringAdmits early
            refine request _ command arguments allocation network networkAllowed (fun held => ?_) held
              world holds
            have metamethod (world : World Server) (holds : invariant held world.host) :
                ((index world.clock).run platform world).Keeps (invariant held) ends := by
              have kept := ihIndex world.clock (indexAdmits _).1 held world holds
              cases ended : (index world.clock).run platform world with
              | returns results after => rw [ended] at kept; exact kept
              | faults reason after => rw [ended] at kept; exact kept
              | raises error after =>
                  rw [ended] at kept
                  rcases (indexAdmits world.clock).2 with quiet | allowedToRaise
                  · exact absurd ended (run_ne_raises quiet _ _ _)
                  · exact ⟨allowedToRaise, kept.2⟩
            exact engine_keeps ⟨fun _ _ world => ihCall world.clock (callAdmits _) held world,
              fun _ _ world => metamethod world, fun _ _ _ world => metamethod world⟩
      unfold run
      split
      · rename_i ended
        rw [ended] at called
        exact ihReturned _ (returnedAdmits _) held _ called
      · rename_i ended
        rw [ended] at called
        exact ihRaised _ (raisedAdmits _) held _ called.2
      · rename_i ended
        rw [ended] at called
        exact called

end Script

end GameServer
