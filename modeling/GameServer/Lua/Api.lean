import GameServer.Lua.Stack

namespace GameServer.Lua

/-! The rest of `lapi.c` the engine uses: tables, calls and protected calls. -/

variable {H : Type}

open LuaM

/-! ## Tables -/

def tableAt (idx : Int) : LuaM H Nat := do
  match ← valueAt idx with
  | some (.table address) => pure address
  | _ => crash .notATable

def getTable (address : Nat) : LuaM H Table :=
  fun state => .ok (state.world.heap.tables address) state

def setTable (address : Nat) (table : Table) : LuaM H Unit :=
  fun state => .ok () { state with world :=
    { state.world with heap := state.world.heap.store address table } }

@[simp] theorem getTable_apply (address : Nat) (state : LuaState H) :
    getTable address state = .ok (state.world.heap.tables address) state := rfl

@[simp] theorem setTable_apply (address : Nat) (table : Table) (state : LuaState H) :
    setTable address table state =
      .ok () { state with world :=
        { state.world with heap := state.world.heap.store address table } } := rfl

def luaRawget (idx : Int) : LuaM H Unit := do
  let table ← getTable (← tableAt idx)
  match ← getStack with
  | key :: rest => setStack (table.get key :: rest)
  | [] => crash .invalidIndex

def luaRawset (idx : Int) : LuaM H Unit := do
  let address ← tableAt idx
  let table ← getTable address
  match ← getStack with
  | value :: key :: rest =>
      if valid : ValidKey key then
        setTable address (table.set key value valid)
        setStack rest
      else throw (.string (lit "table index is nil"))
  | _ => crash .invalidIndex

def luaCreatetable : LuaM H Unit := fun state =>
  .ok () { state with
    stack := .table state.world.heap.nextTable :: state.stack
    world := { state.world with heap := state.world.heap.allocate .empty } }

def luaPushglobals : LuaM H Unit := fun state =>
  .ok () { state with stack := .table state.world.heap.globals :: state.stack }

@[simp] theorem luaPushglobals_apply (state : LuaState H) :
    luaPushglobals state =
      .ok () { state with stack := .table state.world.heap.globals :: state.stack } := rfl

section Apply

variable (key value : Value) (address : Nat) (below : List Value)
  (passed : List (Sink × CharPtr)) (world : World H)

@[simp] theorem luaRawget_below_top :
    luaRawget (-2) ⟨key :: .table address :: below, passed, world⟩ =
      .ok () ⟨(world.heap.tables address).get key :: .table address :: below, passed, world⟩ := by
  simp [luaRawget, tableAt, valueAt]

@[simp] theorem luaRawset_string (name : Bytes) :
    luaRawset (-3) ⟨value :: .string name :: .table address :: below, passed, world⟩ =
      .ok () ⟨.table address :: below, passed, { world with
        heap := world.heap.store address
          ((world.heap.tables address).set (.string name) value (validKey_string name)) }⟩ := by
  have valid := validKey_string name
  simp [luaRawset, tableAt, valueAt, valid]

@[simp] theorem luaCreatetable_apply (state : LuaState H) :
    luaCreatetable state = .ok () { state with
      stack := .table state.world.heap.nextTable :: state.stack
      world := { state.world with heap := state.world.heap.allocate .empty } } := rfl

end Apply

/-- `lua_next`: whether there was another pair.  A key that is not in the table
is an error. -/
def luaNext (idx : Int) : LuaM H Bool := do
  let table ← getTable (← tableAt idx)
  match ← getStack with
  | key :: rest =>
      match table.next key with
      | none => throw (.string (lit "invalid key to 'next'"))
      | some none => do
          setStack rest
          pure false
      | some (some (key, value)) => do
          setStack (value :: key :: rest)
          pure true
  | [] => crash .invalidIndex

section Lengths

variable (platform : Platform)

/-- `lua_objlen`: a number is converted in its slot, a table has some border. -/
def luaObjlen (idx : Int) : LuaM H Nat := do
  match ← valueAt idx with
  | some (.table address) => pure (platform.border (← getTable address))
  | some (.string bytes) => pure bytes.length
  | some (.number _) => pure (((← luaTolstring platform idx).map List.length).getD 0)
  | _ => pure 0

/-- `lua_concat` of strings and numbers; other values would need a `__concat`
metamethod. -/
def luaConcat (n : Nat) : LuaM H Unit := do
  if n = 0 then luaPushlstring []
  else if n = 1 then pure ()
  else
    let stack ← getStack
    if stack.length < n then crash .invalidIndex
    else match (stack.take n).find? fun value => !value.isString with
      | some value =>
          throw (.string (lit s!"attempt to concatenate a {value.typename} value"))
      | none =>
          let pieces := (stack.take n).map fun value => (value.toLuaString platform).getD []
          setStack (.string pieces.reverse.flatten :: stack.drop n)

end Lengths

/-! ## Calls -/

section Calls

variable (rt : Runtime H)

/-- `luaD_call` of a value with its arguments. -/
def luaDCall (function : Value) (arguments : List Value) (world : World H) : CallResult H :=
  rt.call function arguments
    { world with calls := world.calls ++ [⟨function, arguments⟩], clock := world.clock + 1 }

/-- `luaV_gettable`: the raw field, or what the metamethods make of its absence. -/
def luaVGettable (object key : Value) (world : World H) : CallResult H :=
  match object with
  | .table address =>
      let field := (world.heap.tables address).get key
      if field.isNil then rt.index object key { world with clock := world.clock + 1 }
      else .returns [field] world
  | _ => rt.index object key { world with clock := world.clock + 1 }

/-- `luaV_settable`: a raw store, or what the metamethods make of a field that is absent. -/
def luaVSettable (object key value : Value) (world : World H) : CallResult H :=
  match object with
  | .table address =>
      let table := world.heap.tables address
      if valid : ValidKey key then
        if (table.get key).isNil && world.heap.newindexed address then
          rt.newindex object key value { world with clock := world.clock + 1 }
        else .returns [] { world with heap := world.heap.store address (table.set key value valid) }
      else
        let what := if key = .nil then "nil" else "NaN"
        .raises (.string (lit s!"table index is {what}")) world
  | _ => rt.newindex object key value { world with clock := world.clock + 1 }

/-- A store under a name into a table: the metamethod answers only where there is one and the
field is absent. -/
theorem luaVSettable_string (address : Nat) (name : Bytes) (value : Value) (world : World H) :
    luaVSettable rt (.table address) (.string name) value world =
      if ((world.heap.tables address).get (.string name)).isNil && world.heap.newindexed address then
        rt.newindex (.table address) (.string name) value { world with clock := world.clock + 1 }
      else .returns [] { world with heap := world.heap.storeField address name value } := by
  simp only [luaVSettable, validKey_string, dite_true, Heap.storeField]

theorem luaVSettable_plain {address : Nat} {world : World H}
    (plain : world.heap.newindexed address = false) (name : Bytes) (value : Value) :
    luaVSettable rt (.table address) (.string name) value world =
      .returns [] { world with heap := world.heap.storeField address name value } := by
  simp [luaVSettable_string, plain]

/-- Continues a frame with the first value a call returned. -/
def pushResult : CallResult H → LuaM H Unit
  | .returns results world => fun state =>
      .ok () { state with stack := results.headD .nil :: state.stack, world }
  | .raises error world => fun state => .raise error { state with world }
  | .faults reason world => fun state => .fault reason { state with world }

@[simp] theorem pushResult_returns (results : List Value) (world : World H) (state : LuaState H) :
    pushResult (.returns results world) state =
      .ok () { state with stack := results.headD .nil :: state.stack, world } := rfl

@[simp] theorem pushResult_raises (error : Value) (world : World H) (state : LuaState H) :
    pushResult (.raises error world) state = .raise error { state with world } := rfl

@[simp] theorem pushResult_faults (reason : Fault) (world : World H) (state : LuaState H) :
    pushResult (.faults reason world) state = .fault reason { state with world } := rfl

/-- Continues a frame after a store, without what the store popped. -/
def finishStore (below : List Value) : CallResult H → LuaM H Unit
  | .returns _ world => fun state => .ok () { state with stack := below, world }
  | .raises error world => fun state => .raise error { state with world }
  | .faults reason world => fun state => .fault reason { state with world }

@[simp] theorem finishStore_returns (below results : List Value) (world : World H)
    (state : LuaState H) :
    finishStore below (.returns results world) state =
      .ok () { state with stack := below, world } := rfl

@[simp] theorem finishStore_raises (below : List Value) (error : Value) (world : World H)
    (state : LuaState H) :
    finishStore below (.raises error world) state = .raise error { state with world } := rfl

@[simp] theorem finishStore_faults (below : List Value) (reason : Fault) (world : World H)
    (state : LuaState H) :
    finishStore below (.faults reason world) state = .fault reason { state with world } := rfl

def luaSettable (idx : Int) : LuaM H Unit := do
  let object ← valueAt idx
  match ← getStack with
  | value :: key :: rest => (fun state =>
      finishStore rest (luaVSettable rt (object.getD .nil) key value state.world) state)
  | _ => crash .invalidIndex

def luaSetfield (idx : Int) (name : Bytes) : LuaM H Unit := do
  let object ← valueAt idx
  match ← getStack with
  | value :: rest => (fun state =>
      finishStore rest (luaVSettable rt (object.getD .nil) (.string name) value state.world) state)
  | [] => crash .invalidIndex

def luaGetfield (idx : Int) (name : String) : LuaM H Unit := do
  let object ← valueAt idx
  fun state => pushResult (luaVGettable rt (object.getD .nil) (.string (lit name)) state.world) state

/-- `lua_getglobal(L, name)` is `lua_getfield(L, LUA_GLOBALSINDEX, name)`. -/
def luaGetglobal (name : CharPtr) : LuaM H Unit := fun state =>
  pushResult (luaVGettable rt (.table state.world.heap.globals)
    (.string (cstr (name.getD []))) state.world) state

/-- The values a call leaves for `nresults` wanted ones; `none` is `LUA_MULTRET`. -/
def adjustResults (nresults : Option Nat) (results : List Value) : List Value :=
  match nresults with
  | none => results
  | some wanted => (results ++ List.replicate wanted Value.nil).take wanted

theorem adjustResults_one (results : List Value) :
    adjustResults (some 1) results = [results.headD .nil] := by
  cases results <;> rfl

/-- `LUAI_MAXCCALLS`, the depth at which errors in the error handler give up. -/
def maxCCalls : Nat := 200

/-- `luaG_errormsg`: the handler replaces the error value; an error in the handler
goes to the handler again, until the C stack is used up. -/
def luaGErrormsg (handler : Value) : Nat → Value → World H → CallResult H
  | 0, _, world => .raises (.string (lit "error in error handling")) world
  | depth + 1, error, world =>
      if handler.isFunction then
        match luaDCall rt handler [error] world with
        | .returns results after => .raises (results.headD .nil) after
        | .raises again after => luaGErrormsg handler depth again after
        | .faults reason after => .faults reason after
      else .raises (.string (lit "error in error handling")) world

/-- `luaD_pcall` of a function, with the value at the handler index if there is one. -/
def luaDPcall (handler : Option Value) (function : Value) (arguments : List Value)
    (world : World H) : CallResult H :=
  match luaDCall rt function arguments world, handler with
  | .raises error after, some handler => luaGErrormsg rt handler maxCCalls error after
  | result, _ => result

theorem luaDPcall_none (function : Value) (arguments : List Value) (world : World H) :
    luaDPcall rt none function arguments world = luaDCall rt function arguments world := by
  unfold luaDPcall
  split <;> simp_all

theorem luaDPcall_returns {function : Value} {arguments results : List Value}
    {world after : World H} (returned : luaDCall rt function arguments world = .returns results after)
    (handler : Option Value) : luaDPcall rt handler function arguments world =
      .returns results after := by
  simp [luaDPcall, returned]

/-- Lua code leaves the process alive: it returns or raises. -/
def Runtime.Survives (rt : Runtime H) : Prop :=
  ∀ function arguments world reason after,
    rt.call function arguments world ≠ .faults reason after

/-- Calls of this value leave the process alive. -/
def Runtime.SurvivesIn (rt : Runtime H) (function : Value) : Prop :=
  ∀ arguments world reason after, rt.call function arguments world ≠ .faults reason after

/-- An error stays an error, however often the handler fails in turn. -/
theorem luaGErrormsg_raises {handler : Value} (survives : rt.SurvivesIn handler) (depth : Nat)
    (error : Value) (world : World H) :
    ∃ replaced after, luaGErrormsg rt handler depth error world = .raises replaced after := by
  induction depth generalizing error world with
  | zero => exact ⟨_, _, rfl⟩
  | succ depth ih =>
      unfold luaGErrormsg
      split
      · split
        · exact ⟨_, _, rfl⟩
        · exact ih _ _
        · rename_i faulted
          exact absurd faulted (survives _ _ _ _)
      · exact ⟨_, _, rfl⟩

theorem luaDPcall_raises {function error handler : Value} (survives : rt.SurvivesIn handler)
    {arguments : List Value} {world after : World H}
    (raised : luaDCall rt function arguments world = .raises error after) :
    ∃ replaced final, luaDPcall rt (some handler) function arguments world =
      .raises replaced final := by
  simp only [luaDPcall, raised]
  exact luaGErrormsg_raises rt survives maxCCalls error after

/-- `LUA_ERRRUN`.  The callers only compare the status with zero. -/
def errRun : Nat := 2

/-- What `lua_pcall` leaves on the stack for each end of the call, and its status. -/
def finishPcall (nresults : Option Nat) (below : List Value) :
    CallResult H → LuaState H → Outcome H Nat
  | .returns results world, state =>
      .ok 0 { state with stack := (adjustResults nresults results).reverse ++ below, world }
  | .raises error world, state => .ok errRun { state with stack := error :: below, world }
  | .faults reason world, state => .fault reason { state with world }

@[simp] theorem finishPcall_returns (nresults : Option Nat) (below results : List Value)
    (world : World H) (state : LuaState H) :
    finishPcall nresults below (.returns results world) state =
      .ok 0 { state with stack := (adjustResults nresults results).reverse ++ below, world } := rfl

@[simp] theorem finishPcall_raises (nresults : Option Nat) (below : List Value) (error : Value)
    (world : World H) (state : LuaState H) :
    finishPcall nresults below (.raises error world) state =
      .ok errRun { state with stack := error :: below, world } := rfl

/-- The handler an `errfunc` index stands for, zero standing for none. -/
def handlerAt (errfunc : Int) : LuaM H (Option Value) :=
  if errfunc = 0 then pure none else valueAt errfunc

/-- `lua_pcall`: function and arguments give way to the results, or to one error value. -/
def luaPcall (nargs : Nat) (nresults : Option Nat) (errfunc : Int) : LuaM H Nat := do
  let handler ← handlerAt errfunc
  let stack ← getStack
  match stack.drop nargs with
  | function :: below => (fun state =>
      finishPcall nresults below
        (luaDPcall rt handler function (stack.take nargs).reverse state.world) state)
  | [] => crash .invalidIndex

theorem luaPcall_of_handlerAt {errfunc : Int} {handler : Option Value} (nresults : Option Nat)
    (arguments : List Value) (function : Value) (below : List Value)
    (passed : List (Sink × CharPtr)) (world : World H)
    (found : handlerAt errfunc ⟨arguments.reverse ++ function :: below, passed, world⟩ =
      .ok handler ⟨arguments.reverse ++ function :: below, passed, world⟩) :
    luaPcall rt arguments.length nresults errfunc
        ⟨arguments.reverse ++ function :: below, passed, world⟩ =
      finishPcall nresults below (luaDPcall rt handler function arguments world)
        ⟨arguments.reverse ++ function :: below, passed, world⟩ := by
  have dropped : (arguments.reverse ++ function :: below).drop arguments.length =
      function :: below := by
    rw [List.drop_append_of_le_length (by simp), List.drop_eq_nil_of_le (by simp),
      List.nil_append]
  have taken : (arguments.reverse ++ function :: below).take arguments.length =
      arguments.reverse := by
    rw [List.take_append_of_le_length (by simp), List.take_of_length_le (by simp)]
  simp only [luaPcall, bind_apply, found, Outcome.ok_bind, getStack_apply, dropped, taken,
    List.reverse_reverse]

theorem luaPcall_apply (nresults : Option Nat) (arguments : List Value) (function : Value)
    (below : List Value) (passed : List (Sink × CharPtr)) (world : World H) :
    luaPcall rt arguments.length nresults 0 ⟨arguments.reverse ++ function :: below, passed, world⟩ =
      finishPcall nresults below (luaDCall rt function arguments world)
        ⟨arguments.reverse ++ function :: below, passed, world⟩ := by
  rw [luaPcall_of_handlerAt rt nresults arguments function below passed world rfl, luaDPcall_none]

theorem luaPcall_handled (nresults : Option Nat) (arguments : List Value) (function handler : Value)
    (between below : List Value) (passed : List (Sink × CharPtr)) (world : World H) :
    luaPcall rt arguments.length nresults (below.length + 1)
        ⟨arguments.reverse ++ function :: (between ++ handler :: below), passed, world⟩ =
      finishPcall nresults (between ++ handler :: below)
        (luaDPcall rt (some handler) function arguments world)
        ⟨arguments.reverse ++ function :: (between ++ handler :: below), passed, world⟩ := by
  refine luaPcall_of_handlerAt rt nresults arguments function _ passed world ?_
  have handled : ¬ (below.length : Int) + 1 = 0 := by omega
  have address := index2adr_above (arguments.reverse ++ function :: between) handler below
  simp only [List.append_assoc, List.cons_append] at address
  simp [handlerAt, handled, valueAt, address]

/-- `lua_call`, unprotected. -/
def luaCall (nargs : Nat) (nresults : Option Nat) : LuaM H Unit := do
  let stack ← getStack
  match stack.drop nargs with
  | function :: below => (fun state =>
      match luaDCall rt function (stack.take nargs).reverse state.world with
      | .returns results world =>
          .ok () { state with stack := (adjustResults nresults results).reverse ++ below, world }
      | .raises error world => .raise error { state with world }
      | .faults reason world => .fault reason { state with world })
  | [] => crash .invalidIndex

end Calls

/-! ## lauxlib: `luaL_findtable` -/

/-- `fname` cut at its dots. -/
def dotted (fname : String) : List Bytes :=
  (lit fname).splitOn 46

section Findtable

variable (rt : Runtime H)

/-- The loop of `luaL_findtable` over the parts of the name, with the table searched
so far on top.  A missing table is created. -/
def findtableFrom : List Bytes → LuaM H Bool
  | [] => pure true
  | part :: rest => do
      luaPushlstring part
      luaRawget (-2)
      if ← luaIsnil (-1) then
        luaPop 1
        luaCreatetable
        luaPushlstring part
        luaPushvalue (-2)
        luaSettable rt (-4)
        luaRemove (-2)
        findtableFrom rest
      else if !(← luaIstable (-1)) then
        luaPop 2
        pure false
      else
        luaRemove (-2)
        findtableFrom rest

/-- `luaL_findtable(L, LUA_GLOBALSINDEX, fname, 1)`: whether it returned NULL, with
the table pushed; otherwise it pushes nothing. -/
def luaLFindtable (fname : String) : LuaM H Bool := do
  luaPushglobals
  findtableFrom rt (dotted fname)

end Findtable

/-! ## Calling a C function -/

/-- `luaD_precall` and `luaD_poscall` of a C function: a frame of its own, whose top
values are the results.  A function that returns more values than its frame holds
returns the slot below the frame, which is the function itself. -/
def callNative (function : Value) (body : LuaM H Nat) (arguments : List Value)
    (world : World H) : CallResult H :=
  match body ⟨arguments.reverse, [], world⟩ with
  | .ok results state => .returns ((state.stack ++ [function]).take results).reverse state.world
  | .raise error state => .raises error state.world
  | .fault reason state => .faults reason state.world

end GameServer.Lua
