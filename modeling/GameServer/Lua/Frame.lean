import GameServer.Lua.Api

namespace GameServer.Lua

/-! Framing: what a C function working on a Lua state leaves of the program around
it.  `Keeps` is the rule for code that only reaches that program
through the Lua code it calls. -/

variable {H α β : Type}

/-- Faults that misuse memory the program allocated itself. -/
def Fault.isMemory : Fault → Bool
  | .released => true
  | .overrun => true
  | _ => false

/-- How code may end other than by returning: with a Lua error, by misusing memory, or with
the process exited in such a state. -/
structure Ends (H : Type) where
  raising : Prop
  misuse : Prop
  exiting : H → Prop

/-- The same, with Lua errors. -/
def Ends.mayRaise (ends : Ends H) : Ends H :=
  { ends with raising := True }

/-- The process may be broken for this reason in this state. -/
def Ends.Breaks (ends : Ends H) (reason : Fault) (host : H) : Prop :=
  (reason.isMemory = true → ends.misuse) ∧ (reason = .exited → ends.exiting host)

/-- The outcome is a return with `post`, an error with `recover`, or a fault, the last two
where they may be. -/
def Outcome.Yields (post : α → H → Prop) (recover : H → Prop) (ends : Ends H) : Outcome H α → Prop
  | .ok value state => post value state.world.host
  | .raise _ state => ends.raising ∧ recover state.world.host
  | .fault reason state => ends.Breaks reason state.world.host

theorem Outcome.Yields.bind {middle : α → H → Prop} {post : β → H → Prop} {recover : H → Prop}
    {ends : Ends H} {outcome : Outcome H α} {next : α → LuaState H → Outcome H β}
    (first : outcome.Yields middle recover ends)
    (second : ∀ value state, middle value state.world.host →
      (next value state).Yields post recover ends) :
    (outcome.bind next).Yields post recover ends := by
  cases outcome with
  | ok value state => exact second value state first
  | raise error state => exact first
  | fault reason state => exact first

theorem Outcome.Yields.imp {post weaker : α → H → Prop} {recover other : H → Prop} {ends : Ends H}
    {outcome : Outcome H α} (yields : outcome.Yields post recover ends)
    (returned : ∀ value host, post value host → weaker value host)
    (raised : ends.raising → ∀ host, recover host → other host) :
    outcome.Yields weaker other ends := by
  cases outcome with
  | ok value state => exact returned value state.world.host yields
  | raise error state => exact ⟨yields.1, raised yields.1 state.world.host yields.2⟩
  | fault reason state => exact yields

/-- The invariant of the program holds however the outcome was reached, and the code
ended in a way it may. -/
def Outcome.Keeps (invariant : H → Prop) (ends : Ends H) (outcome : Outcome H α) : Prop :=
  outcome.Yields (fun _ => invariant) invariant ends

def LuaM.Keeps (invariant : H → Prop) (ends : Ends H) (action : LuaM H α) : Prop :=
  ∀ state, invariant state.world.host → (action state).Keeps invariant ends

def CallResult.Keeps (invariant : H → Prop) (ends : Ends H) : CallResult H → Prop
  | .returns _ world => invariant world.host
  | .raises _ world => ends.raising ∧ invariant world.host
  | .faults reason world => ends.Breaks reason world.host

/-- Lua code keeps the invariant; a called value may raise, a metamethod only where
`ends` allows it. -/
structure Runtime.Keeps (invariant : H → Prop) (ends : Ends H) (rt : Runtime H) : Prop where
  call : ∀ function arguments world, invariant world.host →
    (rt.call function arguments world).Keeps invariant ends.mayRaise
  index : ∀ object key world, invariant world.host →
    (rt.index object key world).Keeps invariant ends
  newindex : ∀ object key value world, invariant world.host →
    (rt.newindex object key value world).Keeps invariant ends

variable {invariant : H → Prop} {ends : Ends H} {rt : Runtime H}

theorem CallResult.Keeps.mayRaise {result : CallResult H} (keeps : result.Keeps invariant ends) :
    result.Keeps invariant ends.mayRaise := by
  cases result with
  | returns results world => exact keeps
  | raises error world => exact ⟨trivial, keeps.2⟩
  | faults reason world => exact keeps

theorem Runtime.Keeps.mayRaise (keeps : rt.Keeps invariant ends) :
    rt.Keeps invariant ends.mayRaise :=
  ⟨keeps.call, fun object key world holds => (keeps.index object key world holds).mayRaise,
    fun object key value world holds => (keeps.newindex object key value world holds).mayRaise⟩

namespace LuaM

@[simp] theorem keeps_pure (value : α) : (pure value : LuaM H α).Keeps invariant ends :=
  fun _ holds => holds

@[simp] theorem keeps_bind {action : LuaM H α} {next : α → LuaM H β}
    (first : action.Keeps invariant ends)
    (second : ∀ value, (next value).Keeps invariant ends) :
    (action >>= next).Keeps invariant ends :=
  fun state holds => Outcome.Yields.bind (first state holds) second

@[simp] theorem keeps_ite {condition : Prop} [Decidable condition] {yes no : LuaM H α}
    (left : yes.Keeps invariant ends) (right : no.Keeps invariant ends) :
    (if condition then yes else no).Keeps invariant ends := by
  split
  · exact left
  · exact right

@[simp] theorem keeps_crash {reason : Fault} (benign : reason.isMemory = false)
    (stays : reason ≠ .exited) : (crash reason : LuaM H α).Keeps invariant ends := by
  intro state holds
  constructor
  · intro memory
    rw [benign] at memory
    cases memory
  · exact fun exited => absurd exited stays

@[simp] theorem keeps_throw {error : Value} (allowed : ends.raising) :
    (throw error : LuaM H α).Keeps invariant ends :=
  fun _ holds => ⟨allowed, holds⟩

@[simp] theorem keeps_getStack : (getStack : LuaM H (List Value)).Keeps invariant ends :=
  fun _ holds => holds

@[simp] theorem keeps_setStack (stack : List Value) :
    (setStack stack : LuaM H Unit).Keeps invariant ends :=
  fun _ holds => holds

@[simp] theorem keeps_handOn (sink : Sink) (pointer : CharPtr) :
    (handOn sink pointer : LuaM H Unit).Keeps invariant ends :=
  fun _ holds => holds

@[simp] theorem keeps_read (sink : Sink) (pointer : CharPtr) :
    (read sink pointer : LuaM H Bytes).Keeps invariant ends := by
  cases pointer with
  | none => exact keeps_bind (keeps_handOn _ _) fun _ => keeps_crash rfl (by decide)
  | some bytes => exact keeps_bind (keeps_handOn _ _) fun _ => keeps_pure bytes

end LuaM

open LuaM

@[simp] theorem keeps_strlen (pointer : CharPtr) :
    (strlen pointer : LuaM H Nat).Keeps invariant ends :=
  keeps_bind (keeps_read _ _) fun _ => keeps_pure _

@[simp] theorem keeps_valueAt (idx : Int) :
    (valueAt idx : LuaM H (Option Value)).Keeps invariant ends := by
  apply keeps_bind keeps_getStack
  intro stack
  split
  · exact keeps_pure _
  · exact keeps_pure _
  · exact keeps_crash rfl (by decide)

@[simp] theorem keeps_luaGettop : (luaGettop : LuaM H Nat).Keeps invariant ends :=
  keeps_bind keeps_getStack fun _ => keeps_pure _

@[simp] theorem keeps_luaSettop (idx : Int) :
    (luaSettop idx : LuaM H Unit).Keeps invariant ends := by
  refine keeps_bind keeps_getStack fun stack => keeps_ite (keeps_ite ?_ ?_) (keeps_ite ?_ ?_)
  · exact keeps_setStack _
  · exact keeps_setStack _
  · exact keeps_setStack _
  · exact keeps_crash rfl (by decide)

@[simp] theorem keeps_luaPop (n : Nat) : (luaPop n : LuaM H Unit).Keeps invariant ends :=
  keeps_luaSettop _

@[simp] theorem keeps_push (value : Value) : (push value : LuaM H Unit).Keeps invariant ends :=
  keeps_bind keeps_getStack fun _ => keeps_setStack _

@[simp] theorem keeps_luaPushvalue (idx : Int) :
    (luaPushvalue idx : LuaM H Unit).Keeps invariant ends :=
  keeps_bind (keeps_valueAt idx) fun _ => keeps_push _

@[simp] theorem keeps_luaRemove (idx : Int) :
    (luaRemove idx : LuaM H Unit).Keeps invariant ends := by
  apply keeps_bind keeps_getStack
  intro stack
  split
  · exact keeps_setStack _
  · exact keeps_crash rfl (by decide)

@[simp] theorem keeps_luaReplace (idx : Int) :
    (luaReplace idx : LuaM H Unit).Keeps invariant ends := by
  apply keeps_bind keeps_getStack
  intro stack
  split
  · exact keeps_setStack _
  · exact keeps_setStack _
  · exact keeps_crash rfl (by decide)

@[simp] theorem keeps_luaPushstring (pointer : CharPtr) :
    (luaPushstring pointer : LuaM H Unit).Keeps invariant ends := by
  cases pointer <;> exact keeps_push _

@[simp] theorem keeps_luaPushcfunction (function : FunctionRef) :
    (luaPushcfunction function : LuaM H Unit).Keeps invariant ends :=
  keeps_push _

@[simp] theorem keeps_luaPushboolean (value : Bool) :
    (luaPushboolean value : LuaM H Unit).Keeps invariant ends :=
  keeps_push _

@[simp] theorem keeps_luaPushnumber (value : LuaNumber) :
    (luaPushnumber value : LuaM H Unit).Keeps invariant ends :=
  keeps_push _

@[simp] theorem keeps_luaIsnil (idx : Int) : (luaIsnil idx : LuaM H Bool).Keeps invariant ends :=
  keeps_bind (keeps_valueAt idx) fun _ => keeps_pure _

@[simp] theorem keeps_luaIsboolean (idx : Int) :
    (luaIsboolean idx : LuaM H Bool).Keeps invariant ends :=
  keeps_bind (keeps_valueAt idx) fun _ => keeps_pure _

@[simp] theorem keeps_luaIstable (idx : Int) :
    (luaIstable idx : LuaM H Bool).Keeps invariant ends :=
  keeps_bind (keeps_valueAt idx) fun _ => keeps_pure _

@[simp] theorem keeps_luaIsfunction (idx : Int) :
    (luaIsfunction idx : LuaM H Bool).Keeps invariant ends :=
  keeps_bind (keeps_valueAt idx) fun _ => keeps_pure _

@[simp] theorem keeps_luaIsstring (idx : Int) :
    (luaIsstring idx : LuaM H Bool).Keeps invariant ends :=
  keeps_bind (keeps_valueAt idx) fun _ => keeps_pure _

@[simp] theorem keeps_luaToboolean (idx : Int) :
    (luaToboolean idx : LuaM H Bool).Keeps invariant ends :=
  keeps_bind (keeps_valueAt idx) fun _ => keeps_pure _

@[simp] theorem keeps_luaTonumber (platform : Platform) (idx : Int) :
    (luaTonumber platform idx : LuaM H LuaNumber).Keeps invariant ends :=
  keeps_bind (keeps_valueAt idx) fun _ => keeps_pure _

@[simp] theorem keeps_luaTolstring (platform : Platform) (idx : Int) :
    (luaTolstring platform idx : LuaM H CharPtr).Keeps invariant ends := by
  apply keeps_bind keeps_getStack
  intro stack
  split
  · exact keeps_pure _
  · exact keeps_crash rfl (by decide)
  · split
    · exact keeps_pure _
    · exact keeps_bind (keeps_setStack _) fun _ => keeps_pure _
    · exact keeps_pure _

@[simp] theorem keeps_luaTostring (platform : Platform) (idx : Int) :
    (luaTostring platform idx : LuaM H CharPtr).Keeps invariant ends :=
  keeps_luaTolstring platform idx

@[simp] theorem keeps_tableAt (idx : Int) : (tableAt idx : LuaM H Nat).Keeps invariant ends := by
  apply keeps_bind (keeps_valueAt idx)
  intro value
  split
  · exact keeps_pure _
  · exact keeps_crash rfl (by decide)

@[simp] theorem keeps_luaRawget (idx : Int) :
    (luaRawget idx : LuaM H Unit).Keeps invariant ends := by
  apply keeps_bind (keeps_tableAt idx)
  intro address
  refine keeps_bind (fun _ holds => holds) fun table => ?_
  apply keeps_bind keeps_getStack
  intro stack
  split
  · exact keeps_setStack _
  · exact keeps_crash rfl (by decide)

theorem keeps_luaRawset (allowed : ends.raising) (idx : Int) :
    (luaRawset idx : LuaM H Unit).Keeps invariant ends := by
  apply keeps_bind (keeps_tableAt idx)
  intro address
  refine keeps_bind (fun _ holds => holds) fun table => ?_
  apply keeps_bind keeps_getStack
  intro stack
  split
  · split
    · exact keeps_bind (fun _ holds => holds) fun _ => keeps_setStack _
    · exact keeps_throw allowed
  · exact keeps_crash rfl (by decide)

@[simp] theorem keeps_luaCreatetable : (luaCreatetable : LuaM H Unit).Keeps invariant ends :=
  fun _ holds => holds

theorem luaDCall_keeps (keeps : rt.Keeps invariant ends) {world : World H}
    (holds : invariant world.host) (function : Value) (arguments : List Value) :
    (luaDCall rt function arguments world).Keeps invariant ends.mayRaise :=
  keeps.call _ _ _ holds

theorem luaVGettable_keeps (keeps : rt.Keeps invariant ends) {world : World H}
    (holds : invariant world.host) (object key : Value) :
    (luaVGettable rt object key world).Keeps invariant ends := by
  unfold luaVGettable
  split
  · dsimp only
    split
    · exact keeps.index _ _ _ holds
    · exact holds
  · exact keeps.index _ _ _ holds

theorem luaVSettable_keeps (keeps : rt.Keeps invariant ends) {world : World H}
    (holds : invariant world.host) (address : Nat) (name : Bytes) (value : Value) :
    (luaVSettable rt (.table address) (.string name) value world).Keeps invariant ends := by
  rw [luaVSettable_string]
  split
  · exact keeps.newindex _ _ _ _ holds
  · exact holds

theorem pushResult_keeps {result : CallResult H} (keeps : result.Keeps invariant ends)
    (state : LuaState H) : (pushResult result state).Keeps invariant ends := by
  cases result <;> exact keeps

theorem keeps_luaGetglobal (keeps : rt.Keeps invariant ends) (name : CharPtr) :
    (luaGetglobal rt name).Keeps invariant ends :=
  fun state holds => pushResult_keeps (luaVGettable_keeps keeps holds _ _) state

theorem keeps_luaGetfield (keeps : rt.Keeps invariant ends) (idx : Int) (name : String) :
    (luaGetfield rt idx name).Keeps invariant ends :=
  keeps_bind (keeps_valueAt idx) fun _ state holds =>
    pushResult_keeps (luaVGettable_keeps keeps holds _ _) state

theorem luaGErrormsg_keeps (keeps : rt.Keeps invariant ends) (handler : Value) (depth : Nat)
    (error : Value) {world : World H} (holds : invariant world.host) :
    (luaGErrormsg rt handler depth error world).Keeps invariant ends.mayRaise := by
  induction depth generalizing error world with
  | zero => exact ⟨trivial, holds⟩
  | succ depth ih =>
      unfold luaGErrormsg
      split
      · have called := luaDCall_keeps keeps holds handler [error]
        split
        · rename_i returned
          rw [returned] at called
          exact ⟨trivial, called⟩
        · rename_i raised
          rw [raised] at called
          exact ih _ called.2
        · rename_i faulted
          rw [faulted] at called
          exact called
      · exact ⟨trivial, holds⟩

theorem luaDPcall_keeps (keeps : rt.Keeps invariant ends) (handler : Option Value)
    (function : Value) (arguments : List Value) {world : World H} (holds : invariant world.host) :
    (luaDPcall rt handler function arguments world).Keeps invariant ends.mayRaise := by
  have called := luaDCall_keeps keeps holds function arguments
  unfold luaDPcall
  split
  · rename_i raised
    rw [raised] at called
    exact luaGErrormsg_keeps keeps _ _ _ called.2
  · exact called

theorem finishPcall_keeps {result : CallResult H} (keeps : result.Keeps invariant ends.mayRaise)
    (nresults : Option Nat) (below : List Value) (state : LuaState H) :
    (finishPcall nresults below result state).Keeps invariant ends := by
  cases result with
  | returns results world => exact keeps
  | raises error world => exact keeps.2
  | faults reason world => exact keeps

theorem keeps_luaPcall (keeps : rt.Keeps invariant ends) (nargs : Nat) (nresults : Option Nat)
    (errfunc : Int) : (luaPcall rt nargs nresults errfunc).Keeps invariant ends := by
  refine keeps_bind ?_ fun handler => keeps_bind keeps_getStack fun stack => ?_
  · exact keeps_ite (keeps_pure _) (keeps_valueAt _)
  · split
    · exact fun state holds => finishPcall_keeps (luaDPcall_keeps keeps _ _ _ holds) _ _ state
    · exact keeps_crash rfl (by decide)

theorem keeps_luaCall (keeps : rt.Keeps invariant ends) (nargs : Nat) (nresults : Option Nat) :
    (luaCall rt nargs nresults).Keeps invariant ends.mayRaise := by
  apply keeps_bind keeps_getStack
  intro stack
  split
  · intro state holds
    have called := luaDCall_keeps keeps holds ‹Value› (stack.take nargs).reverse
    dsimp only
    split
    · rename_i returned
      rw [returned] at called
      exact called
    · rename_i raised
      rw [raised] at called
      exact called
    · rename_i faulted
      rw [faulted] at called
      exact called
  · exact keeps_crash rfl (by decide)

theorem callNative_keeps {body : LuaM H Nat} (function : Value) {arguments : List Value}
    {world : World H} (ran : (body ⟨arguments.reverse, [], world⟩).Keeps invariant ends) :
    (callNative function body arguments world).Keeps invariant ends := by
  unfold callNative
  split <;> (rename_i ended; rw [ended] at ran; exact ran)

/-! ## `luaL_findtable` -/

section Findtable

variable (rt) (part : Bytes) (rest : List Bytes) {address : Nat} {below : List Value}
  {passed : List (Sink × CharPtr)} {world : World H}

/-- A missing table is made and stored, as far as a metamethod lets it. -/
theorem findtableFrom_missing
    (field : (world.heap.tables address).get (.string part) = .nil) :
    findtableFrom rt (part :: rest) ⟨.table address :: below, passed, world⟩ =
      let made : Value := .table world.heap.nextTable
      (finishStore (made :: .table address :: below)
        (luaVSettable rt (.table address) (.string part) made
          { world with heap := world.heap.allocate .empty })
        ⟨made :: .string part :: made :: .table address :: below, passed,
          { world with heap := world.heap.allocate .empty }⟩).bind fun _ state =>
        (luaRemove (-2) >>= fun _ => findtableFrom rt rest) state := by
  simp [findtableFrom, luaPushlstring, field, Value.isNil, luaSettable, valueAt]

theorem findtableFrom_entered {inner : Nat}
    (field : (world.heap.tables address).get (.string part) = .table inner) :
    findtableFrom rt (part :: rest) ⟨.table address :: below, passed, world⟩ =
      findtableFrom rt rest ⟨.table inner :: below, passed, world⟩ := by
  simp [findtableFrom, luaPushlstring, field, Value.isNil, Value.isTable]

theorem findtableFrom_conflict
    (present : ((world.heap.tables address).get (.string part)).isNil = false)
    (other : ((world.heap.tables address).get (.string part)).isTable = false) :
    findtableFrom rt (part :: rest) ⟨.table address :: below, passed, world⟩ =
      .ok false ⟨below, passed, world⟩ := by
  simp [findtableFrom, luaPushlstring, present, other]

end Findtable

theorem keeps_findtableFrom (keeps : rt.Keeps invariant ends) (parts : List Bytes) (address : Nat)
    (below : List Value) (passed : List (Sink × CharPtr)) {world : World H}
    (holds : invariant world.host) :
    (findtableFrom rt parts ⟨.table address :: below, passed, world⟩).Keeps invariant ends := by
  induction parts generalizing address world with
  | nil => exact holds
  | cons part rest ih =>
      cases field : (world.heap.tables address).get (.string part) with
      | nil =>
          rw [findtableFrom_missing rt part rest field]
          have stored := @luaVSettable_keeps _ _ _ _ keeps { world with heap := world.heap.allocate .empty } holds
            address part (.table world.heap.nextTable)
          dsimp only
          cases ended : luaVSettable rt (.table address) (.string part) (.table world.heap.nextTable)
              { world with heap := world.heap.allocate .empty } with
          | returns results after =>
              rw [ended] at stored
              simpa using ih world.heap.nextTable stored
          | raises error after => rw [ended] at stored; exact stored
          | faults reason after => rw [ended] at stored; exact stored
      | table inner =>
          rw [findtableFrom_entered rt part rest field]
          exact ih inner holds
      | _ =>
          rw [findtableFrom_conflict rt part rest (by rw [field]; rfl) (by rw [field]; rfl)]
          exact holds

theorem keeps_luaLFindtable (keeps : rt.Keeps invariant ends) (fname : String) :
    (luaLFindtable rt fname).Keeps invariant ends :=
  fun state holds => keeps_findtableFrom keeps (dotted fname) _ state.stack state.passed holds

/-- The table a dotted name means below this one, missing tables made on the way; `none` where
something else has the name or a metamethod does not let a table be stored. -/
def searchTable (rt : Runtime H) : List Bytes → Nat → World H → Option (Nat × World H)
  | [], address, world => some (address, world)
  | part :: rest, address, world =>
      match (world.heap.tables address).get (.string part) with
      | .table inner => searchTable rt rest inner world
      | .nil =>
          match luaVSettable rt (.table address) (.string part) (.table world.heap.nextTable)
              { world with heap := world.heap.allocate .empty } with
          | .returns _ after => searchTable rt rest world.heap.nextTable after
          | _ => none
      | _ => none

/-- The search gives the table in place of the one searched; without it the table is dropped, or
an error leaves the search. -/
theorem findtableFrom_search (rt : Runtime H) (parts : List Bytes) (address : Nat) (below : List Value)
    (passed : List (Sink × CharPtr)) (world : World H) :
    (∃ found after, searchTable rt parts address world = some (found, after) ∧
      findtableFrom rt parts ⟨.table address :: below, passed, world⟩ =
        .ok true ⟨.table found :: below, passed, after⟩) ∨
    (searchTable rt parts address world = none ∧
      ((∃ after, findtableFrom rt parts ⟨.table address :: below, passed, world⟩ =
        .ok false ⟨below, passed, after⟩) ∨
      (∃ error final, findtableFrom rt parts ⟨.table address :: below, passed, world⟩ =
        .raise error final) ∨
      ∃ reason final, findtableFrom rt parts ⟨.table address :: below, passed, world⟩ =
        .fault reason final)) := by
  induction parts generalizing address world with
  | nil => exact .inl ⟨address, world, rfl, rfl⟩
  | cons part rest ih =>
      unfold searchTable
      cases field : (world.heap.tables address).get (.string part) with
      | nil =>
          rw [findtableFrom_missing rt part rest field]
          dsimp only
          cases luaVSettable rt (.table address) (.string part) (.table world.heap.nextTable)
              { world with heap := world.heap.allocate .empty } with
          | returns results after => simpa using ih world.heap.nextTable after
          | raises error after => exact .inr ⟨rfl, .inr (.inl ⟨_, _, rfl⟩)⟩
          | faults reason after => exact .inr ⟨rfl, .inr (.inr ⟨_, _, rfl⟩)⟩
      | table inner =>
          rw [findtableFrom_entered rt part rest field]
          exact ih inner world
      | _ =>
          rw [findtableFrom_conflict rt part rest (by rw [field]; rfl) (by rw [field]; rfl)]
          exact .inr ⟨rfl, .inl ⟨world, rfl⟩⟩

end GameServer.Lua
