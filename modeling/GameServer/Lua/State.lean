import GameServer.Lua.Table
import Mathlib.Logic.Function.Basic

namespace GameServer.Lua

/-- The tables of a Lua state and the two roots C code reaches by pseudo-index. -/
structure Heap where
  tables : Nat → Table
  /-- which tables have a metatable with a `__newindex` -/
  newindexed : Nat → Bool
  nextTable : Nat
  globals : Nat
  registry : Nat

/-- A heap with these tables, the first one holding the globals. -/
def Heap.ofTables (tables : List Table) : Heap where
  tables := fun address => tables.getD address .empty
  newindexed := fun _ => false
  nextTable := tables.length + 1
  globals := 0
  registry := tables.length

namespace Heap

def store (heap : Heap) (address : Nat) (table : Table) : Heap :=
  { heap with tables := Function.update heap.tables address table }

def storeField (heap : Heap) (address : Nat) (name : Bytes) (value : Value) : Heap :=
  heap.store address ((heap.tables address).set (.string name) value (validKey_string name))

/-- A new table at the next free address, without a metatable. -/
def allocate (heap : Heap) (table : Table) : Heap :=
  { heap.store heap.nextTable table with
    newindexed := Function.update heap.newindexed heap.nextTable false
    nextTable := heap.nextTable + 1 }

@[simp] theorem store_tables_self (heap : Heap) (address : Nat) (table : Table) :
    (heap.store address table).tables address = table := by
  simp [store]

@[simp] theorem store_newindexed (heap : Heap) (address : Nat) (table : Table) :
    (heap.store address table).newindexed = heap.newindexed := rfl

@[simp] theorem storeField_newindexed (heap : Heap) (address : Nat) (name : Bytes) (value : Value) :
    (heap.storeField address name value).newindexed = heap.newindexed := rfl

theorem get_storeField (heap : Heap) (address : Nat) (name : Bytes) (value : Value) (other : Nat)
    (key : Value) : ((heap.storeField address name value).tables other).get key =
      if other = address ∧ key = .string name then value else (heap.tables other).get key := by
  unfold storeField store
  by_cases here : other = address
  · subst here
    simp [Table.get_set]
  · simp [here]

/-- A new table takes no metamethod away from the others, and has none itself. -/
theorem allocate_newindexed {heap : Heap} {address : Nat} (plain : heap.newindexed address = false)
    (table : Table) : (heap.allocate table).newindexed address = false := by
  simp only [allocate, Function.update_apply]
  split
  · rfl
  · exact plain

@[simp] theorem allocate_tables_self (heap : Heap) (table : Table) :
    (heap.allocate table).tables heap.nextTable = table := by
  simp [allocate]

@[simp] theorem allocate_store (heap : Heap) (table other : Table) :
    (heap.allocate table).store heap.nextTable other = heap.allocate other := by
  simp [allocate, store]

end Heap

/-- One activation of a Lua or C function by `luaD_call`. -/
structure Call where
  function : Value
  arguments : List Value
deriving DecidableEq

/-- What all Lua frames share.  `H` is the program the Lua state is embedded in;
`clock` counts the times code outside the modelled C functions was run. -/
structure World (H : Type) where
  heap : Heap
  calls : List Call
  clock : Nat
  host : H

/-- Why a run stops for good: an operation C leaves undefined, or, for `outOfFuel`,
a loop that was given too few iterations. -/
inductive Fault where
  | nullPointer
  | invalidIndex
  | notATable
  | undefinedFormat
  | released
  | overrun
  | outOfFuel
  /-- Lua code ended the process by `os.exit` -/
  | exited
deriving DecidableEq, Repr

/-- How code outside the modelled C functions ends: it returns values, raises a
Lua error, or breaks the process. -/
inductive CallResult (H : Type) where
  | returns (results : List Value) (world : World H)
  | raises (error : Value) (world : World H)
  | faults (reason : Fault) (world : World H)

namespace CallResult

def world : CallResult H → World H
  | .returns _ world => world
  | .raises _ world => world
  | .faults _ world => world

end CallResult

/-- The parts of the C library and of the Lua core that are left open. -/
structure Platform where
  /-- `lua_number2str`, the `%.14g` of `sprintf` into `LUAI_MAXNUMBER2STR` bytes -/
  number2str : LuaNumber → Bytes
  number2str_fits : ∀ number, (number2str number).length < 32
  /-- `luaO_str2d` -/
  str2number : Bytes → Option LuaNumber
  /-- `LUAL_BUFFERSIZE`, the `BUFSIZ` of `stdio.h` -/
  bufferSize : Nat
  /-- `luaH_getn`: some border of the table -/
  border : Table → Nat

/-- The Lua code that runs when C calls a value, and the metamethods that answer when a
value has no raw field to read or to store into: any behaviour at all. -/
structure Runtime (H : Type) extends Platform where
  call : Value → List Value → World H → CallResult H
  index : Value → Value → World H → CallResult H
  newindex : Value → Value → Value → World H → CallResult H

instance : Inhabited Platform where
  default := {
    number2str := fun _ => []
    number2str_fits := fun _ => Nat.succ_pos 31
    str2number := fun _ => none
    bufferSize := 512
    border := fun _ => 0 }

/-- Lua code that does nothing: calls return no values and absent fields are nil. -/
instance : Inhabited (Runtime H) where
  default := {
    toPlatform := default
    call := fun _ _ world => .returns [] world
    index := fun _ _ world => .returns [] world
    newindex := fun _ _ _ world => .returns [] world }

/-- Where C code hands a `char*` on to. -/
inductive Sink where
  | strlen
  | strncpy
  | libevent
  | printf
deriving DecidableEq, Repr

/-- What one C function sees: the stack of its own frame with the top first, the
`char*` arguments it has handed on so far, and the shared world. -/
structure LuaState (H : Type) where
  stack : List Value
  passed : List (Sink × CharPtr)
  world : World H

/-- A C function returns, leaves by `longjmp` with a Lua error, or stops the run. -/
inductive Outcome (H α : Type) where
  | ok (value : α) (state : LuaState H)
  | raise (error : Value) (state : LuaState H)
  | fault (reason : Fault) (state : LuaState H)

namespace Outcome

variable {H α β : Type}

def bind : Outcome H α → (α → LuaState H → Outcome H β) → Outcome H β
  | .ok value state, next => next value state
  | .raise error state, _ => .raise error state
  | .fault reason state, _ => .fault reason state

@[simp] theorem ok_bind (value : α) (state : LuaState H) (next : α → LuaState H → Outcome H β) :
    (Outcome.ok value state).bind next = next value state := rfl

@[simp] theorem raise_bind (error : Value) (state : LuaState H)
    (next : α → LuaState H → Outcome H β) :
    (Outcome.raise error state).bind next = .raise error state := rfl

@[simp] theorem fault_bind (reason : Fault) (state : LuaState H)
    (next : α → LuaState H → Outcome H β) :
    (Outcome.fault reason state).bind next = .fault reason state := rfl

theorem bind_eq_ok {outcome : Outcome H α} {next : α → LuaState H → Outcome H β} {result : β}
    {final : LuaState H} : outcome.bind next = .ok result final ↔
      ∃ value middle, outcome = .ok value middle ∧ next value middle = .ok result final := by
  cases outcome with
  | ok value state => simp
  | raise error state => simp
  | fault reason state => simp

theorem bind_bind (outcome : Outcome H α) (next : α → LuaState H → Outcome H β)
    (last : β → LuaState H → Outcome H γ) :
    (outcome.bind next).bind last = outcome.bind fun value state => (next value state).bind last := by
  cases outcome <;> rfl

def value? : Outcome H α → Option α
  | .ok value _ => some value
  | _ => none

theorem value?_eq_some {outcome : Outcome H α} {value : α} :
    outcome.value? = some value ↔ ∃ state, outcome = .ok value state := by
  cases outcome <;> simp [value?]

/-- A property of the state an outcome leaves behind, however it was reached. -/
def All (property : LuaState H → Prop) : Outcome H α → Prop
  | .ok _ state => property state
  | .raise _ state => property state
  | .fault _ state => property state

@[simp] theorem all_ok {property : LuaState H → Prop} {value : α} {state : LuaState H} :
    (Outcome.ok value state).All property ↔ property state := Iff.rfl

@[simp] theorem all_raise {property : LuaState H → Prop} {error : Value} {state : LuaState H} :
    (Outcome.raise error state : Outcome H α).All property ↔ property state := Iff.rfl

@[simp] theorem all_fault {property : LuaState H → Prop} {reason : Fault} {state : LuaState H} :
    (Outcome.fault reason state : Outcome H α).All property ↔ property state := Iff.rfl

theorem All.imp {property weaker : LuaState H → Prop} {outcome : Outcome H α}
    (all : outcome.All property) (implies : ∀ state, property state → weaker state) :
    outcome.All weaker := by
  cases outcome with
  | ok value state => exact implies state all
  | raise error state => exact implies state all
  | fault reason state => exact implies state all

theorem All.bind {property : LuaState H → Prop} {outcome : Outcome H α}
    {next : α → LuaState H → Outcome H β} (all : outcome.All property)
    (continued : ∀ value state, property state → (next value state).All property) :
    (outcome.bind next).All property := by
  cases outcome with
  | ok value state => exact continued value state all
  | raise error state => exact all
  | fault reason state => exact all

end Outcome

/-- A C function working on a Lua state. -/
def LuaM (H α : Type) := LuaState H → Outcome H α

namespace LuaM

variable {H α β : Type}

instance : Monad (LuaM H) where
  pure value := fun state => .ok value state
  bind action next := fun state => (action state).bind fun value after => next value after

@[simp] theorem pure_apply (value : α) (state : LuaState H) :
    (pure value : LuaM H α) state = .ok value state := rfl

@[simp] theorem bind_apply (action : LuaM H α) (next : α → LuaM H β) (state : LuaState H) :
    (action >>= next) state = (action state).bind fun value after => next value after := rfl

theorem bind_pure_eq (action : LuaM H α) : action >>= pure = action := by
  funext state
  change (action state).bind _ = action state
  cases action state <;> rfl

theorem bind_assoc_eq (action : LuaM H α) (next : α → LuaM H β) (last : β → LuaM H γ) :
    action >>= next >>= last = action >>= fun value => next value >>= last := by
  funext state
  exact Outcome.bind_bind (action state) _ _

instance : LawfulMonad (LuaM H) :=
  LawfulMonad.mk' (LuaM H) bind_pure_eq (fun _ _ => rfl) bind_assoc_eq

@[simp] theorem map_apply (change : α → β) (action : LuaM H α) (state : LuaState H) :
    (change <$> action) state =
      (action state).bind fun value after => .ok (change value) after := by
  rw [map_eq_pure_bind]
  rfl

@[simp] theorem cond_apply (condition : Prop) [Decidable condition] (yes no : LuaM H α)
    (state : LuaState H) :
    (if condition then yes else no) state = if condition then yes state else no state := by
  split <;> rfl

/-- A Lua error thrown by C code. -/
def throw (error : Value) : LuaM H α := fun state => .raise error state

/-- Undefined behaviour. -/
def crash (reason : Fault) : LuaM H α := fun state => .fault reason state

@[simp] theorem throw_apply (error : Value) (state : LuaState H) :
    (throw error : LuaM H α) state = .raise error state := rfl

@[simp] theorem crash_apply (reason : Fault) (state : LuaState H) :
    (crash reason : LuaM H α) state = .fault reason state := rfl

def getHost : LuaM H H := fun state => .ok state.world.host state

def setHost (host : H) : LuaM H Unit :=
  fun state => .ok () { state with world := { state.world with host } }

@[simp] theorem getHost_apply (state : LuaState H) :
    (getHost : LuaM H H) state = .ok state.world.host state := rfl

@[simp] theorem setHost_apply (host : H) (state : LuaState H) :
    setHost host state = .ok () { state with world := { state.world with host } } := rfl

def handOn (sink : Sink) (pointer : CharPtr) : LuaM H Unit :=
  fun state => .ok () { state with passed := state.passed ++ [(sink, pointer)] }

/-- Hands a `char*` to code that reads through it. -/
def read (sink : Sink) (pointer : CharPtr) : LuaM H Bytes := do
  handOn sink pointer
  match pointer with
  | none => crash .nullPointer
  | some bytes => pure bytes

@[simp] theorem read_some (sink : Sink) (bytes : Bytes) (state : LuaState H) :
    read sink (some bytes) state =
      .ok bytes { state with passed := state.passed ++ [(sink, some bytes)] } := rfl

@[simp] theorem read_none (sink : Sink) (state : LuaState H) :
    read sink none state =
      .fault .nullPointer { state with passed := state.passed ++ [(sink, none)] } := rfl

end LuaM

def strlen (pointer : CharPtr) : LuaM H Nat := do
  let bytes ← LuaM.read .strlen pointer
  pure (cstr bytes).length

@[simp] theorem strlen_some (bytes : Bytes) (state : LuaState H) :
    strlen (some bytes) state = .ok (cstr bytes).length
      { state with passed := state.passed ++ [(.strlen, some bytes)] } := rfl

@[simp] theorem strlen_none (state : LuaState H) :
    strlen none state =
      .fault .nullPointer { state with passed := state.passed ++ [(.strlen, none)] } := rfl

end GameServer.Lua
