import GameServer.Lua.State
import Mathlib.Algebra.Order.Ring.Int
import Mathlib.Data.Int.Cast.Lemmas

namespace GameServer.Lua

/-! The stack half of `lapi.c`.  A frame is a list with the top first, so that
pushing is `cons`; indices are those of the C API. -/

variable {H : Type}

/-- Where an index leads: a slot, counted from the top, the "nil object" above
the top, or nowhere the API allows. -/
inductive Address where
  | slot (fromTop : Nat)
  | above
  | invalid
deriving DecidableEq

def index2adr (stack : List Value) (idx : Int) : Address :=
  if 0 < idx then
    if idx ≤ stack.length then .slot (stack.length - idx.toNat) else .above
  else if idx < 0 ∧ -idx ≤ stack.length then .slot ((-idx).toNat - 1)
  else .invalid

/-- A value addressed from the bottom of a frame keeps its index while values are
pushed above it. -/
theorem index2adr_above (above : List Value) (value : Value) (below : List Value) :
    index2adr (above ++ value :: below) (below.length + 1) = .slot above.length := by
  have positive : (0 : Int) < below.length + 1 := by omega
  have inside : (below.length : Int) + 1 ≤ (above ++ value :: below).length := by
    simp only [List.length_append, List.length_cons, Nat.cast_add, Nat.cast_one]
    omega
  have position : (above ++ value :: below).length - (below.length + 1) = above.length := by
    simp only [List.length_append, List.length_cons]
    omega
  have bottom : ((below.length : Int) + 1).toNat = below.length + 1 := by omega
  simp only [index2adr, if_pos positive, if_pos inside, bottom, position]

@[simp] theorem index2adr_base₀ (value : Value) (below : List Value) :
    index2adr (value :: below) (below.length + 1) = .slot 0 :=
  index2adr_above [] value below

@[simp] theorem index2adr_base₁ (a value : Value) (below : List Value) :
    index2adr (a :: value :: below) (below.length + 1) = .slot 1 :=
  index2adr_above [a] value below

@[simp] theorem index2adr_base₂ (a b value : Value) (below : List Value) :
    index2adr (a :: b :: value :: below) (below.length + 1) = .slot 2 :=
  index2adr_above [a, b] value below

@[simp] theorem index2adr_top (value : Value) (below : List Value) :
    index2adr (value :: below) (-1) = .slot 0 := by
  simp [index2adr]

@[simp] theorem index2adr_top₂ (a value : Value) (below : List Value) :
    index2adr (a :: value :: below) (-2) = .slot 1 := by
  have inside : (2 : Int) ≤ (below.length : Int) + 1 + 1 := by omega
  simp [index2adr, inside]

@[simp] theorem index2adr_top₃ (a b value : Value) (below : List Value) :
    index2adr (a :: b :: value :: below) (-3) = .slot 2 := by
  have inside : (3 : Int) ≤ (below.length : Int) + 1 + 1 + 1 := by omega
  simp [index2adr, inside]

@[simp] theorem index2adr_top₄ (a b c value : Value) (below : List Value) :
    index2adr (a :: b :: c :: value :: below) (-4) = .slot 3 := by
  have inside : (4 : Int) ≤ (below.length : Int) + 1 + 1 + 1 + 1 := by omega
  simp [index2adr, inside]

namespace LuaM

def getStack : LuaM H (List Value) := fun state => .ok state.stack state

def setStack (stack : List Value) : LuaM H Unit := fun state => .ok () { state with stack }

@[simp] theorem getStack_apply (state : LuaState H) :
    (getStack : LuaM H (List Value)) state = .ok state.stack state := rfl

@[simp] theorem setStack_apply (stack : List Value) (state : LuaState H) :
    setStack stack state = .ok () { state with stack } := rfl

end LuaM

open LuaM

/-- The value an acceptable index names, `none` for the nil object. -/
def valueAt (idx : Int) : LuaM H (Option Value) := do
  let stack ← getStack
  match index2adr stack idx with
  | .slot position => pure stack[position]?
  | .above => pure none
  | .invalid => crash .invalidIndex

def luaGettop : LuaM H Nat := do
  pure (← getStack).length

def luaSettop (idx : Int) : LuaM H Unit := do
  let stack ← getStack
  if 0 ≤ idx then
    if idx ≤ stack.length then setStack (stack.drop (stack.length - idx.toNat))
    else setStack (List.replicate (idx.toNat - stack.length) .nil ++ stack)
  else if -(idx + 1) ≤ stack.length then setStack (stack.drop (-(idx + 1)).toNat)
  else crash .invalidIndex

def luaPop (n : Nat) : LuaM H Unit :=
  luaSettop (-(n : Int) - 1)

def push (value : Value) : LuaM H Unit := do
  setStack (value :: (← getStack))

def luaPushvalue (idx : Int) : LuaM H Unit := do
  let value ← valueAt idx
  push (value.getD .nil)

def luaRemove (idx : Int) : LuaM H Unit := do
  let stack ← getStack
  match index2adr stack idx with
  | .slot position => setStack (stack.eraseIdx position)
  | _ => crash .invalidIndex

def luaInsert (idx : Int) : LuaM H Unit := do
  let stack ← getStack
  match index2adr stack idx, stack with
  | .slot position, top :: rest => setStack (rest.take position ++ top :: rest.drop position)
  | _, _ => crash .invalidIndex

def luaReplace (idx : Int) : LuaM H Unit := do
  let stack ← getStack
  match index2adr stack idx, stack with
  | .slot 0, _ :: rest => setStack rest
  | .slot (position + 1), top :: rest => setStack (rest.set position top)
  | _, _ => crash .invalidIndex

def luaPushnil : LuaM H Unit := push .nil

def luaPushnumber (value : LuaNumber) : LuaM H Unit := push (.number value)

def luaPushinteger (value : Int) : LuaM H Unit := push (.number (.finite value))

def luaPushboolean (value : Bool) : LuaM H Unit := push (.boolean value)

def luaPushlstring (bytes : Bytes) : LuaM H Unit := push (.string bytes)

/-- `lua_pushstring` copies up to the first NUL; NULL pushes nil. -/
def luaPushstring : CharPtr → LuaM H Unit
  | none => luaPushnil
  | some bytes => luaPushlstring (cstr bytes)

def luaPushcfunction (function : FunctionRef) : LuaM H Unit := push (.function function)

def luaIsnil (idx : Int) : LuaM H Bool := do
  pure (((← valueAt idx).map Value.isNil).getD false)

def luaIsboolean (idx : Int) : LuaM H Bool := do
  pure (((← valueAt idx).map Value.isBoolean).getD false)

def luaIstable (idx : Int) : LuaM H Bool := do
  pure (((← valueAt idx).map Value.isTable).getD false)

def luaIsfunction (idx : Int) : LuaM H Bool := do
  pure (((← valueAt idx).map Value.isFunction).getD false)

def luaIsstring (idx : Int) : LuaM H Bool := do
  pure (((← valueAt idx).map Value.isString).getD false)

def luaToboolean (idx : Int) : LuaM H Bool := do
  pure (((← valueAt idx).map Value.truthy).getD false)

/-! What these do to a stack whose topmost values are known. -/

section Apply

variable (value a b : Value) (below : List Value) (passed : List (Sink × CharPtr))
  (world : World H) (state : LuaState H)

@[simp] theorem push_apply :
    push value state = .ok () { state with stack := value :: state.stack } := rfl

@[simp] theorem luaPushnumber_apply (number : LuaNumber) :
    luaPushnumber number state = .ok () { state with stack := .number number :: state.stack } := rfl

@[simp] theorem luaPushboolean_apply (boolean : Bool) :
    luaPushboolean boolean state =
      .ok () { state with stack := .boolean boolean :: state.stack } := rfl

@[simp] theorem luaPushlstring_apply (bytes : Bytes) :
    luaPushlstring bytes state = .ok () { state with stack := .string bytes :: state.stack } := rfl

@[simp] theorem luaGettop_apply : luaGettop state = .ok state.stack.length state := rfl

@[simp] theorem luaPushvalue_top :
    luaPushvalue (-1) ⟨value :: below, passed, world⟩ =
      .ok () ⟨value :: value :: below, passed, world⟩ := by
  simp [luaPushvalue, valueAt]

@[simp] theorem luaPushvalue_top₂ :
    luaPushvalue (-2) ⟨a :: value :: below, passed, world⟩ =
      .ok () ⟨value :: a :: value :: below, passed, world⟩ := by
  simp [luaPushvalue, valueAt]

@[simp] theorem luaPushvalue_base₀ :
    luaPushvalue ((below.length : Int) + 1) ⟨value :: below, passed, world⟩ =
      .ok () ⟨value :: value :: below, passed, world⟩ := by
  simp [luaPushvalue, valueAt]

@[simp] theorem luaPushvalue_base₁ :
    luaPushvalue ((below.length : Int) + 1) ⟨a :: value :: below, passed, world⟩ =
      .ok () ⟨value :: a :: value :: below, passed, world⟩ := by
  simp [luaPushvalue, valueAt]

@[simp] theorem luaPop_one :
    luaPop 1 ⟨a :: below, passed, world⟩ = .ok () ⟨below, passed, world⟩ := by
  simp [luaPop, luaSettop]

@[simp] theorem luaPop_two :
    luaPop 2 ⟨a :: b :: below, passed, world⟩ = .ok () ⟨below, passed, world⟩ := by
  simp [luaPop, luaSettop]

@[simp] theorem luaSettop_length (above : List Value) :
    luaSettop (below.length : Int) ⟨above ++ below, passed, world⟩ =
      .ok () ⟨below, passed, world⟩ := by
  simp [luaSettop]

@[simp] theorem luaRemove_below_top :
    luaRemove (-2) ⟨a :: b :: below, passed, world⟩ = .ok () ⟨a :: below, passed, world⟩ := by
  simp [luaRemove]

@[simp] theorem luaIsnil_top :
    luaIsnil (-1) ⟨value :: below, passed, world⟩ =
      .ok value.isNil ⟨value :: below, passed, world⟩ := by
  simp [luaIsnil, valueAt]

@[simp] theorem luaIsboolean_top :
    luaIsboolean (-1) ⟨value :: below, passed, world⟩ =
      .ok value.isBoolean ⟨value :: below, passed, world⟩ := by
  simp [luaIsboolean, valueAt]

@[simp] theorem luaIstable_top :
    luaIstable (-1) ⟨value :: below, passed, world⟩ =
      .ok value.isTable ⟨value :: below, passed, world⟩ := by
  simp [luaIstable, valueAt]

@[simp] theorem luaIsfunction_top :
    luaIsfunction (-1) ⟨value :: below, passed, world⟩ =
      .ok value.isFunction ⟨value :: below, passed, world⟩ := by
  simp [luaIsfunction, valueAt]

@[simp] theorem luaToboolean_top :
    luaToboolean (-1) ⟨value :: below, passed, world⟩ =
      .ok value.truthy ⟨value :: below, passed, world⟩ := by
  simp [luaToboolean, valueAt]

@[simp] theorem luaToboolean_top₂ :
    luaToboolean (-2) ⟨a :: value :: below, passed, world⟩ =
      .ok value.truthy ⟨a :: value :: below, passed, world⟩ := by
  simp [luaToboolean, valueAt]

end Apply

section Conversions

variable (platform : Platform)

/-- `tonumber` of `lvm.h`. -/
def Value.toNumber : Value → Option LuaNumber
  | .number value => some value
  | .string value => platform.str2number value
  | _ => none

/-- The string `lua_tolstring` makes of a value, if it makes one. -/
def Value.toLuaString : Value → Option Bytes
  | .string value => some value
  | .number value => some (platform.number2str value)
  | _ => none

/-- What the conversion leaves in the stack slot. -/
def Value.converted : Value → Value
  | .number value => .string (platform.number2str value)
  | value => value

theorem Value.toLuaString_isSome (value : Value) :
    (value.toLuaString platform).isSome = value.isString := by
  cases value <;> rfl

@[simp] theorem Value.toLuaString_converted (value : Value) :
    (value.converted platform).toLuaString platform = value.toLuaString platform := by
  cases value <;> rfl

def luaIsnumber (idx : Int) : LuaM H Bool := do
  pure (((← valueAt idx).bind (Value.toNumber platform)).isSome)

def luaTonumber (idx : Int) : LuaM H LuaNumber := do
  pure (((← valueAt idx).bind (Value.toNumber platform)).getD (.finite 0))

/-- `lua_tolstring`, with the length kept in the bytes: a number is converted in
its stack slot, any other value that is not a string gives NULL. -/
def luaTolstring (idx : Int) : LuaM H CharPtr := do
  let stack ← getStack
  match index2adr stack idx with
  | .above => pure none
  | .invalid => crash .invalidIndex
  | .slot position =>
      match stack[position]? with
      | some (.string bytes) => pure (some bytes)
      | some (.number value) => do
          setStack (stack.set position (.string (platform.number2str value)))
          pure (some (platform.number2str value))
      | _ => pure none

def luaTostring (idx : Int) : LuaM H CharPtr :=
  luaTolstring platform idx

theorem luaTolstring_slot {idx : Int} {value : Value} (above below : List Value)
    (passed : List (Sink × CharPtr)) (world : World H)
    (address : index2adr (above ++ value :: below) idx = .slot above.length) :
    luaTolstring platform idx ⟨above ++ value :: below, passed, world⟩ =
      .ok (value.toLuaString platform) ⟨above ++ value.converted platform :: below, passed, world⟩ := by
  cases value <;>
    simp [luaTolstring, address, Value.toLuaString, Value.converted, List.set_append_right]

@[simp] theorem luaTostring_top (value : Value) (below : List Value)
    (passed : List (Sink × CharPtr)) (world : World H) :
    luaTostring platform (-1) ⟨value :: below, passed, world⟩ =
      .ok (value.toLuaString platform) ⟨value.converted platform :: below, passed, world⟩ :=
  luaTolstring_slot platform [] below passed world (index2adr_top value below)

end Conversions

end GameServer.Lua
