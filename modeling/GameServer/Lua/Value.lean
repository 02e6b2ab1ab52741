import GameServer.CString
import Mathlib.Data.List.Nodup

namespace GameServer.Lua

/-- A `lua_Number`.  Every double is one of these; the sign of a zero is not kept. -/
inductive LuaNumber where
  | finite (value : Rat)
  | infinite (negative : Bool)
  | nan
deriving DecidableEq, Repr

/-- A function is a Lua closure or a C function, named by its address. -/
inductive FunctionRef where
  | closure (address : Nat)
  | native (address : Nat)
deriving DecidableEq, Repr

inductive Value where
  | nil
  | boolean (value : Bool)
  | number (value : LuaNumber)
  | string (value : Bytes)
  | table (address : Nat)
  | function (function : FunctionRef)
  | userdata (address : Nat)
  | lightuserdata (pointer : Nat)
  | thread (address : Nat)
deriving DecidableEq, Repr

instance : Inhabited Value := ⟨.nil⟩

namespace Value

/-- `l_isfalse` negated: `nil` and `false` are the only false values. -/
def truthy : Value → Bool
  | .nil => false
  | .boolean value => value
  | _ => true

def typename : Value → String
  | .nil => "nil"
  | .boolean _ => "boolean"
  | .number _ => "number"
  | .string _ => "string"
  | .table _ => "table"
  | .function _ => "function"
  | .userdata _ => "userdata"
  | .lightuserdata _ => "userdata"
  | .thread _ => "thread"

def isNil : Value → Bool
  | .nil => true
  | _ => false

def isBoolean : Value → Bool
  | .boolean _ => true
  | _ => false

def isTable : Value → Bool
  | .table _ => true
  | _ => false

def isFunction : Value → Bool
  | .function _ => true
  | _ => false

/-- `lua_isstring`: strings and numbers, the values `lua_tolstring` converts. -/
def isString : Value → Bool
  | .string _ => true
  | .number _ => true
  | _ => false

theorem isNil_iff {value : Value} : value.isNil = true ↔ value = .nil := by
  cases value <;> simp [isNil]

end Value

/-- A number read as a C `int`: truncated towards zero.  What does not fit
becomes the "integer indefinite" value of the target's conversion instruction. -/
def LuaNumber.toInt : LuaNumber → Int
  | .finite value =>
      let truncated := if 0 ≤ value then value.floor else value.ceil
      if -2147483648 ≤ truncated ∧ truncated ≤ 2147483647 then truncated else -2147483648
  | _ => -2147483648

end GameServer.Lua
