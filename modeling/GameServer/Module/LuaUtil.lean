import GameServer.Lua.Buffer
import GameServer.Module.Log

namespace GameServer

open Lua LuaM

/-! `lua_util.c`. -/

variable (rt : Runtime Server)

/-- The C function `traceback`, as the value the engine pushes. -/
def tracebackFunction : FunctionRef := .native 0

def traceback : EngineM Nat := do
  if !(← luaIsstring 1) then return 1
  luaGetglobal rt (some (lit "debug"))
  if !(← luaIstable (-1)) then
    luaPop 1
    return 1
  luaGetfield rt (-1) "traceback"
  if !(← luaIsfunction (-1)) then
    luaPop 2
    return 1
  luaPushvalue 1
  luaPushinteger 2
  luaCall rt 2 (some 1)
  return 1

/-- The runtime in which the value of `traceback` runs the engine's C function. -/
def engine : Runtime Server :=
  { rt with
    call := fun function arguments world =>
      if function = .function tracebackFunction then
        callNative function (traceback rt) arguments world
      else rt.call function arguments world }

/-- `number > size`, the comparison of a `lua_Number` with an `int`. -/
def LuaNumber.exceeds : LuaNumber → Nat → Bool
  | .finite value, size => decide ((size : Rat) < value)
  | .infinite negative, _ => !negative
  | .nan, _ => false

/-- The loop of `lua_table_is_array`, with `cnt` keys counted. -/
def luaTableIsArrayFrom (base : Int) (size : Nat) : Nat → Nat → EngineM Bool
  | 0, _ => crash .outOfFuel
  | fuel + 1, cnt => do
      if ← luaNext base then
        luaPop 1
        if !(← luaIsnumber rt.toPlatform (-1)) then return false
        if LuaNumber.exceeds (← luaTonumber rt.toPlatform (-1)) size then return false
        luaTableIsArrayFrom base size fuel (cnt + 1)
      else
        luaSettop base
        return cnt = size

def luaTableIsArray (fuel : Nat) : EngineM Bool := do
  let base ← luaGettop
  if base < 1 then return false
  if !(← luaIstable base) then return false
  let size ← luaObjlen rt.toPlatform (-1)
  luaPushnil
  luaTableIsArrayFrom rt base size fuel 0

def loadLuaLibrary (moduleName : CharPtr) : EngineM Bool := do
  let base ← luaGettop
  luaPushcfunction tracebackFunction
  luaGetglobal rt (some (lit "require"))
  luaPushstring moduleName
  if (← luaPcall rt 1 (some 1) (base + 1)) ≠ 0 then
    luaSettop base
    return false
  else
    luaRemove (base + 1)
    return true

/-- The end of `find_lua_function`: a function on top takes the place of the module
name, anything else is dropped. -/
def keepFunction (base moduleIndex : Int) : EngineM Bool := do
  if ← luaIsfunction (-1) then
    luaReplace moduleIndex
    luaSettop moduleIndex
    return true
  else
    luaSettop base
    return false

/-- The middle of `find_lua_function`, with the value of the module on top. -/
def selectFunction (base moduleIndex : Int) (func : CharPtr) : EngineM Bool := do
  if ← luaIstable (-1) then
    luaPushstring func
    luaRawget (-2)
    keepFunction base moduleIndex
  else if !(← luaIsboolean (-1)) then
    luaSettop base
    return false
  else
    let istrue ← luaToboolean (-1)
    luaPop 1
    if istrue then
      luaGetglobal rt func
      keepFunction base moduleIndex
    else
      luaSettop base
      return false

def findLuaFunction (module func : CharPtr) : EngineM Bool := do
  if (← strlen module) < 1 then return false
  if (← strlen func) < 1 then return false
  let base ← luaGettop
  luaPushstring module
  let moduleIndex ← luaGettop
  let _ ← luaLFindtable rt "package.loaded"
  luaPushvalue moduleIndex
  luaRawget (-2)
  if ← luaIsnil (-1) then
    if !(← loadLuaLibrary rt module) then
      luaSettop base
      return false
    else selectFunction rt base moduleIndex func
  else selectFunction rt base moduleIndex func

def findLuaGlobalFunction (func : CharPtr) : EngineM Bool := do
  luaGetglobal rt func
  if ← luaIsfunction (-1) then
    return true
  else
    luaPop 1
    return false

def callLuaScript (args : Int) : EngineM Int := do
  let args := if args < 0 then 0 else args
  let base : Int := (← luaGettop) - 1 - args
  if base < 0 then return 0
  if (← luaPcall rt args.toNat none 0) ≠ 0 then
    logDebug "%s" [.str (← luaTostring rt.toPlatform (-1))]
    return 0
  else
    let ret : Int := (← luaGettop) - base
    return if ret < 0 then 0 else ret

/-! ## The functions registered in `_G` -/

def luaRoot : EngineM Nat := do
  luaPushglobals
  return 1

/-- What `lua_catch` does with the status of its call. -/
def logCaught (status : Nat) : EngineM Unit := do
  if status ≠ 0 then
    logDebug "lua catch: %s" [.str (← luaTostring rt.toPlatform (-1))]

def luaCatch : EngineM Nat := do
  luaPushcfunction tracebackFunction
  luaInsert 1
  let args : Int := (← luaGettop) - 2
  let args := if args < 0 then 0 else args
  let status ← luaPcall rt args.toNat none 1
  logCaught rt status
  luaRemove 1
  return 0

/-- The fields of `lua_Debug` that `lua_getinfo` fills in for `"S"`. -/
structure LuaDebug where
  source : Bytes
  what : Bytes
  shortSrc : Bytes

def luaIdsize : Nat := 60

/-- Where the module name starts in `short_src`: after a leading `./`, `.\\` or dot. -/
def shortSrcStart : Bytes → Bytes
  | 46 :: 47 :: rest => rest
  | 46 :: 92 :: rest => rest
  | 46 :: rest => rest
  | src => src

/-- The level `lua_this` was asked for. -/
def levelArgument : EngineM Int := do
  if (← luaGettop) > 0 then return (← luaTonumber rt.toPlatform 1).toInt
  else return 0

/-- `lua_this`, with the activation records `lua_getstack` and `lua_getinfo` give
for each level. -/
def luaThis (records : Nat → Option LuaDebug) : EngineM Nat := do
  let level ← levelArgument rt
  let level := if level < 1 then 1 else level
  match records level.toNat with
  | none =>
      luaPushstring (some (lit "_G"))
      return 1
  | some ar =>
      if ar.source.head? ≠ some 64 ∧ ar.what ≠ lit "Lua" then
        luaPushstring (some (lit "_G"))
        return 1
      let start := shortSrcStart (cstr ar.shortSrc)
      let len := (start.takeWhile (· ≠ 46)).length
      -- `strstr` found no dot: the length computed from NULL is past any limit
      if 46 ∉ start ∨ len < 1 ∨ len > luaIdsize then
        luaPushstring (some (lit "_G"))
        return 1
      let name := (start.take len).map fun c => if c = 92 ∨ c = 47 then 46 else c
      let b ← Buffer.addlstring rt.toPlatform Buffer.init name
      let _ ← Buffer.pushresult rt.toPlatform b
      return 1

def luaCallScript : EngineM Int := do
  if (← luaGettop) < 2 then return 0
  luaPushcfunction tracebackFunction
  luaInsert 1
  let args : Int := (← luaGettop) - 3
  let args := if args < 0 then 0 else args
  let module ← luaTostring rt.toPlatform 2
  let func ← luaTostring rt.toPlatform 3
  if ← findLuaFunction rt module func then
    luaReplace 3
    if (← luaPcall rt args.toNat none 1) ≠ 0 then
      return 0
    else
      let ret : Int := (← luaGettop) - 2
      return if ret < 0 then 0 else ret
  else
    let module ← luaTostring rt.toPlatform 2
    let func ← luaTostring rt.toPlatform 3
    logDebug "lua call_script: cannot find %s:%s" [.str module, .str func]
    return 0

def luaWriteFile (outcome : FileOutcome) (datetime : Bytes) : EngineM Nat := do
  if (← luaGettop) < 3 then
    luaPushboolean false
    return 1
  let file ← luaTolstring rt.toPlatform 1
  if (file.getD []).length < 1 then
    luaPushboolean false
    return 1
  let isWithTime ← luaToboolean 2
  let msg ← luaTolstring rt.toPlatform 3
  if (msg.getD []).length < 1 then
    luaPushboolean false
    return 1
  if isWithTime then
    logFileWithTime outcome datetime file msg
    luaPushboolean true
    return 1
  else
    logFile outcome file msg
    luaPushboolean true
    return 1

end GameServer
