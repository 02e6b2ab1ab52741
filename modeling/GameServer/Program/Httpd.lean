import GameServer.Module.HttpUtil
import GameServer.Module.LuaUtil
import GameServer.Module.Memory

namespace GameServer

open Lua LuaM

/-! `httpd.c`.  The static `L` is the Lua state every function here works on. -/

variable (rt : Runtime Server)

/-- `HTTP_OK` and `HTTP_INTERNAL`. -/
def httpOk : Nat := 200

def httpInternal : Nat := 500

/-- The end of `http_handler`, with what `call_lua_script` returned and `evbuffer_new`
giving an empty buffer. -/
def answerRequest (req : IncomingRequest) (count : Int) : EngineM Unit := do
  if count ≠ 2 then
    evhttpSendError req.id httpInternal "Internal Server Error"
    return
  let isTrue ← luaToboolean (-2)
  if isTrue then
    let evb ← evbufferAddPrintf [] (← luaTostring rt.toPlatform (-1)) []
    evhttpSendReply req.id httpOk "OK" (some evb)
  else
    evhttpSendError req.id httpInternal "Internal Server Error"

def httpHandler (req : IncomingRequest) : EngineM Unit := do
  if !(← findLuaGlobalFunction rt (some (lit "http_request_handler"))) then return
  httpRequestToLuaTable req
  answerRequest rt req (← callLuaScript rt 1)

def isIpChar (c : UInt8) : Bool :=
  (48 ≤ c && c ≤ 57) || c == 46

/-- The test of `_is_ip` on the characters of its argument, whose number goes through an
`int`. -/
def isIpText (text : Bytes) : Bool :=
  let len := sizeToInt text.length
  1 ≤ len && (text.take len.toNat).all isIpChar

def isIp (ip : CharPtr) : EngineM Bool := do
  let len := sizeToInt (← strlen ip)
  if len < 1 then return false
  return isIpText (cstr (ip.getD []))

def callbackString (pool : Nat) (block : Option Nat) : EngineM Bytes := do
  match block with
  | none => crash .nullPointer
  | some block => return cstr (← poolBlock pool block)

/-- `(struct lua_callback_info_t*)arg`, read while its pool is alive. -/
def callbackInfo (arg : Nat) : EngineM LuaCallbackInfo := do
  match (← poolMemory arg).info with
  | some info => pure info
  | none => crash .overrun

/-- The start of `http_request_cb`: the names of the callback, as they are logged. -/
def readCallback (response : Response) (arg : Nat) : EngineM (Bytes × Bytes) := do
  let code ← evhttpRequestGetResponseCode response
  logDebug "ok!!!!!!!!!!request %d" [.int code]
  let ptr ← callbackInfo arg
  let table ← callbackString arg ptr.table
  let function ← callbackString arg ptr.function
  modifyHost fun server => { server with read := server.read ++ [⟨arg, table, function⟩] }
  logDebug "table:%s, function:%s" [.str (some table), .str (some function)]
  return (table, function)

/-- The script call of `http_request_cb`. -/
def runCallback (table function : CharPtr) : EngineM Unit := do
  if ← findLuaFunction rt table function then
    let _ ← callLuaScript rt 0

def httpRequestCb (response : Response) (arg : Nat) : EngineM Unit := do
  let (table, function) ← readCallback response arg
  runCallback rt (some table) (some function)
  -- the record is read once more: a pool destroyed meanwhile shows here
  let ptr ← callbackInfo arg
  poolFree ptr.pool

/-- What `lua_http_request_get` reads from its arguments. -/
structure HttpArguments where
  ip : CharPtr
  port : Int
  uri : CharPtr
  table : Bytes
  function : Bytes

/-- The start of `lua_http_request_get`, `none` where it returns false to the script. -/
def httpArguments : EngineM (Option HttpArguments) := do
  if (← luaGettop) < 3 then return none
  let ip ← luaTostring rt.toPlatform 1
  if !(← isIp ip) then return none
  let port := (← luaTonumber rt.toPlatform 2).toInt
  let uri ← luaTostring rt.toPlatform 3
  match ← luaTolstring rt.toPlatform 4 with
  | none => return none
  | some table =>
  match ← luaTolstring rt.toPlatform 5 with
  | none => return none
  | some function => return some ⟨ip, port, uri, table, function⟩

/-- The callback record with copies of its two strings, in a pool of its own; `none`
where the function gives the pool up and returns false. -/
def newCallbackInfo (allocation : Allocation) (table function : Bytes) : EngineM (Option Nat) := do
  match ← poolNew allocation.pool with
  | none => return none
  | some pool =>
  if !allocation.info then
    poolFree pool
    return none
  let tableBlock ← poolPalloc allocation.table allocation.junk pool (sizeToInt (table.length + 1))
  let functionBlock ←
    poolPalloc allocation.function allocation.junk pool (sizeToInt (function.length + 1))
  setPoolMemory pool { (← poolMemory pool) with info := some ⟨pool, tableBlock, functionBlock⟩ }
  match tableBlock, functionBlock with
  | some tableBlock, some functionBlock =>
      strncpy pool tableBlock (some table) table.length
      terminate pool tableBlock table.length
      strncpy pool functionBlock (some function) function.length
      terminate pool functionBlock function.length
      modifyHost fun server => { server with asked := server.asked ++ [⟨pool, table, function⟩] }
      return some pool
  | _, _ =>
      poolFree pool
      return none

/-- The end of `lua_http_request_get`, with what `http_request_new` returned. -/
def finishRequest (pool : Nat) : Option Nat → EngineM Nat
  | none => do
      poolFree pool
      luaPushboolean false
      return 1
  | some _ => do
      luaPushboolean true
      return 1

/-- `lua_http_request_get` from where it has read its arguments. -/
def sendRequest (command : Command) (allocation : Allocation) (network : Network)
    (arguments : HttpArguments) : EngineM Nat := do
  match ← newCallbackInfo allocation arguments.table arguments.function with
  | none =>
      luaPushboolean false
      return 1
  | some pool =>
      finishRequest pool (← httpRequestNew network arguments.ip arguments.port (httpRequestCb rt) pool
        command arguments.uri)

/-- `lua_http_request_get` and `lua_http_request_post`, which differ in the command. -/
def luaHttpRequest (command : Command) (allocation : Allocation) (network : Network) :
    EngineM Nat := do
  match ← httpArguments rt with
  | none =>
      luaPushboolean false
      return 1
  | some arguments => sendRequest rt command allocation network arguments

def luaHttpRequestGet (allocation : Allocation) (network : Network) : EngineM Nat :=
  luaHttpRequest rt .get allocation network

def luaHttpRequestPost (allocation : Allocation) (network : Network) : EngineM Nat :=
  luaHttpRequest rt .post allocation network

def testArray (fuel : Nat) : EngineM Nat := do
  if ← luaTableIsArray rt fuel then luaPushboolean true
  else luaPushboolean false
  return 1

end GameServer
