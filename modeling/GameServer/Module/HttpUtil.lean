import GameServer.Libevent
import GameServer.Lua.Buffer

namespace GameServer

open Lua LuaM

/-! `http_util.c`. -/

/-- `http_request_new`.  Setting the close callback of the connection has no effect
on what is modelled. -/
def httpRequestNew (network : Network) (address : CharPtr) (port : Int)
    (callback : Response → Nat → EngineM Unit) (arg : Nat) (command : Command) (uri : CharPtr) :
    EngineM (Option Nat) := do
  match ← evhttpConnectionBaseNew network.connection address (intToUshort port) with
  | none => return none
  | some evcon =>
      match ← evhttpRequestNew network.request arg with
      | none =>
          evhttpConnectionFree evcon
          return none
      | some req =>
          if !(← evhttpMakeRequest network.make callback evcon req command uri) then
            evhttpRequestFree req
            evhttpConnectionFree evcon
            return none
          else return some req

def setRequestField (name : String) (pushValue : EngineM Unit) : EngineM Unit := do
  luaPushstring (some (lit name))
  pushValue
  luaRawset (-3)

def httpRequestToLuaTable (req : IncomingRequest) : EngineM Unit := do
  match req.uri with
  | none => return
  | some uri =>
      luaCreatetable
      setRequestField "path" (luaPushstring uri.path)
      setRequestField "query" (luaPushstring uri.query)
      setRequestField "host" (luaPushstring req.host)
      setRequestField "code" (luaPushnumber (.finite req.responseCode))
      setRequestField "command" (luaPushnumber (.finite req.command))

/-- The loop of `add_http_request_header` over the table at index `base`. -/
def addHeaderFrom (platform : Platform) (takes : TakesHeader) (base : Int) : Nat → LuaM EvKeyValQ Unit
  | 0 => crash .outOfFuel
  | fuel + 1 => do
      if ← luaNext base then
        let value ← luaTostring platform (-1)
        let key ← luaTostring platform (-2)
        let _ ← evhttpAddHeader takes key value
        luaPop 1
        addHeaderFrom platform takes base fuel
      else return

def addHttpRequestHeader (platform : Platform) (takes : TakesHeader) (fuel : Nat) :
    LuaM EvKeyValQ Int := do
  let base ← luaGettop
  if base < 1 then return 0
  if !(← luaIstable base) then return 0
  luaPushnil
  addHeaderFrom platform takes base fuel
  luaSettop base
  return 1

variable (rt : Runtime Server)

/-- `lua_http_uri_encode`; `allocated` is whether `evhttp_uriencode` got its memory. -/
def luaHttpUriEncode (allocated : Bool) : EngineM Nat := do
  if (← luaGettop) < 1 then
    luaPushstring (some [])
    return 1
  if !(← luaIsstring 1) then
    luaPushstring (some [])
    return 1
  let uri ← luaTolstring rt.toPlatform 1
  if uri.isNone ∨ (uri.getD []).length < 1 then
    luaPushstring (some [])
    return 1
  let bytes ← read .libevent uri
  if !allocated then
    luaPushstring (some [])
    return 1
  luaPushstring (some (evhttpUriencode bytes))
  return 1

def luaHttpUriDecode (allocated : Bool) : EngineM Nat := do
  if (← luaGettop) < 1 then
    luaPushstring (some [])
    return 1
  if !(← luaIsstring 1) then
    luaPushstring (some [])
    return 1
  let uri ← luaTolstring rt.toPlatform 1
  if uri.isNone ∨ (uri.getD []).length < 1 then
    luaPushstring (some [])
    return 1
  let bytes ← read .libevent uri
  if !allocated then
    luaPushstring (some [])
    return 1
  luaPushlstring (evhttpUridecode (cstr bytes))
  return 1

/-- The separator before every pair but the first. -/
def addSeparator (b : Buffer) (isHead : Bool) : EngineM Buffer :=
  if isHead then pure b else Buffer.addstring rt.toPlatform b "&"

/-- The loop of `lua_http_uri_header_encode` over the table at index `base`. -/
def headerEncodeFrom (base : Int) : Nat → Buffer → Bool → EngineM Buffer
  | 0, _, _ => crash .outOfFuel
  | fuel + 1, b, isHead => do
      if ← luaNext base then
        let b ← addSeparator rt b isHead
        luaPushvalue (-2)
        let b ← Buffer.addvalue rt.toPlatform b
        let b ← Buffer.addstring rt.toPlatform b "="
        let b ← Buffer.addvalue rt.toPlatform b
        headerEncodeFrom base fuel b false
      else return b

def luaHttpUriHeaderEncode (fuel : Nat) : EngineM Nat := do
  let base ← luaGettop
  if base < 1 then
    luaPushstring (some [])
    return 1
  if !(← luaIstable base) then
    luaPushstring (some [])
    return 1
  luaPushnil
  let b ← headerEncodeFrom rt base fuel Buffer.init true
  let _ ← Buffer.pushresult rt.toPlatform b
  luaReplace base
  luaSettop base
  return 1

def luaHttpUriHeaderDecode : EngineM Nat :=
  return 0

end GameServer
