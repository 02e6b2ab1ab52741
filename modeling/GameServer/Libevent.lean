import GameServer.Module.Log

namespace GameServer

open Lua LuaM

/-! The libevent functions the HTTP code calls, as their headers document them. -/

structure Uri where
  path : CharPtr
  query : CharPtr

structure IncomingRequest where
  id : Nat
  uri : Option Uri
  host : CharPtr
  responseCode : Int
  command : Int

/-- The completed request a callback is given; NULL when there is no response. -/
abbrev Response := Option Int

/-- What libevent does with a request: it is refused, or it is queued, or it is
queued and its callback has run before `evhttp_make_request` returns. -/
inductive MakeRequest where
  | rejected
  | accepted
  | completed (response : Response)

/-- What libevent does during one call of `http_request_new`. -/
structure Network where
  connection : Bool
  request : Bool
  make : MakeRequest

def Network.early (network : Network) : Bool :=
  network.connection && network.request &&
    match network.make with
    | .completed _ => true
    | _ => false

def evhttpSendReply (request code : Nat) (reason : String) (body : Option Bytes) : EngineM Unit :=
  modifyHost fun server => { server with
    replies := server.replies ++ [.reply request code reason body] }

def evhttpSendError (request code : Nat) (reason : String) : EngineM Unit :=
  modifyHost fun server => { server with
    replies := server.replies ++ [.error request code reason] }

def evhttpConnectionBaseNew (succeeds : Bool) (address : CharPtr) (port : Nat) :
    EngineM (Option Nat) := do
  let host ← read .libevent address
  if succeeds then
    let server ← getHost
    setHost { server with connections := server.connections.acquire ⟨cstr host, port⟩ }
    pure (some server.connections.length)
  else pure none

def evhttpConnectionFree (connection : Nat) : EngineM Unit :=
  modifyHost fun server => { server with connections := server.connections.release connection }

def evhttpRequestNew (succeeds : Bool) (arg : Nat) : EngineM (Option Nat) := do
  if succeeds then
    let server ← getHost
    setHost { server with requests := server.requests.acquire ⟨arg⟩ }
    pure (some server.requests.length)
  else pure none

def evhttpRequestFree (request : Nat) : EngineM Unit :=
  modifyHost fun server => { server with requests := server.requests.release request }

/-- Use of a request object, undefined once it is freed. -/
def evhttpRequest (request : Nat) : EngineM OutgoingRequest := do
  match (← getHost).requests.live? request with
  | some object => pure object
  | none => crash .released

/-- `evhttp_request_get_response_code`, which reads through its argument. -/
def evhttpRequestGetResponseCode (response : Response) : EngineM Int :=
  match response with
  | some code => pure code
  | none => crash .nullPointer

/-- The completion of a request: libevent runs the callback it was made with, then
frees the request. -/
def completeRequest (callback : Response → Nat → EngineM Unit) (response : Response)
    (request : Nat) : EngineM Unit := do
  let object ← evhttpRequest request
  callback response object.arg
  evhttpRequestFree request

/-- `evhttp_make_request`: whether it returned 0.  It takes over the request, and
when it fails it has freed it. -/
def evhttpMakeRequest (make : MakeRequest) (callback : Response → Nat → EngineM Unit)
    (connection request : Nat) (command : Command) (uri : CharPtr) : EngineM Bool := do
  let target ← read .libevent uri
  let object ← evhttpRequest request
  match make with
  | .rejected =>
      evhttpRequestFree request
      pure false
  | .accepted =>
      modifyHost fun server => { server with
        pending := server.pending ++ [⟨request, connection, object.arg, command, cstr target⟩] }
      pure true
  | .completed response =>
      completeRequest callback response request
      pure true

/-! ## Headers -/

/-- `struct evkeyvalq`, with the history of `evhttp_add_header` on it: the arguments of
each call, and what it returned. -/
structure EvKeyValQ where
  headers : List (Bytes × Bytes)
  calls : List (CharPtr × CharPtr)
  returned : List Int
deriving DecidableEq

/-- Which headers libevent takes, after the calls made so far. -/
abbrev TakesHeader := List (CharPtr × CharPtr) → Bytes → Bytes → Bool

def evhttpAddHeader (takes : TakesHeader) (key value : CharPtr) : LuaM EvKeyValQ Int := do
  let before ← getHost
  let called := { before with calls := before.calls ++ [(key, value)] }
  setHost called
  let name ← read .libevent key
  let text ← read .libevent value
  if takes before.calls (cstr name) (cstr text) then
    setHost { called with
      headers := called.headers ++ [(cstr name, cstr text)]
      returned := called.returned ++ [0] }
    return 0
  else
    setHost { called with returned := called.returned ++ [-1] }
    return -1

/-! ## URI escaping -/

/-- Bytes `evhttp_uriencode` keeps: ASCII letters and digits, `-`, `.`, `_`, `~`. -/
def uriUnreserved (c : UInt8) : Bool :=
  (48 ≤ c && c ≤ 57) || (65 ≤ c && c ≤ 90) || (97 ≤ c && c ≤ 122) ||
    c == 45 || c == 46 || c == 95 || c == 126

def hexDigit (n : UInt8) : UInt8 :=
  if n < 10 then 48 + n else 55 + n

def hexValue (c : UInt8) : Option UInt8 :=
  if 48 ≤ c && c ≤ 57 then some (c - 48)
  else if 65 ≤ c && c ≤ 70 then some (c - 55)
  else if 97 ≤ c && c ≤ 102 then some (c - 87)
  else none

/-- `evhttp_uriencode(str, size, 1)` of the `size` bytes at `str`. -/
def evhttpUriencode (bytes : Bytes) : Bytes :=
  bytes.flatMap fun c =>
    if uriUnreserved c then [c]
    else if c = 32 then [43]
    else [37, hexDigit (c / 16), hexDigit (c % 16)]

/-- `evhttp_uridecode(uri, 1, &size)`, of the bytes before the terminator. -/
def evhttpUridecode : Bytes → Bytes
  | [] => []
  | 43 :: rest => 32 :: evhttpUridecode rest
  | 37 :: high :: low :: rest =>
      match hexValue high, hexValue low with
      | some h, some l => (h * 16 + l) :: evhttpUridecode rest
      | _, _ => 37 :: evhttpUridecode (high :: low :: rest)
  | c :: rest => c :: evhttpUridecode rest

end GameServer
