import GameServer.Ledger
import GameServer.Lua.Api
import GameServer.Printf

namespace GameServer

open Lua LuaM

/-! The part of the process outside the Lua state: what the engine logged and
answered, and the objects it holds in APR and libevent. -/

/-- One `log_debug`: its format and its arguments. -/
structure LogCall where
  format : String
  arguments : List Printf.Arg
deriving DecidableEq

/-- `struct lua_callback_info_t`.  Its strings are blocks of its own pool, `none`
standing for a NULL the pool returned. -/
structure LuaCallbackInfo where
  pool : Nat
  table : Option Nat
  function : Option Nat
deriving DecidableEq

/-- An `apr_pool_t` as the engine uses it: one callback record and the other blocks. -/
structure Pool where
  info : Option LuaCallbackInfo
  blocks : List Bytes
deriving DecidableEq

structure Connection where
  address : Bytes
  port : Nat
deriving DecidableEq

/-- An `evhttp_request` for an outgoing request, with the `arg` of its callback. -/
structure OutgoingRequest where
  arg : Nat
deriving DecidableEq

/-- `enum evhttp_cmd_type`, as far as the engine sends it. -/
inductive Command where
  | get
  | post
deriving DecidableEq

/-- An accepted request whose callback has not run. -/
structure Pending where
  request : Nat
  connection : Nat
  arg : Nat
  command : Command
  uri : Bytes
deriving DecidableEq

/-- A call of `evhttp_send_reply` or `evhttp_send_error`.  A body is `none` when
formatting it was undefined. -/
inductive Reply where
  | reply (request : Nat) (code : Nat) (reason : String) (body : Option Bytes)
  | error (request : Nat) (code : Nat) (reason : String)
deriving DecidableEq

def Reply.request : Reply → Nat
  | .reply request _ _ _ => request
  | .error request _ _ => request

/-- What `evbuffer_write_to_file` does to its buffer and its file. -/
inductive FileStep where
  | open_ (file : Bytes)
  | lock
  | unlock
  | close
deriving DecidableEq

/-- The two names of a callback, with the pool its record lives in. -/
structure CallbackNames where
  pool : Nat
  table : Bytes
  function : Bytes
deriving DecidableEq

structure Server where
  log : List LogCall
  replies : List Reply
  /-- the contents of the files appended to, `none` where they are not known -/
  files : Bytes → Option Bytes
  fileSteps : List FileStep
  pools : Ledger Pool
  connections : Ledger Connection
  requests : Ledger OutgoingRequest
  pending : List Pending
  /-- history: the names scripts passed, and those callbacks read -/
  asked : List CallbackNames
  read : List CallbackNames

def Server.start : Server where
  log := []
  replies := []
  files := fun _ => some []
  fileSteps := []
  pools := []
  connections := []
  requests := []
  pending := []
  asked := []
  read := []

/-- The world of an engine that has done nothing yet. -/
def Lua.World.start (heap : Heap) : World Server :=
  ⟨heap, [], 0, Server.start⟩

/-- A C function of the engine. -/
abbrev EngineM := LuaM Server

def modifyHost (change : Server → Server) : EngineM Unit := do
  setHost (change (← getHost))

@[simp] theorem modifyHost_apply (change : Server → Server) (state : LuaState Server) :
    modifyHost change state =
      .ok () { state with world := { state.world with host := change state.world.host } } := rfl

/-- The pointers a log call hands to a `%s`. -/
def stringArguments : List Printf.Arg → List (Sink × CharPtr)
  | [] => []
  | .str pointer :: rest => (.printf, pointer) :: stringArguments rest
  | .int _ :: rest => stringArguments rest

/-- `log_debug`: the same arguments go to `log_print` and to `log/debug.log`. -/
def logDebug (format : String) (arguments : List Printf.Arg) : EngineM Unit := fun state =>
  .ok () { state with
    passed := state.passed ++ stringArguments arguments
    world := { state.world with host := { state.world.host with
      log := state.world.host.log ++ [⟨format, arguments⟩] } } }

def logged (world : World Server) (format : String) (arguments : List Printf.Arg) : World Server :=
  { world with host := { world.host with log := world.host.log ++ [⟨format, arguments⟩] } }

@[simp] theorem logDebug_apply (format : String) (arguments : List Printf.Arg)
    (state : LuaState Server) :
    logDebug format arguments state = .ok () { state with
      passed := state.passed ++ stringArguments arguments
      world := logged state.world format arguments } := rfl

/-! ## Integer conversions of the 32-bit target -/

def sizeToInt (size : Nat) : Int :=
  (size : Int).bmod 4294967296

def intToSize (value : Int) : Nat :=
  (value % 4294967296).toNat

def intToUshort (value : Int) : Nat :=
  (value % 65536).toNat

theorem intToSize_sizeToInt {size : Nat} (fits : size < 4294967296) :
    intToSize (sizeToInt size) = size := by
  change ((size : Int).bmod 4294967296 % ((4294967296 : Nat) : Int)).toNat = size
  rw [Int.bmod_emod]
  omega

end GameServer
