import GameServer.Server

namespace GameServer

open Lua LuaM

/-! `memory.c` and the APR pools under it. -/

/-- What the allocator does during one call of the engine.  `junk` is what fresh
memory happens to hold. -/
structure Allocation where
  pool : Bool
  info : Bool
  table : Bool
  function : Bool
  junk : UInt8

def poolNew (succeeds : Bool) : EngineM (Option Nat) := do
  if succeeds then
    let server ← getHost
    setHost { server with pools := server.pools.acquire ⟨none, []⟩ }
    pure (some server.pools.length)
  else pure none

def poolFree (pool : Nat) : EngineM Unit :=
  modifyHost fun server => { server with pools := server.pools.release pool }

/-- Access to a pool's memory, undefined once the pool is destroyed. -/
def poolMemory (pool : Nat) : EngineM Pool := do
  match (← getHost).pools.live? pool with
  | some memory => pure memory
  | none => crash .released

def setPoolMemory (pool : Nat) (memory : Pool) : EngineM Unit :=
  modifyHost fun server => { server with pools := server.pools.update pool fun _ => memory }

/-- `pool_palloc`, whose `int size` becomes the `apr_size_t` of `apr_palloc`: a block
of that many bytes. -/
def poolPalloc (succeeds : Bool) (junk : UInt8) (pool : Nat) (size : Int) :
    EngineM (Option Nat) := do
  let memory ← poolMemory pool
  if succeeds then
    setPoolMemory pool
      { memory with blocks := memory.blocks ++ [List.replicate (intToSize size) junk] }
    pure (some memory.blocks.length)
  else pure none

def poolBlock (pool block : Nat) : EngineM Bytes := do
  match (← poolMemory pool).blocks[block]? with
  | some bytes => pure bytes
  | none => crash .overrun

/-- Stores into a block, which must be large enough for what is stored. -/
def setPoolBlock (pool block : Nat) (bytes : Bytes) : EngineM Unit := do
  let memory ← poolMemory pool
  if bytes.length = (memory.blocks[block]?.map List.length).getD 0 then
    setPoolMemory pool { memory with blocks := memory.blocks.set block bytes }
  else crash .overrun

/-- `strncpy`: the source up to its NUL, padded with NULs to `n` bytes. -/
def strncpyBytes (source : Bytes) (n : Nat) : Bytes :=
  let copied := (cstr source).take n
  copied ++ List.replicate (n - copied.length) 0

theorem length_strncpyBytes (source : Bytes) (n : Nat) : (strncpyBytes source n).length = n := by
  simp only [strncpyBytes, List.length_append, List.length_replicate, List.length_take]
  omega

def strncpy (pool block : Nat) (source : CharPtr) (n : Nat) : EngineM Unit := do
  let bytes ← read .strncpy source
  let old ← poolBlock pool block
  setPoolBlock pool block (strncpyBytes bytes n ++ old.drop n)

def terminate (pool block n : Nat) : EngineM Unit := do
  let old ← poolBlock pool block
  if n < old.length then setPoolBlock pool block (old.set n 0)
  else crash .overrun

/-- Copying all of a string and terminating it leaves the string up to its first
NUL, whatever the block held. -/
theorem cstr_copied (source old : Bytes) :
    cstr ((strncpyBytes source source.length ++ old.drop source.length).set source.length 0) =
      cstr source := by
  have copied : (cstr source).take source.length = cstr source :=
    List.take_of_length_le (cstr_length_le source)
  have free := zero_not_mem_cstr source
  have width : (strncpyBytes source source.length).length = source.length :=
    length_strncpyBytes source source.length
  rw [List.set_append_right _ _ (by omega), width, Nat.sub_self]
  simp only [strncpyBytes, copied, List.append_assoc]
  rw [cstr_append_of_not_mem _ free]
  suffices ended : ∀ (padding : Nat) (rest : Bytes),
      cstr (List.replicate padding 0 ++ rest.set 0 0) = [] by
    rw [ended, List.append_nil]
  intro padding rest
  cases padding with
  | zero => cases rest <;> rfl
  | succ padding => simp [List.replicate_succ]

end GameServer
