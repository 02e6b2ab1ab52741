import GameServer.Lua.Api

namespace GameServer.Lua

/-! `luaL_Buffer` of `lauxlib.c`.  Characters collect in a C array; when it is full
they go to the Lua stack as one string, and `lvl` counts the strings put there. -/

structure Buffer where
  buffer : Bytes
  lvl : Nat
deriving DecidableEq

namespace Buffer

variable {H : Type} (platform : Platform)

def init : Buffer := ⟨[], 0⟩

def bufffree (b : Buffer) : Nat := platform.bufferSize - b.buffer.length

def limit : Nat := 10

/-- Whether there was anything to put on the stack. -/
def emptybuffer (b : Buffer) : LuaM H (Bool × Buffer) := do
  if b.buffer.length = 0 then pure (false, b)
  else
    luaPushlstring b.buffer
    pure (true, ⟨[], b.lvl + 1⟩)

/-- The `do … while` of `adjuststack`: how many of the topmost strings to join. -/
def togetFrom (lvl : Nat) : Nat → Nat → Nat → LuaM H Nat
  | 0, toget, _ => pure toget
  | rest + 1, toget, toplen => do
      let l ← luaObjlen platform (-((toget : Int) + 1))
      if lvl - toget + 1 ≥ limit ∨ toplen > l then togetFrom lvl rest (toget + 1) (toplen + l)
      else pure toget

def adjuststack (b : Buffer) : LuaM H Buffer := do
  if b.lvl > 1 then
    let toplen ← luaObjlen platform (-1)
    let toget ← togetFrom platform b.lvl (b.lvl - 1) 1 toplen
    luaConcat platform toget
    pure { b with lvl := b.lvl - toget + 1 }
  else pure b

def prepbuffer (b : Buffer) : LuaM H Buffer := do
  let (emptied, b) ← emptybuffer b
  if emptied then adjuststack platform b else pure b

/-- The guard of the `luaL_addchar` macro. -/
def makeRoom (b : Buffer) : LuaM H Buffer :=
  if b.buffer.length < platform.bufferSize then pure b else prepbuffer platform b

def addchar (b : Buffer) (c : UInt8) : LuaM H Buffer := do
  let b ← makeRoom platform b
  pure { b with buffer := b.buffer ++ [c] }

def addlstring (b : Buffer) : Bytes → LuaM H Buffer
  | [] => pure b
  | c :: rest => do
      let b ← addchar platform b c
      addlstring b rest

def addstring (b : Buffer) (s : String) : LuaM H Buffer :=
  addlstring platform b (lit s)

/-- `luaL_addvalue` takes the value on top of the stack. -/
def addvalue (b : Buffer) : LuaM H Buffer := do
  let s := (← luaTolstring platform (-1)).getD []
  if s.length ≤ b.bufffree platform then
    luaPop 1
    pure { b with buffer := b.buffer ++ s }
  else
    let (emptied, b) ← emptybuffer b
    (if emptied then luaInsert (-2) else pure ())
    adjuststack platform { b with lvl := b.lvl + 1 }

def pushresult (b : Buffer) : LuaM H Buffer := do
  let (_, b) ← emptybuffer b
  luaConcat platform b.lvl
  pure { b with lvl := 1 }

end Buffer

end GameServer.Lua
