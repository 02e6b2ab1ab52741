import GameServer.Buckets
import GameServer.Transition
import GameServer.Lua.Value

namespace GameServer.Lua

open Transition

/-! The string table of `lstring.c`, and the collector's steps that touch it. -/

/-- `union TString`, with the address the allocator gave it. -/
structure TString where
  address : Nat
  bytes : Bytes
  hash : UInt32
  marked : UInt8
deriving DecidableEq

/-- The string after a write of the marks of the string at `address`. -/
def TString.remark (address : Nat) (marks : UInt8 → UInt8) (ts : TString) : TString :=
  if ts.address = address then { ts with marked := marks ts.marked } else ts

inductive GCState where
  | pause
  | propagate
  | sweepstring
  | sweep
  | finalize
deriving DecidableEq

/-- The fields of `global_State` that strings live by; `buckets` is `strt.hash`. -/
structure StringTable where
  buckets : List (List TString) := []
  nuse : UInt32 := 0
  currentwhite : UInt8
  gcstate : GCState := .pause
  sweepstrgc : Nat := 0
deriving DecidableEq

def whitebits : UInt8 := 3

def blackbit : UInt8 := 4

def fixedbit : UInt8 := 32

def superfixedbit : UInt8 := 64

def minstrtabsize : Nat := 32

def lmod (h : UInt32) (size : Nat) : Nat := h.toNat &&& (size - 1)

/-- The hash of `luaS_newlstr`: `l1` goes down from `l` in steps while it is at least `step`. -/
def stringHash (str : Bytes) : UInt32 :=
  let l := str.length
  let step := (l >>> 5) + 1
  (List.range (l / step)).foldl
    (fun h i => h ^^^ ((h <<< 5) + (h >>> 2) + (str.getD (l - i * step - 1) 0).toUInt32))
    (UInt32.ofNat l)

namespace StringTable

def size (g : StringTable) : Nat := g.buckets.length

def strings (g : StringTable) : List TString := g.buckets.flatten

def otherwhite (g : StringTable) : UInt8 := g.currentwhite ^^^ whitebits

def isdead (g : StringTable) (ts : TString) : Bool :=
  ts.marked &&& g.otherwhite &&& whitebits ≠ 0

def luaCwhite (g : StringTable) : UInt8 := g.currentwhite &&& whitebits

/-- A write to the marks of the string at an address. -/
def setMarked (g : StringTable) (address : Nat) (marks : UInt8 → UInt8) : StringTable :=
  { g with buckets := g.buckets.map (List.map (TString.remark address marks)) }

end StringTable

open StringTable

def changewhite (marked : UInt8) : UInt8 := marked ^^^ whitebits

/-- `white2gray`, and `stringmark`. -/
def white2gray (marked : UInt8) : UInt8 := marked &&& ~~~whitebits

def luaSfix (marked : UInt8) : UInt8 := marked ||| fixedbit

def makewhite (g : StringTable) (marked : UInt8) : UInt8 :=
  (marked &&& ~~~(blackbit ||| whitebits)) ||| g.luaCwhite

def luaSresize (g : StringTable) (newsize : Nat) : StringTable :=
  if g.gcstate = .sweepstring then g
  else { g with buckets := Buckets.rehash (fun ts => lmod ts.hash newsize) newsize g.buckets }

/-- "Chain new entry". -/
def StringTable.chainEntry (g : StringTable) (ts : TString) : StringTable :=
  { g with
    buckets := Buckets.insert (fun ts => lmod ts.hash g.size) g.buckets ts
    nuse := g.nuse + 1 }

/-- `newlstr`; `address` is what `luaM_malloc` returns. -/
def newlstr (g : StringTable) (str : Bytes) (h : UInt32) (address : Nat) : StringTable :=
  let g := g.chainEntry { address := address, bytes := str, hash := h, marked := g.luaCwhite }
  if UInt32.ofNat g.size < g.nuse ∧ g.size ≤ 2147483645 / 2 then luaSresize g (g.size * 2) else g

/-- `luaS_newlstr`: the table after it, and the address of the string it returns. -/
def luaSnewlstr (g : StringTable) (str : Bytes) (address : Nat) : StringTable × Nat :=
  let h := stringHash str
  match (g.buckets.getD (lmod h g.size) []).find? (fun ts => ts.bytes = str) with
  | some ts => (if g.isdead ts then g.setMarked ts.address changewhite else g, ts.address)
  | none => (newlstr g str h address, address)

/-- `sweeplist` over the strings of one list, with `strt.nuse`. -/
def sweeplist (g : StringTable) : List TString → UInt32 → List TString × UInt32
  | [], nuse => ([], nuse)
  | curr :: rest, nuse =>
      if (curr.marked ^^^ whitebits) &&& g.otherwhite ≠ 0 then
        let (kept, nuse) := sweeplist g rest nuse
        ({ curr with marked := makewhite g curr.marked } :: kept, nuse)
      else sweeplist g rest (nuse - 1)

/-- `sweepwholelist(L, &g->strt.hash[i])`. -/
def sweepBucket (g : StringTable) (i : Nat) : StringTable :=
  let swept := sweeplist g (g.buckets.getD i []) g.nuse
  { g with
    buckets := g.buckets.set i swept.1
    nuse := swept.2 }

/-- What `checkSizes` does to the string table. -/
def checkSizes (g : StringTable) : StringTable :=
  if g.nuse < UInt32.ofNat (g.size / 4) ∧ minstrtabsize * 2 < g.size then luaSresize g (g.size / 2) else g

/-- `luaC_freeall`. -/
def luaCfreeall (g : StringTable) : StringTable :=
  (List.range g.size).foldl sweepBucket { g with currentwhite := whitebits ||| superfixedbit }

/-- The table `f_luaopen` leaves before the first string. -/
def StringTable.opened : StringTable :=
  luaSresize { currentwhite := 1 ||| fixedbit } minstrtabsize

inductive StringEvent where
  /-- A call of `luaS_newlstr`; the allocator would give the address. -/
  | newlstr (str : Bytes) (address : Nat)
  | fix (address : Nat)
  /-- Marking: the string at an address is reached. -/
  | mark (address : Nat)
  | markroot
  | atomic
  | sweepstring
  /-- The last `GCSsweep` step; the ones before it leave the string table as it is. -/
  | endSweep
  | endFinalize
  /-- The start of `luaC_fullgc` in the middle of a mark phase. -/
  | abandon
deriving DecidableEq

/-- One event, where the collector's state allows it and the allocator's address is free. -/
def stringStep (g : StringTable) : StringEvent → Option StringTable
  | .newlstr str address =>
      if address ∈ g.strings.map TString.address then none else some (luaSnewlstr g str address).1
  | .fix address => some (g.setMarked address luaSfix)
  | .mark address => if g.gcstate = .propagate then some (g.setMarked address white2gray) else none
  | .markroot =>
      if g.gcstate = .pause ∨ g.gcstate = .finalize then some { g with gcstate := .propagate } else none
  | .atomic =>
      if g.gcstate = .propagate then
        some { g with currentwhite := g.otherwhite, sweepstrgc := 0, gcstate := .sweepstring }
      else none
  | .sweepstring =>
      if g.gcstate = .sweepstring then
        let next := { sweepBucket g g.sweepstrgc with sweepstrgc := g.sweepstrgc + 1 }
        some (if next.size ≤ next.sweepstrgc then { next with gcstate := .sweep } else next)
      else none
  | .endSweep =>
      if g.gcstate = .sweep then some { checkSizes g with gcstate := .finalize } else none
  | .endFinalize => if g.gcstate = .finalize then some { g with gcstate := .pause } else none
  | .abandon =>
      if g.gcstate = .pause ∨ g.gcstate = .propagate then
        some { g with sweepstrgc := 0, gcstate := .sweepstring }
      else none

end GameServer.Lua
