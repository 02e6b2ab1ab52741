import GameServer.Lua.Node
import GameServer.Lua.Sequence
import Mathlib.Data.Nat.Log

namespace GameServer.Lua

open Chain

/-! Tables as `ltable.c` keeps them, with an array part and a hash part. -/

/-- `Table`; `dummynode` says that `node` is the node all empty hash parts share. -/
structure HashTable where
  array : List Value := []
  lsizenode : Nat := 0
  node : List Node := [{}]
  dummynode : Bool := true
  lastfree : Nat := 0
deriving DecidableEq

/-- Where `luaH_get` finds a key; its null is `luaO_nilobject`. -/
inductive Slot where
  | array (index : Nat)
  | node (index : Nat)
deriving DecidableEq

inductive TableFailure where
  | runerror (message : Bytes)
  /-- A loop or a recursion that does not come to its end in the steps it is given. -/
  | endless
deriving DecidableEq

def maxBits : Nat := 26

def maxAsize : Nat := 2 ^ maxBits

def ceillog2 (x : Nat) : Nat := Nat.clog 2 x

namespace HashTable

def sizenode (t : HashTable) : Nat := 2 ^ t.lsizenode

def gnode (t : HashTable) (i : Nat) : Node := t.node.getD i {}

def gnext (t : HashTable) (i : Nat) : Option Nat := (t.gnode i).next

def modifyNode (t : HashTable) (i : Nat) (change : Node → Node) : HashTable :=
  { t with node := t.node.modify i change }

/-- The value a slot holds. -/
def read (t : HashTable) : Slot → Value
  | .array index => t.array.getD index .nil
  | .node index => (t.gnode index).value

/-- The assignment through what `luaH_set` returns. -/
def store (t : HashTable) (value : Value) : Slot → HashTable
  | .array index => { t with array := t.array.set index value }
  | .node index => t.modifyNode index fun n => { n with value := value }

end HashTable

/-- `arrayindex`. -/
def arrayindex : Value → Int
  | .number n => if n = .finite n.toInt then n.toInt else -1
  | _ => -1

/-- What `arrayindex` accepts is a number that is an `int`. -/
theorem arrayindex_positive {key : Value} (positive : 0 < arrayindex key) :
    ∃ n : LuaNumber, key = .number n ∧ n = .finite n.toInt ∧ arrayindex key = n.toInt := by
  cases key with
  | number n =>
      by_cases whole : n = .finite n.toInt
      · exact ⟨n, rfl, whole, if_pos whole⟩
      · rw [show arrayindex (.number n) = -1 from if_neg whole] at positive
        omega
  | _ => simp [arrayindex] at positive

theorem number_of_arrayindex {key : Value} (positive : 0 < arrayindex key) :
    key = .number (.finite (arrayindex key)) := by
  obtain ⟨n, rfl, whole, index⟩ := arrayindex_positive positive
  rw [index, ← whole]

theorem toInt_finite {k : Nat} (bound : k ≤ 2147483647) : (LuaNumber.finite k).toInt = k := by
  have positive : (0 : Rat) ≤ (k : Rat) := by exact_mod_cast Nat.zero_le k
  have floor : (k : Rat).floor = k := by simpa using Rat.floor_intCast k
  simp only [LuaNumber.toInt, if_pos positive, floor]
  rw [if_pos (by omega)]

theorem arrayindex_position {k : Nat} (bound : k ≤ 2147483647) : arrayindex (.position k) = k := by
  simp [arrayindex, Value.position, toInt_finite bound]

section Search

variable (hash : Value → Nat) (t : HashTable)

/-- The loop down a chain from the main position of the key. -/
def findNode (key : Value) : Option Nat :=
  search t.gnext (fun i => decide ((t.gnode i).key = key)) t.sizenode (mainposition hash t.lsizenode key)

def luaHGetnum (key : Int) : Option Slot :=
  if 1 ≤ key ∧ key ≤ t.array.length then some (.array (key - 1).toNat)
  else (findNode hash t (.number (.finite key))).map .node

def luaHGetstr (key : Bytes) : Option Slot :=
  (findNode hash t (.string key)).map .node

def luaHGet (key : Value) : Option Slot :=
  match key with
  | .nil => none
  | .string s => luaHGetstr hash t s
  | .number n => if n = .finite n.toInt then luaHGetnum hash t n.toInt else (findNode hash t key).map .node
  | _ => (findNode hash t key).map .node

/-- The value `luaH_get` leads to. -/
def lookup (key : Value) : Value :=
  (luaHGet hash t key).elim .nil t.read

end Search

/-- The loop of `getfreepos`; the free node becomes the new `lastfree`. -/
def getfreepos (node : Nat → Node) : Nat → Option Nat
  | 0 => none
  | lastfree + 1 => if (node lastfree).key = .nil then some lastfree else getfreepos node lastfree

/-! ## Sizes -/

def countint (key : Value) (nums : List Nat) : Nat × List Nat :=
  let k := arrayindex key
  if 0 < k ∧ k ≤ maxAsize then (1, nums.modify (ceillog2 k.toNat) (· + 1)) else (0, nums)

/-- The slices of `numusearray` that are left, the first up to `2 ^ lg`; `i` is the next
place of the array. -/
def numusearrayFrom (array : List Value) : (left lg i ause : Nat) → (nums : List Nat) → Nat × List Nat
  | 0, _, _, ause, nums => (ause, nums)
  | left + 1, lg, i, ause, nums =>
      let lim := min (2 ^ lg) array.length
      if array.length < 2 ^ lg ∧ lim < i then (ause, nums)
      else
        let lc := ((array.drop (i - 1)).take (lim + 1 - i)).countP (· ≠ .nil)
        numusearrayFrom array left (lg + 1) (max i (lim + 1)) (ause + lc) (nums.modify lg (· + lc))

def numusearray (array : List Value) (nums : List Nat) : Nat × List Nat :=
  numusearrayFrom array (maxBits + 1) 0 1 0 nums

/-- `numusehash` goes through the nodes from the last to the first; it leaves `totaluse`, the
number of array candidates and `nums`. -/
def numusehash (node : List Node) (nums : List Nat) : Nat × Nat × List Nat :=
  node.foldr (fun n counts =>
    if n.value = .nil then counts
    else
      let counted := countint n.key counts.2.2
      (counts.1 + 1, counts.2.1 + counted.1, counted.2)) (0, 0, nums)

/-- The loop of `computesizes` over the slices that are left; it leaves `na` and `n`. -/
def computesizesFrom (narray : Nat) : List Nat → (twotoi a na n : Nat) → Nat × Nat
  | [], _, _, na, n => (na, n)
  | num :: nums, twotoi, a, na, n =>
      if twotoi / 2 < narray then
        let a' := a + num
        let better := 0 < num ∧ twotoi / 2 < a'
        let na' := if better then a' else na
        let n' := if better then twotoi else n
        if a' = narray then (na', n') else computesizesFrom narray nums (2 * twotoi) a' na' n'
      else (na, n)

def computesizes (nums : List Nat) (narray : Nat) : Nat × Nat :=
  computesizesFrom narray nums 1 0 0 0

/-- The sizes `rehash` finds for a table that is to hold the key `ek` too: those of the array
and of the hash part. -/
def newSizes (t : HashTable) (ek : Value) : Nat × Nat :=
  let inArray := numusearray t.array (List.replicate (maxBits + 1) 0)
  let inHash := numusehash t.node inArray.2
  let extra := countint ek inHash.2.2
  let sizes := computesizes extra.2 (inArray.1 + inHash.2.1 + extra.1)
  (sizes.2, inArray.1 + inHash.1 + 1 - sizes.1)

def setarrayvector (t : HashTable) (size : Nat) : HashTable :=
  { t with array := t.array.take size ++ List.replicate (size - t.array.length) .nil }

def setnodevector (t : HashTable) (size : Nat) : Except TableFailure HashTable :=
  if size = 0 then .ok { t with node := [{}], lsizenode := 0, dummynode := true, lastfree := 0 }
  else
    let lsize := ceillog2 size
    if maxBits < lsize then .error (.runerror (lit "table overflow"))
    else .ok { t with node := List.replicate (2 ^ lsize) {}, lsizenode := lsize, dummynode := false,
                      lastfree := 2 ^ lsize }

/-! ## Insertion -/

namespace HashTable

/-- The key is written into its main position. -/
def settle (t : HashTable) (mp : Nat) (key : Value) : HashTable :=
  t.modifyNode mp fun node => { node with key := key }

/-- The node at `mp`, which is behind `previous`, moves to the free node `n`. -/
def moveAway (t : HashTable) (mp n previous : Nat) : HashTable :=
  let linked := t.modifyNode previous fun node => { node with next := some n }
  let copied := linked.modifyNode n fun _ => linked.gnode mp
  copied.modifyNode mp fun node => { node with next := none, value := .nil }

/-- The free node `n` is chained in behind `mp`. -/
def chainBehind (t : HashTable) (mp n : Nat) : HashTable :=
  let joined := t.modifyNode n fun node => { node with next := t.gnext mp }
  joined.modifyNode mp fun node => { node with next := some n }

end HashTable

section Insertion

variable (hash : Value → Nat)
variable (newkey : HashTable → Value → Except TableFailure (HashTable × Slot))

/-- `luaH_set`; `newkey` is what it calls for a key that is not there. -/
def luaHSet (t : HashTable) (key : Value) : Except TableFailure (HashTable × Slot) :=
  match luaHGet hash t key with
  | some slot => .ok (t, slot)
  | none =>
      if key = .nil then .error (.runerror (lit "table index is nil"))
      else if key = .number .nan then .error (.runerror (lit "table index is NaN"))
      else newkey t key

def luaHSetnum (t : HashTable) (key : Int) : Except TableFailure (HashTable × Slot) :=
  match luaHGetnum hash t key with
  | some slot => .ok (t, slot)
  | none => newkey t (.number (.finite key))

/-- The elements of the vanishing slice, from place `i` of the array on, are re-inserted. -/
def reinsertArray : HashTable → Nat → List Value → Except TableFailure HashTable
  | t, _, [] => .ok t
  | t, i, value :: rest =>
      if value = .nil then reinsertArray t (i + 1) rest
      else do
        let (t, slot) ← luaHSetnum hash newkey t ((i + 1 : Nat) : Int)
        reinsertArray (t.store value slot) (i + 1) rest

def reinsertNodes : HashTable → List Node → Except TableFailure HashTable
  | t, [] => .ok t
  | t, old :: rest =>
      if old.value = .nil then reinsertNodes t rest
      else do
        let (t, slot) ← luaHSet hash newkey t old.key
        reinsertNodes (t.store old.value slot) rest

def resize (t : HashTable) (nasize nhsize : Nat) : Except TableFailure HashTable := do
  let grown := if t.array.length < nasize then setarrayvector t nasize else t
  let cleared ← setnodevector grown nhsize
  let shrunk ←
    if nasize < t.array.length then
      reinsertArray hash newkey { cleared with array := t.array.take nasize } nasize (t.array.drop nasize)
    else .ok cleared
  reinsertNodes hash newkey shrunk t.node.reverse

def rehash (t : HashTable) (ek : Value) : Except TableFailure HashTable :=
  let sizes := newSizes t ek
  resize hash newkey t sizes.1 sizes.2

/-- `newkey`; the parameter stands for its calls to itself, by way of `rehash` and `luaH_set`. -/
def newkeyStep (t : HashTable) (key : Value) : Except TableFailure (HashTable × Slot) :=
  let mp := mainposition hash t.lsizenode key
  if (t.gnode mp).value ≠ .nil ∨ t.dummynode = true then
    match getfreepos t.gnode t.lastfree with
    | none => do
        let grown ← rehash hash newkey t key
        luaHSet hash newkey grown key
    | some n =>
        let othern := mainposition hash t.lsizenode (t.gnode mp).key
        if othern ≠ mp then
          match search t.gnext (fun i => decide (t.gnext i = some mp)) t.sizenode othern with
          | none => .error .endless
          | some previous => .ok (({ t with lastfree := n }.moveAway mp n previous).settle mp key, .node mp)
        else .ok (({ t with lastfree := n }.chainBehind mp n).settle n key, .node n)
  else .ok (t.settle mp key, .node mp)

end Insertion

variable (hash : Value → Nat)

/-- `newkey`, which may call itself this often. -/
def newkey : Nat → HashTable → Value → Except TableFailure (HashTable × Slot)
  | 0 => fun _ _ => .error .endless
  | depth + 1 => newkeyStep hash (newkey depth)

/-- An assignment to a field: `luaH_set`, and the value stored through what it returns. -/
def assign (depth : Nat) (t : HashTable) (key value : Value) : Except TableFailure HashTable := do
  let (t, slot) ← luaHSet hash (newkey hash depth) t key
  .ok (t.store value slot)

def luaHNew (narray nhash : Nat) : Except TableFailure HashTable :=
  setnodevector (setarrayvector {} narray) nhash

def luaHResizearray (depth : Nat) (t : HashTable) (nasize : Nat) : Except TableFailure HashTable :=
  let nsize := if t.dummynode then 0 else t.sizenode
  resize hash (newkey hash depth) t nasize nsize

end GameServer.Lua
