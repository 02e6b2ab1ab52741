import GameServer.CString
import Mathlib.Logic.Function.Basic

namespace GameServer

/-! Hash tables that refer to the bytes of their keys where they lie in memory. -/

abbrev Memory := Nat → UInt8

namespace Memory

def read (memory : Memory) (address length : Nat) : Bytes :=
  (List.range length).map fun offset => memory (address + offset)

def write (memory : Memory) (address : Nat) (bytes : Bytes) : Memory := fun target =>
  if address ≤ target then bytes.getD (target - address) (memory target) else memory target

@[simp] theorem length_read (memory : Memory) (address length : Nat) :
    (memory.read address length).length = length := by
  simp [read]

@[simp] theorem read_write (memory : Memory) (address : Nat) (bytes : Bytes) :
    (memory.write address bytes).read address bytes.length = bytes := by
  apply List.ext_getElem (by simp)
  intro offset _ inside
  simp [read, write, inside]

end Memory

/-- What the keys of a table are, with the place each is read at and the value. -/
abbrev Contents (V : Type) := Bytes → Option (Nat × V)

/-- Every key a table refers to still has the bytes it was stored under. -/
def Intact (memory : Memory) (contents : Contents V) : Prop :=
  ∀ bytes key value, contents bytes = some (key, value) → memory.read key bytes.length = bytes

/-- `apr_hash.h`, as far as its documentation goes.  A key is a pointer and a length; the
table keeps the pointer it was given, or the one it has for an equal key.  Nothing is
promised once the bytes of a key have changed. -/
structure AprHash (V : Type) where
  Table : Type
  make : Table
  set : Table → Memory → Nat → Nat → Option V → Table
  get : Table → Memory → Nat → Nat → Option V
  Represents : Table → Contents V → Prop
  represents_make : Represents make fun _ => none
  get_eq : ∀ {table contents memory}, Represents table contents → Intact memory contents →
    ∀ key klen, get table memory key klen = (contents (memory.read key klen)).map Prod.snd
  represents_delete : ∀ {table contents memory}, Represents table contents → Intact memory contents →
    ∀ key klen, Represents (set table memory key klen none)
      (Function.update contents (memory.read key klen) none)
  represents_store : ∀ {table contents memory}, Represents table contents → Intact memory contents →
    ∀ key klen value, ∃ reference,
      (reference = key ∨ ∃ old, contents (memory.read key klen) = some (reference, old)) ∧
      Represents (set table memory key klen (some value))
        (Function.update contents (memory.read key klen) (some (reference, value)))

namespace AprHash

/-- A table that finds a key by its bytes when it was stored and compares it with the
bytes it has now. -/
def byReference (V : Type) : AprHash V where
  Table := Contents V
  make := fun _ => none
  set := fun table memory key klen value => Function.update table (memory.read key klen)
    (value.map fun value => (((table (memory.read key klen)).map Prod.fst).getD key, value))
  get := fun table memory key klen => do
    let (reference, value) ← table (memory.read key klen)
    if memory.read reference klen = memory.read key klen then some value else none
  Represents := Eq
  represents_make := rfl
  get_eq := by
    intro table contents memory represents intact key klen
    subst represents
    cases found : table (memory.read key klen) with
    | none => rfl
    | some entry =>
        have same := intact _ entry.1 entry.2 found
        rw [Memory.length_read] at same
        simp [same]
  represents_delete := by
    intro table contents memory represents _ key klen
    subst represents
    rfl
  represents_store := by
    intro table contents memory represents _ key klen value
    subst represents
    refine ⟨_, ?_, rfl⟩
    cases found : table (memory.read key klen) with
    | none => exact .inl rfl
    | some entry => exact .inr ⟨entry.2, rfl⟩

end AprHash

end GameServer
