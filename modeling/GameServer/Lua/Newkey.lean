import GameServer.Lua.HashTable
import Mathlib.Data.Finset.Card
import Mathlib.Order.Interval.Finset.Nat

namespace GameServer.Lua

open Chain

/-! `luaH_get` finds what is in a table, and `newkey` makes room for a key. -/

namespace HashTable

variable {t : HashTable} {i j index : Nat} {change : Node → Node} {value : Value}

@[simp] theorem modifyNode_array : (t.modifyNode i change).array = t.array := rfl
@[simp] theorem modifyNode_lsizenode : (t.modifyNode i change).lsizenode = t.lsizenode := rfl
@[simp] theorem modifyNode_sizenode : (t.modifyNode i change).sizenode = t.sizenode := rfl
@[simp] theorem modifyNode_dummynode : (t.modifyNode i change).dummynode = t.dummynode := rfl
@[simp] theorem modifyNode_lastfree : (t.modifyNode i change).lastfree = t.lastfree := rfl
@[simp] theorem modifyNode_length : (t.modifyNode i change).node.length = t.node.length :=
  List.length_modify ..

theorem gnode_modifyNode (inside : i < t.node.length) :
    (t.modifyNode i change).gnode j = if j = i then change (t.gnode i) else t.gnode j := by
  simp only [gnode, modifyNode, List.getD_eq_getElem?_getD, List.getElem?_modify]
  by_cases same : j = i
  · subst same
    simp [List.getElem?_eq_getElem inside]
  · have different : i ≠ j := fun equal => same equal.symm
    simp [same, different]

/-- The key is one of the array part. -/
def InArray (t : HashTable) (key : Value) : Prop :=
  0 < arrayindex key ∧ arrayindex key ≤ t.array.length

instance (t : HashTable) (key : Value) : Decidable (t.InArray key) :=
  inferInstanceAs (Decidable (_ ∧ _))

/-- The nodes that never had a key. -/
def room (t : HashTable) : Nat :=
  if t.dummynode then 0 else ((Finset.range t.sizenode).filter fun i => (t.gnode i).key = .nil).card

/-- The invariant of a table: that of its node vector, with nothing free behind `lastfree` and
no key that belongs into the array. -/
structure Valid (hash : Value → Nat) (t : HashTable) : Prop where
  length : t.node.length = t.sizenode
  scattered : Scattered (mainposition hash t.lsizenode) t.sizenode t.gnode
  shared : t.dummynode = true → t.lastfree = 0 ∧ ∀ i, t.gnode i = {}
  lastfree_le : t.lastfree ≤ t.sizenode
  used : t.dummynode = false → ∀ i < t.sizenode, t.lastfree ≤ i → (t.gnode i).key ≠ .nil
  outside : ∀ i, (t.gnode i).key ≠ .nil → ¬ t.InArray (t.gnode i).key
  keys : ∀ i, (t.gnode i).key ≠ .number .nan
  small : t.array.length ≤ maxAsize
  bits : t.lsizenode ≤ maxBits

end HashTable

section Find

variable {hash : Value → Nat} {t : HashTable} {key : Value} {i : Nat}

theorem findNode_eq_some_iff (valid : t.Valid hash) (notNil : key ≠ .nil) :
    findNode hash t key = some i ↔ (t.gnode i).key = key := by
  have bound : mainposition hash t.lsizenode key < t.sizenode := mainposition_lt hash t.lsizenode key
  obtain ⟨places, trail⟩ := valid.scattered.ends _ bound
  have enough := valid.scattered.trail_length bound trail
  by_cases present : ∃ j, (t.gnode j).key = key
  · obtain ⟨j, named⟩ := present
    have reached : j ∈ places := by
      apply valid.scattered.reached j places
      · rwa [named]
      · rwa [named]
    have only : ∀ place ∈ places, decide ((t.gnode place).key = key) = true → place = j := by
      intro place _ passed
      have same := of_decide_eq_true passed
      exact valid.scattered.distinct place j (by rwa [same]) (by rw [same, named])
    have found := (trail.search_eq_some_iff enough only).mpr ⟨reached, decide_eq_true named⟩
    unfold findNode
    constructor
    · intro other
      rw [show search t.gnext (fun i => decide ((t.gnode i).key = key)) t.sizenode
        (mainposition hash t.lsizenode key) = some j from found] at other
      rw [← Option.some.inj other]
      exact named
    · intro alike
      rw [valid.scattered.distinct i j (by rwa [alike]) (by rw [alike, named])]
      exact found
  · constructor
    · intro found
      unfold findNode at found
      rw [show search t.gnext _ t.sizenode _ = _ from trail.search_eq_find? _ enough] at found
      have passed := List.find?_some found
      exact of_decide_eq_true passed
    · intro named
      exact absurd ⟨i, named⟩ present

theorem luaHGet_of_inArray (inArray : t.InArray key) :
    luaHGet hash t key = some (.array (arrayindex key - 1).toNat) := by
  obtain ⟨low, high⟩ := inArray
  obtain ⟨n, rfl, whole, index⟩ := arrayindex_positive low
  rw [index] at low high ⊢
  simp only [luaHGet, if_pos whole, luaHGetnum]
  rw [if_pos ⟨by omega, high⟩]

theorem luaHGetnum_eq {index : Nat} (bound : index ≤ 2147483647) :
    luaHGetnum hash t (index : Int) = luaHGet hash t (.position index) := by
  simp only [Value.position, luaHGet, toInt_finite bound]
  rw [if_pos (by rw [Int.cast_natCast])]

theorem luaHGet_of_not_inArray (notNil : key ≠ .nil) (outside : ¬ t.InArray key) :
    luaHGet hash t key = (findNode hash t key).map .node := by
  cases key with
  | nil => exact absurd rfl notNil
  | number n =>
      by_cases whole : n = .finite n.toInt
      · have index : arrayindex (.number n) = n.toInt := if_pos whole
        have beyond : ¬ (1 ≤ n.toInt ∧ n.toInt ≤ t.array.length) := by
          intro inside
          apply outside
          rw [HashTable.InArray, index]
          exact ⟨by omega, inside.2⟩
        simp only [luaHGet, if_pos whole, luaHGetnum, if_neg beyond]
        rw [← whole]
      · simp only [luaHGet, if_neg whole]
  | _ => rfl

theorem luaHGet_eq_node_iff (valid : t.Valid hash) (notNil : key ≠ .nil) :
    luaHGet hash t key = some (.node i) ↔ (t.gnode i).key = key := by
  by_cases inArray : t.InArray key
  · rw [luaHGet_of_inArray inArray]
    constructor
    · intro same
      cases same
    · intro named
      have outside := valid.outside i (by rwa [named])
      rw [named] at outside
      exact absurd inArray outside
  · rw [luaHGet_of_not_inArray notNil inArray, ← findNode_eq_some_iff valid notNil]
    simp

theorem luaHGet_eq_array_iff (notNil : key ≠ .nil) :
    luaHGet hash t key = some (.array i) ↔ t.InArray key ∧ arrayindex key = i + 1 := by
  by_cases inArray : t.InArray key
  · rw [luaHGet_of_inArray inArray, Option.some.injEq, Slot.array.injEq]
    have positive := inArray.1
    constructor
    · intro same
      exact ⟨inArray, by omega⟩
    · intro same
      omega
  · rw [luaHGet_of_not_inArray notNil inArray]
    simp [inArray]

theorem luaHGet_eq_none_iff (valid : t.Valid hash) (notNil : key ≠ .nil) :
    luaHGet hash t key = none ↔ ¬ t.InArray key ∧ ∀ i, (t.gnode i).key ≠ key := by
  by_cases inArray : t.InArray key
  · simp [luaHGet_of_inArray inArray, inArray]
  · rw [luaHGet_of_not_inArray notNil inArray, Option.map_eq_none_iff]
    constructor
    · intro missing
      refine ⟨inArray, ?_⟩
      intro i named
      rw [(findNode_eq_some_iff valid notNil).mpr named] at missing
      cases missing
    · intro absent
      cases found : findNode hash t key with
      | none => rfl
      | some i => exact absurd ((findNode_eq_some_iff valid notNil).mp found) (absent.2 i)

/-- Two keys with one slot are the same. -/
theorem luaHGet_inj (valid : t.Valid hash) {other : Value} {slot : Slot} (notNil : key ≠ .nil)
    (otherNotNil : other ≠ .nil) (found : luaHGet hash t key = some slot)
    (otherFound : luaHGet hash t other = some slot) : key = other := by
  cases slot with
  | array index =>
      obtain ⟨inArray, here⟩ := (luaHGet_eq_array_iff notNil).mp found
      obtain ⟨otherInArray, there⟩ := (luaHGet_eq_array_iff otherNotNil).mp otherFound
      rw [number_of_arrayindex inArray.1, number_of_arrayindex otherInArray.1, here, there]
  | node index =>
      rw [← (luaHGet_eq_node_iff valid notNil).mp found,
        ← (luaHGet_eq_node_iff valid otherNotNil).mp otherFound]

theorem lookup_of_inArray (inArray : t.InArray key) :
    lookup hash t key = t.array.getD (arrayindex key - 1).toNat .nil := by
  simp [lookup, luaHGet_of_inArray inArray, HashTable.read]

theorem lookup_eq_iff_holds (valid : t.Valid hash) (notNil : key ≠ .nil) (outside : ¬ t.InArray key)
    {value : Value} (live : value ≠ .nil) : lookup hash t key = value ↔ Holds t.gnode key value := by
  have slots : luaHGet hash t key = (findNode hash t key).map .node :=
    luaHGet_of_not_inArray notNil outside
  constructor
  · intro found
    cases place : findNode hash t key with
    | none =>
        simp [lookup, slots, place] at found
        exact absurd found.symm live
    | some i =>
        simp only [lookup, slots, place, Option.map_some, Option.elim_some, HashTable.read] at found
        exact ⟨i, (findNode_eq_some_iff valid notNil).mp place, found⟩
  · intro held
    obtain ⟨i, named, valued⟩ := held
    have place := (findNode_eq_some_iff valid notNil).mpr named
    simp [lookup, slots, place, HashTable.read, valued]

end Find

/-! ## `newkey` -/

section Newkey

variable {hash : Value → Nat} {t t' : HashTable} {key : Value} {i n : Nat}

theorem getfreepos_eq_some {node : Nat → Node} {lastfree : Nat} (free : getfreepos node lastfree = some n) :
    n < lastfree ∧ (node n).key = .nil ∧ ∀ j, n < j → j < lastfree → (node j).key ≠ .nil := by
  induction lastfree with
  | zero => cases free
  | succ lastfree ih =>
      unfold getfreepos at free
      split at free
      case isTrue blank =>
        cases free
        exact ⟨by omega, blank, fun j above below => by omega⟩
      case isFalse taken =>
        obtain ⟨below, blank, others⟩ := ih free
        refine ⟨by omega, blank, ?_⟩
        intro j above inside
        by_cases last : j = lastfree
        · rwa [last]
        · exact others j above (by omega)

theorem getfreepos_eq_none {node : Nat → Node} {lastfree : Nat} (full : getfreepos node lastfree = none) :
    ∀ j < lastfree, (node j).key ≠ .nil := by
  induction lastfree with
  | zero => intro j inside; omega
  | succ lastfree ih =>
      unfold getfreepos at full
      split at full
      case isTrue blank => cases full
      case isFalse taken =>
        intro j inside
        by_cases last : j = lastfree
        · rwa [last]
        · exact ih full j (by omega)

theorem HashTable.Valid.room_eq_zero (valid : t.Valid hash) (full : getfreepos t.gnode t.lastfree = none) :
    t.room = 0 := by
  unfold HashTable.room
  cases shared : t.dummynode with
  | true => rfl
  | false =>
      simp only [Bool.false_eq_true, if_false, Finset.card_eq_zero, Finset.filter_eq_empty_iff, Finset.mem_range]
      intro j inside
      by_cases below : j < t.lastfree
      · exact getfreepos_eq_none full j below
      · exact valid.used shared j inside (Nat.le_of_not_lt below)

/-- One node got its first key. -/
theorem room_le_succ (own : t.dummynode = false) (own' : t'.dummynode = false)
    (size : t'.sizenode = t.sizenode)
    (kept : ∀ i, i ≠ n → (t.gnode i).key = .nil → (t'.gnode i).key = .nil) : t.room ≤ t'.room + 1 := by
  simp only [HashTable.room, own, own', size, Bool.false_eq_true, if_false]
  have within : ((Finset.range t.sizenode).filter fun i => (t.gnode i).key = .nil) ⊆
      insert n ((Finset.range t.sizenode).filter fun i => (t'.gnode i).key = .nil) := by
    intro i member
    rw [Finset.mem_filter] at member
    rw [Finset.mem_insert, Finset.mem_filter]
    by_cases same : i = n
    · exact .inl same
    · exact .inr ⟨member.1, kept i same member.2⟩
  exact (Finset.card_le_card within).trans (Finset.card_insert_le _ _)

/-- The table after `newkey` put `key` into node `i` without a rehash. -/
structure Opened (hash : Value → Nat) (t t' : HashTable) (key : Value) (i : Nat) : Prop where
  valid : t'.Valid hash
  array : t'.array = t.array
  named : (t'.gnode i).key = key
  vacant : (t'.gnode i).value = .nil
  holds : ∀ k v, k ≠ key → v ≠ .nil → (Holds t'.gnode k v ↔ Holds t.gnode k v)
  room : t.room ≤ t'.room + 1

/-- What the three ways to put a key into a node vector have in common. -/
theorem Opened.of_scattered (t' : HashTable) (valid : t.Valid hash) (validKey : ValidKey key) (outside : ¬ t.InArray key)
    (own : t.dummynode = false) (own' : t'.dummynode = false) (array : t'.array = t.array)
    (bits : t'.lsizenode = t.lsizenode) (length : t'.node.length = t.node.length)
    (lastfree : t'.lastfree ≤ t.lastfree) (between : ∀ j, t'.lastfree ≤ j → j < t.lastfree → (t'.gnode j).key ≠ .nil)
    (scattered : Scattered (mainposition hash t.lsizenode) t.sizenode t'.gnode)
    (named : (t'.gnode i).key = key) (vacant : (t'.gnode i).value = .nil)
    (keyed : ∀ j, (t.gnode j).key ≠ .nil → (t'.gnode j).key ≠ .nil)
    (from_ : ∀ j, (t'.gnode j).key = key ∨ ∃ j', (t.gnode j').key = (t'.gnode j).key)
    (kept : ∀ j, j ≠ n → (t.gnode j).key = .nil → (t'.gnode j).key = .nil)
    (holds : ∀ k v, k ≠ key → v ≠ .nil → (Holds t'.gnode k v ↔ Holds t.gnode k v)) :
    Opened hash t t' key i := by
  have size : t'.sizenode = t.sizenode := by rw [HashTable.sizenode, bits, HashTable.sizenode]
  have inArray : ∀ k, t'.InArray k ↔ t.InArray k := by
    intro k
    rw [HashTable.InArray, array, HashTable.InArray]
  refine { array, named, vacant, holds, room := room_le_succ own own' size kept, valid := ?_ }
  refine { length := by rw [length, size, valid.length], scattered := by rwa [bits, size], shared := ?_,
           lastfree_le := by rw [size]; exact lastfree.trans valid.lastfree_le, used := ?_, outside := ?_,
           keys := ?_, small := by rw [array]; exact valid.small, bits := by rw [bits]; exact valid.bits }
  · intro shared
    rw [own'] at shared
    cases shared
  · intro _ j inside above
    rw [size] at inside
    by_cases below : j < t.lastfree
    · exact between j above below
    · exact keyed j (valid.used own j inside (Nat.le_of_not_lt below))
  · intro j live
    rw [inArray]
    rcases from_ j with same | ⟨j', same⟩
    · rwa [same]
    · rw [← same] at live ⊢
      exact valid.outside j' live
  · intro j
    rcases from_ j with same | ⟨j', same⟩
    · rw [same]
      exact validKey.2
    · rw [← same]
      exact valid.keys j'

section Steps

variable {mp previous : Nat}

theorem gnode_settle (inside : mp < t.node.length) (j : Nat) :
    (t.settle mp key).gnode j = if j = mp then { t.gnode mp with key := key } else t.gnode j :=
  HashTable.gnode_modifyNode inside

theorem gnode_chainBehind (inside : mp < t.node.length) (free : n < t.node.length) (different : mp ≠ n) (j : Nat) :
    (t.chainBehind mp n).gnode j =
      if j = mp then { t.gnode mp with next := some n }
      else if j = n then { t.gnode n with next := t.gnext mp } else t.gnode j := by
  unfold HashTable.chainBehind
  simp only [HashTable.gnode_modifyNode, HashTable.modifyNode_length, inside, free]
  simp only [if_neg different]

theorem gnode_moveAway (inside : mp < t.node.length) (free : n < t.node.length)
    (linked : previous < t.node.length) (different : mp ≠ n) (away : previous ≠ mp) (j : Nat) :
    (t.moveAway mp n previous).gnode j =
      if j = mp then { t.gnode mp with next := none, value := .nil }
      else if j = n then t.gnode mp
      else if j = previous then { t.gnode previous with next := some n } else t.gnode j := by
  unfold HashTable.moveAway
  simp only [HashTable.gnode_modifyNode, HashTable.modifyNode_length, inside, free, linked]
  simp only [if_neg different, if_neg away.symm]

theorem opened_settle (valid : t.Valid hash) (validKey : ValidKey key) (absent : luaHGet hash t key = none)
    (own : t.dummynode = false) (main : mainposition hash t.lsizenode key = mp)
    (vacant : (t.gnode mp).value = .nil) : Opened hash t (t.settle mp key) key mp := by
  obtain ⟨outside, unnamed⟩ := (luaHGet_eq_none_iff valid validKey.1).mp absent
  have bound : mp < t.sizenode := main ▸ mainposition_lt hash t.lsizenode key
  have gnode := @gnode_settle t key mp (valid.length ▸ bound)
  have atMain : (t.settle mp key).gnode mp = { t.gnode mp with key := key } := by rw [gnode, if_pos rfl]
  have others : ∀ j, j ≠ mp → (t.settle mp key).gnode j = t.gnode j := fun j other => by rw [gnode, if_neg other]
  apply Opened.of_scattered (t.settle mp key) valid validKey outside own own rfl rfl HashTable.modifyNode_length
    (Nat.le_refl _)
    (fun j above below => absurd below (Nat.not_lt.mpr above))
    (valid.scattered.settle validKey.1 bound main unnamed atMain others) (by rw [atMain])
    (by rw [atMain]; exact vacant)
  · intro j live
    by_cases same : j = mp
    · rw [same, atMain]
      exact validKey.1
    · rwa [others j same]
  · intro j
    by_cases same : j = mp
    · exact .inl (by rw [same, atMain])
    · exact .inr ⟨j, by rw [others j same]⟩
  · intro j other blank
    rwa [others j other]
  · intro k v different live
    constructor
    · intro held
      obtain ⟨j, named, valued⟩ := held
      have other : j ≠ mp := by
        intro same
        rw [same, atMain] at named
        exact different named.symm
      rw [others j other] at named valued
      exact ⟨j, named, valued⟩
    · intro held
      obtain ⟨j, named, valued⟩ := held
      have other : j ≠ mp := by
        intro same
        rw [same, vacant] at valued
        exact live valued.symm
      refine ⟨j, ?_, ?_⟩ <;> rwa [others j other]

/-- What is known where the main position of a new key is taken and a node is free. -/
theorem taken_bounds (valid : t.Valid hash) (main : mainposition hash t.lsizenode key = mp)
    (taken : (t.gnode mp).value ≠ .nil) (found : getfreepos t.gnode t.lastfree = some n) :
    mp < t.node.length ∧ n < t.node.length ∧ mp ≠ n ∧ (t.gnode mp).key ≠ .nil ∧ t.gnode n = {} := by
  obtain ⟨below, free, -⟩ := getfreepos_eq_some found
  have bound : mp < t.sizenode := main ▸ mainposition_lt hash t.lsizenode key
  have occupied : (t.gnode mp).key ≠ .nil := by
    intro blank
    rw [valid.scattered.blank mp blank] at taken
    exact taken rfl
  have different : mp ≠ n := by
    intro same
    rw [same] at occupied
    exact occupied free
  rw [valid.length]
  exact ⟨bound, below.trans_le valid.lastfree_le, different, occupied, valid.scattered.blank n free⟩

theorem chained_chainBehind (valid : t.Valid hash) (validKey : ValidKey key)
    (main : mainposition hash t.lsizenode key = mp) (taken : (t.gnode mp).value ≠ .nil)
    (found : getfreepos t.gnode t.lastfree = some n) :
    Chained t.gnode (({ t with lastfree := n }.chainBehind mp n).settle n key).gnode key mp n := by
  obtain ⟨mpLength, nLength, different, occupied, free⟩ := taken_bounds valid main taken found
  have length : n < ({ t with lastfree := n }.chainBehind mp n).node.length := by
    simpa [HashTable.chainBehind] using nLength
  have chained := @gnode_chainBehind { t with lastfree := n } n mp mpLength nLength different
  refine { valid := validKey.1, occupied, free, atNew := ?_, atMain := ?_, others := ?_ }
  · rw [gnode_settle length, if_pos rfl, chained, if_neg different.symm, if_pos rfl]
    change { t.gnode n with next := t.gnext mp, key := key } = _
    rw [free]
    rfl
  · rw [gnode_settle length, if_neg different, chained, if_pos rfl]
    rfl
  · intro i notMain old
    rw [gnode_settle length, if_neg old, chained, if_neg notMain, if_neg old]
    rfl

theorem moved_moveAway (valid : t.Valid hash) (validKey : ValidKey key)
    (main : mainposition hash t.lsizenode key = mp) (taken : (t.gnode mp).value ≠ .nil)
    (found : getfreepos t.gnode t.lastfree = some n) (linked : t.gnext previous = some mp) :
    Moved t.gnode (({ t with lastfree := n }.moveAway mp n previous).settle mp key).gnode key mp n previous := by
  obtain ⟨mpLength, nLength, different, occupied, free⟩ := taken_bounds valid main taken found
  have previousLength : previous < t.node.length := valid.length ▸ valid.scattered.from_lt linked
  have notSelf : previous ≠ mp := by
    intro same
    rw [same] at linked
    exact valid.scattered.not_self mp linked
  have notFree : previous ≠ n := by
    intro same
    rw [same, HashTable.gnext, free] at linked
    cases linked
  have length : mp < ({ t with lastfree := n }.moveAway mp n previous).node.length := by
    simpa [HashTable.moveAway] using mpLength
  have moved := @gnode_moveAway { t with lastfree := n } n mp previous mpLength nLength previousLength
    different notSelf
  refine { valid := validKey.1, occupied, free, before := linked, atNew := ?_, atPrevious := ?_, atMain := ?_,
           others := ?_ }
  · rw [gnode_settle length, if_neg different.symm, moved, if_neg different.symm, if_pos rfl]
    rfl
  · rw [gnode_settle length, if_neg notSelf, moved, if_neg notSelf, if_neg notFree, if_pos rfl]
    rfl
  · rw [gnode_settle length, if_pos rfl, moved, if_pos rfl]
  · intro i notMain old notPrevious
    rw [gnode_settle length, if_neg notMain, moved, if_neg notMain, if_neg old, if_neg notPrevious]
    rfl

theorem opened_chain (valid : t.Valid hash) (validKey : ValidKey key) (absent : luaHGet hash t key = none)
    (own : t.dummynode = false) (main : mainposition hash t.lsizenode key = mp)
    (taken : (t.gnode mp).value ≠ .nil) (found : getfreepos t.gnode t.lastfree = some n)
    (atHome : mainposition hash t.lsizenode (t.gnode mp).key = mp) :
    Opened hash t (({ t with lastfree := n }.chainBehind mp n).settle n key) key n := by
  obtain ⟨outside, unnamed⟩ := (luaHGet_eq_none_iff valid validKey.1).mp absent
  obtain ⟨below, -, between⟩ := getfreepos_eq_some found
  have chained := chained_chainBehind valid validKey main taken found
  have inside : n < t.sizenode := below.trans_le valid.lastfree_le
  apply @Opened.of_scattered hash t key n n
    (HashTable.settle (HashTable.chainBehind { t with lastfree := n } mp n) n key) valid validKey outside own own
    rfl rfl _ below.le _ (chained.scatters valid.scattered inside main atHome unnamed) chained.newKey
    (by rw [chained.atNew]) (fun _ => chained.keyed) chained.origin _ fun _ _ => chained.holds
  · simp [HashTable.settle, HashTable.chainBehind]
  · intro j above inner
    by_cases new : j = n
    · rw [new, chained.newKey]
      exact validKey.1
    · have above : n ≤ j := above
      exact chained.keyed (between j (by omega) inner)
  · intro j old blank
    rwa [(chained.same old).1]

theorem opened_move (valid : t.Valid hash) (validKey : ValidKey key) (absent : luaHGet hash t key = none)
    (own : t.dummynode = false) (main : mainposition hash t.lsizenode key = mp)
    (taken : (t.gnode mp).value ≠ .nil) (found : getfreepos t.gnode t.lastfree = some n)
    (away : mainposition hash t.lsizenode (t.gnode mp).key ≠ mp) (linked : t.gnext previous = some mp) :
    Opened hash t (({ t with lastfree := n }.moveAway mp n previous).settle mp key) key mp := by
  obtain ⟨outside, unnamed⟩ := (luaHGet_eq_none_iff valid validKey.1).mp absent
  obtain ⟨below, -, between⟩ := getfreepos_eq_some found
  have moved := moved_moveAway valid validKey main taken found linked
  have inside : n < t.sizenode := below.trans_le valid.lastfree_le
  apply @Opened.of_scattered hash t key mp n
    (HashTable.settle (HashTable.moveAway { t with lastfree := n } mp n previous) mp key) valid validKey outside own own
    rfl rfl _ below.le _ (moved.scatters valid.scattered away inside main unnamed) moved.mainKey
    (by rw [moved.atMain]) (fun _ => moved.keyed) moved.origin _ fun _ _ => moved.holds
  · simp [HashTable.settle, HashTable.moveAway]
  · intro j above inner
    by_cases new : j = n
    · rw [new, moved.newKey]
      exact moved.occupied
    · have above : n ≤ j := above
      exact moved.keyed (between j (by omega) inner)
  · intro j old blank
    have notMain : j ≠ mp := by
      intro isMain
      rw [isMain] at blank
      exact moved.occupied blank
    rwa [(moved.same notMain old).1]

end Steps

/-- `newkey` has a place for the key, or no node is left and the table is rehashed. -/
theorem newkeyStep_cases (valid : t.Valid hash) (validKey : ValidKey key) (absent : luaHGet hash t key = none)
    (newkey : HashTable → Value → Except TableFailure (HashTable × Slot)) :
    (∃ t' i, newkeyStep hash newkey t key = .ok (t', .node i) ∧ Opened hash t t' key i) ∨
      (t.room = 0 ∧ newkeyStep hash newkey t key =
        (rehash hash newkey t key).bind fun grown => luaHSet hash newkey grown key) := by
  obtain ⟨mp, main⟩ : ∃ mp, mainposition hash t.lsizenode key = mp := ⟨_, rfl⟩
  have bound : mp < t.sizenode := main ▸ mainposition_lt hash t.lsizenode key
  unfold newkeyStep
  simp only [main]
  by_cases needed : (t.gnode mp).value ≠ .nil ∨ t.dummynode = true
  · rw [if_pos needed]
    cases found : getfreepos t.gnode t.lastfree with
    | none => exact .inr ⟨valid.room_eq_zero found, rfl⟩
    | some n =>
        have own : t.dummynode = false := by
          rw [Bool.eq_false_iff]
          intro shared
          have below := (getfreepos_eq_some found).1
          rw [(valid.shared shared).1] at below
          omega
        have taken : (t.gnode mp).value ≠ .nil := by
          rw [own] at needed
          simpa using needed
        have occupied : (t.gnode mp).key ≠ .nil := by
          intro blank
          rw [valid.scattered.blank mp blank] at taken
          exact taken rfl
        left
        dsimp only
        by_cases atHome : mainposition hash t.lsizenode (t.gnode mp).key = mp
        · refine ⟨_, n, ?_, opened_chain valid validKey absent own main taken found atHome⟩
          rw [if_neg (not_not.mpr atHome)]
        · have home := valid.scattered.home mp occupied
          obtain ⟨places, trail⟩ := valid.scattered.ends _ (valid.scattered.inside _ home.1)
          have reached := valid.scattered.reached mp places occupied trail
          obtain ⟨previous, member, linked⟩ := trail.exists_previous reached (Ne.symm atHome)
          have only : ∀ place ∈ places, decide (t.gnext place = some mp) = true → place = previous := by
            intro place _ passed
            exact valid.scattered.single place previous mp (of_decide_eq_true passed) linked
          have searched := (trail.search_eq_some_iff
            (valid.scattered.trail_length (valid.scattered.inside _ home.1) trail) only).mpr
            ⟨member, decide_eq_true linked⟩
          refine ⟨_, mp, ?_, opened_move valid validKey absent own main taken found atHome linked⟩
          rw [if_pos atHome]
          rw [show search t.gnext (fun i => decide (t.gnext i = some mp)) t.sizenode
            (mainposition hash t.lsizenode (t.gnode mp).key) = some previous from searched]
  · rw [if_neg needed]
    push Not at needed
    exact .inl ⟨_, mp, rfl, opened_settle valid validKey absent (Bool.eq_false_iff.mpr needed.2) main needed.1⟩

end Newkey

end GameServer.Lua
