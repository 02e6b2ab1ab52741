import GameServer.Lua.Newkey
import GameServer.Lua.Sizes

namespace GameServer.Lua

open Chain

/-! `rehash` moves the pairs of a table into parts of better sizes, and the table then has a
place for the new key. -/

variable {hash : Value → Nat} {t t' : HashTable} {key value : Value} {slot : Slot}

/-! ## Storing through a slot -/

theorem luaHGet_congr (length : t'.array.length = t.array.length) (bits : t'.lsizenode = t.lsizenode)
    (next : ∀ i, (t'.gnode i).next = (t.gnode i).next) (keys : ∀ i, (t'.gnode i).key = (t.gnode i).key)
    (key : Value) : luaHGet hash t' key = luaHGet hash t key := by
  have gnext : t'.gnext = t.gnext := funext next
  have nodes : ∀ key, findNode hash t' key = findNode hash t key := by
    intro key
    simp only [findNode, gnext, keys, bits, HashTable.sizenode]
  cases key <;> simp only [luaHGet, luaHGetnum, luaHGetstr, nodes, length]

theorem gnode_store_node {i : Nat} (inside : i < t.node.length) (j : Nat) :
    (t.store value (.node i)).gnode j = if j = i then { t.gnode i with value := value } else t.gnode j :=
  HashTable.gnode_modifyNode inside

theorem HashTable.length_store (t : HashTable) (value : Value) (slot : Slot) :
    (t.store value slot).array.length = t.array.length := by
  cases slot with
  | array i => exact List.length_set
  | node i => rfl

/-- A slot that `luaH_get` returned can be written without a change to any key. -/
structure Kept (t t' : HashTable) : Prop where
  length : t'.array.length = t.array.length
  bits : t'.lsizenode = t.lsizenode
  nodes : t'.node.length = t.node.length
  dummynode : t'.dummynode = t.dummynode
  lastfree : t'.lastfree = t.lastfree
  next : ∀ i, (t'.gnode i).next = (t.gnode i).next
  key : ∀ i, (t'.gnode i).key = (t.gnode i).key

theorem kept_store (valid : t.Valid hash) (notNil : key ≠ .nil) (found : luaHGet hash t key = some slot)
    (value : Value) : Kept t (t.store value slot) := by
  cases slot with
  | array i =>
      exact { length := HashTable.length_store .., bits := rfl, nodes := rfl, dummynode := rfl, lastfree := rfl,
              next := fun _ => rfl, key := fun _ => rfl }
  | node i =>
      have named := (luaHGet_eq_node_iff valid notNil).mp found
      have inside : i < t.node.length := by
        rw [valid.length]
        apply valid.scattered.inside
        rwa [named]
      refine { length := rfl, bits := rfl, nodes := HashTable.modifyNode_length, dummynode := rfl, lastfree := rfl,
               next := ?_, key := ?_ }
      · intro j
        rw [gnode_store_node inside]
        split
        case isTrue same => rw [same]
        case isFalse => rfl
      · intro j
        rw [gnode_store_node inside]
        split
        case isTrue same => rw [same]
        case isFalse => rfl

theorem Kept.room (kept : Kept t t') : t'.room = t.room := by
  simp only [HashTable.room, kept.dummynode, HashTable.sizenode, kept.bits, kept.key]

theorem Kept.valid (kept : Kept t t') (valid : t.Valid hash)
    (blank : ∀ i, (t.gnode i).key = .nil → (t'.gnode i).value = .nil) : t'.Valid hash := by
  have size : t'.sizenode = t.sizenode := by rw [HashTable.sizenode, kept.bits, HashTable.sizenode]
  have nexts : (fun i => (t'.gnode i).next) = fun i => (t.gnode i).next := funext kept.next
  have empty : ∀ i, (t.gnode i).key = .nil → t'.gnode i = {} := by
    intro i unnamed
    have vacant := blank i unnamed
    have before := valid.scattered.blank i unnamed
    have next := kept.next i
    have key := kept.key i
    rw [before] at next key
    cases node : t'.gnode i
    simp_all
  refine { length := by rw [kept.nodes, size, valid.length], scattered := ?_, shared := ?_,
           lastfree_le := by rw [kept.lastfree, size]; exact valid.lastfree_le, used := ?_, outside := ?_,
           keys := ?_, small := by rw [kept.length]; exact valid.small,
           bits := by rw [kept.bits]; exact valid.bits }
  · rw [kept.bits, size]
    have scattered := valid.scattered
    refine { ends := by rw [nexts]; exact scattered.ends, linked := ?_, single := ?_, blank := ?_, inside := ?_,
             distinct := ?_, reached := ?_, home := ?_ }
    · intro i j linked
      rw [kept.next] at linked
      rw [kept.key]
      exact scattered.linked i j linked
    · intro i j k left right
      rw [kept.next] at left right
      exact scattered.single i j k left right
    · intro i unnamed
      rw [kept.key] at unnamed
      exact empty i unnamed
    · intro i named
      rw [kept.key] at named
      exact scattered.inside i named
    · intro i j named alike
      rw [kept.key] at named alike
      rw [kept.key] at alike
      exact scattered.distinct i j named alike
    · intro i places named trail
      rw [nexts, kept.key] at trail
      rw [kept.key] at named
      exact scattered.reached i places named trail
    · intro i named
      rw [kept.key] at named ⊢
      rw [kept.key]
      exact scattered.home i named
  · intro shared
    rw [kept.dummynode] at shared
    obtain ⟨first, nodes⟩ := valid.shared shared
    refine ⟨kept.lastfree.trans first, ?_⟩
    intro i
    apply empty
    rw [nodes]
  · intro own i inside above
    rw [kept.dummynode] at own
    rw [size] at inside
    rw [kept.lastfree] at above
    rw [kept.key]
    exact valid.used own i inside above
  · intro i named
    rw [kept.key] at named ⊢
    rw [HashTable.InArray, kept.length]
    exact valid.outside i named
  · intro i
    rw [kept.key]
    exact valid.keys i

/-- The table after an assignment to `key`. -/
structure Assigned (hash : Value → Nat) (t t' : HashTable) (key value : Value) : Prop where
  valid : t'.Valid hash
  length : t'.array.length = t.array.length
  lookup : ∀ k, ValidKey k → lookup hash t' k = if k = key then value else lookup hash t k

theorem assigned_store (valid : t.Valid hash) (notNil : key ≠ .nil) (found : luaHGet hash t key = some slot)
    (value : Value) : Assigned hash t (t.store value slot) key value := by
  have kept := kept_store valid notNil found value
  have slots : ∀ k, luaHGet hash (t.store value slot) k = luaHGet hash t k :=
    luaHGet_congr kept.length kept.bits kept.next kept.key
  have read : ∀ other, (t.store value slot).read other = if other = slot then value else t.read other := by
    intro other
    cases slot with
    | array i =>
        have inside : i < t.array.length := by
          obtain ⟨inArray, here⟩ := (luaHGet_eq_array_iff notNil).mp found
          have upper := inArray.2
          omega
        cases other with
        | node j => rfl
        | array j =>
            simp only [HashTable.store, HashTable.read, List.getD_eq_getElem?_getD, List.getElem?_set, Slot.array.injEq]
            by_cases same : j = i
            · subst same
              simp [inside]
            · have different : i ≠ j := fun equal => same equal.symm
              simp [same, different]
    | node i =>
        have inside : i < t.node.length := by
          rw [valid.length]
          apply valid.scattered.inside
          rwa [(luaHGet_eq_node_iff valid notNil).mp found]
        cases other with
        | array j => rfl
        | node j =>
            simp only [HashTable.read, gnode_store_node inside, Slot.node.injEq]
            split <;> rfl
  refine { valid := kept.valid valid ?_, length := kept.length, lookup := ?_ }
  · intro i unnamed
    have vacant : (t.gnode i).value = .nil := by rw [valid.scattered.blank i unnamed]
    have other : Slot.node i ≠ slot := by
      intro same
      subst same
      exact notNil ((luaHGet_eq_node_iff valid notNil).mp found ▸ unnamed)
    have same := read (.node i)
    rw [if_neg other] at same
    exact same.trans vacant
  · intro k validKey
    simp only [lookup, slots]
    by_cases same : k = key
    · rw [if_pos same, same, found, Option.elim_some, read, if_pos rfl]
    · rw [if_neg same]
      cases place : luaHGet hash t k with
      | none => rfl
      | some other =>
          have different : other ≠ slot := by
            intro equal
            subst equal
            exact same (luaHGet_inj valid validKey.1 notNil place found)
          rw [Option.elim_some, Option.elim_some, read, if_neg different]

/-! ## The pairs of a table -/

section Pairs

theorem inArray_iff_below {entry : Value × Value} :
    t.InArray entry.1 ↔ Below t.array.length entry = true :=
  below_iff.symm

theorem validKey_position (index : Nat) : ValidKey (.position index) := by
  simp [ValidKey, Value.position]

theorem mem_nodePairs_gnode (live : value ≠ .nil) : (key, value) ∈ nodePairs t.node ↔ Holds t.gnode key value := by
  rw [mem_nodePairs_iff]
  constructor
  · intro found
    obtain ⟨n, member, same, -⟩ := found
    obtain ⟨i, inside, rfl⟩ := List.getElem_of_mem member
    cases same
    have here : t.gnode i = t.node[i] := by
      simp [HashTable.gnode, List.getD_eq_getElem?_getD, List.getElem?_eq_getElem inside]
    exact ⟨i, by rw [here], by rw [here]⟩
  · intro held
    obtain ⟨i, rfl, rfl⟩ := held
    have inside : i < t.node.length := by
      by_contra beyond
      simp [HashTable.gnode, List.getD_eq_getElem?_getD, List.getElem?_eq_none (Nat.le_of_not_lt beyond)] at live
    have here : t.gnode i = t.node[i] := by
      simp [HashTable.gnode, List.getD_eq_getElem?_getD, List.getElem?_eq_getElem inside]
    exact ⟨t.node[i], List.getElem_mem inside, by rw [here], by rwa [← here]⟩

theorem mem_arrayPairs_of_inArray (hash : Value → Nat) (small : t.array.length ≤ maxAsize) (live : value ≠ .nil) :
    (key, value) ∈ arrayPairs 0 t.array ↔ t.InArray key ∧ lookup hash t key = value := by
  rw [mem_arrayPairs_iff]
  have int : ∀ place, place < t.array.length → arrayindex (.position (0 + place + 1)) = (place + 1 : Nat) := by
    intro place inside
    simp only [maxAsize, maxBits] at small
    rw [arrayindex_position (by omega), Nat.zero_add]
  constructor
  · intro found
    obtain ⟨place, inside, same, -⟩ := found
    cases same
    have inArray : t.InArray (.position (0 + place + 1)) := by
      rw [HashTable.InArray, int place inside]
      omega
    refine ⟨inArray, ?_⟩
    rw [lookup_of_inArray inArray, int place inside, List.getD_eq_getElem?_getD,
      show (((place + 1 : Nat) : Int) - 1).toNat = place by omega, List.getElem?_eq_getElem inside, Option.getD_some]
  · intro found
    obtain ⟨inArray, here⟩ := found
    have number := number_of_arrayindex inArray.1
    obtain ⟨place, index⟩ : ∃ place : Nat, arrayindex key = (place + 1 : Nat) :=
      ⟨(arrayindex key - 1).toNat, by have positive := inArray.1; omega⟩
    have upper := inArray.2
    have inside : place < t.array.length := by omega
    rw [lookup_of_inArray inArray, index, List.getD_eq_getElem?_getD,
      show (((place + 1 : Nat) : Int) - 1).toNat = place by omega, List.getElem?_eq_getElem inside,
      Option.getD_some] at here
    refine ⟨place, inside, ?_, ?_⟩
    · rw [here, number, index, Nat.zero_add, Value.position, Int.cast_natCast]
    · rwa [here]

/-- The pairs of a table are the keys with a value. -/
theorem mem_pairs_iff (valid : t.Valid hash) :
    (key, value) ∈ t.pairs ↔ ValidKey key ∧ value ≠ .nil ∧ lookup hash t key = value := by
  by_cases live : value = .nil
  · subst live
    have noArray : (key, Value.nil) ∉ arrayPairs 0 t.array := by
      intro member
      obtain ⟨place, inside, same, occupied⟩ := mem_arrayPairs_iff.mp member
      rw [← (Prod.mk.inj same).2] at occupied
      exact occupied rfl
    have noNode : (key, Value.nil) ∉ nodePairs t.node := by
      intro member
      obtain ⟨n, -, same, occupied⟩ := mem_nodePairs_iff.mp member
      rw [← (Prod.mk.inj same).2] at occupied
      exact occupied rfl
    simp [HashTable.pairs, noArray, noNode]
  · rw [HashTable.pairs, List.mem_append, mem_arrayPairs_of_inArray hash valid.small live,
      mem_nodePairs_gnode live]
    constructor
    · intro found
      rcases found with ⟨inArray, here⟩ | held
      · refine ⟨?_, live, here⟩
        rw [number_of_arrayindex inArray.1]
        simp [ValidKey]
      · obtain ⟨i, named, valued⟩ := held
        have notNil : key ≠ .nil := by
          intro blank
          rw [blank] at named
          rw [valid.scattered.blank i named] at valued
          exact live valued.symm
        have notNan := valid.keys i
        have outside := valid.outside i
        rw [named] at notNan outside
        exact ⟨⟨notNil, notNan⟩, live, (lookup_eq_iff_holds valid notNil (outside notNil) live).mpr ⟨i, named, valued⟩⟩
    · intro found
      obtain ⟨validKey, -, here⟩ := found
      by_cases inArray : t.InArray key
      · exact .inl ⟨inArray, here⟩
      · exact .inr ((lookup_eq_iff_holds valid validKey.1 inArray live).mp here)

theorem arrayPairs_nodup (index : Nat) (array : List Value) : ((arrayPairs index array).map Prod.fst).Nodup := by
  induction array generalizing index with
  | nil => exact List.nodup_nil
  | cons first rest ih =>
      by_cases empty : first = .nil
      · simpa [arrayPairs, empty] using ih (index + 1)
      · simp only [arrayPairs, if_neg empty, List.map_cons]
        apply List.nodup_cons.mpr
        refine ⟨?_, ih (index + 1)⟩
        intro again
        obtain ⟨entry, member, same⟩ := List.mem_map.mp again
        obtain ⟨place, inside, rfl, occupied⟩ := mem_arrayPairs_iff.mp member
        have places := Value.position_injective same
        omega

theorem nodePairs_nodup {node : List Node}
    (distinct : node.Pairwise fun n other => n.value ≠ .nil → n.key ≠ other.key) :
    ((nodePairs node).map Prod.fst).Nodup := by
  induction node with
  | nil => exact List.nodup_nil
  | cons n rest ih =>
      rw [List.pairwise_cons] at distinct
      by_cases empty : n.value = .nil
      · simpa [nodePairs, empty] using ih distinct.2
      · simp only [nodePairs, if_neg empty, List.map_cons]
        apply List.nodup_cons.mpr
        refine ⟨?_, ih distinct.2⟩
        intro again
        obtain ⟨entry, member, same⟩ := List.mem_map.mp again
        obtain ⟨other, later, rfl, -⟩ := mem_nodePairs_iff.mp member
        exact distinct.1 other later empty same.symm

theorem pairs_nodup (valid : t.Valid hash) : (t.pairs.map Prod.fst).Nodup := by
  rw [HashTable.pairs, List.map_append, List.nodup_append]
  refine ⟨arrayPairs_nodup 0 t.array, nodePairs_nodup ?_, ?_⟩
  · rw [List.pairwise_iff_getElem]
    intro i j iInside jInside before live alike
    have here : ∀ k, ∀ inside : k < t.node.length, t.gnode k = t.node[k] := by
      intro k inside
      simp [HashTable.gnode, List.getD_eq_getElem?_getD, List.getElem?_eq_getElem inside]
    rw [← here i iInside] at live alike
    rw [← here j jInside] at alike
    have named : (t.gnode i).key ≠ .nil := by
      intro blank
      rw [valid.scattered.blank i blank] at live
      exact live rfl
    have met := valid.scattered.distinct i j named alike
    omega
  · intro key inFirst other inSecond same
    subst same
    obtain ⟨entry, member, rfl⟩ := List.mem_map.mp inFirst
    obtain ⟨second, secondMember, alike⟩ := List.mem_map.mp inSecond
    have live : entry.2 ≠ .nil := by
      obtain ⟨place, inside, rfl, occupied⟩ := mem_arrayPairs_iff.mp member
      exact occupied
    have inArray := ((mem_arrayPairs_of_inArray hash valid.small live).mp member).1
    obtain ⟨n, nMember, rfl, occupied⟩ := mem_nodePairs_iff.mp secondMember
    obtain ⟨i, named, valued⟩ := (mem_nodePairs_gnode occupied).mp secondMember
    have notNil : (t.gnode i).key ≠ .nil := by
      intro blank
      rw [valid.scattered.blank i blank] at valued
      exact occupied valued.symm
    have outside := valid.outside i notNil
    rw [named] at outside
    rw [← alike] at inArray
    exact outside inArray

end Pairs

/-! ## Re-insertion -/

/-- The table after `luaH_set` returned a slot for the key. -/
structure Placed (hash : Value → Nat) (t t' : HashTable) (key : Value) (slot : Slot) : Prop where
  valid : t'.Valid hash
  found : luaHGet hash t' key = some slot
  lookup : ∀ k, ValidKey k → lookup hash t' k = lookup hash t k

/-- It did so without a change to the array part. -/
structure Reserved (hash : Value → Nat) (t t' : HashTable) (key : Value) (slot : Slot) : Prop
    extends Placed hash t t' key slot where
  length : t'.array.length = t.array.length

theorem Opened.reserved {i : Nat} (valid : t.Valid hash) (validKey : ValidKey key)
    (absent : luaHGet hash t key = none) (opened : Opened hash t t' key i) :
    Reserved hash t t' key (.node i) := by
  have found := (luaHGet_eq_node_iff opened.valid validKey.1).mpr opened.named
  refine { valid := opened.valid, length := by rw [opened.array], found, lookup := ?_ }
  intro k validK
  by_cases same : k = key
  · subst same
    simp [lookup, found, absent, HashTable.read, opened.vacant]
  · by_cases inArray : t.InArray k
    · have inArray' : t'.InArray k := by rwa [HashTable.InArray, opened.array]
      rw [lookup_of_inArray inArray, lookup_of_inArray inArray', opened.array]
    · have inArray' : ¬ t'.InArray k := by rwa [HashTable.InArray, opened.array]
      by_cases live : lookup hash t k = .nil
      · rw [live]
        by_contra live'
        have held := (lookup_eq_iff_holds opened.valid validK.1 inArray' live').mp rfl
        exact live' (((lookup_eq_iff_holds valid validK.1 inArray live').mpr
          ((opened.holds k _ same live').mp held)).symm.trans live)
      · have held := (lookup_eq_iff_holds valid validK.1 inArray live).mp rfl
        exact (lookup_eq_iff_holds opened.valid validK.1 inArray' live).mpr ((opened.holds k _ same live).mpr held)

variable (newkey : HashTable → Value → Except TableFailure (HashTable × Slot))

/-- With a free node, or a key of the array part, `luaH_set` needs no rehash. -/
theorem luaHSet_of_room (valid : t.Valid hash) (validKey : ValidKey key) (room : t.InArray key ∨ 0 < t.room) :
    ∃ t' slot, luaHSet hash (newkeyStep hash newkey) t key = .ok (t', slot) ∧ Reserved hash t t' key slot ∧
      t.room ≤ t'.room + (if t.InArray key then 0 else 1) := by
  unfold luaHSet
  cases found : luaHGet hash t key with
  | some slot =>
      exact ⟨t, slot, rfl, ⟨⟨valid, found, fun _ _ => rfl⟩, rfl⟩, Nat.le_add_right _ _⟩
  | none =>
      have outside := ((luaHGet_eq_none_iff valid validKey.1).mp found).1
      dsimp only
      rw [if_neg validKey.1, if_neg validKey.2, if_neg outside]
      rcases newkeyStep_cases valid validKey found newkey with ⟨t', i, stepped, opened⟩ | ⟨full, -⟩
      · exact ⟨t', .node i, stepped, opened.reserved valid validKey found, opened.room⟩
      · have left := room.resolve_left outside
        omega

/-- An assignment by way of `luaH_set`. -/
def assignWith (hash : Value → Nat) (t : HashTable) (key value : Value) : Except TableFailure HashTable :=
  (luaHSet hash newkey t key).bind fun reserved => .ok (reserved.1.store value reserved.2)

theorem Reserved.assigned (reserved : Reserved hash t t' key slot) (validKey : ValidKey key) (value : Value) :
    Assigned hash t (t'.store value slot) key value := by
  have assigned := assigned_store reserved.valid validKey.1 reserved.found value
  refine { valid := assigned.valid, length := assigned.length.trans reserved.length, lookup := ?_ }
  intro k validK
  rw [assigned.lookup k validK, reserved.lookup k validK]

theorem assignWith_of_room (valid : t.Valid hash) (validKey : ValidKey key) (room : t.InArray key ∨ 0 < t.room)
    (value : Value) :
    ∃ t', assignWith (newkeyStep hash newkey) hash t key value = .ok t' ∧ Assigned hash t t' key value ∧
      t.room ≤ t'.room + (if t.InArray key then 0 else 1) := by
  obtain ⟨t', slot, done, reserved, less⟩ := luaHSet_of_room newkey valid validKey room
  refine ⟨t'.store value slot, ?_, reserved.assigned validKey value, ?_⟩
  · simp only [assignWith, done, Except.bind]
  · rwa [(kept_store reserved.valid validKey.1 reserved.found value).room]

/-- The assignments of some pairs, one after the other. -/
def reinsertPairs (hash : Value → Nat) : HashTable → List (Value × Value) → Except TableFailure HashTable
  | t, [] => .ok t
  | t, entry :: rest =>
      (assignWith newkey hash t entry.1 entry.2).bind fun t => reinsertPairs hash t rest

theorem reinsertPairs_append (t : HashTable) (front back : List (Value × Value)) :
    reinsertPairs newkey hash t (front ++ back) =
      (reinsertPairs newkey hash t front).bind fun t => reinsertPairs newkey hash t back := by
  induction front generalizing t with
  | nil => rfl
  | cons entry rest ih =>
      simp only [List.cons_append, reinsertPairs]
      cases assignWith newkey hash t entry.1 entry.2 with
      | error failure => rfl
      | ok t' => exact ih t'

theorem reinsertNodes_eq (t : HashTable) (node : List Node) :
    reinsertNodes hash newkey t node = reinsertPairs newkey hash t (nodePairs node) := by
  induction node generalizing t with
  | nil => rfl
  | cons n rest ih =>
      by_cases empty : n.value = .nil
      · simp [reinsertNodes, nodePairs, empty, ih]
      · simp only [reinsertNodes, nodePairs, if_neg empty, reinsertPairs, assignWith]
        cases luaHSet hash newkey t n.key with
        | error failure => rfl
        | ok reserved => exact ih _

theorem luaHSetnum_eq {index : Nat} (bound : index ≤ 2147483647) :
    luaHSetnum hash newkey t (index : Int) = luaHSet hash newkey t (.position index) := by
  have number : Value.number (.finite ((index : Int) : Rat)) = .position index := by
    rw [Int.cast_natCast, Value.position]
  have validKey := validKey_position index
  unfold luaHSetnum luaHSet
  rw [luaHGetnum_eq bound, number]
  cases luaHGet hash t (.position index) with
  | some slot => rfl
  | none =>
      dsimp only
      rw [if_neg validKey.1, if_neg validKey.2]

theorem reinsertArray_eq (t : HashTable) {index : Nat} {array : List Value}
    (bound : index + array.length ≤ 2147483647) :
    reinsertArray hash newkey t index array = reinsertPairs newkey hash t (arrayPairs index array) := by
  induction array generalizing t index with
  | nil => rfl
  | cons first rest ih =>
      rw [List.length_cons] at bound
      by_cases empty : first = .nil
      · simp only [reinsertArray, arrayPairs, if_pos empty]
        exact ih t (by omega)
      · simp only [reinsertArray, arrayPairs, if_neg empty, reinsertPairs, assignWith]
        rw [luaHSetnum_eq newkey (by omega : index + 1 ≤ 2147483647)]
        cases luaHSet hash newkey t (.position (index + 1)) with
        | error failure => rfl
        | ok reserved => exact ih _ (by omega)

theorem lookup_eq_some_iff {pairs : List (Value × Value)} (distinct : (pairs.map Prod.fst).Nodup) :
    pairs.lookup key = some value ↔ (key, value) ∈ pairs := by
  induction pairs with
  | nil => simp
  | cons entry rest ih =>
      obtain ⟨first, content⟩ := entry
      rw [List.map_cons, List.nodup_cons] at distinct
      by_cases same : key = first
      · subst same
        have later : (key, value) ∉ rest := fun member => distinct.1 (List.mem_map.mpr ⟨_, member, rfl⟩)
        simp [later, eq_comm]
      · rw [List.lookup_cons, beq_eq_false_iff_ne.mpr same, List.mem_cons]
        simp [ih distinct.2, same]

theorem lookup_perm {pairs others : List (Value × Value)} (distinct : (pairs.map Prod.fst).Nodup)
    (same : pairs.Perm others) (key : Value) : pairs.lookup key = others.lookup key := by
  have distinct' : (others.map Prod.fst).Nodup := (same.map Prod.fst).nodup_iff.mp distinct
  apply Option.ext
  intro value
  rw [lookup_eq_some_iff distinct, lookup_eq_some_iff distinct', same.mem_iff]

theorem lookup_eq_pairs (valid : t.Valid hash) (validKey : ValidKey key) :
    lookup hash t key = (t.pairs.lookup key).getD .nil := by
  have distinct := pairs_nodup valid
  cases found : t.pairs.lookup key with
  | some value =>
      have member := (lookup_eq_some_iff distinct).mp found
      exact ((mem_pairs_iff valid).mp member).2.2
  | none =>
      by_contra live
      have member := (mem_pairs_iff valid).mpr ⟨validKey, live, rfl⟩
      rw [(lookup_eq_some_iff distinct).mpr member] at found
      cases found

/-- Pairs are re-inserted one after the other, as long as there is a free node for each key
that is not of the array part. -/
theorem reinsertPairs_of_room {pairs : List (Value × Value)} (valid : t.Valid hash)
    (validKeys : ∀ entry ∈ pairs, ValidKey entry.1) (distinct : (pairs.map Prod.fst).Nodup)
    (room : pairs.countP (fun entry => !Below t.array.length entry) ≤ t.room) :
    ∃ t', reinsertPairs (newkeyStep hash newkey) hash t pairs = .ok t' ∧ t'.Valid hash ∧
      t'.array.length = t.array.length ∧
      (∀ k, ValidKey k → lookup hash t' k = (pairs.lookup k).getD (lookup hash t k)) ∧
      t.room ≤ t'.room + pairs.countP (fun entry => !Below t.array.length entry) := by
  induction pairs generalizing t with
  | nil => exact ⟨t, rfl, valid, rfl, fun _ _ => rfl, Nat.le_refl _⟩
  | cons entry rest ih =>
      rw [List.map_cons, List.nodup_cons] at distinct
      rw [List.countP_cons] at room
      have place : t.InArray entry.1 ∨ 0 < t.room := by
        by_cases inArray : t.InArray entry.1
        · exact .inl inArray
        · have beyond : Below t.array.length entry = false := by
            rw [Bool.eq_false_iff]
            exact fun below => inArray (inArray_iff_below.mpr below)
          simp only [beyond, Bool.not_false, if_true] at room
          exact .inr (by omega)
      have validKey := validKeys entry List.mem_cons_self
      obtain ⟨next, done, assigned, less⟩ := assignWith_of_room newkey valid validKey place entry.2
      have cost : (if t.InArray entry.1 then 0 else 1) = if (!Below t.array.length entry) = true then 1 else 0 := by
        by_cases inArray : t.InArray entry.1
        · simp [inArray, inArray_iff_below.mp inArray]
        · have beyond : Below t.array.length entry = false := by
            rw [Bool.eq_false_iff]
            exact fun below => inArray (inArray_iff_below.mpr below)
          simp [inArray, beyond]
      rw [cost] at less
      obtain ⟨t', finished, valid', length, contents, more⟩ := ih assigned.valid
        (fun other member => validKeys other (List.mem_cons_of_mem _ member)) distinct.2
        (by rw [assigned.length]; omega)
      rw [assigned.length] at length more
      refine ⟨t', ?_, valid', length, ?_, ?_⟩
      · simp only [reinsertPairs, done, Except.bind, finished]
      · intro k validK
        rw [contents k validK, assigned.lookup k validK]
        by_cases same : k = entry.1
        · have unlisted : rest.lookup k = none := by
            rw [List.lookup_eq_none_iff]
            intro other member
            rw [bne_iff_ne]
            intro equal
            apply distinct.1
            rw [← same, equal]
            exact List.mem_map_of_mem member
          have listed : (entry :: rest).lookup entry.1 = some entry.2 := List.lookup_cons_self
          rw [unlisted, if_pos same, same, listed]
          rfl
        · rw [if_neg same, List.lookup_cons, beq_eq_false_iff_ne.mpr same]
      · rw [List.countP_cons]
        omega

/-! ## New sizes -/

theorem scattered_blank {position : Value → Nat} {size : Nat} {node : Nat → Node} (blank : ∀ i, node i = {}) :
    Scattered position size node := by
  have noKey : ∀ i, (node i).key = .nil := fun i => by rw [blank]
  have noNext : ∀ i, (node i).next = none := fun i => by rw [blank]
  refine { ends := fun i _ => ⟨[i], .last (noNext i)⟩, linked := ?_, single := ?_, blank := fun i _ => blank i,
           inside := fun i named => absurd (noKey i) named, distinct := fun i _ named => absurd (noKey i) named,
           reached := fun i _ named => absurd (noKey i) named, home := fun i named => absurd (noKey i) named }
  · intro i j linked
    rw [noNext] at linked
    cases linked
  · intro i j k linked
    rw [noNext] at linked
    cases linked

/-- A new node vector has room for as many keys as it was asked for. -/
theorem setnodevector_cases (hash : Value → Nat) (small : t.array.length ≤ maxAsize) (size : Nat) :
    (maxBits < ceillog2 size ∧ setnodevector t size = .error (.runerror (lit "table overflow"))) ∨
      ∃ t', setnodevector t size = .ok t' ∧ t'.array = t.array ∧ t'.Valid hash ∧ (∀ i, t'.gnode i = {}) ∧
        size ≤ t'.room := by
  unfold setnodevector
  by_cases none : size = 0
  · rw [if_pos none]
    obtain ⟨t', made⟩ : ∃ t' : HashTable, t' = { t with node := [{}], lsizenode := 0, dummynode := true, lastfree := 0 } :=
      ⟨_, rfl⟩
    have blank : ∀ i, t'.gnode i = {} := by
      intro i
      rw [made]
      cases i <;> rfl
    have array : t'.array = t.array := by rw [made]
    rw [← made]
    refine .inr ⟨t', rfl, array, ?_, blank, by omega⟩
    exact { length := by rw [made]; rfl, scattered := scattered_blank blank,
            shared := fun _ => ⟨by rw [made], blank⟩, lastfree_le := by rw [made]; exact Nat.zero_le _,
            used := fun own => by simp [made] at own, outside := fun i named => absurd (by rw [blank]) named,
            keys := fun i => by simp [blank], small := by rwa [array],
            bits := by rw [made]; exact Nat.zero_le _ }
  · rw [if_neg none]
    by_cases overflow : maxBits < ceillog2 size
    · exact .inl ⟨overflow, if_pos overflow⟩
    · obtain ⟨t', made⟩ : ∃ t' : HashTable, t' =
          { t with
            node := List.replicate (2 ^ ceillog2 size) {}
            lsizenode := ceillog2 size
            dummynode := false
            lastfree := 2 ^ ceillog2 size } := ⟨_, rfl⟩
      have blank : ∀ i, t'.gnode i = {} := by
        intro i
        simp only [made, HashTable.gnode, List.getD_eq_getElem?_getD, List.getElem?_replicate]
        split <;> rfl
      have array : t'.array = t.array := by rw [made]
      have bits : t'.sizenode = 2 ^ ceillog2 size := by rw [made]; rfl
      dsimp only
      rw [if_neg overflow, ← made]
      refine .inr ⟨t', rfl, array, ?_, blank, ?_⟩
      · exact { length := by rw [made]; exact List.length_replicate, scattered := scattered_blank blank,
                shared := fun shared => by simp [made] at shared,
                lastfree_le := by rw [made]; exact Nat.le_refl _,
                used := fun _ i inside above => by
                  rw [bits] at inside
                  rw [made] at above
                  exact absurd inside (Nat.not_lt.mpr above),
                outside := fun i named => absurd (by rw [blank]) named, keys := fun i => by simp [blank],
                small := by rwa [array], bits := by rw [made]; exact Nat.le_of_not_lt overflow }
      · have own : t'.dummynode = false := by rw [made]
        have all : ((Finset.range t'.sizenode).filter fun i => (t'.gnode i).key = .nil) =
            Finset.range t'.sizenode := by
          apply Finset.filter_true_of_mem
          intro i _
          rw [blank]
        rw [HashTable.room, own, if_neg Bool.false_ne_true, all, Finset.card_range, bits]
        exact Nat.le_pow_clog Nat.one_lt_two size

theorem nodePairs_perm {node others : List Node} (same : node.Perm others) :
    (nodePairs node).Perm (nodePairs others) := by
  have listed : ∀ node : List Node, nodePairs node =
      node.filterMap fun n => if n.value = .nil then none else some (n.key, n.value) := by
    intro node
    induction node with
    | nil => rfl
    | cons n rest ih => by_cases empty : n.value = .nil <;> simp [nodePairs, empty, ih]
  rw [listed, listed]
  exact same.filterMap _

theorem length_nodePairs_le (node : List Node) : (nodePairs node).length ≤ node.length := by
  induction node with
  | nil => exact Nat.le_refl _
  | cons n rest ih =>
      by_cases empty : n.value = .nil <;> simp only [nodePairs, empty, if_true, if_false, List.length_cons] <;> omega

theorem nodePairs_blank (blank : ∀ i, t.gnode i = {}) : nodePairs t.node = [] := by
  rw [List.eq_nil_iff_forall_not_mem]
  intro entry member
  obtain ⟨n, -, same, live⟩ := mem_nodePairs_iff.mp member
  obtain ⟨i, -, valued⟩ := (mem_nodePairs_gnode (by rw [same]; exact live) : (entry.1, entry.2) ∈ _ ↔ _).mp member
  rw [blank, same] at valued
  exact live valued.symm

/-- What `resize` has to re-insert. -/
def moved (t : HashTable) (nasize : Nat) : List (Value × Value) :=
  arrayPairs nasize (t.array.drop nasize) ++ nodePairs t.node.reverse

theorem resize_eq (small : t.array.length ≤ maxAsize) (nasize nhsize : Nat) :
    resize hash newkey t nasize nhsize =
      (setnodevector (setarrayvector t nasize) nhsize).bind fun cleared =>
        reinsertPairs newkey hash cleared (moved t nasize) := by
  have int : t.array.length ≤ 2147483647 := small.trans (by decide)
  have commutes : ∀ array : List Value, setnodevector { t with array := array } nhsize =
      (setnodevector t nhsize).map fun cleared => { cleared with array := array } := by
    intro array
    unfold setnodevector
    split
    · rfl
    · dsimp only
      split <;> rfl
  have array : ∀ cleared, setnodevector t nhsize = .ok cleared → cleared.array = t.array := by
    intro cleared done
    unfold setnodevector at done
    split at done
    · cases done
      rfl
    · dsimp only at done
      split at done
      · cases done
      · cases done
        rfl
  rw [setarrayvector, commutes]
  unfold resize moved
  by_cases shrinks : nasize < t.array.length
  · have grows : ¬ t.array.length < nasize := by omega
    have none : nasize - t.array.length = 0 := by omega
    simp only [if_neg grows, if_pos shrinks, none, List.replicate_zero, List.append_nil]
    cases setnodevector t nhsize with
    | error failure => rfl
    | ok cleared =>
        have length : nasize + (t.array.drop nasize).length ≤ 2147483647 := by
          rw [List.length_drop]
          omega
        simp only [Except.map, bind, Except.bind, reinsertPairs_append]
        rw [reinsertArray_eq newkey _ length]
        cases reinsertPairs newkey hash { cleared with array := t.array.take nasize }
          (arrayPairs nasize (t.array.drop nasize)) with
        | error failure => rfl
        | ok shrunk => exact reinsertNodes_eq newkey shrunk _
  · have dropped : t.array.drop nasize = [] := List.drop_eq_nil_of_le (by omega)
    have kept : t.array.take nasize = t.array := List.take_of_length_le (by omega)
    simp only [if_neg shrinks, dropped, kept, arrayPairs, List.nil_append]
    by_cases grows : t.array.length < nasize
    · rw [if_pos grows]
      unfold setarrayvector
      rw [kept, commutes]
      cases setnodevector t nhsize with
      | error failure => rfl
      | ok cleared => exact reinsertNodes_eq newkey _ _
    · have none : nasize - t.array.length = 0 := by omega
      rw [if_neg grows, none, List.replicate_zero, List.append_nil]
      cases made : setnodevector t nhsize with
      | error failure => rfl
      | ok cleared =>
          have same : { cleared with array := t.array } = cleared := by rw [← array cleared made]
          simp only [Except.map, bind, Except.bind, same]
          exact reinsertNodes_eq newkey cleared _

/-- `resize` keeps the pairs, and leaves room for as many more keys as the hash part was made
larger than needed. -/
theorem resize_cases (valid : t.Valid hash) {nasize : Nat} (bound : nasize ≤ maxAsize) {nhsize : Nat}
    (fits : t.pairs.countP (fun entry => !Below nasize entry) ≤ nhsize) :
    (maxBits < ceillog2 nhsize ∧ resize hash (newkeyStep hash newkey) t nasize nhsize =
        .error (.runerror (lit "table overflow"))) ∨
      ∃ t', resize hash (newkeyStep hash newkey) t nasize nhsize = .ok t' ∧ t'.Valid hash ∧
        t'.array.length = nasize ∧ (∀ k, ValidKey k → lookup hash t' k = lookup hash t k) ∧
        nhsize ≤ t'.room + t.pairs.countP (fun entry => !Below nasize entry) := by
  have length : (setarrayvector t nasize).array.length = nasize := by
    simp only [setarrayvector, List.length_append, List.length_take, List.length_replicate]
    omega
  rw [resize_eq _ valid.small]
  rcases @setnodevector_cases (setarrayvector t nasize) hash (by rw [length]; exact bound) nhsize with
    ⟨overflow, failed⟩ | ⟨start, made, array, startValid, blank, room⟩
  · exact .inl ⟨overflow, by rw [failed]; rfl⟩
  · right
    have startLength : start.array.length = nasize := by rw [array, length]
    have startPairs : start.pairs = arrayPairs 0 (t.array.take nasize) := by
      rw [HashTable.pairs, nodePairs_blank blank, List.append_nil, array, setarrayvector, arrayPairs_append,
        arrayPairs_replicate, List.append_nil]
    have whole : (moved t nasize ++ start.pairs).Perm t.pairs := by
      have split : arrayPairs 0 t.array =
          arrayPairs 0 (t.array.take nasize) ++ arrayPairs nasize (t.array.drop nasize) := by
        by_cases shrinks : nasize < t.array.length
        · conv_lhs => rw [← List.take_append_drop nasize t.array]
          rw [arrayPairs_append, List.length_take, Nat.zero_add, Nat.min_eq_left shrinks.le]
        · rw [List.drop_eq_nil_of_le (by omega), List.take_of_length_le (by omega)]
          simp [arrayPairs]
      rw [startPairs, HashTable.pairs, split, moved]
      have nodes := nodePairs_perm (List.reverse_perm t.node)
      have swapped : (arrayPairs nasize (t.array.drop nasize) ++ nodePairs t.node.reverse ++
          arrayPairs 0 (t.array.take nasize)).Perm (arrayPairs 0 (t.array.take nasize) ++
            (arrayPairs nasize (t.array.drop nasize) ++ nodePairs t.node.reverse)) := List.perm_append_comm
      rw [List.append_assoc (arrayPairs 0 _)]
      exact swapped.trans (List.Perm.append_left _ (List.Perm.append_left _ nodes))
    have distinct : ((moved t nasize ++ start.pairs).map Prod.fst).Nodup :=
      (whole.map Prod.fst).nodup_iff.mpr (pairs_nodup valid)
    have validKeys : ∀ entry ∈ moved t nasize, ValidKey entry.1 := by
      intro entry member
      exact ((mem_pairs_iff valid).mp (whole.mem_iff.mp (List.mem_append_left _ member))).1
    have count : (moved t nasize).countP (fun entry => !Below nasize entry) ≤
        t.pairs.countP (fun entry => !Below nasize entry) := by
      rw [← whole.countP_eq, List.countP_append]
      exact Nat.le_add_right _ _
    have own : ((moved t nasize).map Prod.fst).Nodup := by
      rw [List.map_append, List.nodup_append] at distinct
      exact distinct.1
    obtain ⟨t', done, valid', length', contents, more⟩ := reinsertPairs_of_room newkey startValid validKeys own
      (by rw [startLength]; exact count.trans (fits.trans room))
    rw [startLength] at length' more
    refine ⟨t', ?_, valid', length', ?_, by omega⟩
    · rw [made]
      exact done
    · intro k validK
      rw [contents k validK, lookup_eq_pairs startValid validK, lookup_eq_pairs valid validK,
        ← lookup_perm distinct whole k, List.lookup_append]
      cases (moved t nasize).lookup k <;> rfl

theorem pairs_absent_nodup (valid : t.Valid hash) (absent : luaHGet hash t key = none) :
    ((t.pairs ++ [(key, Value.nil)]).map Prod.fst).Nodup := by
  rw [List.map_append, List.nodup_append]
  refine ⟨pairs_nodup valid, List.nodup_singleton _, ?_⟩
  intro old member new newMember same
  obtain ⟨entry, inside, rfl⟩ := List.mem_map.mp member
  have live := (mem_pairs_iff valid).mp inside
  have here : entry.1 = key := same.trans (List.mem_singleton.mp newMember)
  rw [here] at live
  exact live.2.1 (by rw [← live.2.2, lookup, absent]; rfl)

theorem rehash_cases (valid : t.Valid hash) (absent : luaHGet hash t key = none) :
    (maxAsize ≤ t.pairs.length ∧ rehash hash (newkeyStep hash newkey) t key =
        .error (.runerror (lit "table overflow"))) ∨
      ∃ t', rehash hash (newkeyStep hash newkey) t key = .ok t' ∧ t'.Valid hash ∧
        (∀ k, ValidKey k → lookup hash t' k = lookup hash t k) ∧ (t'.InArray key ∨ 0 < t'.room) := by
  have distinct := pairs_absent_nodup valid absent
  obtain ⟨na, best, hashSize⟩ := newSizes_best valid.small distinct
  have bound : (newSizes t key).1 ≤ maxAsize := by
    rcases best.power with none | ⟨bits, inside, same⟩
    · rw [none]
      exact Nat.zero_le _
    · rw [same]
      exact Nat.pow_le_pow_right (by omega) (by omega)
  rw [List.countP_append, List.countP_singleton] at hashSize
  rcases @resize_cases hash t newkey valid _ bound (newSizes t key).2 (by rw [hashSize]; exact Nat.le_add_right _ _)
    with ⟨overflow, failed⟩ | ⟨t', done, valid', length, contents, room⟩
  · left
    refine ⟨?_, failed⟩
    have large : 2 ^ maxBits < (newSizes t key).2 := (Nat.lt_clog_iff_pow_lt Nat.one_lt_two).mp overflow
    have most := @List.countP_le_length _ (fun entry : Value × Value => !Below (newSizes t key).1 entry) t.pairs
    have one : (if (!Below (newSizes t key).1 (key, Value.nil)) = true then 1 else 0) ≤ 1 := by split <;> omega
    rw [maxAsize]
    omega
  · refine .inr ⟨t', done, valid', contents, ?_⟩
    by_cases below : Below (newSizes t key).1 (key, Value.nil) = true
    · left
      rw [← length] at below
      exact inArray_iff_below.mpr below
    · right
      have beyond : Below (newSizes t key).1 (key, Value.nil) = false := Bool.eq_false_iff.mpr below
      rw [beyond] at hashSize
      simp only [Bool.not_false, if_true] at hashSize
      omega

/-- `newkey` finds a place for the key, and never rehashes a table while it rehashes one. -/
theorem newkey_cases (depth : Nat) (valid : t.Valid hash) (validKey : ValidKey key)
    (absent : luaHGet hash t key = none) :
    (maxAsize ≤ t.pairs.length ∧ Lua.newkey hash (depth + 2) t key = .error (.runerror (lit "table overflow"))) ∨
      ∃ t' slot, Lua.newkey hash (depth + 2) t key = .ok (t', slot) ∧ Placed hash t t' key slot := by
  change (_ ∧ newkeyStep hash (newkeyStep hash (Lua.newkey hash depth)) t key = _) ∨
    ∃ t' slot, newkeyStep hash (newkeyStep hash (Lua.newkey hash depth)) t key = _ ∧ _
  rcases newkeyStep_cases valid validKey absent (newkeyStep hash (Lua.newkey hash depth)) with
    ⟨t', i, stepped, opened⟩ | ⟨-, stepped⟩
  · exact .inr ⟨t', .node i, stepped, (opened.reserved valid validKey absent).toPlaced⟩
  · rw [stepped]
    rcases rehash_cases (Lua.newkey hash depth) valid absent with
      ⟨large, failed⟩ | ⟨grown, done, grownValid, contents, room⟩
    · exact .inl ⟨large, by rw [failed]; rfl⟩
    · obtain ⟨t', slot, set, reserved, -⟩ := luaHSet_of_room (Lua.newkey hash depth) grownValid validKey room
      refine .inr ⟨t', slot, by rw [done]; exact set, ?_⟩
      refine { valid := reserved.valid, found := reserved.found, lookup := ?_ }
      intro k validK
      rw [reserved.lookup k validK, contents k validK]

end GameServer.Lua
