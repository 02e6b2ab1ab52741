import GameServer.Lua.Reachable

namespace GameServer.Lua

open Chain

/-! `luaH_next`: the traversal of a table by the index of its keys. -/

section Source

variable (hash : Value → Nat) (t : HashTable)

/-- `findindex`, one higher than in the source: 0 stands before the first element. -/
def findindex (key : Value) : Except TableFailure Nat :=
  if key = .nil then .ok 0
  else
    let i := arrayindex key
    if 0 < i ∧ i ≤ t.array.length then .ok i.toNat
    else
      match findNode hash t key with
      | some n => .ok (n + t.array.length + 1)
      | none => .error (.runerror (lit "invalid key to 'next'"))

/-- The first element of the array part from place `i` on. -/
def nextInArray : (i : Nat) → List Value → Option (Value × Value)
  | _, [] => none
  | i, value :: rest => if value ≠ .nil then some (.position (i + 1), value) else nextInArray (i + 1) rest

def nextInHash : List Node → Option (Value × Value)
  | [] => none
  | n :: rest => if n.value ≠ .nil then some (n.key, n.value) else nextInHash rest

def luaHNext (key : Value) : Except TableFailure (Option (Value × Value)) := do
  let i ← findindex hash t key
  match nextInArray i (t.array.drop i) with
  | some entry => .ok (some entry)
  | none => .ok (nextInHash (t.node.drop (i - t.array.length)))

end Source

variable {hash : Value → Nat} {t t' : HashTable} {key value : Value}

theorem nextInArray_eq (i : Nat) (array : List Value) : nextInArray i array = (arrayPairs i array).head? := by
  induction array generalizing i with
  | nil => rfl
  | cons first rest ih => by_cases empty : first = .nil <;> simp [nextInArray, arrayPairs, empty, ih]

theorem nextInHash_eq (node : List Node) : nextInHash node = (nodePairs node).head? := by
  induction node with
  | nil => rfl
  | cons n rest ih => by_cases empty : n.value = .nil <;> simp [nextInHash, nodePairs, empty, ih]

/-- The pairs from index `i` on. -/
def pairsFrom (t : HashTable) (i : Nat) : List (Value × Value) :=
  arrayPairs i (t.array.drop i) ++ nodePairs (t.node.drop (i - t.array.length))

theorem luaHNext_of_findindex {i : Nat} (found : findindex hash t key = .ok i) :
    luaHNext hash t key = .ok (pairsFrom t i).head? := by
  simp only [luaHNext, found, pairsFrom, nextInArray_eq, nextInHash_eq, List.head?_append, bind, Except.bind]
  cases (arrayPairs i (t.array.drop i)).head? <;> rfl

theorem pairsFrom_zero : pairsFrom t 0 = t.pairs := by
  simp [pairsFrom, HashTable.pairs]

/-- The place of a slot in the traversal, counted from 1. -/
def Slot.place (t : HashTable) : Slot → Nat
  | .array i => i + 1
  | .node i => i + t.array.length + 1

theorem findindex_of_slot {slot : Slot} (notNil : key ≠ .nil) (found : luaHGet hash t key = some slot) :
    findindex hash t key = .ok (slot.place t) := by
  unfold findindex
  rw [if_neg notNil]
  dsimp only
  by_cases inArray : t.InArray key
  · have inside : 0 < arrayindex key ∧ arrayindex key ≤ t.array.length := inArray
    rw [if_pos inside]
    rw [luaHGet_of_inArray inArray] at found
    cases found
    have positive := inArray.1
    simp only [Slot.place]
    congr 1
    omega
  · have beyond : ¬ (0 < arrayindex key ∧ arrayindex key ≤ t.array.length) := inArray
    rw [if_neg beyond]
    rw [luaHGet_of_not_inArray notNil inArray] at found
    cases place : findNode hash t key with
    | none => simp [place] at found
    | some n =>
        rw [place] at found
        cases found
        rfl

theorem findindex_unknown (notNil : key ≠ .nil) (absent : luaHGet hash t key = none) :
    findindex hash t key = .error (.runerror (lit "invalid key to 'next'")) := by
  unfold findindex
  rw [if_neg notNil]
  dsimp only
  by_cases inArray : t.InArray key
  · rw [luaHGet_of_inArray inArray] at absent
    cases absent
  · have beyond : ¬ (0 < arrayindex key ∧ arrayindex key ≤ t.array.length) := inArray
    rw [if_neg beyond]
    rw [luaHGet_of_not_inArray notNil inArray, Option.map_eq_none_iff] at absent
    rw [absent]

/-- The pairs from the place of a slot on are the pair of that slot and those behind it. -/
theorem pairsFrom_slot (valid : t.Valid hash) (notNil : key ≠ .nil) {slot : Slot}
    (found : luaHGet hash t key = some slot) {i : Nat} (place : slot.place t = i + 1) :
    pairsFrom t i = if t.read slot = .nil then pairsFrom t (i + 1) else (key, t.read slot) :: pairsFrom t (i + 1) := by
  cases slot with
  | array index =>
      obtain ⟨inArray, here⟩ := (luaHGet_eq_array_iff notNil).mp found
      simp only [Slot.place, Nat.add_right_cancel_iff] at place
      subst place
      have inside : index < t.array.length := by
        have upper := inArray.2
        omega
      have number : key = .position (index + 1) := by
        rw [number_of_arrayindex inArray.1, here, Value.position]
        push_cast
        rfl
      have read : t.read (.array index) = t.array[index] := by
        simp [HashTable.read, List.getD_eq_getElem?_getD, List.getElem?_eq_getElem inside]
      have first : index - t.array.length = 0 := by omega
      have second : index + 1 - t.array.length = 0 := by omega
      simp only [pairsFrom, first, second, List.drop_zero]
      rw [List.drop_eq_getElem_cons inside, read, number]
      by_cases empty : t.array[index] = .nil <;> simp [arrayPairs, empty]
  | node index =>
      have named := (luaHGet_eq_node_iff valid notNil).mp found
      simp only [Slot.place] at place
      have inside : index < t.node.length := by
        rw [valid.length]
        apply valid.scattered.inside
        rwa [named]
      have here : t.gnode index = t.node[index] := by
        simp [HashTable.gnode, List.getD_eq_getElem?_getD, List.getElem?_eq_getElem inside]
      have beyond : t.array.drop i = [] := List.drop_eq_nil_of_le (by omega)
      have behind : t.array.drop (i + 1) = [] := List.drop_eq_nil_of_le (by omega)
      have first : i - t.array.length = index := by omega
      have second : i + 1 - t.array.length = index + 1 := by omega
      simp only [pairsFrom, beyond, behind, first, second, arrayPairs, List.nil_append, HashTable.read]
      rw [List.drop_eq_getElem_cons inside, here]
      rw [here] at named
      by_cases empty : t.node[index].value = .nil <;> simp [nodePairs, empty, named]

/-- The table that the scripts see. -/
def HashTable.toTable (t : HashTable) (valid : t.Valid hash) : Table where
  entries := t.pairs
  distinct := pairs_nodup valid
  valid := fun _ member => ((mem_pairs_iff valid).mp member).1
  live := fun _ member => ((mem_pairs_iff valid).mp member).2.1

theorem get_toTable (valid : t.Valid hash) (validKey : ValidKey key) :
    (t.toTable valid).get key = lookup hash t key :=
  (lookup_eq_pairs valid validKey).symm

/-- An assignment to a field does to the table of the scripts what it should, or fails: with a
nil or NaN index, or where the hash part would need more than `2 ^ MAXBITS` nodes. -/
theorem reachable_assign (reachable : t.Reachable hash) (depth : Nat) (key value : Value) :
    (∃ validKey : ValidKey key, ∃ t', ∃ reachable' : t'.Reachable hash,
        assign hash (depth + 2) t key value = .ok t' ∧
          ∀ k, ValidKey k → (t'.toTable reachable'.valid).get k =
            ((t.toTable reachable.valid).set key value validKey).get k) ∨
      (ValidKey key ∧ maxAsize ≤ t.pairs.length ∧
        assign hash (depth + 2) t key value = .error (.runerror (lit "table overflow"))) ∨
      (key = .nil ∧ assign hash (depth + 2) t key value = .error (.runerror (lit "table index is nil"))) ∨
      (key = .number .nan ∧ assign hash (depth + 2) t key value = .error (.runerror (lit "table index is NaN"))) := by
  have valid := reachable.valid
  by_cases validKey : ValidKey key
  · rcases assign_cases depth valid validKey value with ⟨large, failed⟩ | ⟨t', done, valid', contents⟩
    · exact .inr (.inl ⟨validKey, large, failed⟩)
    · refine .inl ⟨validKey, t', .assigned reachable done, done, ?_⟩
      intro k validK
      rw [get_toTable _ validK, Table.get_set, get_toTable _ validK, contents k validK]
  · right
    right
    exact assign_invalid (depth + 2) valid validKey value

theorem reachable_assign_strings :
    (∃ validKey : ValidKey (.position 1), ∃ t', ∃ reachable' : t'.Reachable fun _ => 1,
        assign (fun _ => 1) 2 collidingStrings (.position 1) (.boolean true) = .ok t' ∧
          ∀ k, ValidKey k → (t'.toTable reachable'.valid).get k =
            ((collidingStrings.toTable reachable_collidingStrings.valid).set (.position 1) (.boolean true) validKey).get k) ∨
      (ValidKey (.position 1) ∧ maxAsize ≤ collidingStrings.pairs.length ∧
        assign (fun _ => 1) 2 collidingStrings (.position 1) (.boolean true) =
          .error (.runerror (lit "table overflow"))) ∨
      (Value.position 1 = .nil ∧ assign (fun _ => 1) 2 collidingStrings (.position 1) (.boolean true) =
        .error (.runerror (lit "table index is nil"))) ∨
      (Value.position 1 = .number .nan ∧ assign (fun _ => 1) 2 collidingStrings (.position 1) (.boolean true) =
        .error (.runerror (lit "table index is NaN"))) :=
  reachable_assign reachable_collidingStrings 0 (.position 1) (.boolean true)

theorem nodePairs_append (front back : List Node) : nodePairs (front ++ back) = nodePairs front ++ nodePairs back := by
  induction front with
  | nil => rfl
  | cons n rest ih => by_cases empty : n.value = .nil <;> simp [nodePairs, empty, ih]

/-- The pairs up to index `i` and those from there on. -/
theorem pairs_split (t : HashTable) (i : Nat) :
    t.pairs = arrayPairs 0 (t.array.take i) ++ nodePairs (t.node.take (i - t.array.length)) ++ pairsFrom t i := by
  unfold HashTable.pairs pairsFrom
  by_cases inArray : i ≤ t.array.length
  · have none : i - t.array.length = 0 := by omega
    conv_lhs => rw [← List.take_append_drop i t.array]
    rw [arrayPairs_append, List.length_take, Nat.zero_add, Nat.min_eq_left inArray, none]
    simp [nodePairs]
  · rw [List.drop_eq_nil_of_le (by omega), List.take_of_length_le (by omega)]
    conv_lhs => rw [← List.take_append_drop (i - t.array.length) t.node]
    rw [nodePairs_append]
    simp [arrayPairs]

/-- From a key with a value `luaH_next` goes on as the table of the scripts does. -/
theorem luaHNext_eq_next (valid : t.Valid hash) (present : key = .nil ∨ lookup hash t key ≠ .nil) :
    ∃ following, luaHNext hash t key = .ok following ∧ (t.toTable valid).next key = some following := by
  by_cases isNil : key = .nil
  · subst isNil
    refine ⟨_, luaHNext_of_findindex rfl, ?_⟩
    rw [pairsFrom_zero, Table.next_nil]
    rfl
  · have live := present.resolve_left isNil
    cases found : luaHGet hash t key with
    | none => exact absurd (by rw [lookup, found]; rfl) live
    | some slot =>
        refine ⟨_, luaHNext_of_findindex (findindex_of_slot isNil found), ?_⟩
        obtain ⟨i, place⟩ : ∃ i, slot.place t = i + 1 := by cases slot <;> exact ⟨_, rfl⟩
        have here : t.read slot = lookup hash t key := by rw [lookup, found]; rfl
        have split := pairs_split t i
        rw [pairsFrom_slot valid isNil found place, if_neg (by rw [here]; exact live)] at split
        rw [place]
        exact Table.next_of_append split

/-! ## Traversals that change the values they meet -/

section Scan

theorem nextInArray_cases (i : Nat) (array : List Value) :
    (∃ place, ∃ inside : place < array.length, nextInArray i array = some (.position (i + place + 1), array[place]) ∧
        array[place] ≠ .nil ∧ ∀ earlier < place, array.getD earlier .nil = .nil) ∨
      (nextInArray i array = none ∧ ∀ place, array.getD place .nil = .nil) := by
  induction array generalizing i with
  | nil => exact .inr ⟨rfl, fun place => rfl⟩
  | cons first rest ih =>
      by_cases empty : first = .nil
      · have skip : nextInArray i (first :: rest) = nextInArray (i + 1) rest := by simp [nextInArray, empty]
        rw [skip]
        rcases ih (i + 1) with ⟨place, inside, found, live, before⟩ | ⟨none, all⟩
        · refine .inl ⟨place + 1, by simpa using inside, ?_, live, ?_⟩
          · rw [found, show i + 1 + place + 1 = i + (place + 1) + 1 by omega]
            rfl
          · intro earlier sooner
            cases earlier with
            | zero => exact empty
            | succ earlier => exact before earlier (by omega)
        · refine .inr ⟨none, ?_⟩
          intro place
          cases place with
          | zero => exact empty
          | succ place => exact all place
      · exact .inl ⟨0, by simp, by simp [nextInArray, empty], empty, fun _ sooner => absurd sooner (Nat.not_lt_zero _)⟩

theorem nextInHash_cases (node : List Node) :
    (∃ place, ∃ inside : place < node.length, nextInHash node = some (node[place].key, node[place].value) ∧
        node[place].value ≠ .nil ∧ ∀ earlier < place, (node.getD earlier {}).value = .nil) ∨
      (nextInHash node = none ∧ ∀ place, (node.getD place {}).value = .nil) := by
  induction node with
  | nil => exact .inr ⟨rfl, fun place => rfl⟩
  | cons first rest ih =>
      by_cases empty : first.value = .nil
      · have skip : nextInHash (first :: rest) = nextInHash rest := by simp [nextInHash, empty]
        rw [skip]
        rcases ih with ⟨place, inside, found, live, before⟩ | ⟨none, all⟩
        · refine .inl ⟨place + 1, by simpa using inside, found, live, ?_⟩
          intro earlier sooner
          cases earlier with
          | zero => exact empty
          | succ earlier => exact before earlier (by omega)
        · refine .inr ⟨none, ?_⟩
          intro place
          cases place with
          | zero => exact empty
          | succ place => exact all place
      · exact .inl ⟨0, by simp, by simp [nextInHash, empty], empty, fun _ sooner => absurd sooner (Nat.not_lt_zero _)⟩

/-- From index `i` on, `luaH_next` finds the first slot with a value, with its key. -/
theorem luaHNext_cases (valid : t.Valid hash) {i : Nat} (from_ : findindex hash t key = .ok i) :
    (∃ k v slot, luaHNext hash t key = .ok (some (k, v)) ∧ ValidKey k ∧ luaHGet hash t k = some slot ∧
        t.read slot = v ∧ v ≠ .nil ∧ i < slot.place t ∧
        ∀ other, i < other.place t → other.place t < slot.place t → t.read other = .nil) ∨
      (luaHNext hash t key = .ok none ∧ ∀ other, i < other.place t → t.read other = .nil) := by
  have gnode : ∀ j, t.gnode j = t.node.getD j {} := fun _ => rfl
  have readArray : ∀ j, t.read (.array (i + j)) = (t.array.drop i).getD j .nil := by
    intro j
    simp [HashTable.read, List.getD_eq_getElem?_getD]
  have readNode : ∀ j, t.read (.node (i - t.array.length + j)) = ((t.node.drop (i - t.array.length)).getD j {}).value := by
    intro j
    simp [HashTable.read, gnode, List.getD_eq_getElem?_getD]
  simp only [luaHNext, from_, bind, Except.bind]
  rcases nextInArray_cases i (t.array.drop i) with ⟨place, inside, found, live, before⟩ | ⟨none, empty⟩
  · left
    rw [List.length_drop] at inside
    have int : i + place + 1 ≤ 2147483647 := by
      have small := valid.small
      simp only [maxAsize, maxBits] at small
      omega
    have index := arrayindex_position int
    have validKey := validKey_position (i + place + 1)
    have slot : luaHGet hash t (.position (i + place + 1)) = some (.array (i + place)) := by
      rw [luaHGet_eq_array_iff validKey.1, HashTable.InArray, index]
      omega
    have value : t.read (.array (i + place)) = (t.array.drop i)[place] := by
      rw [readArray, List.getD_eq_getElem?_getD, List.getElem?_eq_getElem (by rw [List.length_drop]; exact inside)]
      rfl
    refine ⟨_, _, .array (i + place), by rw [found], validKey, slot, value, live, ?_, ?_⟩
    · simp only [Slot.place]
      omega
    · intro other above below
      cases other with
      | array j =>
          simp only [Slot.place] at above below
          have earlier := before (j - i) (by omega)
          rw [← readArray, show i + (j - i) = j by omega] at earlier
          exact earlier
      | node j =>
          simp only [Slot.place] at above below
          omega
  · rw [none]
    dsimp only
    have emptyArray : ∀ j, i < j + 1 → t.read (.array j) = .nil := by
      intro j above
      have here := empty (j - i)
      rw [← readArray, show i + (j - i) = j by omega] at here
      exact here
    rcases nextInHash_cases (t.node.drop (i - t.array.length)) with ⟨place, inside, found, live, before⟩ | ⟨none, empty⟩
    · left
      rw [List.length_drop] at inside
      have value := readNode place
      have here : (t.node.drop (i - t.array.length)).getD place {} = (t.node.drop (i - t.array.length))[place] := by
        rw [List.getD_eq_getElem?_getD, List.getElem?_eq_getElem (by rw [List.length_drop]; exact inside)]
        rfl
      have named : (t.gnode (i - t.array.length + place)).key = (t.node.drop (i - t.array.length))[place].key := by
        rw [← here, gnode]
        simp [List.getD_eq_getElem?_getD]
      have notNil : (t.node.drop (i - t.array.length))[place].key ≠ .nil := by
        intro blank
        rw [blank] at named
        have vacant : t.read (.node (i - t.array.length + place)) = .nil := by
          rw [HashTable.read, valid.scattered.blank _ named]
        rw [value, here] at vacant
        exact live vacant
      have notNan := valid.keys (i - t.array.length + place)
      rw [named] at notNan
      refine ⟨_, _, .node (i - t.array.length + place), by rw [found], ⟨notNil, notNan⟩,
        (luaHGet_eq_node_iff valid notNil).mpr named, by rw [value, here], live, ?_, ?_⟩
      · simp only [Slot.place]
        omega
      · intro other above below
        cases other with
        | array j => exact emptyArray j above
        | node j =>
            simp only [Slot.place] at above below
            have earlier := before (j - (i - t.array.length)) (by omega)
            rw [← readNode, show i - t.array.length + (j - (i - t.array.length)) = j by omega] at earlier
            exact earlier
    · right
      refine ⟨by rw [none], ?_⟩
      intro other above
      cases other with
      | array j => exact emptyArray j above
      | node j =>
          simp only [Slot.place] at above
          have here := empty (j - (i - t.array.length))
          rw [← readNode, show i - t.array.length + (j - (i - t.array.length)) = j by omega] at here
          exact here

end Scan

/-- `luaH_next` goes through the pairs as the table of the scripts does.  From a key whose place
in the table holds nil it goes on to the first value behind that place; a key without a place
is refused. -/
theorem reachable_next (reachable : t.Reachable hash) (key : Value) :
    (key = .nil ∨ lookup hash t key ≠ .nil →
        ∃ following, luaHNext hash t key = .ok following ∧ (t.toTable reachable.valid).next key = some following) ∧
      (∀ slot, key ≠ .nil → luaHGet hash t key = some slot →
        (∃ k v behind, luaHNext hash t key = .ok (some (k, v)) ∧ luaHGet hash t k = some behind ∧
          t.read behind = v ∧ v ≠ .nil ∧ slot.place t < behind.place t ∧
          ∀ other, slot.place t < other.place t → other.place t < behind.place t → t.read other = .nil) ∨
        (luaHNext hash t key = .ok none ∧ ∀ other, slot.place t < other.place t → t.read other = .nil)) ∧
      (key ≠ .nil → luaHGet hash t key = none →
        luaHNext hash t key = .error (.runerror (lit "invalid key to 'next'")) ∧
          (t.toTable reachable.valid).next key = none) := by
  have valid := reachable.valid
  refine ⟨luaHNext_eq_next valid, ?_, ?_⟩
  · intro slot notNil found
    rcases luaHNext_cases valid (findindex_of_slot notNil found) with
      ⟨k, v, behind, next, -, named, value, live, later, between⟩ | none
    · exact .inl ⟨k, v, behind, next, named, value, live, later, between⟩
    · exact .inr none
  · intro notNil absent
    refine ⟨?_, ?_⟩
    · simp only [luaHNext, findindex_unknown notNil absent]
      rfl
    · apply Table.next_of_not_mem notNil
      intro member
      obtain ⟨entry, inside, rfl⟩ := List.mem_map.mp member
      obtain ⟨-, live, here⟩ := (mem_pairs_iff valid).mp inside
      rw [lookup, absent] at here
      exact live here.symm

/-- The first of two strings was assigned nil: the traversal still goes on from it, to the
second. -/
theorem reachable_next_cleared :
    ∃ k v behind, luaHNext (fun _ => 1) (collidingStrings.store .nil (.node 0)) (.string (lit "b")) =
        .ok (some (k, v)) ∧
      luaHGet (fun _ => 1) (collidingStrings.store .nil (.node 0)) k = some behind ∧
      v ≠ .nil ∧ 1 < behind.place collidingStrings := by
  have cleared : assign (fun _ => 1) 2 collidingStrings (.string (lit "b")) .nil =
      .ok (collidingStrings.store .nil (.node 0)) := by
    decide +kernel
  rcases (reachable_next (reachable_collidingStrings.assigned cleared) (.string (lit "b"))).2.1 (.node 0)
      nofun (by decide +kernel) with
    ⟨k, v, behind, next, named, -, live, later, -⟩ | ⟨-, empty⟩
  · exact ⟨k, v, behind, next, named, live, later⟩
  · exact absurd (empty (.node 1) (by decide)) (by decide)

/-- The table after assignments to fields that were in it. -/
inductive Modified (hash : Value → Nat) (t : HashTable) : HashTable → Prop
  | unchanged : Modified hash t t
  | assigned {t' : HashTable} {key value : Value} {slot : Slot} (modified : Modified hash t t') (notNil : key ≠ .nil)
      (found : luaHGet hash t' key = some slot) : Modified hash t (t'.store value slot)

theorem Kept.trans {t'' : HashTable} (kept : Kept t t') (later : Kept t' t'') : Kept t t'' where
  length := later.length.trans kept.length
  bits := later.bits.trans kept.bits
  nodes := later.nodes.trans kept.nodes
  dummynode := later.dummynode.trans kept.dummynode
  lastfree := later.lastfree.trans kept.lastfree
  next := fun i => (later.next i).trans (kept.next i)
  key := fun i => (later.key i).trans (kept.key i)

theorem Modified.kept (valid : t.Valid hash) (modified : Modified hash t t') : Kept t t' ∧ t'.Valid hash := by
  induction modified with
  | unchanged =>
      exact ⟨⟨rfl, rfl, rfl, rfl, rfl, fun _ => rfl, fun _ => rfl⟩, valid⟩
  | assigned modified notNil found ih =>
      obtain ⟨kept, valid'⟩ := ih
      exact ⟨kept.trans (kept_store valid' notNil found _), (assigned_store valid' notNil found _).valid⟩

theorem Slot.place_kept (kept : Kept t t') (slot : Slot) : slot.place t' = slot.place t := by
  cases slot with
  | array i => rfl
  | node i => rw [Slot.place, Slot.place, kept.length]

theorem Slot.place_inj {slot other : Slot} (inside : ∀ i, slot = .array i → i < t.array.length)
    (otherInside : ∀ i, other = .array i → i < t.array.length) (same : slot.place t = other.place t) :
    slot = other := by
  cases slot with
  | array i =>
      have bound := inside i rfl
      cases other with
      | array j => simpa [Slot.place] using same
      | node j =>
          simp only [Slot.place] at same
          omega
  | node i =>
      cases other with
      | array j =>
          have bound := otherInside j rfl
          simp only [Slot.place] at same
          omega
      | node j => simpa [Slot.place] using same

theorem luaHGet_array_lt {i : Nat} (notNil : key ≠ .nil) (found : luaHGet hash t key = some (.array i)) :
    i < t.array.length := by
  obtain ⟨inArray, index⟩ := (luaHGet_eq_array_iff notNil).mp found
  have upper := inArray.2
  omega

theorem place_le {slot : Slot} (valid : t.Valid hash) (notNil : key ≠ .nil) (found : luaHGet hash t key = some slot) :
    slot.place t ≤ t.array.length + t.sizenode := by
  cases slot with
  | array i =>
      have inside := luaHGet_array_lt notNil found
      simp only [Slot.place]
      omega
  | node i =>
      have named := (luaHGet_eq_node_iff valid notNil).mp found
      have inside := valid.scattered.inside i (by rwa [named])
      simp only [Slot.place]
      omega

/-- A loop over `luaH_next` whose body assigns to fields that are there: the table now, the key
to go on from, and the pairs met so far, each with the table it was met in. -/
inductive Traversed (hash : Value → Nat) (start : HashTable) :
    HashTable → Value → List (HashTable × (Value × Value)) → Prop
  | begin_ : Traversed hash start start .nil []
  | visit {t t' : HashTable} {key : Value} {past : List (HashTable × (Value × Value))} {entry : Value × Value}
      (traversed : Traversed hash start t key past) (next : luaHNext hash t key = .ok (some entry))
      (modified : Modified hash t t') : Traversed hash start t' entry.1 (past ++ [(t, entry)])

/-- The keys met so far, in order. -/
def metKeys (past : List (HashTable × (Value × Value))) : List Value :=
  past.map fun step => step.2.1

/-- What a traversal has done when it goes on from index `i`. -/
structure Progress (hash : Value → Nat) (t : HashTable) (past : List (HashTable × (Value × Value))) (i : Nat) :
    Prop where
  behind : ∀ k ∈ metKeys past, ∃ slot, luaHGet hash t k = some slot ∧ slot.place t ≤ i
  distinct : (metKeys past).Nodup
  count : past.length ≤ i
  complete : ∀ k slot, ValidKey k → luaHGet hash t k = some slot → slot.place t ≤ i →
    (∀ step ∈ past, lookup hash step.1 k ≠ .nil) → k ∈ metKeys past

theorem Traversed.progress {start : HashTable} {past : List (HashTable × (Value × Value))} (valid : start.Valid hash)
    (traversed : Traversed hash start t key past) :
    t.Valid hash ∧ Kept start t ∧ ∃ i, findindex hash t key = .ok i ∧ i ≤ t.array.length + t.sizenode ∧
      Progress hash t past i := by
  induction traversed with
  | begin_ =>
      refine ⟨valid, ⟨rfl, rfl, rfl, rfl, rfl, fun _ => rfl, fun _ => rfl⟩, 0, rfl, Nat.zero_le _, ?_⟩
      refine { behind := by simp [metKeys], distinct := by simp [metKeys], count := Nat.le_refl _, complete := ?_ }
      intro k slot validKey found none
      cases slot <;> simp [Slot.place] at none
  | @visit t t' key past entry _ next modified ih =>
      obtain ⟨validNow, keptSoFar, i, from_, -, progress⟩ := ih
      obtain ⟨kept, valid'⟩ := modified.kept validNow
      have slots : ∀ k, luaHGet hash t' k = luaHGet hash t k := luaHGet_congr kept.length kept.bits kept.next kept.key
      have size : t'.array.length + t'.sizenode = t.array.length + t.sizenode := by
        rw [kept.length, HashTable.sizenode, kept.bits, HashTable.sizenode]
      rcases luaHNext_cases validNow from_ with
        ⟨k, v, slot, next', validKey, found, value, live, above, before⟩ | ⟨none, -⟩
      · rw [next] at next'
        cases next'
        have keys : metKeys (past ++ [(t, (k, v))]) = metKeys past ++ [k] := by simp [metKeys]
        refine ⟨valid', keptSoFar.trans kept, slot.place t, ?_, by rw [size]; exact place_le validNow validKey.1 found, ?_⟩
        · rw [findindex_of_slot validKey.1 ((slots k).trans found), Slot.place_kept kept]
        · refine { behind := ?_, distinct := ?_, count := ?_, complete := ?_ }
          · intro old member
            rw [keys, List.mem_append, List.mem_singleton] at member
            rcases member with earlier | same
            · obtain ⟨other, there, low⟩ := progress.behind old earlier
              exact ⟨other, (slots old).trans there, by rw [Slot.place_kept kept]; omega⟩
            · rw [same]
              exact ⟨slot, (slots k).trans found, by rw [Slot.place_kept kept]⟩
          · rw [keys, List.nodup_append]
            refine ⟨progress.distinct, List.nodup_singleton k, ?_⟩
            intro old member new newMember same
            obtain ⟨other, there, low⟩ := progress.behind old member
            rw [same, List.mem_singleton.mp newMember, found] at there
            cases there
            omega
          · rw [List.length_append, List.length_singleton]
            have counted := progress.count
            omega
          · intro k' slot' validK found' low live'
            rw [slots] at found'
            rw [Slot.place_kept kept] at low
            have liveBefore : ∀ step ∈ past, lookup hash step.1 k' ≠ .nil :=
              fun step member => live' step (List.mem_append_left _ member)
            have here := live' (t, (k, v)) (by simp)
            rw [lookup, found', Option.elim_some] at here
            rw [keys, List.mem_append, List.mem_singleton]
            by_cases earlier : slot'.place t ≤ i
            · exact .inl (progress.complete k' slot' validK found' earlier liveBefore)
            · right
              have same : slot'.place t = slot.place t := by
                by_contra different
                exact here (before slot' (by omega) (by omega))
              have alike := Slot.place_inj (fun j isArray => luaHGet_array_lt validK.1 (isArray ▸ found'))
                (fun j isArray => luaHGet_array_lt validKey.1 (isArray ▸ found)) same
              rw [alike] at found'
              exact luaHGet_inj validNow validK.1 validKey.1 found' found
      · rw [next] at none
        cases none

/-- A traversal whose body assigns to existing fields only, clearing some of them maybe, never
fails, meets no key twice and ends after at most as many steps as the table has places; by
then it met every key that had a value all the time. -/
theorem reachable_traversed {start : HashTable} {past : List (HashTable × (Value × Value))}
    (reachable : start.Reachable hash) (traversed : Traversed hash start t key past) :
    (metKeys past).Nodup ∧ past.length ≤ start.array.length + start.sizenode ∧
      ∃ answer, luaHNext hash t key = .ok answer ∧
        (answer = none → ∀ k, ValidKey k → lookup hash t k ≠ .nil →
          (∀ step ∈ past, lookup hash step.1 k ≠ .nil) → k ∈ metKeys past) := by
  obtain ⟨valid, kept, i, from_, bound, progress⟩ := traversed.progress reachable.valid
  have size : t.array.length + t.sizenode = start.array.length + start.sizenode := by
    rw [kept.length, HashTable.sizenode, kept.bits, HashTable.sizenode]
  refine ⟨progress.distinct, by rw [← size]; exact progress.count.trans bound, ?_⟩
  rcases luaHNext_cases valid from_ with ⟨k, v, slot, next, -⟩ | ⟨next, empty⟩
  · exact ⟨some (k, v), next, fun none => by cases none⟩
  · refine ⟨none, next, ?_⟩
    intro _ k validKey live liveBefore
    cases found : luaHGet hash t k with
    | none => exact absurd (by rw [lookup, found]; rfl) live
    | some slot =>
        rw [lookup, found, Option.elim_some] at live
        have low : slot.place t ≤ i := by
          by_contra above
          exact live (empty slot (by omega))
        exact progress.complete k slot validKey found low liveBefore

/-- The field met first is cleared before the loop goes on. -/
theorem reachable_traversed_strings :
    (metKeys [(collidingStrings, (.string (lit "b"), .boolean false))]).Nodup ∧
      [(collidingStrings, ((.string (lit "b"), .boolean false) : Value × Value))].length ≤
        collidingStrings.array.length + collidingStrings.sizenode ∧
      ∃ answer, luaHNext (fun _ => 1) (collidingStrings.store .nil (.node 0)) (.string (lit "b")) = .ok answer ∧
        (answer = none → ∀ k, ValidKey k → lookup (fun _ => 1) (collidingStrings.store .nil (.node 0)) k ≠ .nil →
          (∀ step ∈ [(collidingStrings, ((.string (lit "b"), .boolean false) : Value × Value))],
            lookup (fun _ => 1) step.1 k ≠ .nil) →
          k ∈ metKeys [(collidingStrings, (.string (lit "b"), .boolean false))]) := by
  have found : luaHGet (fun _ => 1) collidingStrings (.string (lit "b")) = some (.node 0) := by decide +kernel
  have cleared : Modified (fun _ => 1) collidingStrings (collidingStrings.store .nil (.node 0)) :=
    .assigned .unchanged (by decide) found
  have next : luaHNext (fun _ => 1) collidingStrings .nil = .ok (some (.string (lit "b"), .boolean false)) := by
    decide +kernel
  have step := Traversed.visit (.begin_ : Traversed (fun _ => 1) collidingStrings _ _ _) next cleared
  exact reachable_traversed reachable_collidingStrings step

end GameServer.Lua
