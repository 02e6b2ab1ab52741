import GameServer.Lua.Rehash

namespace GameServer.Lua

variable {hash : Value → Nat} {t t' : HashTable} {key value : Value} {depth : Nat}

/-! What a table is to the rest of Lua: every run of assignments leaves at each key what was
assigned to it last. -/

theorem assign_cases (depth : Nat) (valid : t.Valid hash) (validKey : ValidKey key) (value : Value) :
    (maxAsize ≤ t.pairs.length ∧ assign hash (depth + 2) t key value = .error (.runerror (lit "table overflow"))) ∨
      ∃ t', assign hash (depth + 2) t key value = .ok t' ∧ t'.Valid hash ∧
        ∀ k, ValidKey k → lookup hash t' k = if k = key then value else lookup hash t k := by
  have stored : ∀ t' slot, Placed hash t t' key slot → (t'.store value slot).Valid hash ∧
      ∀ k, ValidKey k → lookup hash (t'.store value slot) k = if k = key then value else lookup hash t k := by
    intro t' slot placed
    have assigned := assigned_store placed.valid validKey.1 placed.found value
    refine ⟨assigned.valid, ?_⟩
    intro k validK
    rw [assigned.lookup k validK, placed.lookup k validK]
  unfold assign luaHSet
  cases found : luaHGet hash t key with
  | some slot => exact .inr ⟨_, rfl, stored t slot ⟨valid, found, fun _ _ => rfl⟩⟩
  | none =>
      dsimp only
      rw [if_neg validKey.1, if_neg validKey.2]
      rcases newkey_cases depth valid validKey found with ⟨large, failed⟩ | ⟨t', slot, done, placed⟩
      · exact .inl ⟨large, by rw [failed]; rfl⟩
      · exact .inr ⟨t'.store value slot, by rw [done]; rfl, stored t' slot placed⟩

/-- A nil or NaN index is an error. -/
theorem assign_invalid (depth : Nat) (valid : t.Valid hash) (invalid : ¬ ValidKey key) (value : Value) :
    (key = .nil ∧ assign hash depth t key value = .error (.runerror (lit "table index is nil"))) ∨
      (key = .number .nan ∧ assign hash depth t key value = .error (.runerror (lit "table index is NaN"))) := by
  unfold assign luaHSet
  by_cases isNil : key = .nil
  · subst isNil
    exact .inl ⟨rfl, rfl⟩
  · have isNan : key = .number .nan := by
      by_contra other
      exact invalid ⟨isNil, other⟩
    have absent : luaHGet hash t key = none := by
      rw [luaHGet_eq_none_iff valid isNil]
      refine ⟨?_, ?_⟩
      · simp [isNan, HashTable.InArray, arrayindex]
      · intro i
        rw [isNan]
        exact valid.keys i
    rw [absent]
    dsimp only
    rw [if_neg isNil, if_pos isNan]
    exact .inr ⟨isNan, rfl⟩

/-- An assignment adds one pair at most. -/
theorem length_pairs_le (valid : t.Valid hash) (valid' : t'.Valid hash)
    (contents : ∀ k, ValidKey k → lookup hash t' k = if k = key then value else lookup hash t k) :
    t'.pairs.length ≤ t.pairs.length + 1 := by
  have within : t'.pairs.map Prod.fst ⊆ key :: t.pairs.map Prod.fst := by
    intro k member
    obtain ⟨entry, inside, rfl⟩ := List.mem_map.mp member
    obtain ⟨validK, live, here⟩ := (mem_pairs_iff valid').mp inside
    by_cases same : entry.1 = key
    · rw [same]
      exact List.mem_cons_self
    · rw [contents entry.1 validK, if_neg same] at here
      exact List.mem_cons_of_mem _ (List.mem_map_of_mem ((mem_pairs_iff valid).mpr ⟨validK, live, here⟩))
  have shorter := (List.subperm_of_subset (pairs_nodup valid') within).length_le
  simpa using shorter

theorem luaHNew_valid (hash : Value → Nat) {narray nhash : Nat} (small : narray ≤ maxAsize)
    (made : luaHNew narray nhash = .ok t) : t.Valid hash ∧ t.pairs = [] := by
  have length : (setarrayvector {} narray).array = List.replicate narray .nil := by simp [setarrayvector]
  rcases @setnodevector_cases (setarrayvector {} narray) hash (by rw [length, List.length_replicate]; exact small) nhash
    with ⟨-, failed⟩ | ⟨fresh, done, array, valid, blank, -⟩
  · rw [luaHNew, failed] at made
    cases made
  · rw [luaHNew, done] at made
    cases made
    refine ⟨valid, ?_⟩
    rw [HashTable.pairs, nodePairs_blank blank, array, length, arrayPairs_replicate]
    rfl

/-- A larger array part takes the keys that belong there out of the hash part. -/
theorem luaHResizearray_cases (depth : Nat) (valid : t.Valid hash) {nasize : Nat} (grows : t.array.length ≤ nasize)
    (bound : nasize ≤ maxAsize) :
    luaHResizearray hash (depth + 1) t nasize = .error (.runerror (lit "table overflow")) ∨
      ∃ t', luaHResizearray hash (depth + 1) t nasize = .ok t' ∧ t'.Valid hash ∧
        ∀ k, ValidKey k → lookup hash t' k = lookup hash t k := by
  have inside : ∀ entry ∈ arrayPairs 0 t.array, Below nasize entry = true := by
    intro entry member
    have live : entry.2 ≠ .nil := by
      obtain ⟨place, within, rfl, occupied⟩ := mem_arrayPairs_iff.mp member
      exact occupied
    have inArray := ((mem_arrayPairs_of_inArray hash valid.small live).mp member).1
    have upper := inArray.2
    exact below_iff.mpr ⟨inArray.1, by omega⟩
  have none : (arrayPairs 0 t.array).countP (fun entry => !Below nasize entry) = 0 := by
    rw [List.countP_eq_zero]
    intro entry member
    simp [inside entry member]
  have fits : t.pairs.countP (fun entry => !Below nasize entry) ≤ if t.dummynode then 0 else t.sizenode := by
    rw [HashTable.pairs, List.countP_append, none, Nat.zero_add]
    cases shared : t.dummynode with
    | true => simp [nodePairs_blank (valid.shared shared).2]
    | false =>
        have fewer := length_nodePairs_le t.node
        rw [valid.length] at fewer
        simpa using List.countP_le_length.trans fewer
  rcases resize_cases (newkey hash depth) valid bound fits with ⟨-, failed⟩ | ⟨t', done, valid', -, contents, -⟩
  · exact .inl failed
  · exact .inr ⟨t', done, valid', contents⟩

/-- The tables that `luaH_new`, `luaH_set` and `luaH_resizearray` make.  The array part is
asked to be of a size `rehash` could choose. -/
inductive HashTable.Reachable (hash : Value → Nat) : HashTable → Prop
  | fresh {t : HashTable} {narray nhash : Nat} (small : narray ≤ maxAsize) (made : luaHNew narray nhash = .ok t) :
      Reachable hash t
  | assigned {t t' : HashTable} {depth : Nat} {key value : Value} (reachable : Reachable hash t)
      (done : assign hash (depth + 2) t key value = .ok t') : Reachable hash t'
  | resized {t t' : HashTable} {depth nasize : Nat} (reachable : Reachable hash t) (grows : t.array.length ≤ nasize)
      (bound : nasize ≤ maxAsize) (done : luaHResizearray hash (depth + 1) t nasize = .ok t') : Reachable hash t'

theorem HashTable.Reachable.valid (reachable : t.Reachable hash) : t.Valid hash := by
  induction reachable with
  | fresh small made => exact (luaHNew_valid hash small made).1
  | @assigned t t' depth key value _ done valid =>
      by_cases validKey : ValidKey key
      · rcases assign_cases depth valid validKey value with ⟨-, failed⟩ | ⟨next, made, valid', -⟩
        · rw [failed] at done
          cases done
        · rw [made] at done
          cases done
          exact valid'
      · rcases assign_invalid (depth + 2) valid validKey value with ⟨-, failed⟩ | ⟨-, failed⟩ <;>
          rw [failed] at done <;> cases done
  | @resized t t' depth nasize _ grows bound done valid =>
      rcases luaHResizearray_cases depth valid grows bound with failed | ⟨next, made, valid', -⟩
      · rw [failed] at done
        cases done
      · rw [made] at done
        cases done
        exact valid'

/-- Assignments to fields, one after the other. -/
def assignAll (hash : Value → Nat) (depth : Nat) : HashTable → List (Value × Value) → Except TableFailure HashTable
  | t, [] => .ok t
  | t, entry :: rest => (assign hash depth t entry.1 entry.2).bind fun t => assignAll hash depth t rest

theorem assignAll_lookup (depth : Nat) {entries : List (Value × Value)} (valid : t.Valid hash)
    (validKeys : ∀ entry ∈ entries, ValidKey entry.1) (few : t.pairs.length + entries.length ≤ maxAsize) :
    ∃ t', assignAll hash (depth + 2) t entries = .ok t' ∧ t'.Valid hash ∧
      t'.pairs.length ≤ t.pairs.length + entries.length ∧
      ∀ k, ValidKey k → lookup hash t' k = (entries.reverse.lookup k).getD (lookup hash t k) := by
  induction entries generalizing t with
  | nil => exact ⟨t, rfl, valid, Nat.le_refl _, fun _ _ => rfl⟩
  | cons entry rest ih =>
      obtain ⟨key, value⟩ := entry
      rw [List.length_cons] at few
      have validKey := validKeys (key, value) List.mem_cons_self
      rcases assign_cases depth valid validKey value with ⟨large, -⟩ | ⟨next, done, nextValid, contents⟩
      · omega
      · have more := length_pairs_le valid nextValid contents
        obtain ⟨t', finished, valid', length, later⟩ := ih nextValid
          (fun other member => validKeys other (List.mem_cons_of_mem _ member)) (by omega)
        refine ⟨t', ?_, valid', ?_, ?_⟩
        · simp only [assignAll, done, Except.bind, finished]
        · rw [List.length_cons]
          omega
        · intro k validK
          rw [later k validK, contents k validK, List.reverse_cons, List.lookup_append]
          cases rest.reverse.lookup k with
          | some value => rfl
          | none =>
              by_cases same : k = key
              · simp [same]
              · simp [same, List.lookup_cons, beq_eq_false_iff_ne.mpr same]

/-! ## Results -/

/-- After any run of assignments to a new table, each key has what was assigned to it last.
No run of fewer than `MAXASIZE` assignments fails, however the keys collide. -/
theorem assignAll_last (hash : Value → Nat) (depth : Nat) {narray nhash : Nat} (small : narray ≤ maxAsize)
    {fresh : HashTable} (made : luaHNew narray nhash = .ok fresh) {entries : List (Value × Value)}
    (validKeys : ∀ entry ∈ entries, ValidKey entry.1) (few : entries.length ≤ maxAsize) :
    ∃ t, assignAll hash (depth + 2) fresh entries = .ok t ∧
      ∀ key, ValidKey key → lookup hash t key = (entries.reverse.lookup key).getD .nil := by
  obtain ⟨valid, empty⟩ := luaHNew_valid hash small made
  obtain ⟨t, done, -, -, contents⟩ := assignAll_lookup depth valid validKeys (by rw [empty]; simpa using few)
  refine ⟨t, done, ?_⟩
  intro key validKey
  rw [contents key validKey, lookup_eq_pairs valid validKey, empty]
  rfl

theorem assignAll_last_strings : ∃ t,
    assignAll (fun _ => 1) 2 {} [(.string (lit "a"), .boolean true), (.string (lit "b"), .boolean false)] = .ok t ∧
      ∀ key, ValidKey key → lookup (fun _ => 1) t key =
        (([(.string (lit "a"), .boolean true), (.string (lit "b"), .boolean false)] :
          List (Value × Value)).reverse.lookup key).getD .nil :=
  @assignAll_last (fun _ => 1) 0 0 0 (by decide) {} rfl
    [(.string (lit "a"), .boolean true), (.string (lit "b"), .boolean false)]
    (by simp [validKey_string]) (by decide)

/-- Two strings with one hash: the second came when the vector was full. -/
def collidingStrings : HashTable where
  node := [{ value := .boolean false, key := .string (lit "b") },
    { value := .boolean true, key := .string (lit "a"), next := some 0 }]
  lsizenode := 1
  dummynode := false

theorem reachable_collidingStrings : collidingStrings.Reachable fun _ => 1 := by
  have first : assign (fun _ => 1) 2 {} (.string (lit "a")) (.boolean true) =
      .ok { node := [{ value := .boolean true, key := .string (lit "a") }], dummynode := false, lastfree := 1 } := by
    decide +kernel
  have second : assign (fun _ => 1) 2
      { node := [{ value := .boolean true, key := .string (lit "a") }], dummynode := false, lastfree := 1 }
      (.string (lit "b")) (.boolean false) = .ok collidingStrings := by
    decide +kernel
  have start : HashTable.Reachable (fun _ => 1) {} := @HashTable.Reachable.fresh _ {} 0 0 (by decide) rfl
  exact (start.assigned first).assigned second

/-- When no node is left for a new key, `rehash` gives the array part the largest power of two
of places such that more than half of them are in use, the new key counted in, and the hash
part exactly as many nodes as there are other keys, before it rounds their number up. -/
theorem reachable_newSizes (reachable : t.Reachable hash)
    (absent : luaHGet hash t key = none) :
    ∃ na, BestSize (t.pairs ++ [(key, Value.nil)]) (maxBits + 1) na (newSizes t key).1 ∧
      (newSizes t key).2 = (t.pairs ++ [(key, Value.nil)]).countP fun entry => !Below (newSizes t key).1 entry := by
  have valid := reachable.valid
  exact newSizes_best valid.small (pairs_absent_nodup valid absent)

theorem reachable_newSizes_strings :
    ∃ na, BestSize (collidingStrings.pairs ++ [(Value.position 1, Value.nil)]) (maxBits + 1) na
        (newSizes collidingStrings (.position 1)).1 ∧
      (newSizes collidingStrings (.position 1)).2 = (collidingStrings.pairs ++ [(Value.position 1, Value.nil)]).countP
        fun entry => !Below (newSizes collidingStrings (.position 1)).1 entry :=
  reachable_newSizes reachable_collidingStrings (by decide +kernel)

/-- An element that is not in its main position collides with one that is in its own, and a
search from there reaches it before it has gone through more nodes than there are. -/
theorem reachable_colliding (reachable : t.Reachable hash) {i : Nat} (used : (t.gnode i).key ≠ .nil) :
    let mp := mainposition hash t.lsizenode (t.gnode i).key
    mainposition hash t.lsizenode (t.gnode mp).key = mp ∧
      Chain.search t.gnext (fun j => decide (j = i)) t.sizenode mp = some i := by
  have valid := reachable.valid
  have home := valid.scattered.home i used
  have bound := valid.scattered.inside _ home.1
  obtain ⟨places, trail⟩ := valid.scattered.ends _ bound
  refine ⟨home.2, ?_⟩
  apply (trail.search_eq_some_iff (valid.scattered.trail_length bound trail) _).mpr
  · exact ⟨valid.scattered.reached i places used trail, decide_eq_true rfl⟩
  · intro place _ passed
    exact of_decide_eq_true passed

theorem reachable_colliding_strings :
    mainposition (fun _ => 1) 1 (.string (lit "a")) = 1 ∧
      Chain.search collidingStrings.gnext (fun j => decide (j = 0)) 2 1 = some 0 :=
  @reachable_colliding (fun _ => 1) collidingStrings reachable_collidingStrings 0 (by decide)

end GameServer.Lua
