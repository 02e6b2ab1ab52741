import GameServer.Lua.Value

namespace GameServer.Lua

/-- Keys `luaH_set` accepts: a table index is neither nil nor NaN. -/
def ValidKey (key : Value) : Prop :=
  key ≠ .nil ∧ key ≠ .number .nan

instance (key : Value) : Decidable (ValidKey key) :=
  inferInstanceAs (Decidable (_ ∧ _))

theorem validKey_string (key : Bytes) : ValidKey (.string key) := by
  simp [ValidKey]

/-- A table, as its pairs in the order `luaH_next` meets them.  The order is
fixed by array part, hash function and collisions, so it is any order here. -/
structure Table where
  entries : List (Value × Value)
  distinct : (entries.map Prod.fst).Nodup
  valid : ∀ entry ∈ entries, ValidKey entry.1
  live : ∀ entry ∈ entries, entry.2 ≠ .nil

namespace Table

def empty : Table :=
  ⟨[], List.nodup_nil, by simp, by simp⟩

instance : Inhabited Table := ⟨empty⟩

def get (table : Table) (key : Value) : Value :=
  (table.entries.lookup key).getD .nil

/-- `luaH_next` from `key`, nil standing before the first pair: the next pair
if there is one, or `none` when the key is not in the table. -/
def next (table : Table) (key : Value) : Option (Option (Value × Value)) :=
  if key = .nil then some table.entries.head?
  else match table.entries.dropWhile (fun entry => entry.1 != key) with
    | [] => none
    | _ :: rest => some rest.head?

@[simp] theorem next_nil (table : Table) : table.next .nil = some table.entries.head? := by
  simp [next]

theorem next_of_append {table : Table} {before after : List (Value × Value)} {key value : Value}
    (split : table.entries = before ++ (key, value) :: after) :
    table.next key = some after.head? := by
  have valid : ValidKey key := table.valid (key, value) (by simp [split])
  have distinct := table.distinct
  rw [split, List.map_append, List.nodup_append] at distinct
  obtain ⟨-, -, apart⟩ := distinct
  have skipped : table.entries.dropWhile (fun entry => entry.1 != key) = (key, value) :: after := by
    rw [split, List.dropWhile_append_of_pos]
    · simp
    · intro entry member
      simp only [bne_iff_ne, ne_eq]
      exact apart _ (List.mem_map_of_mem member) _ (by simp)
  simp [next, valid.1, skipped]

theorem next_of_not_mem {table : Table} {key : Value} (notNil : key ≠ .nil)
    (absent : key ∉ table.entries.map Prod.fst) : table.next key = none := by
  have dropped : table.entries.dropWhile (fun entry => entry.1 != key) = [] := by
    rw [List.dropWhile_eq_nil_iff]
    intro entry member
    simp only [bne_iff_ne, ne_eq]
    intro same
    subst same
    exact absent (List.mem_map_of_mem member)
  simp [next, notNil, dropped]

def erase (table : Table) (key : Value) : Table where
  entries := table.entries.filter fun entry => entry.1 != key
  distinct := (List.filter_sublist.map Prod.fst).nodup table.distinct
  valid := fun entry member => table.valid entry (List.mem_filter.mp member).1
  live := fun entry member => table.live entry (List.mem_filter.mp member).1

private theorem map_fst_replace (entries : List (Value × Value)) (key value : Value) :
    (entries.map fun entry => if entry.1 = key then (key, value) else entry).map Prod.fst =
      entries.map Prod.fst := by
  rw [List.map_map]
  apply List.map_congr_left
  intro entry _
  by_cases same : entry.1 = key <;> simp [same]

/-- `luaH_set` and the store through it.  A new key is put last; where it would
really land is as open as the order of the pairs. -/
def set (table : Table) (key value : Value) (valid : ValidKey key) : Table :=
  if nil : value = .nil then table.erase key
  else if present : key ∈ table.entries.map Prod.fst then
    { entries := table.entries.map fun entry => if entry.1 = key then (key, value) else entry
      distinct := by rw [map_fst_replace]; exact table.distinct
      valid := by
        intro entry member
        obtain ⟨old, oldMember, rfl⟩ := List.mem_map.mp member
        split
        · exact valid
        · exact table.valid old oldMember
      live := by
        intro entry member
        obtain ⟨old, oldMember, rfl⟩ := List.mem_map.mp member
        split
        · exact nil
        · exact table.live old oldMember }
  else
    { entries := table.entries ++ [(key, value)]
      distinct := by
        rw [List.map_append, List.nodup_append]
        refine ⟨table.distinct, by simp, ?_⟩
        intro old oldMember new newMember same
        subst same
        simp only [List.map_cons, List.map_nil, List.mem_singleton] at newMember
        exact present (newMember ▸ oldMember)
      valid := by
        intro entry member
        rcases List.mem_append.mp member with old | new
        · exact table.valid entry old
        · rw [List.mem_singleton.mp new]; exact valid
      live := by
        intro entry member
        rcases List.mem_append.mp member with old | new
        · exact table.live entry old
        · rw [List.mem_singleton.mp new]; exact nil }

private theorem lookup_replace {entries : List (Value × Value)} {key : Value} (value : Value)
    (present : key ∈ entries.map Prod.fst) :
    (entries.map fun entry => if entry.1 = key then (key, value) else entry).lookup key =
      some value := by
  induction entries with
  | nil => cases present
  | cons entry rest ih =>
      rw [List.map_cons]
      by_cases same : entry.1 = key
      · rw [if_pos same, List.lookup_cons_self]
      · have inRest : key ∈ rest.map Prod.fst := by
          rw [List.map_cons, List.mem_cons] at present
          exact present.resolve_left fun equal => same equal.symm
        have different : (key == entry.1) = false := beq_false_of_ne fun equal => same equal.symm
        rw [if_neg same, List.lookup_cons, different]
        exact ih inRest

theorem get_set_self (table : Table) (key : Value) {value : Value} (valid : ValidKey key)
    (live : value ≠ .nil) : (table.set key value valid).get key = value := by
  unfold set get
  rw [dif_neg live]
  split
  · rename_i present
    dsimp only
    rw [lookup_replace value present]
    rfl
  · rename_i absent
    have missing : table.entries.lookup key = none := by
      rw [List.lookup_eq_none_iff]
      intro entry member
      exact bne_iff_ne.mpr fun same => absent (same ▸ List.mem_map_of_mem member)
    dsimp only
    rw [List.lookup_append, missing]
    simp

private theorem lookup_filter_ne (entries : List (Value × Value)) (key other : Value) :
    (entries.filter fun entry => entry.1 != key).lookup other =
      if other = key then none else entries.lookup other := by
  induction entries with
  | nil => simp
  | cons entry rest ih =>
      obtain ⟨first, content⟩ := entry
      by_cases kept : first = key
      · rw [List.filter_cons_of_neg (by simp [kept]), ih, List.lookup_cons]
        by_cases same : other = key
        · simp [same]
        · have different : (other == first) = false := by simp [kept, same]
          rw [different]
      · rw [List.filter_cons_of_pos (by simp [kept]), List.lookup_cons, ih, List.lookup_cons]
        by_cases same : other = first
        · simp [same, kept]
        · simp [beq_eq_false_iff_ne.mpr same]

private theorem lookup_replace_other {entries : List (Value × Value)} {key other : Value} (value : Value)
    (different : other ≠ key) :
    (entries.map fun entry => if entry.1 = key then (key, value) else entry).lookup other = entries.lookup other := by
  induction entries with
  | nil => rfl
  | cons entry rest ih =>
      obtain ⟨first, content⟩ := entry
      rw [List.map_cons]
      by_cases same : first = key
      · subst same
        simp [List.lookup_cons, beq_eq_false_iff_ne.mpr different, ih]
      · rw [if_neg same, List.lookup_cons, List.lookup_cons, ih]

/-- An assignment changes its own field only. -/
theorem get_set (table : Table) (key value : Value) (valid : ValidKey key) (other : Value) :
    (table.set key value valid).get other = if other = key then value else table.get other := by
  by_cases same : other = key
  · subst same
    rw [if_pos rfl]
    by_cases live : value = .nil
    · subst live
      unfold set get erase
      rw [dif_pos rfl]
      dsimp only
      rw [lookup_filter_ne, if_pos rfl]
      rfl
    · exact get_set_self table other valid live
  · rw [if_neg same]
    unfold set get
    split
    · unfold erase
      dsimp only
      rw [lookup_filter_ne, if_neg same]
    · split
      · dsimp only
        rw [lookup_replace_other value same]
      · dsimp only
        rw [List.lookup_append]
        simp [List.lookup_cons, beq_eq_false_iff_ne.mpr same]

/-- The table a constructor with these string keys builds. -/
def ofFields (fields : List (String × Value)) : Table :=
  fields.foldl (fun table field =>
    table.set (.string (lit field.1)) field.2 (validKey_string _)) .empty

end Table

end GameServer.Lua
