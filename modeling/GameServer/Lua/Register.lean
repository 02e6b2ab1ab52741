import GameServer.Lua.Frame
import GameServer.Lua.Require

namespace GameServer.Lua

open LuaM

/-! `luaL_register` of `lauxlib.c`: C functions become the fields of a library table. -/

variable {H : Type}

/-- An entry of a `luaL_Reg` array. -/
structure LuaLReg where
  name : Bytes
  func : FunctionRef

def luaPushregistry : LuaM H Unit := fun state =>
  .ok () { state with stack := .table state.world.heap.registry :: state.stack }

/-- The loop of `luaI_openlib`, without upvalues. -/
def setFuncs (rt : Runtime H) : List LuaLReg → LuaM H Unit
  | [] => pure ()
  | l :: rest => do
      luaPushcfunction l.func
      luaSetfield rt (-2) l.name
      setFuncs rt rest

/-- `luaL_register` with a name. -/
def luaLRegister (rt : Runtime H) (site : CallSite) (libname : String) (l : List LuaLReg) : LuaM H Unit := do
  luaPushregistry
  -- whether this finds a table is not looked at
  let _ ← findtableFrom rt (dotted "_LOADED")
  getfieldAt rt (-1) (lit libname)
  if !(← luaIstable (-1)) then
    luaPop 1
    if !(← luaLFindtable rt libname) then
      luaLError site (lit "name conflict for module '" ++ lit libname ++ lit "'")
    luaPushvalue (-1)
    luaSetfield rt (-3) (lit libname)
  luaRemove (-2)
  luaInsert (-1)
  setFuncs rt l

/-! ## Which table it is -/

/-- The functions of an array become fields of a table. -/
def Heap.storeFuncs (heap : Heap) (address : Nat) (l : List LuaLReg) : Heap :=
  l.foldl (fun heap entry => heap.storeField address entry.name (.function entry.func)) heap

/-- The table a global variable holds, a new one if it was nil. -/
def findLibrary (heap : Heap) (libname : Bytes) : Option (Nat × Heap) :=
  match (heap.tables heap.globals).get (.string libname) with
  | .table library => some (library, heap)
  | .nil => some (heap.nextTable,
      (heap.allocate .empty).storeField heap.globals libname (.table heap.nextTable))
  | _ => none

/-- The table of the library, and the heap once it is known as one: the loaded one, else that
of the global variable. -/
def libraryTable (heap : Heap) (loaded : Nat) (libname : Bytes) : Option (Nat × Heap) :=
  match (heap.tables loaded).get (.string libname) with
  | .table library => some (library, heap)
  | _ => (findLibrary heap libname).map fun found =>
      (found.1, found.2.storeField loaded libname (.table found.1))

/-- What `luaI_openlib` stores into has no `__newindex`. -/
structure PlainLibrary (heap : Heap) (loaded : Nat) (libname : Bytes) : Prop where
  globals : heap.newindexed heap.globals = false
  loadedTable : heap.newindexed loaded = false
  library : ∀ library after, libraryTable heap loaded libname = some (library, after) →
    after.newindexed library = false

/-- Looking the library up gives no table a metamethod. -/
theorem findLibrary_newindexed {heap after : Heap} {libname : Bytes} {library address : Nat}
    (found : findLibrary heap libname = some (library, after)) (plain : heap.newindexed address = false) :
    after.newindexed address = false := by
  unfold findLibrary at found
  split at found
  · cases found
    exact plain
  · cases found
    exact Heap.allocate_newindexed plain .empty
  · cases found

theorem libraryTable_newindexed {heap after : Heap} {libname : Bytes} {loaded library address : Nat}
    (found : libraryTable heap loaded libname = some (library, after))
    (plain : heap.newindexed address = false) : after.newindexed address = false := by
  unfold libraryTable at found
  split at found
  · cases found
    exact plain
  · obtain ⟨inner, global, same⟩ := Option.map_eq_some_iff.mp found
    cases same
    rw [Heap.storeField_newindexed]
    exact findLibrary_newindexed global plain

section Apply

variable {rt : Runtime H} {site : CallSite} {loaded library address : Nat} {libname : String}
  {below : List Value} {passed : List (Sink × CharPtr)} {world : World H} {heap : Heap}

theorem luaSetfield_below (plain : world.heap.newindexed address = false) (name : Bytes) (value : Value) :
    luaSetfield rt (-2) name ⟨value :: .table address :: below, passed, world⟩ =
      .ok () ⟨.table address :: below, passed, { world with heap := world.heap.storeField address name value }⟩ := by
  simp [luaSetfield, valueAt, luaVSettable_plain rt plain]

theorem luaSetfield_below₂ (plain : world.heap.newindexed address = false) (name : Bytes) (value a : Value) :
    luaSetfield rt (-3) name ⟨value :: a :: .table address :: below, passed, world⟩ =
      .ok () ⟨a :: .table address :: below, passed,
        { world with heap := world.heap.storeField address name value }⟩ := by
  simp [luaSetfield, valueAt, luaVSettable_plain rt plain]

theorem setFuncs_apply (plain : world.heap.newindexed address = false) (l : List LuaLReg) :
    setFuncs rt l ⟨.table address :: below, passed, world⟩ =
      .ok () ⟨.table address :: below, passed, { world with heap := world.heap.storeFuncs address l }⟩ := by
  induction l generalizing world with
  | nil => rfl
  | cons entry rest ih =>
      have still : (world.heap.storeField address entry.name (.function entry.func)).newindexed address = false :=
        plain
      simp only [setFuncs, luaPushcfunction, bind_apply, push_apply, Outcome.ok_bind, luaSetfield_below plain]
      exact ih still

/-- `luaL_findtable` of a name without dots among the globals. -/
theorem luaLFindtable_found (undotted : dotted libname = [lit libname])
    (plain : world.heap.newindexed world.heap.globals = false)
    (found : findLibrary world.heap (lit libname) = some (library, heap)) :
    luaLFindtable rt libname ⟨below, passed, world⟩ =
      .ok true ⟨.table library :: below, passed, { world with heap }⟩ := by
  unfold findLibrary at found
  simp only [luaLFindtable, bind_apply, luaPushglobals_apply, Outcome.ok_bind, undotted]
  cases field : (world.heap.tables world.heap.globals).get (.string (lit libname)) with
  | nil =>
      rw [field] at found
      cases found
      have stored := @luaVSettable_plain _ rt world.heap.globals { world with heap := world.heap.allocate .empty }
        (Heap.allocate_newindexed plain .empty) (lit libname) (.table world.heap.nextTable)
      rw [findtableFrom_missing rt _ _ field]
      simp [stored, findtableFrom]
  | table library =>
      rw [field] at found
      cases found
      exact findtableFrom_entered rt _ [] field
  | _ =>
      rw [field] at found
      cases found

theorem luaLFindtable_conflict (undotted : dotted libname = [lit libname])
    (conflict : findLibrary world.heap (lit libname) = none) :
    luaLFindtable rt libname ⟨below, passed, world⟩ = .ok false ⟨below, passed, world⟩ := by
  unfold findLibrary at conflict
  simp only [luaLFindtable, bind_apply, luaPushglobals_apply, Outcome.ok_bind, undotted]
  cases field : (world.heap.tables world.heap.globals).get (.string (lit libname)) with
  | nil =>
      rw [field] at conflict
      cases conflict
  | table library =>
      rw [field] at conflict
      cases conflict
  | _ => exact findtableFrom_conflict rt _ [] (by rw [field]; rfl) (by rw [field]; rfl)

theorem findLoaded
    (registered : (world.heap.tables world.heap.registry).get (.string (lit "_LOADED")) = .table loaded) :
    findtableFrom rt (dotted "_LOADED") ⟨.table world.heap.registry :: below, passed, world⟩ =
      .ok true ⟨.table loaded :: below, passed, world⟩ := by
  have parts : dotted "_LOADED" = [lit "_LOADED"] := by decide +kernel
  rw [parts]
  exact findtableFrom_entered rt _ [] registered

theorem getfieldAt_top (unindexed : rt.Unindexed loaded) (name : Bytes) :
    ∃ clock, getfieldAt rt (-1) name ⟨.table loaded :: below, passed, world⟩ =
      .ok () ⟨(world.heap.tables loaded).get (.string name) :: .table loaded :: below, passed,
        { world with clock }⟩ := by
  obtain ⟨results, clock, read, field⟩ := luaVGettable_unindexed unindexed (.string name) world
  refine ⟨clock, ?_⟩
  rw [← field]
  simp [getfieldAt, valueAt, getfieldOf, read]

theorem luaInsert_top (value : Value) :
    luaInsert (-1) ⟨value :: below, passed, world⟩ = .ok () ⟨value :: below, passed, world⟩ := by
  simp [luaInsert]

/-- The functions go to the table of the library, which is left on the stack. -/
theorem luaLRegister_found (undotted : dotted libname = [lit libname]) (unindexed : rt.Unindexed loaded)
    (registered : (world.heap.tables world.heap.registry).get (.string (lit "_LOADED")) = .table loaded)
    (plain : PlainLibrary world.heap loaded (lit libname))
    (found : libraryTable world.heap loaded (lit libname) = some (library, heap)) (l : List LuaLReg) :
    ∃ clock, luaLRegister rt site libname l ⟨below, passed, world⟩ =
      .ok () ⟨.table library :: below, passed, { world with clock, heap := heap.storeFuncs library l }⟩ := by
  obtain ⟨clock, got⟩ := @getfieldAt_top H rt loaded below passed world unindexed (lit libname)
  have libraryPlain := plain.library library heap found
  refine ⟨clock, ?_⟩
  unfold libraryTable at found
  simp only [luaLRegister, luaPushregistry, bind_apply, Outcome.ok_bind, findLoaded registered, got, luaIstable_top]
  cases entry : (world.heap.tables loaded).get (.string (lit libname)) with
  | table library =>
      rw [entry] at found
      cases found
      have filled := @setFuncs_apply H rt library below passed { world with clock } libraryPlain l
      simp [Value.isTable, luaInsert_top, filled]
  | _ =>
      rw [entry] at found
      obtain ⟨inner, global, same⟩ := Option.map_eq_some_iff.mp found
      cases same
      have there : luaLFindtable rt libname ⟨.table loaded :: below, passed, { world with clock }⟩ =
          .ok true ⟨.table inner.1 :: .table loaded :: below, passed, { world with clock, heap := inner.2 }⟩ :=
        luaLFindtable_found undotted plain.globals global
      have entered := @luaSetfield_below₂ H rt loaded below passed { world with clock, heap := inner.2 }
        (findLibrary_newindexed global plain.loadedTable) (lit libname) (.table inner.1) (.table inner.1)
      have filled := @setFuncs_apply H rt inner.1 below passed { world with
        clock, heap := inner.2.storeField loaded (lit libname) (.table inner.1) } libraryPlain l
      simp [Value.isTable, there, entered, luaInsert_top, filled]

theorem luaLRegister_conflict (undotted : dotted libname = [lit libname]) (unindexed : rt.Unindexed loaded)
    (registered : (world.heap.tables world.heap.registry).get (.string (lit "_LOADED")) = .table loaded)
    (conflict : libraryTable world.heap loaded (lit libname) = none) (l : List LuaLReg) :
    ∃ final, luaLRegister rt site libname l ⟨below, passed, world⟩ =
      .raise (.string (site.position ++ (lit "name conflict for module '" ++ lit libname ++ lit "'"))) final := by
  obtain ⟨clock, got⟩ := @getfieldAt_top H rt loaded below passed world unindexed (lit libname)
  unfold libraryTable at conflict
  simp only [luaLRegister, luaPushregistry, bind_apply, Outcome.ok_bind, findLoaded registered, got, luaIstable_top]
  cases entry : (world.heap.tables loaded).get (.string (lit libname)) with
  | table library =>
      rw [entry] at conflict
      cases conflict
  | _ =>
      rw [entry] at conflict
      have there : luaLFindtable rt libname ⟨.table loaded :: below, passed, { world with clock }⟩ =
          .ok false ⟨.table loaded :: below, passed, { world with clock }⟩ :=
        luaLFindtable_conflict undotted (Option.map_eq_none_iff.mp conflict)
      simp [Value.isTable, there, luaLError]

end Apply

/-! ## What is in the tables then -/

section Fields

variable {heap after : Heap} {loaded library address : Nat} {libname : Bytes} {l more : List LuaLReg} {key : Value}

theorem storeFuncs_cons (entry : LuaLReg) :
    heap.storeFuncs address (entry :: l) =
      (heap.storeField address entry.name (.function entry.func)).storeFuncs address l := rfl

theorem storeFuncs_append : heap.storeFuncs address (l ++ more) = (heap.storeFuncs address l).storeFuncs address more :=
  List.foldl_append

theorem storeFuncs_registry : (heap.storeFuncs address l).registry = heap.registry := by
  induction l generalizing heap with
  | nil => rfl
  | cons entry rest ih => exact ih

theorem storeFuncs_globals : (heap.storeFuncs address l).globals = heap.globals := by
  induction l generalizing heap with
  | nil => rfl
  | cons entry rest ih => exact ih

theorem storeFuncs_newindexed : (heap.storeFuncs address l).newindexed = heap.newindexed := by
  induction l generalizing heap with
  | nil => rfl
  | cons entry rest ih => exact ih

theorem get_storeFuncs_other {other : Nat}
    (apart : ¬ (other = address ∧ ∃ entry ∈ l, key = .string entry.name)) :
    ((heap.storeFuncs address l).tables other).get key = (heap.tables other).get key := by
  induction l generalizing heap with
  | nil => rfl
  | cons entry rest ih =>
      rw [storeFuncs_cons, ih, Heap.get_storeField, if_neg]
      · intro here
        exact apart ⟨here.1, entry, List.mem_cons_self, here.2⟩
      · intro here
        obtain ⟨same, other, member, equal⟩ := here
        exact apart ⟨same, other, List.mem_cons_of_mem _ member, equal⟩

theorem get_storeFuncs_self (distinct : (l.map LuaLReg.name).Nodup) {entry : LuaLReg} (member : entry ∈ l) :
    ((heap.storeFuncs address l).tables address).get (.string entry.name) = .function entry.func := by
  induction l generalizing heap with
  | nil => cases member
  | cons first rest ih =>
      rw [List.map_cons, List.nodup_cons] at distinct
      rcases List.mem_cons.mp member with rfl | later
      · rw [storeFuncs_cons, get_storeFuncs_other, Heap.get_storeField, if_pos ⟨rfl, rfl⟩]
        intro again
        obtain ⟨-, other, inRest, equal⟩ := again
        rw [Value.string.injEq] at equal
        exact distinct.1 (equal ▸ List.mem_map_of_mem inRest)
      · exact ih distinct.2 later

/-- Whichever table it is, it is loaded then. -/
theorem libraryTable_loaded (found : libraryTable heap loaded libname = some (library, after)) :
    (after.tables loaded).get (.string libname) = .table library := by
  unfold libraryTable at found
  split at found
  · rename_i table entry
    cases found
    exact entry
  · obtain ⟨inner, -, same⟩ := Option.map_eq_some_iff.mp found
    cases same
    rw [Heap.get_storeField, if_pos ⟨rfl, rfl⟩]

theorem libraryTable_globals (found : libraryTable heap loaded libname = some (library, after)) :
    after.globals = heap.globals := by
  unfold libraryTable at found
  split at found
  · cases found
    rfl
  · obtain ⟨inner, global, same⟩ := Option.map_eq_some_iff.mp found
    cases same
    unfold findLibrary at global
    split at global <;> cases global <;> rfl

/-- Of the tables that were there, only the entries of the library may change. -/
theorem libraryTable_other (found : libraryTable heap loaded libname = some (library, after))
    (other : key ≠ .string libname) (there : address < heap.nextTable) :
    after.registry = heap.registry ∧ (after.tables address).get key = (heap.tables address).get key := by
  unfold libraryTable at found
  split at found
  · cases found
    exact ⟨rfl, rfl⟩
  · obtain ⟨inner, global, same⟩ := Option.map_eq_some_iff.mp found
    cases same
    rw [Heap.get_storeField, if_neg fun here => other here.2]
    unfold findLibrary at global
    split at global
    · cases global
      exact ⟨rfl, rfl⟩
    · cases global
      refine ⟨rfl, ?_⟩
      rw [Heap.get_storeField, if_neg fun here => other here.2]
      simp [Heap.allocate, Heap.store, there.ne]
    · cases global

/-- A second array for the same library finds the table of the first. -/
theorem libraryTable_again (found : libraryTable heap loaded libname = some (library, after))
    (apart : ∀ entry ∈ l, entry.name ≠ libname) :
    libraryTable (after.storeFuncs library l) loaded libname = some (library, after.storeFuncs library l) := by
  have entry : ((after.storeFuncs library l).tables loaded).get (.string libname) = .table library := by
    rw [get_storeFuncs_other, libraryTable_loaded found]
    intro here
    obtain ⟨-, entry, member, equal⟩ := here
    exact apart entry member (Value.string.inj equal).symm
  unfold libraryTable
  rw [entry]

/-- The second array is stored where the first one was. -/
theorem PlainLibrary.storeFuncs (plain : PlainLibrary heap loaded libname)
    (found : libraryTable heap loaded libname = some (library, after))
    (again : libraryTable (after.storeFuncs library l) loaded libname =
      some (library, after.storeFuncs library l)) :
    PlainLibrary (after.storeFuncs library l) loaded libname where
  globals := by
    rw [storeFuncs_newindexed, storeFuncs_globals, libraryTable_globals found]
    exact libraryTable_newindexed found plain.globals
  loadedTable := by
    rw [storeFuncs_newindexed]
    exact libraryTable_newindexed found plain.loadedTable
  library := by
    intro other last same
    rw [again] at same
    cases same
    rw [storeFuncs_newindexed]
    exact plain.library library after found

end Fields

end GameServer.Lua
