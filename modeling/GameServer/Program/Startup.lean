import GameServer.Lua.Register

namespace GameServer

open Lua LuaM

/-! The libraries of C functions `init_httpd` gives to the scripts. -/

section Libraries

-- where the C functions are, by their names in the source
variable (native : String → FunctionRef)

def luaHttpLib : List LuaLReg :=
  [⟨lit "post", native "lua_http_request_post"⟩, ⟨lit "get", native "lua_http_request_get"⟩,
    ⟨lit "dump", native "dump_base"⟩, ⟨lit "is_array", native "test_array"⟩]

def luaCommonHttpLib : List LuaLReg :=
  [⟨lit "encode_uri", native "lua_http_uri_encode"⟩, ⟨lit "decode_uri", native "lua_http_uri_decode"⟩,
    ⟨lit "encode_header", native "lua_http_uri_header_encode"⟩,
    ⟨lit "decode_header", native "lua_http_uri_header_decode"⟩]

def httpFunctions : List LuaLReg :=
  luaHttpLib native ++ luaCommonHttpLib native

variable {H : Type} (rt : Runtime H) (site : CallSite)

/-- `_init_httpd`: `_reg_lua_http`, then `reg_lua_http`. -/
def initHttpd : LuaM H Unit := do
  luaLRegister rt site "http" (luaHttpLib native)
  luaLRegister rt site "http" (luaCommonHttpLib native)

end Libraries

section Registered

variable {H : Type} {native : String → FunctionRef} {rt : Runtime H} {site : CallSite} {loaded : Nat}
  {below : List Value} {passed : List (Sink × CharPtr)} {world : World H}

theorem httpFunctions_names : (httpFunctions native).map LuaLReg.name =
    [lit "post", lit "get", lit "dump", lit "is_array", lit "encode_uri", lit "decode_uri", lit "encode_header",
      lit "decode_header"] := rfl

theorem httpFunctions_apart {entry : LuaLReg} (member : entry ∈ httpFunctions native) :
    entry.name ≠ lit "http" ∧ entry.name ≠ lit "_LOADED" := by
  have all : ∀ name ∈ [lit "post", lit "get", lit "dump", lit "is_array", lit "encode_uri", lit "decode_uri",
      lit "encode_header", lit "decode_header"], name ≠ lit "http" ∧ name ≠ lit "_LOADED" := by
    decide +kernel
  exact all entry.name (httpFunctions_names ▸ List.mem_map_of_mem member)

theorem httpFunctions_distinct : ((httpFunctions native).map LuaLReg.name).Nodup := by
  rw [httpFunctions_names]
  decide +kernel

/-- Where no metamethod stands in the way, the scripts find all eight functions in one table,
which `package.loaded` has too and which keeps what else was in it; it stays on the stack twice.
Where `http` is something else already, `luaL_register` raises an error, and nothing catches it. -/
theorem initHttpd_registers (unindexed : rt.Unindexed loaded)
    (registered : (world.heap.tables world.heap.registry).get (.string (lit "_LOADED")) = .table loaded)
    (inside : world.heap.registry < world.heap.nextTable) :
    (∀ library heap, libraryTable world.heap loaded (lit "http") = some (library, heap) →
      PlainLibrary world.heap loaded (lit "http") →
      ∃ clock final, initHttpd native rt site ⟨below, passed, world⟩ =
          .ok () ⟨.table library :: .table library :: below, passed, { world with clock, heap := final }⟩ ∧
        (final.tables loaded).get (.string (lit "http")) = .table library ∧
        (∀ entry ∈ httpFunctions native, (final.tables library).get (.string entry.name) = .function entry.func) ∧
        ∀ address key, ¬ (address = library ∧ ∃ entry ∈ httpFunctions native, key = .string entry.name) →
          (final.tables address).get key = (heap.tables address).get key) ∧
    (libraryTable world.heap loaded (lit "http") = none →
      ∃ final, initHttpd native rt site ⟨below, passed, world⟩ =
        .raise (.string (site.position ++ lit "name conflict for module 'http'")) final) := by
  have undotted : dotted "http" = [lit "http"] := by decide +kernel
  constructor
  · intro library heap found plain
    let middle := heap.storeFuncs library (luaHttpLib native)
    have first : ∃ clock, luaLRegister rt site "http" (luaHttpLib native) ⟨below, passed, world⟩ =
        .ok () ⟨.table library :: below, passed, { world with clock, heap := middle }⟩ :=
      luaLRegister_found undotted unindexed registered plain found (luaHttpLib native)
    obtain ⟨early, first⟩ := first
    have again : libraryTable middle loaded (lit "http") = some (library, middle) :=
      libraryTable_again found fun entry member =>
        (httpFunctions_apart (List.mem_append_left (luaCommonHttpLib native) member)).1
    have stillRegistered : (middle.tables middle.registry).get (.string (lit "_LOADED")) = .table loaded := by
      have other : Value.string (lit "_LOADED") ≠ .string (lit "http") := by decide +kernel
      have old := libraryTable_other found other inside
      rw [storeFuncs_registry, get_storeFuncs_other, old.1, old.2, registered]
      intro here
      obtain ⟨-, entry, member, equal⟩ := here
      exact (httpFunctions_apart (List.mem_append_left (luaCommonHttpLib native) member)).2 (Value.string.inj equal).symm
    have stillPlain : PlainLibrary middle loaded (lit "http") := plain.storeFuncs found again
    have second : ∃ clock, luaLRegister rt site "http" (luaCommonHttpLib native)
        ⟨.table library :: below, passed, { world with clock := early, heap := middle }⟩ =
          .ok () ⟨.table library :: .table library :: below, passed,
            { world with clock, heap := middle.storeFuncs library (luaCommonHttpLib native) }⟩ :=
      luaLRegister_found undotted unindexed stillRegistered stillPlain again (luaCommonHttpLib native)
    obtain ⟨late, second⟩ := second
    have all : middle.storeFuncs library (luaCommonHttpLib native) = heap.storeFuncs library (httpFunctions native) :=
      storeFuncs_append.symm
    refine ⟨late, heap.storeFuncs library (httpFunctions native), ?_, ?_, ?_, ?_⟩
    · rw [initHttpd, bind_apply, first, Outcome.ok_bind, second, all]
    · rw [get_storeFuncs_other, libraryTable_loaded found]
      intro here
      obtain ⟨-, entry, member, equal⟩ := here
      exact (httpFunctions_apart member).1 (Value.string.inj equal).symm
    · exact fun entry member => get_storeFuncs_self httpFunctions_distinct member
    · exact fun address key apart => get_storeFuncs_other apart
  · intro conflict
    have raised : ∃ final, luaLRegister rt site "http" (luaHttpLib native) ⟨below, passed, world⟩ =
        .raise (.string (site.position ++ lit "name conflict for module 'http'")) final :=
      luaLRegister_conflict undotted unindexed registered conflict (luaHttpLib native)
    obtain ⟨final, raised⟩ := raised
    exact ⟨final, by rw [initHttpd, bind_apply, raised, Outcome.raise_bind]⟩

end Registered

/-- A Lua state with the tables of the globals, of `package.loaded` and of the registry. -/
def bareHeap : Heap :=
  (Heap.ofTables [.empty, .empty]).storeField 2 (lit "_LOADED") (.table 1)

theorem initHttpd_registers_bare :
    ∃ library clock final, initHttpd (fun name => .native name.length) default ⟨[], [], false⟩
        ⟨[], [], ⟨bareHeap, [], 0, ()⟩⟩ =
          .ok () ⟨[.table library, .table library], [], ⟨final, [], clock, ()⟩⟩ ∧
      (final.tables library).get (.string (lit "dump")) = .function (.native "dump_base".length) := by
  have loaded : (bareHeap.tables bareHeap.registry).get (.string (lit "_LOADED")) = .table 1 := by decide +kernel
  have global : (libraryTable bareHeap 1 (lit "http")).isSome = true := by decide +kernel
  obtain ⟨found, global⟩ := Option.isSome_iff_exists.mp global
  obtain ⟨clock, final, ran, -, functions, -⟩ :=
    (@initHttpd_registers Unit (fun name => .native name.length) default ⟨[], [], false⟩ 1 [] []
      ⟨bareHeap, [], 0, ()⟩ (fun _ _ => rfl) loaded (by decide +kernel)).1 found.1 found.2 global
        ⟨rfl, rfl, fun _ _ found => libraryTable_newindexed found rfl⟩
  have dump : (⟨lit "dump", .native "dump_base".length⟩ : LuaLReg) ∈ httpFunctions fun name => .native name.length :=
    List.mem_cons_of_mem _ (List.mem_cons_of_mem _ List.mem_cons_self)
  exact ⟨found.1, clock, final, ran, functions _ dump⟩

end GameServer
