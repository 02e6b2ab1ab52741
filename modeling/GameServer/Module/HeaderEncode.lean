import GameServer.Lua.Traversal
import GameServer.Module.HttpUtil

namespace GameServer.Lua

open LuaM

namespace Buffer

/-! While the characters fit, a `luaL_Buffer` stays off the Lua stack. -/

variable {H : Type} {platform : Platform} {b : Buffer}

theorem addchar_fits (room : b.buffer.length < platform.bufferSize) (c : UInt8) (state : LuaState H) :
    addchar platform b c state = .ok { b with buffer := b.buffer ++ [c] } state := by
  simp [addchar, makeRoom, room]

theorem addlstring_fits {bytes : Bytes} (fits : b.buffer.length + bytes.length ≤ platform.bufferSize)
    (state : LuaState H) :
    addlstring platform b bytes state = .ok { b with buffer := b.buffer ++ bytes } state := by
  induction bytes generalizing b with
  | nil => simp [addlstring]
  | cons c rest ih =>
      rw [List.length_cons] at fits
      have room : b.buffer.length < platform.bufferSize := by omega
      have next := @ih { b with buffer := b.buffer ++ [c] } (by simp; omega)
      simp only [addlstring, bind_apply, addchar_fits room, Outcome.ok_bind, next,
        List.append_assoc, List.singleton_append]

def text (platform : Platform) (value : Value) : Bytes :=
  (value.toLuaString platform).getD []

theorem addvalue_fits {value : Value} (below : List Value) (passed : List (Sink × CharPtr))
    (world : World H)
    (fits : b.buffer.length + (text platform value).length ≤ platform.bufferSize) :
    addvalue platform b ⟨value :: below, passed, world⟩ =
      .ok { b with buffer := b.buffer ++ text platform value } ⟨below, passed, world⟩ := by
  have room : (text platform value).length ≤ b.bufffree platform := by
    unfold bufffree
    omega
  have read : luaTolstring platform (-1) ⟨value :: below, passed, world⟩ = _ :=
    luaTostring_top platform value below passed world
  unfold text at room ⊢
  simp [addvalue, read, room]

theorem pushresult_unflushed (buffer : Bytes) (state : LuaState H) :
    ∃ after, pushresult platform ⟨buffer, 0⟩ state =
      .ok after { state with stack := .string buffer :: state.stack } := by
  cases buffer with
  | nil => exact ⟨_, rfl⟩
  | cons c rest => exact ⟨_, rfl⟩

end Buffer

end GameServer.Lua

namespace GameServer

open Lua LuaM

/-! `encode_header` as a join. -/

/-- `tostring(k) .. '=' .. tostring(v)`. -/
def pairText (platform : Platform) (entry : Value × Value) : Bytes :=
  Buffer.text platform entry.1 ++ lit "=" ++ Buffer.text platform entry.2

/-- The encoding of a table: its pairs in traversal order, separated by `&`. -/
def headerText (platform : Platform) (table : Table) : Bytes :=
  (lit "&").intercalate (table.entries.map (pairText platform))

/-- What stands before a pair. -/
def separator (isHead : Bool) : Bytes :=
  if isHead then [] else lit "&"

/-- The encoding of the pairs from some pair on. -/
def restText (platform : Platform) (isHead : Bool) : List (Value × Value) → Bytes
  | [] => []
  | entry :: rest =>
      separator isHead ++ pairText platform entry ++ restText platform false rest

theorem restText_true (platform : Platform) (entries : List (Value × Value)) :
    restText platform true entries = (lit "&").intercalate (entries.map (pairText platform)) := by
  cases entries with
  | nil => rfl
  | cons entry rest =>
      induction rest generalizing entry with
      | nil => simp [restText, separator]
      | cons next rest ih =>
          have tail := ih next
          rw [List.map_cons, List.map_cons, List.intercalate_cons_cons, ← List.map_cons, ← tail]
          simp [restText, separator]

section Loop

variable {rt : Runtime Server} {address : Nat} {base : List Value}
  {passed : List (Sink × CharPtr)} {world : World Server} {key : Value}

theorem addSeparator_fits {before : Bytes} {isHead : Bool}
    (fits : before.length + (separator isHead).length ≤ rt.bufferSize)
    (state : LuaState Server) :
    addSeparator rt ⟨before, 0⟩ isHead state =
      .ok ⟨before ++ separator isHead, 0⟩ state := by
  cases isHead with
  | true => simp [addSeparator, separator]
  | false => exact Buffer.addlstring_fits fits state

/-- The loop from the pair after `key`, with `before` already in the buffer: the key
stays on top between two pairs as long as the buffer does not overflow. -/
theorem headerEncodeFrom_fits {fuel : Nat} {before : Bytes} {isHead : Bool}
    {done rest : List (Value × Value)}
    (entries : (world.heap.tables address).entries = done ++ rest)
    (next : (world.heap.tables address).next key = some rest.head?)
    (fits : before.length + (restText rt.toPlatform isHead rest).length ≤ rt.bufferSize)
    (enough : rest.length < fuel) :
    headerEncodeFrom rt (base.length + 1) fuel ⟨before, 0⟩ isHead
        ⟨key :: .table address :: base, passed, world⟩ =
      .ok ⟨before ++ restText rt.toPlatform isHead rest, 0⟩
        ⟨.table address :: base, passed, world⟩ := by
  induction rest generalizing fuel before isHead done key with
  | nil =>
      obtain ⟨fuel, rfl⟩ : ∃ smaller, fuel = smaller + 1 := ⟨fuel - 1, by simp at enough; omega⟩
      simp [headerEncodeFrom, luaNext_end next, restText]
  | cons entry rest ih =>
      obtain ⟨fuel, rfl⟩ : ∃ smaller, fuel = smaller + 1 := ⟨fuel - 1, by simp at enough; omega⟩
      obtain ⟨key', value⟩ := entry
      have length : (restText rt.toPlatform isHead ((key', value) :: rest)).length =
          (separator isHead).length + (Buffer.text rt.toPlatform key').length + (lit "=").length +
            (Buffer.text rt.toPlatform value).length + (restText rt.toPlatform false rest).length := by
        simp only [restText, pairText, List.length_append]
        omega
      rw [length] at fits
      have separated := @addSeparator_fits rt before isHead (by omega)
      have withKey := @Buffer.addvalue_fits Server rt.toPlatform ⟨before ++ separator isHead, 0⟩ key'
        (value :: key' :: .table address :: base) passed world
        (by simp only [List.length_append]; omega)
      have withEquals := @Buffer.addlstring_fits Server rt.toPlatform
        ⟨before ++ separator isHead ++ Buffer.text rt.toPlatform key', 0⟩ (lit "=")
        (by simp only [List.length_append]; omega)
      have withValue := @Buffer.addvalue_fits Server rt.toPlatform
        ⟨before ++ separator isHead ++ Buffer.text rt.toPlatform key' ++ lit "=", 0⟩ value
        (key' :: .table address :: base) passed world
        (by simp only [List.length_append]; omega)
      have after := @ih key' fuel
        (before ++ separator isHead ++ Buffer.text rt.toPlatform key' ++ lit "=" ++
          Buffer.text rt.toPlatform value) false (done ++ [(key', value)])
        (by simpa using entries) (Table.next_of_append entries)
        (by simp only [List.length_append]; omega)
        (by simp only [List.length_cons] at enough; omega)
      simp only [headerEncodeFrom, bind_apply, luaNext_more next, Outcome.ok_bind, if_true,
        separated, luaPushvalue_top₂, withKey, Buffer.addstring, withEquals, withValue, after]
      simp [restText, pairText]

end Loop

theorem luaHttpUriHeaderEncode_fits (rt : Runtime Server) (address fuel : Nat) (base : List Value)
    (passed : List (Sink × CharPtr)) (world : World Server)
    (enough : (world.heap.tables address).entries.length < fuel)
    (fits : (restText rt.toPlatform true (world.heap.tables address).entries).length ≤ rt.bufferSize) :
    luaHttpUriHeaderEncode rt fuel ⟨.table address :: base, passed, world⟩ =
      .ok 1 ⟨.string (restText rt.toPlatform true (world.heap.tables address).entries) :: base,
        passed, world⟩ := by
  have loop := @headerEncodeFrom_fits rt address base passed world .nil fuel [] true []
    (world.heap.tables address).entries rfl (Table.next_nil _) (by simpa using fits) enough
  obtain ⟨buffer, result⟩ := @Buffer.pushresult_unflushed Server rt.toPlatform
    (restText rt.toPlatform true (world.heap.tables address).entries)
    ⟨.table address :: base, passed, world⟩
  have cut := luaSettop_length
    (.string (restText rt.toPlatform true (world.heap.tables address).entries) :: base) passed world []
  simp only [List.nil_append, List.length_cons, Nat.cast_add, Nat.cast_one] at loop cut
  have isTable : luaIstable ((base.length : Int) + 1) ⟨.table address :: base, passed, world⟩ =
      .ok true ⟨.table address :: base, passed, world⟩ := by
    simp [luaIstable, valueAt, Value.isTable]
  simp [luaHttpUriHeaderEncode, isTable, luaPushnil, Buffer.init, loop, result, luaReplace, cut]

/-- A table whose encoding fits in the C buffer is replaced by the join of its pairs; a
value that is neither a string nor a number counts as no characters. -/
theorem luaHttpUriHeaderEncode_join (rt : Runtime Server) (address fuel : Nat) (base : List Value)
    (passed : List (Sink × CharPtr)) (world : World Server)
    (enough : (world.heap.tables address).entries.length < fuel)
    (fits : (headerText rt.toPlatform (world.heap.tables address)).length ≤ rt.bufferSize) :
    luaHttpUriHeaderEncode rt fuel ⟨.table address :: base, passed, world⟩ =
      .ok 1 ⟨.string (headerText rt.toPlatform (world.heap.tables address)) :: base, passed,
        world⟩ := by
  have text := restText_true rt.toPlatform (world.heap.tables address).entries
  change _ = headerText rt.toPlatform (world.heap.tables address) at text
  rw [← text] at fits ⊢
  exact luaHttpUriHeaderEncode_fits rt address fuel base passed world enough fits

private def twoPairs : World Server :=
  .start (.ofTables [.ofFields [("a", .string (lit "1")), ("b", .string (lit "2"))]])

theorem luaHttpUriHeaderEncode_two :
    luaHttpUriHeaderEncode default 3 ⟨[.table 0, .nil], [], twoPairs⟩ =
      .ok 1 ⟨[.string (lit "a=1&b=2"), .nil], [], twoPairs⟩ := by
  have text : headerText (default : Runtime Server).toPlatform (twoPairs.heap.tables 0) =
      lit "a=1&b=2" := by decide
  rw [← text]
  exact luaHttpUriHeaderEncode_join default 0 3 [.nil] [] twoPairs (by decide) (by decide)

/-! ## Overflow -/

/-- A value that does not fit, behind fewer characters than it has: the C buffer goes to
the stack and the two become one string, which stays there. -/
theorem Lua.Buffer.addvalue_overflow {platform : Platform} {buffer value : Bytes} (below : List Value)
    (passed : List (Sink × CharPtr)) (world : World Server) (filled : buffer ≠ [])
    (longer : buffer.length < value.length)
    (overflows : platform.bufferSize < buffer.length + value.length) :
    Buffer.addvalue platform ⟨buffer, 0⟩ ⟨.string value :: below, passed, world⟩ =
      .ok ⟨[], 1⟩ ⟨.string (buffer ++ value) :: below, passed, world⟩ := by
  have room : ¬ value.length ≤ (⟨buffer, 0⟩ : Buffer).bufffree platform := by
    unfold Buffer.bufffree
    dsimp only
    omega
  have read : luaTolstring platform (-1) ⟨.string value :: below, passed, world⟩ = _ :=
    luaTostring_top platform (.string value) below passed world
  have inserted : luaInsert (-2) ⟨.string buffer :: .string value :: below, passed, world⟩ =
      .ok () ⟨.string value :: .string buffer :: below, passed, world⟩ := by
    simp [luaInsert]
  have topLength : luaObjlen platform (-1) ⟨.string value :: .string buffer :: below, passed, world⟩ =
      .ok value.length ⟨.string value :: .string buffer :: below, passed, world⟩ := by
    simp [luaObjlen, valueAt]
  have nextLength : luaObjlen platform (-2) ⟨.string value :: .string buffer :: below, passed, world⟩ =
      .ok buffer.length ⟨.string value :: .string buffer :: below, passed, world⟩ := by
    simp [luaObjlen, valueAt]
  have tall : ¬ below.length + 1 + 1 < 2 := by omega
  simp [Buffer.addvalue, read, room, Value.toLuaString, Value.converted, Buffer.emptybuffer, filled,
    inserted, Buffer.adjuststack, topLength, Buffer.togetFrom, nextLength, longer, luaConcat, tall,
    Value.isString]

/-- One pair of strings whose value overflows the C buffer: the loop goes on with the
joined string on top of the key. -/
theorem headerEncodeFrom_flushes {rt : Runtime Server} {address : Nat} {base : List Value}
    {passed : List (Sink × CharPtr)} {world : World Server} {key value : Bytes}
    (entries : (world.heap.tables address).entries = [(.string key, .string value)])
    (keyFits : key.length + 1 ≤ rt.bufferSize) (longer : key.length + 1 < value.length)
    (overflows : rt.bufferSize < key.length + 1 + value.length) (fuel : Nat) :
    headerEncodeFrom rt (base.length + 1) (fuel + 1) Buffer.init true
        ⟨.nil :: .table address :: base, passed, world⟩ =
      headerEncodeFrom rt (base.length + 1) fuel ⟨[], 1⟩ false
        ⟨.string (key ++ lit "=" ++ value) :: .string key :: .table address :: base, passed,
          world⟩ := by
  have first : (world.heap.tables address).next .nil = some (some (.string key, .string value)) := by
    rw [Table.next_nil, entries]
    rfl
  have equals : (lit "=").length = 1 := by decide
  have keyText : Buffer.text rt.toPlatform (.string key) = key := rfl
  have withKey := @Buffer.addvalue_fits Server rt.toPlatform Buffer.init (.string key)
    (.string value :: .string key :: .table address :: base) passed world
    (by simp only [Buffer.init, keyText, List.length_nil]; omega)
  have withEquals := @Buffer.addlstring_fits Server rt.toPlatform ⟨key, 0⟩ (lit "=")
    (by simp only [equals]; omega)
  have flushed := @Buffer.addvalue_overflow rt.toPlatform (key ++ lit "=") value
    (.string key :: .table address :: base) passed world (by simp [lit])
    (by simp only [List.length_append, equals]; omega)
    (by simp only [List.length_append, equals]; omega)
  simp only [keyText, Buffer.init, List.nil_append] at withKey
  have start (state : LuaState Server) : addSeparator rt ⟨[], 0⟩ true state = .ok ⟨[], 0⟩ state := rfl
  simp only [headerEncodeFrom, bind_apply, luaNext_more first, Outcome.ok_bind, if_true, start,
    luaPushvalue_top₂, withKey, Buffer.addstring, withEquals, flushed, Buffer.init]

/-- No table with this one pair has the joined string as its key, so `lua_next` fails. -/
theorem headerEncodeFrom_overflow {rt : Runtime Server} {address : Nat} {base : List Value}
    {passed : List (Sink × CharPtr)} {world : World Server} {key value : Bytes}
    (entries : (world.heap.tables address).entries = [(.string key, .string value)])
    (keyFits : key.length + 1 ≤ rt.bufferSize) (longer : key.length + 1 < value.length)
    (overflows : rt.bufferSize < key.length + 1 + value.length) (fuel : Nat) (b : Buffer)
    (after : LuaState Server) :
    headerEncodeFrom rt (base.length + 1) fuel Buffer.init true
      ⟨.nil :: .table address :: base, passed, world⟩ ≠ .ok b after := by
  cases fuel with
  | zero => exact nofun
  | succ fuel =>
      rw [headerEncodeFrom_flushes entries keyFits longer overflows]
      cases fuel with
      | zero => exact nofun
      | succ fuel =>
          have unknown : (world.heap.tables address).next (.string (key ++ lit "=" ++ value)) = none := by
            refine Table.next_of_not_mem nofun ?_
            rw [entries]
            intro member
            have same := congrArg List.length (Value.string.inj (List.mem_singleton.mp member))
            simp only [List.length_append, (by decide : (lit "=").length = 1)] at same
            omega
          have failed : luaNext ((base.length : Int) + 1) ⟨.string (key ++ lit "=" ++ value) ::
              .string key :: .table address :: base, passed, world⟩ = _ :=
            luaNext_unknown base [.string key] unknown
          rw [headerEncodeFrom, bind_apply, failed]
          exact nofun

/-- `{a = "bbb…"}` with as many `b` as the C buffer has room for. -/
def longValue : World Server :=
  .start (.ofTables [.ofFields [("a", .string (List.replicate 512 98))]])

theorem luaHttpUriHeaderEncode_counterexample :
    ¬ ∃ fuel passed after, luaHttpUriHeaderEncode default fuel ⟨[.table 0], [], longValue⟩ =
      .ok 1 ⟨[.string (headerText default (longValue.heap.tables 0))], passed, after⟩ := by
  intro encodes
  obtain ⟨fuel, passed, after, ran⟩ := encodes
  have entries : (longValue.heap.tables 0).entries =
      [(.string (lit "a"), .string (List.replicate 512 98))] := rfl
  have isTable : luaIstable 1 ⟨[.table 0], [], longValue⟩ = .ok true ⟨[.table 0], [], longValue⟩ := rfl
  simp only [luaHttpUriHeaderEncode, bind_apply, luaGettop_apply, Outcome.ok_bind,
    List.length_singleton, Nat.cast_one] at ran
  simp [isTable, luaPushnil] at ran
  obtain ⟨b, looped, loop, -⟩ := Outcome.bind_eq_ok.mp ran
  have room : (default : Runtime Server).bufferSize = 512 := rfl
  have keyLength : (lit "a").length = 1 := rfl
  have valueLength : (List.replicate 512 (98 : UInt8)).length = 512 := List.length_replicate
  exact @headerEncodeFrom_overflow default 0 [] [] longValue _ _ entries
    (by rw [room, keyLength]; omega) (by rw [keyLength, valueLength]; omega)
    (by rw [room, keyLength, valueLength]; omega) fuel b looped loop

end GameServer
