import GameServer.Module.HeaderEncode
import GameServer.Module.UriEscape

namespace GameServer

open Lua LuaM

/-! What can be read back from `encode_header`. -/

/-- A piece cut at its first `=`. -/
def cutPair (piece : Bytes) : Bytes × Bytes :=
  let name := piece.takeWhile (· ≠ 61)
  (name, piece.drop (name.length + 1))

/-- The pairs of an encoded header, cut at every `&`; the empty text has none. -/
def decodeHeader (text : Bytes) : List (Bytes × Bytes) :=
  if text = [] then [] else (text.splitOn 38).map cutPair

def stringEntry (pair : Bytes × Bytes) : Value × Value :=
  (.string pair.1, .string pair.2)

/-- A table from strings to strings in which the separators of the encoding occur at most
where they cannot be mistaken: no `&` at all, and no `=` in a key. -/
def Lua.Table.Separable (table : Table) : Prop :=
  ∀ entry ∈ table.entries, ∃ pair, entry = stringEntry pair ∧
    61 ∉ pair.1 ∧ 38 ∉ pair.1 ∧ 38 ∉ pair.2

theorem separable_of_encoded {table : Table}
    (encoded : ∀ entry ∈ table.entries, ∃ key value,
      entry = stringEntry (evhttpUriencode key, evhttpUriencode value)) : table.Separable := by
  have noEquals := @not_mem_evhttpUriencode 61 rfl (by decide) (by decide) rfl
  have noAmpersand := @not_mem_evhttpUriencode 38 rfl (by decide) (by decide) rfl
  intro entry member
  obtain ⟨key, value, same⟩ := encoded entry member
  exact ⟨_, same, noEquals key, noAmpersand key, noAmpersand value⟩

theorem cutPair_join {key : Bytes} (free : 61 ∉ key) (value : Bytes) :
    cutPair (key ++ lit "=" ++ value) = (key, value) := by
  have name : (key ++ lit "=" ++ value).takeWhile (· ≠ 61) = key := by
    rw [List.append_assoc, List.takeWhile_append_of_pos]
    · exact List.append_nil key
    · intro byte member
      simp only [ne_eq, decide_eq_true_eq]
      intro same
      subst same
      exact free member
  have rest : (key ++ lit "=" ++ value).drop (key.length + 1) = value :=
    List.drop_left' (by simp [lit])
  simp only [cutPair, name, rest]

theorem pairText_stringEntry (platform : Platform) (pair : Bytes × Bytes) :
    pairText platform (stringEntry pair) = pair.1 ++ lit "=" ++ pair.2 := rfl

theorem splitOn_headerText (platform : Platform) {table : Table} (separable : table.Separable)
    (filled : table.entries ≠ []) :
    (headerText platform table).splitOn 38 = table.entries.map (pairText platform) := by
  apply List.splitOn_intercalate
  · intro piece member
    obtain ⟨entry, inside, rfl⟩ := List.mem_map.mp member
    obtain ⟨pair, rfl, -, keyFree, valueFree⟩ := separable entry inside
    rw [pairText_stringEntry]
    have equals : 38 ∉ lit "=" := by decide
    simp [keyFree, valueFree, equals]
  · simpa using filled

theorem headerText_eq_nil_iff (platform : Platform) {table : Table} :
    headerText platform table = [] ↔ table.entries = [] := by
  rw [headerText, ← restText_true]
  cases entries : table.entries with
  | nil => simp [restText]
  | cons entry rest => simp [restText, pairText, lit]

theorem decodeHeader_headerText (platform : Platform) {table : Table} (separable : table.Separable) :
    (decodeHeader (headerText platform table)).map stringEntry = table.entries := by
  unfold decodeHeader
  by_cases empty : table.entries = []
  · rw [if_pos ((headerText_eq_nil_iff platform).mpr empty), empty]
    rfl
  · rw [if_neg (mt (headerText_eq_nil_iff platform).mp empty),
      splitOn_headerText platform separable empty, List.map_map, List.map_map]
    conv_rhs => rw [← List.map_id table.entries]
    apply List.map_congr_left
    intro entry member
    obtain ⟨pair, rfl, free, -, -⟩ := separable entry member
    simp only [Function.comp_apply, pairText_stringEntry, cutPair_join free, id_eq]

theorem Lua.Table.ext_entries {table other : Table} (same : table.entries = other.entries) :
    table = other := by
  cases table
  cases other
  cases same
  rfl

/-- An encoding that fits in the buffer can be read back, pair by pair and in order, and no
other table has it. -/
theorem luaHttpUriHeaderEncode_decodes (rt : Runtime Server) (address fuel : Nat) (base : List Value)
    (passed : List (Sink × CharPtr)) (world : World Server)
    (separable : (world.heap.tables address).Separable)
    (enough : (world.heap.tables address).entries.length < fuel)
    (fits : (headerText rt.toPlatform (world.heap.tables address)).length ≤ rt.bufferSize) :
    ∃ encoded, luaHttpUriHeaderEncode rt fuel ⟨.table address :: base, passed, world⟩ =
        .ok 1 ⟨.string encoded :: base, passed, world⟩ ∧
      (decodeHeader encoded).map stringEntry = (world.heap.tables address).entries ∧
      ∀ (otherAddress otherFuel : Nat) (otherWorld : World Server),
        (otherWorld.heap.tables otherAddress).Separable →
        (otherWorld.heap.tables otherAddress).entries.length < otherFuel →
        (headerText rt.toPlatform (otherWorld.heap.tables otherAddress)).length ≤ rt.bufferSize →
        luaHttpUriHeaderEncode rt otherFuel ⟨.table otherAddress :: base, passed, otherWorld⟩ =
          .ok 1 ⟨.string encoded :: base, passed, otherWorld⟩ →
        otherWorld.heap.tables otherAddress = world.heap.tables address := by
  have encodes {address fuel : Nat} {world : World Server}
      (enough : (world.heap.tables address).entries.length < fuel)
      (fits : (headerText rt.toPlatform (world.heap.tables address)).length ≤ rt.bufferSize) :
      luaHttpUriHeaderEncode rt fuel ⟨.table address :: base, passed, world⟩ =
        .ok 1 ⟨.string (headerText rt.toPlatform (world.heap.tables address)) :: base, passed,
          world⟩ := by
    rw [headerText, ← restText_true] at fits ⊢
    exact luaHttpUriHeaderEncode_fits rt address fuel base passed world enough fits
  refine ⟨_, encodes enough fits, decodeHeader_headerText rt.toPlatform separable, ?_⟩
  intro otherAddress otherFuel otherWorld otherSeparable otherEnough otherFits same
  rw [encodes otherEnough otherFits] at same
  have equal : headerText rt.toPlatform (otherWorld.heap.tables otherAddress) =
      headerText rt.toPlatform (world.heap.tables address) := by
    injection same with _ states
    injection states with frames
    injection frames with first
    injection first
  apply Table.ext_entries
  rw [← decodeHeader_headerText rt.toPlatform otherSeparable, equal,
    decodeHeader_headerText rt.toPlatform separable]

/-- `{a = "1=2", b = ""}`. -/
private def twoHeaders : World Server :=
  .start (.ofTables [.ofFields [("a", .string (lit "1=2")), ("b", .string [])]])

theorem luaHttpUriHeaderEncode_decodes_two :
    ∃ encoded, luaHttpUriHeaderEncode default 3 ⟨[.table 0], [], twoHeaders⟩ =
        .ok 1 ⟨[.string encoded], [], twoHeaders⟩ ∧
      (decodeHeader encoded).map stringEntry =
        [stringEntry (lit "a", lit "1=2"), stringEntry (lit "b", [])] := by
  have separable : (twoHeaders.heap.tables 0).Separable := by
    intro entry member
    have listed : entry ∈ [stringEntry (lit "a", lit "1=2"), stringEntry (lit "b", [])] := member
    simp only [List.mem_cons, List.not_mem_nil, or_false] at listed
    rcases listed with first | second
    · exact ⟨_, first, by decide⟩
    · exact ⟨_, second, by decide⟩
  obtain ⟨encoded, ran, decoded, -⟩ := luaHttpUriHeaderEncode_decodes default 0 3 [] [] twoHeaders
    separable (by decide) (by decide)
  exact ⟨encoded, ran, decoded⟩

end GameServer
