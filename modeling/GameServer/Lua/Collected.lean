import GameServer.Lua.Buffer

namespace GameServer.Lua

open LuaM

/-! What a `luaL_Buffer` has collected, whatever the size of its array: the strings it
put on the stack, then the characters still in the array. -/

namespace Buffer

variable {H : Type} {b : Buffer} {below stack : List Value} {text : Bytes} {pieces : List Bytes}

/-- The topmost `lvl` values are strings; with the array they make up the text. -/
def Collects (b : Buffer) (below stack : List Value) (text : Bytes) : Prop :=
  ∃ pieces : List Bytes, stack = pieces.map Value.string ++ below ∧ b.lvl = pieces.length ∧
    pieces.reverse.flatten ++ b.buffer = text

/-- Leaves a frame that differs in the strings of the buffer alone. -/
def Recollects (outcome : Outcome H Buffer) (passed : List (Sink × CharPtr)) (world : World H)
    (below : List Value) (text : Bytes) : Prop :=
  ∃ after stack, outcome = .ok after ⟨stack, passed, world⟩ ∧ after.Collects below stack text

theorem collects_init (below : List Value) : init.Collects below below [] :=
  ⟨[], rfl, rfl, rfl⟩

theorem Collects.flush (collects : b.Collects below stack text) :
    (⟨[], b.lvl + 1⟩ : Buffer).Collects below (.string b.buffer :: stack) text := by
  obtain ⟨pieces, rfl, levels, whole⟩ := collects
  refine ⟨b.buffer :: pieces, rfl, by simp [levels], ?_⟩
  simpa using whole

theorem Collects.append (collects : b.Collects below stack text) (bytes : Bytes) :
    ({ b with buffer := b.buffer ++ bytes } : Buffer).Collects below stack (text ++ bytes) := by
  obtain ⟨pieces, rfl, levels, rfl⟩ := collects
  exact ⟨pieces, rfl, levels, (List.append_assoc _ _ _).symm⟩

/-! ## Joining strings -/

section Joining

variable (platform : Platform) (below : List Value) (passed : List (Sink × CharPtr)) (world : World H)

theorem luaObjlen_piece {position : Nat} (inside : position < pieces.length) :
    luaObjlen platform (-((position : Int) + 1)) ⟨pieces.map Value.string ++ below, passed, world⟩ =
      .ok pieces[position].length ⟨pieces.map Value.string ++ below, passed, world⟩ := by
  have negative : ¬ (0 : Int) < -((position : Int) + 1) := by omega
  have reaches : -((position : Int) + 1) < 0 ∧
      -(-((position : Int) + 1)) ≤ (pieces.map Value.string ++ below).length := by
    simp only [List.length_append, List.length_map, Nat.cast_add]
    omega
  have slot : (-(-((position : Int) + 1))).toNat - 1 = position := by omega
  have address : index2adr (pieces.map Value.string ++ below) (-((position : Int) + 1)) =
      .slot position := by
    rw [index2adr, if_neg negative, if_pos reaches, slot]
  have found : (pieces.map Value.string ++ below)[position]? = some (.string pieces[position]) := by
    rw [List.getElem?_append_left (by simpa using inside), List.getElem?_map,
      List.getElem?_eq_getElem inside, Option.map_some]
  simp only [luaObjlen, valueAt, bind_apply, getStack_apply, Outcome.ok_bind, address, found,
    pure_apply]

theorem togetFrom_within (lvl : Nat) {rest toget : Nat} (toplen : Nat)
    (within : toget + rest ≤ pieces.length) :
    ∃ joined, togetFrom platform lvl rest toget toplen
        ⟨pieces.map Value.string ++ below, passed, world⟩ =
          .ok joined ⟨pieces.map Value.string ++ below, passed, world⟩ ∧
      toget ≤ joined ∧ joined ≤ pieces.length := by
  induction rest generalizing toget toplen with
  | zero => exact ⟨toget, rfl, Nat.le_refl _, within⟩
  | succ rest ih =>
      have inside : toget < pieces.length := by omega
      have measured := luaObjlen_piece platform below passed world inside
      simp only [togetFrom, bind_apply, measured, Outcome.ok_bind, cond_apply]
      split
      · obtain ⟨joined, ran, more, fewer⟩ :=
          @ih (toget + 1) (toplen + pieces[toget].length) (by omega)
        exact ⟨joined, ran, by omega, fewer⟩
      · exact ⟨toget, rfl, Nat.le_refl _, by omega⟩

theorem luaConcat_pieces {n : Nat} (positive : 0 < n) (within : n ≤ pieces.length) :
    luaConcat platform n ⟨pieces.map Value.string ++ below, passed, world⟩ =
      .ok () ⟨((pieces.take n).reverse.flatten :: pieces.drop n).map Value.string ++ below,
        passed, world⟩ := by
  have notZero : n ≠ 0 := by omega
  by_cases single : n = 1
  · subst single
    obtain ⟨piece, rest, rfl⟩ := List.exists_cons_of_length_pos within
    simp [luaConcat]
  · have enough : ¬ (pieces.map Value.string ++ below).length < n := by
      simp only [List.length_append, List.length_map]
      omega
    have taken : (pieces.map Value.string ++ below).take n = (pieces.take n).map Value.string := by
      rw [List.take_append_of_le_length (by simpa using within), List.map_take]
    have dropped : (pieces.map Value.string ++ below).drop n =
        (pieces.drop n).map Value.string ++ below := by
      rw [List.drop_append_of_le_length (by simpa using within), List.map_drop]
    have strings : ((pieces.take n).map Value.string).find? (fun value => !value.isString) = none := by
      rw [List.find?_map, List.find?_eq_none.mpr (by simp [Value.isString])]
      rfl
    have texts : ((pieces.take n).map Value.string).map
        (fun value => (value.toLuaString platform).getD []) = pieces.take n := by
      simp [Value.toLuaString, Function.comp_def]
    simp only [luaConcat, notZero, single, if_false, bind_apply, getStack_apply, Outcome.ok_bind,
      enough, taken, strings, texts, dropped, setStack_apply, List.map_cons, List.cons_append]

theorem luaConcat_all (piece : Bytes) (pieces : List Bytes) :
    luaConcat platform (pieces.length + 1)
        ⟨.string piece :: (pieces.map Value.string ++ below), passed, world⟩ =
      .ok () ⟨.string (pieces.reverse.flatten ++ piece) :: below, passed, world⟩ := by
  have joined := luaConcat_pieces platform below passed world (Nat.succ_pos pieces.length)
    (Nat.le_refl (piece :: pieces).length)
  simpa using joined

end Joining

/-! ## The operations -/

section Operations

variable (platform : Platform) {passed : List (Sink × CharPtr)} {world : World H}

theorem adjuststack_recollects (collects : b.Collects below stack text) :
    Recollects (adjuststack platform b ⟨stack, passed, world⟩) passed world below text := by
  obtain ⟨pieces, rfl, levels, whole⟩ := collects
  unfold adjuststack
  by_cases several : b.lvl > 1
  · have first : 0 < pieces.length := by omega
    have measured := luaObjlen_piece platform below passed world first
    simp only [Nat.cast_zero, zero_add] at measured
    obtain ⟨joined, ran, positive, within⟩ := togetFrom_within platform below passed world b.lvl
      pieces[0].length (show 1 + (b.lvl - 1) ≤ pieces.length by omega)
    have concat := luaConcat_pieces platform below passed world positive within
    have fewer : b.lvl - joined + 1 = (pieces.drop joined).length + 1 := by
      rw [List.length_drop, levels]
    have same : ((pieces.take joined).reverse.flatten :: pieces.drop joined).reverse.flatten ++
        b.buffer = text := by
      have split : pieces.reverse = (pieces.drop joined).reverse ++ (pieces.take joined).reverse := by
        rw [← List.reverse_append, List.take_append_drop]
      rw [← whole, split]
      simp
    refine ⟨{ b with lvl := b.lvl - joined + 1 }, _, ?_,
      (pieces.take joined).reverse.flatten :: pieces.drop joined, rfl, fewer, same⟩
    simp only [if_pos several, bind_apply, measured, Outcome.ok_bind, ran, concat, pure_apply]
  · rw [if_neg several]
    exact ⟨b, _, rfl, pieces, rfl, levels, whole⟩

theorem makeRoom_recollects (collects : b.Collects below stack text) :
    Recollects (makeRoom platform b ⟨stack, passed, world⟩) passed world below text := by
  unfold makeRoom prepbuffer emptybuffer
  split
  · exact ⟨b, stack, rfl, collects⟩
  · split
    · exact ⟨b, stack, rfl, collects⟩
    · exact adjuststack_recollects platform collects.flush

theorem addlstring_recollects {bytes : Bytes} (collects : b.Collects below stack text) :
    Recollects (addlstring platform b bytes ⟨stack, passed, world⟩) passed world below
      (text ++ bytes) := by
  induction bytes generalizing b stack text with
  | nil => exact ⟨b, stack, rfl, by simpa using collects⟩
  | cons c rest ih =>
      obtain ⟨roomy, stack', made, kept⟩ :=
        @makeRoom_recollects _ _ _ _ _ platform passed world collects
      obtain ⟨after, final, ran, complete⟩ := ih (kept.append [c])
      refine ⟨after, final, ?_, by simpa using complete⟩
      simp only [addlstring, addchar, bind_apply, made, Outcome.ok_bind, pure_apply, ran]

theorem pushresult_collected (collects : b.Collects below stack text) :
    ∃ after, pushresult platform b ⟨stack, passed, world⟩ =
      .ok after ⟨.string text :: below, passed, world⟩ := by
  obtain ⟨buffer, lvl⟩ := b
  obtain ⟨pieces, rfl, levels, rfl⟩ := collects
  dsimp only at levels
  subst levels
  cases buffer with
  | nil =>
      cases pieces with
      | nil => exact ⟨_, rfl⟩
      | cons piece rest =>
          have joined := luaConcat_all platform below passed world piece rest
          exact ⟨⟨[], 1⟩, by simp [pushresult, emptybuffer, joined]⟩
  | cons c chars =>
      have joined := luaConcat_all platform below passed world (c :: chars) pieces
      exact ⟨⟨[], 1⟩, by simp [pushresult, emptybuffer, joined]⟩

theorem addlstring_pushresult (bytes : Bytes) (below : List Value) :
    ∃ filled stack after, addlstring platform init bytes ⟨below, passed, world⟩ =
        .ok filled ⟨stack, passed, world⟩ ∧
      pushresult platform filled ⟨stack, passed, world⟩ =
        .ok after ⟨.string bytes :: below, passed, world⟩ := by
  obtain ⟨filled, stack, ran, collects⟩ := addlstring_recollects platform (collects_init below)
  obtain ⟨after, pushed⟩ := pushresult_collected platform collects
  exact ⟨filled, stack, after, ran, pushed⟩

end Operations

end Buffer

end GameServer.Lua
