import GameServer.Lua.Buffer

namespace GameServer.Lua

/-! Which pointers a C function hands on.  Most of the Lua API hands on none. -/

variable {H α β : Type}

def Sound (passed : List (Sink × CharPtr)) : Prop :=
  ∀ handed ∈ passed, handed.2 ≠ none

theorem sound_nil : Sound [] := nofun

theorem sound_append {passed : List (Sink × CharPtr)} {sink : Sink} {pointer : CharPtr} :
    Sound (passed ++ [(sink, pointer)]) ↔ Sound passed ∧ pointer ≠ none := by
  simp only [Sound, List.mem_append, List.mem_singleton]
  constructor
  · exact fun sound => ⟨fun handed member => sound handed (.inl member), sound _ (.inr rfl)⟩
  · intro each handed member
    obtain ⟨sound, present⟩ := each
    rcases member with member | rfl
    · exact sound handed member
    · exact present

theorem sound_append_some {passed : List (Sink × CharPtr)} (sound : Sound passed) (sink : Sink)
    (bytes : Bytes) : Sound (passed ++ [(sink, some bytes)]) :=
  sound_append.mpr ⟨sound, nofun⟩

/-- The code handed on no NULL, however it ended. -/
def Outcome.HandsNoNull (outcome : Outcome H α) : Prop :=
  outcome.All fun state => Sound state.passed

def LuaM.HandsNoNull (action : LuaM H α) : Prop :=
  ∀ state, Sound state.passed → (action state).HandsNoNull

/-- What hands on nothing does not matter to what was handed on before. -/
theorem Outcome.handsNoNull_bind_iff {outcome : Outcome H α} {next : α → LuaState H → Outcome H β}
    (silent : ∀ value after, (next value after).All fun state => state.passed = after.passed) :
    (outcome.bind next).HandsNoNull ↔ outcome.HandsNoNull := by
  cases outcome with
  | ok value after =>
      have same := silent value after
      change (next value after).HandsNoNull ↔ Sound after.passed
      cases ended : next value after <;>
      · rw [ended] at same
        simp only [HandsNoNull, All] at same ⊢
        rw [same]
  | raise error after => exact Iff.rfl
  | fault reason after => exact Iff.rfl

namespace LuaM

theorem hands_pure (value : α) : (pure value : LuaM H α).HandsNoNull :=
  fun _ sound => sound

theorem hands_bind {action : LuaM H α} {next : α → LuaM H β} (first : action.HandsNoNull)
    (second : ∀ value, (next value).HandsNoNull) : (action >>= next).HandsNoNull :=
  fun state sound => Outcome.All.bind (first state sound) fun value after => second value after

theorem hands_ite {condition : Prop} [Decidable condition] {yes no : LuaM H α}
    (left : yes.HandsNoNull) (right : no.HandsNoNull) :
    (if condition then yes else no).HandsNoNull := by
  split
  · exact left
  · exact right

theorem hands_crash (reason : Fault) : (crash reason : LuaM H α).HandsNoNull :=
  fun _ sound => sound

theorem hands_throw (error : Value) : (throw error : LuaM H α).HandsNoNull :=
  fun _ sound => sound

theorem hands_getStack : (getStack : LuaM H (List Value)).HandsNoNull :=
  fun _ sound => sound

theorem hands_setStack (stack : List Value) : (setStack stack : LuaM H Unit).HandsNoNull :=
  fun _ sound => sound

theorem hands_getTable (address : Nat) : (getTable address : LuaM H Table).HandsNoNull :=
  fun _ sound => sound

theorem hands_read (sink : Sink) (bytes : Bytes) :
    (read sink (some bytes) : LuaM H Bytes).HandsNoNull :=
  fun _ sound => sound_append_some sound sink bytes

end LuaM

open LuaM

theorem hands_strlen (bytes : Bytes) : (strlen (some bytes) : LuaM H Nat).HandsNoNull :=
  hands_bind (hands_read _ bytes) fun _ => hands_pure _

/-! ## The stack -/

theorem hands_valueAt (idx : Int) : (valueAt idx : LuaM H (Option Value)).HandsNoNull := by
  apply hands_bind hands_getStack
  intro stack
  split
  · exact hands_pure _
  · exact hands_pure _
  · exact hands_crash _

theorem hands_luaGettop : (luaGettop : LuaM H Nat).HandsNoNull :=
  hands_bind hands_getStack fun _ => hands_pure _

theorem hands_luaSettop (idx : Int) : (luaSettop idx : LuaM H Unit).HandsNoNull := by
  refine hands_bind hands_getStack fun stack => hands_ite (hands_ite ?_ ?_) (hands_ite ?_ ?_)
  · exact hands_setStack _
  · exact hands_setStack _
  · exact hands_setStack _
  · exact hands_crash _

theorem hands_luaPop (n : Nat) : (luaPop n : LuaM H Unit).HandsNoNull :=
  hands_luaSettop _

theorem hands_push (value : Value) : (push value : LuaM H Unit).HandsNoNull :=
  hands_bind hands_getStack fun _ => hands_setStack _

theorem hands_luaPushstring (pointer : CharPtr) : (luaPushstring pointer : LuaM H Unit).HandsNoNull := by
  cases pointer <;> exact hands_push _

theorem hands_luaPushvalue (idx : Int) : (luaPushvalue idx : LuaM H Unit).HandsNoNull :=
  hands_bind (hands_valueAt idx) fun _ => hands_push _

theorem hands_luaRemove (idx : Int) : (luaRemove idx : LuaM H Unit).HandsNoNull := by
  apply hands_bind hands_getStack
  intro stack
  split
  · exact hands_setStack _
  · exact hands_crash _

theorem hands_luaInsert (idx : Int) : (luaInsert idx : LuaM H Unit).HandsNoNull := by
  apply hands_bind hands_getStack
  intro stack
  split
  · exact hands_setStack _
  · exact hands_crash _

theorem hands_luaReplace (idx : Int) : (luaReplace idx : LuaM H Unit).HandsNoNull := by
  apply hands_bind hands_getStack
  intro stack
  split
  · exact hands_setStack _
  · exact hands_setStack _
  · exact hands_crash _

theorem hands_look (idx : Int) (view : Option Value → α) :
    (do pure (view (← valueAt idx)) : LuaM H α).HandsNoNull :=
  hands_bind (hands_valueAt idx) fun _ => hands_pure _

theorem hands_luaTolstring (platform : Platform) (idx : Int) :
    (luaTolstring platform idx : LuaM H CharPtr).HandsNoNull := by
  apply hands_bind hands_getStack
  intro stack
  split
  · exact hands_pure _
  · exact hands_crash _
  · split
    · exact hands_pure _
    · exact hands_bind (hands_setStack _) fun _ => hands_pure _
    · exact hands_pure _

/-! ## Tables -/

theorem hands_tableAt (idx : Int) : (tableAt idx : LuaM H Nat).HandsNoNull := by
  apply hands_bind (hands_valueAt idx)
  intro value
  split
  · exact hands_pure _
  · exact hands_crash _

theorem hands_luaRawget (idx : Int) : (luaRawget idx : LuaM H Unit).HandsNoNull := by
  apply hands_bind (hands_tableAt idx)
  intro address
  apply hands_bind (hands_getTable address)
  intro table
  apply hands_bind hands_getStack
  intro stack
  split
  · exact hands_setStack _
  · exact hands_crash _

theorem hands_luaNext (idx : Int) : (luaNext idx : LuaM H Bool).HandsNoNull := by
  apply hands_bind (hands_tableAt idx)
  intro address
  apply hands_bind (hands_getTable address)
  intro table
  apply hands_bind hands_getStack
  intro stack
  split
  · split
    · exact hands_throw _
    · exact hands_bind (hands_setStack _) fun _ => hands_pure _
    · exact hands_bind (hands_setStack _) fun _ => hands_pure _
  · exact hands_crash _

theorem hands_luaObjlen (platform : Platform) (idx : Int) :
    (luaObjlen platform idx : LuaM H Nat).HandsNoNull := by
  apply hands_bind (hands_valueAt idx)
  intro value
  split
  · exact hands_bind (hands_getTable _) fun _ => hands_pure _
  · exact hands_pure _
  · exact hands_bind (hands_luaTolstring platform idx) fun _ => hands_pure _
  · exact hands_pure _

theorem hands_luaConcat (platform : Platform) (n : Nat) :
    (luaConcat platform n : LuaM H Unit).HandsNoNull := by
  apply hands_ite (hands_push _)
  apply hands_ite (hands_pure _)
  apply hands_bind hands_getStack
  intro stack
  apply hands_ite (hands_crash _)
  split
  · exact hands_throw _
  · exact hands_setStack _

theorem hands_luaSettable (rt : Runtime H) (idx : Int) : (luaSettable rt idx).HandsNoNull := by
  apply hands_bind (hands_valueAt idx)
  intro object
  apply hands_bind hands_getStack
  intro stack
  rcases stack with _ | ⟨value, _ | ⟨key, rest⟩⟩
  · exact hands_crash _
  · exact hands_crash _
  · intro state sound
    dsimp only
    cases luaVSettable rt (object.getD .nil) key value state.world <;> exact sound

theorem hands_findtableFrom (rt : Runtime H) (parts : List Bytes) :
    (findtableFrom rt parts).HandsNoNull := by
  induction parts with
  | nil => exact hands_pure _
  | cons part rest ih =>
      apply hands_bind (hands_push _)
      intro _
      apply hands_bind (hands_luaRawget _)
      intro _
      refine hands_bind (hands_look _ _) fun isNil => hands_ite ?_ (hands_bind (hands_look _ _) fun isTable => ?_)
      · refine hands_bind (hands_luaPop 1) fun _ => hands_bind (fun _ sound => sound) fun _ => ?_
        apply hands_bind (hands_push _)
        intro _
        apply hands_bind (hands_luaPushvalue _)
        intro _
        exact hands_bind (hands_luaSettable rt _) fun _ => hands_bind (hands_luaRemove _) fun _ => ih
      · apply hands_ite (hands_bind (hands_luaPop 2) fun _ => hands_pure _)
        exact hands_bind (hands_luaRemove _) fun _ => ih

theorem hands_luaLFindtable (rt : Runtime H) (fname : String) : (luaLFindtable rt fname).HandsNoNull :=
  hands_bind (fun _ sound => sound) fun _ => hands_findtableFrom rt _

/-! ## Calls -/

theorem hands_luaGetglobal (rt : Runtime H) (name : CharPtr) : (luaGetglobal rt name).HandsNoNull := by
  intro state sound
  unfold luaGetglobal
  cases luaVGettable rt (.table state.world.heap.globals) (.string (cstr (name.getD []))) state.world <;>
    exact sound

theorem hands_luaPcall (rt : Runtime H) (nargs : Nat) (nresults : Option Nat) (errfunc : Int) :
    (luaPcall rt nargs nresults errfunc).HandsNoNull := by
  apply hands_bind (hands_ite (hands_pure _) (hands_valueAt _))
  intro handler
  apply hands_bind hands_getStack
  intro stack
  split
  · intro state sound
    dsimp only
    cases luaDPcall rt handler _ (stack.take nargs).reverse state.world <;> exact sound
  · exact hands_crash _

/-! ## Buffers -/

namespace Buffer

variable (platform : Platform)

theorem hands_emptybuffer (b : Buffer) : (emptybuffer b : LuaM H (Bool × Buffer)).HandsNoNull :=
  hands_ite (hands_pure _) (hands_bind (hands_push _) fun _ => hands_pure _)

theorem hands_togetFrom (lvl rest toget toplen : Nat) :
    (togetFrom platform lvl rest toget toplen : LuaM H Nat).HandsNoNull := by
  induction rest generalizing toget toplen with
  | zero => exact hands_pure _
  | succ rest ih => exact hands_bind (hands_luaObjlen _ _) fun _ => hands_ite (ih _ _) (hands_pure _)

theorem hands_adjuststack (b : Buffer) : (adjuststack platform b : LuaM H Buffer).HandsNoNull := by
  refine hands_ite (hands_bind (hands_luaObjlen _ _) fun toplen => ?_) (hands_pure _)
  apply hands_bind (hands_togetFrom _ _ _ _ _)
  intro toget
  apply hands_bind (hands_luaConcat _ _)
  intro _
  exact hands_pure _

theorem hands_addlstring (b : Buffer) (bytes : Bytes) :
    (addlstring platform b bytes : LuaM H Buffer).HandsNoNull := by
  induction bytes generalizing b with
  | nil => exact hands_pure _
  | cons c rest ih =>
      refine hands_bind (hands_bind (hands_ite (hands_pure _) ?_) fun _ => hands_pure _) fun b => ih b
      refine hands_bind (hands_emptybuffer b) fun emptied => hands_ite ?_ (hands_pure _)
      exact hands_adjuststack platform _

theorem hands_addvalue (b : Buffer) : (addvalue platform b : LuaM H Buffer).HandsNoNull := by
  refine hands_bind (hands_luaTolstring _ _) fun pointer => hands_ite ?_ ?_
  · exact hands_bind (hands_luaPop 1) fun _ => hands_pure _
  · refine hands_bind (hands_emptybuffer b) fun emptied => hands_bind (hands_ite ?_ (hands_pure _)) fun _ => ?_
    · exact hands_luaInsert _
    · exact hands_adjuststack platform _

theorem hands_pushresult (b : Buffer) : (pushresult platform b : LuaM H Buffer).HandsNoNull :=
  hands_bind (hands_emptybuffer b) fun _ => hands_bind (hands_luaConcat _ _) fun _ => hands_pure _

end Buffer

end GameServer.Lua
