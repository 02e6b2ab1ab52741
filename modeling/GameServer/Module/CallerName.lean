import GameServer.Lua.ChunkName
import GameServer.Lua.Collected
import GameServer.Module.LuaUtil

namespace GameServer

open Lua LuaM

/-! What `this()` answers for each kind of caller. -/

def funcinfo : CallInfo → LuaDebug
  | .c => ⟨lit "=[C]", lit "C", luaOChunkid (lit "=[C]") luaIdsize⟩
  | .lua source linedefined _ =>
      ⟨source, if linedefined = 0 then lit "main" else lit "Lua", luaOChunkid source luaIdsize⟩

def infoTailcall : LuaDebug :=
  ⟨lit "=(tail call)", lit "tail", luaOChunkid (lit "=(tail call)") luaIdsize⟩

def luaGetinfo : Activation → LuaDebug
  | .call ci => funcinfo ci
  | .tail => infoTailcall

/-- The records `lua_this` gets when these functions are active. -/
def activeRecords (active : List CallInfo) (level : Nat) : Option LuaDebug :=
  (luaGetstack level active).map luaGetinfo

def separatorToDot (c : UInt8) : UInt8 :=
  if c = 92 ∨ c = 47 then 46 else c

/-- The name `lua_this` cuts out of what follows the prefix of `short_src`. -/
def cutName (start : Bytes) : Bytes :=
  if 46 ∉ start ∨ start.takeWhile (· ≠ 46) = [] then lit "_G"
  else (start.takeWhile (· ≠ 46)).map separatorToDot

/-- What `lua_this` answers for a caller with this record. -/
def callerName : Option LuaDebug → Bytes
  | none => lit "_G"
  | some ar =>
      if ar.source.head? ≠ some 64 ∧ ar.what ≠ lit "Lua" then lit "_G"
      else cutName (shortSrcStart (cstr ar.shortSrc))

theorem length_shortSrcStart (src : Bytes) : (shortSrcStart src).length ≤ src.length := by
  unfold shortSrcStart
  split
  case h_4 => exact Nat.le_refl _
  all_goals
    simp only [List.length_cons]
    omega

section This

variable (rt : Runtime Server)

theorem pushName (name : Bytes) (state : LuaState Server) :
    (do
      let b ← Buffer.addlstring rt.toPlatform Buffer.init name
      let _ ← Buffer.pushresult rt.toPlatform b
      return 1 : EngineM Nat) state =
    .ok 1 { state with stack := .string name :: state.stack } := by
  obtain ⟨below, passed, world⟩ := state
  obtain ⟨filled, stack, after, added, pushed⟩ :=
    @Buffer.addlstring_pushresult Server rt.toPlatform passed world name below
  simp only [bind_apply, added, Outcome.ok_bind, pushed, pure_apply]

theorem luaThis_apply (records : Nat → Option LuaDebug)
    (fits : ∀ level ar, records level = some ar → ar.shortSrc.length ≤ luaIdsize) {level : Int}
    {state : LuaState Server} (asked : levelArgument rt state = .ok level state) :
    luaThis rt records state = .ok 1 { state with
      stack := .string (callerName (records (if level < 1 then 1 else level).toNat)) :: state.stack } := by
  have global : cstr (lit "_G") = lit "_G" := by decide
  rw [luaThis, bind_apply, asked, Outcome.ok_bind]
  dsimp only
  cases found : records (if level < 1 then 1 else level).toNat with
  | none => simp [luaPushstring, callerName, global]
  | some ar =>
      dsimp only [callerName]
      by_cases unnamed : ar.source.head? ≠ some 64 ∧ ar.what ≠ lit "Lua"
      · simp [unnamed, luaPushstring, global]
      rw [if_neg unnamed, if_neg unnamed]
      generalize shown : shortSrcStart (cstr ar.shortSrc) = start
      have bounded : (start.takeWhile (· ≠ 46)).length ≤ luaIdsize := by
        have whole := fits _ ar found
        have cut := cstr_length_le ar.shortSrc
        have moved := length_shortSrcStart (cstr ar.shortSrc)
        have taken := (List.takeWhile_prefix (fun c : UInt8 => decide (c ≠ 46)) (l := start)).length_le
        rw [shown] at moved
        omega
      have notLong : ¬ (start.takeWhile (· ≠ 46)).length > luaIdsize := by omega
      have whole : start.take (start.takeWhile (· ≠ 46)).length = start.takeWhile (· ≠ 46) :=
        (List.prefix_iff_eq_take.mp (List.takeWhile_prefix _)).symm
      simp only [bind_apply, cond_apply, whole, notLong, or_false, Nat.lt_one_iff,
        List.length_eq_zero_iff, cutName]
      split
      · simp [luaPushstring, global]
      · exact pushName rt _ _

end This

theorem activeRecords_shortSrc {active : List CallInfo} {level : Nat} {ar : LuaDebug}
    (found : activeRecords active level = some ar) :
    ar.shortSrc = luaOChunkid ar.source luaIdsize := by
  obtain ⟨activation, -, rfl⟩ := Option.map_eq_some_iff.mp found
  cases activation with
  | call ci => cases ci <;> rfl
  | tail => rfl

theorem luaThis_active (rt : Runtime Server) (active : List CallInfo) {level : Int}
    {state : LuaState Server} (asked : levelArgument rt state = .ok level state) :
    luaThis rt (activeRecords active) state = .ok 1 { state with
      stack := .string (callerName (activeRecords active (if level < 1 then 1 else level).toNat)) ::
        state.stack } := by
  apply luaThis_apply rt _ _ asked
  intro level ar found
  rw [activeRecords_shortSrc found]
  exact Nat.le_of_lt (length_luaOChunkid ar.source (by decide))

/-! ## The cut at the first dot -/

theorem takeWhile_stem {stem : Bytes} (free : 46 ∉ stem) (rest : Bytes) :
    (stem ++ 46 :: rest).takeWhile (· ≠ 46) = stem := by
  rw [List.takeWhile_append_of_pos]
  · simp
  · intro c member
    simp only [ne_eq, decide_eq_true_eq]
    intro dot
    exact free (dot ▸ member)

theorem cutName_stem {stem : Bytes} (free : 46 ∉ stem) (rest : Bytes) :
    cutName (stem ++ 46 :: rest) =
      if stem = [] then lit "_G" else stem.map separatorToDot := by
  have dotted : 46 ∈ stem ++ 46 :: rest := by simp
  simp only [cutName, takeWhile_stem free, dotted, not_true_eq_false, false_or]

/-- Nothing a name could be cut from: no dot, a dot first, or the name of the globals. -/
def Nameless (start : Bytes) : Prop :=
  46 ∉ start ∨ [46] <+: start ∨ lit "_G." <+: start

theorem map_separatorToDot_eq_global {stem : Bytes} (same : stem.map separatorToDot = lit "_G") :
    stem = lit "_G" := by
  have kept {c d : UInt8} (plain : d ≠ 46) (turned : separatorToDot c = d) : c = d := by
    unfold separatorToDot at turned
    split at turned
    · exact absurd turned.symm plain
    · exact turned
  obtain ⟨first, tail, rfl, one, rest⟩ := List.map_eq_cons_iff.mp same
  obtain ⟨second, empty, rfl, two, none⟩ := List.map_eq_cons_iff.mp rest
  rw [List.map_eq_nil_iff.mp none, kept (by decide) one, kept (by decide) two]
  rfl

theorem cutName_eq_global_iff (start : Bytes) : cutName start = lit "_G" ↔ Nameless start := by
  by_cases dotted : 46 ∈ start
  · obtain ⟨stem, rest, rfl, free⟩ := List.eq_append_cons_of_mem dotted
    rw [cutName_stem free]
    have global : lit "_G." = lit "_G" ++ [46] := by decide
    have plain : (46 : UInt8) ∉ lit "_G" := by decide
    cases stem with
    | nil => exact iff_of_true rfl (.inr (.inl ⟨rest, rfl⟩))
    | cons c tail =>
        rw [if_neg (List.cons_ne_nil c tail)]
        constructor
        · intro same
          rw [map_separatorToDot_eq_global same]
          exact .inr (.inr ⟨rest, by rw [global, List.append_assoc]; rfl⟩)
        · intro nameless
          rcases nameless with undotted | ⟨more, same⟩ | ⟨more, same⟩
          · exact absurd dotted undotted
          · rw [List.cons_append, List.cons_append, List.cons.injEq] at same
            exact absurd (same.1 ▸ List.mem_cons_self ..) free
          · have cut := congrArg (List.takeWhile fun c : UInt8 => c ≠ 46) same
            rw [global, List.append_assoc, List.singleton_append, takeWhile_stem plain,
              takeWhile_stem free] at cut
            rw [← cut]
            decide
  · apply iff_of_true
    · rw [cutName, if_pos (.inl dotted)]
    · exact .inl dotted

end GameServer
