import GameServer.Module.CallerName

namespace GameServer

open Lua LuaM

/-! Whether the module `this()` names is the one its caller was loaded from. -/

/-- What may stand before a module's path in the source of its chunk. -/
def pathPrefixes : List Bytes :=
  [[], lit "./", lit ".\\"]

/-- The file of a module: its path, with nothing else that has a dot. -/
def ModuleFile (file : Bytes) : Prop :=
  ∃ before ∈ pathPrefixes, ∃ path, file = before ++ path ++ lit ".lua" ∧ 46 ∉ path

/-- The source is the file of the module of this name, its dots turned into separators. -/
def SourceOf (source name : Bytes) : Prop :=
  ∃ before ∈ pathPrefixes, ∃ path, cstr source = 64 :: (before ++ path ++ lit ".lua") ∧
    46 ∉ path ∧ path.map separatorToDot = name

/-- No name of another module is cut out of this source: it is a file too long to be shown,
or without a name, or the file of a module; or no file, and its caller no Lua function or
what is shown of it without a name. -/
def Honest (source what : Bytes) : Prop :=
  if source.head? = some 64 then
    let file := (cstr source).tail
    52 < file.length ∨ Nameless (shortSrcStart file) ∨ ModuleFile file
  else what ≠ lit "Lua" ∨ Nameless (shortSrcStart (luaOChunkid source luaIdsize))

theorem shortSrcStart_plain {c : UInt8} (plain : c ≠ 46) (rest : Bytes) :
    shortSrcStart (c :: rest) = c :: rest := by
  unfold shortSrcStart
  split
  case h_4 => rfl
  all_goals
    rename_i same
    exact absurd (List.cons.inj same).1 plain

theorem shortSrcStart_before {before path : Bytes} (known : before ∈ pathPrefixes) (filled : path ≠ [])
    (free : 46 ∉ path) : shortSrcStart (before ++ path ++ lit ".lua") = path ++ lit ".lua" := by
  obtain ⟨c, rest, rfl⟩ := List.exists_cons_of_ne_nil filled
  have plain : c ≠ 46 := fun dot => free (dot ▸ List.mem_cons_self ..)
  simp only [pathPrefixes, List.mem_cons, List.not_mem_nil, or_false] at known
  rcases known with rfl | rfl | rfl
  · exact shortSrcStart_plain plain _
  · rfl
  · rfl

theorem cutName_module {before path : Bytes} (known : before ∈ pathPrefixes) (filled : path ≠ [])
    (free : 46 ∉ path) :
    cutName (shortSrcStart (before ++ path ++ lit ".lua")) = path.map separatorToDot := by
  have extension : lit ".lua" = 46 :: lit "lua" := by decide
  rw [shortSrcStart_before known filled free, extension, cutName_stem free, if_neg filled]

theorem cutName_empty {before : Bytes} (known : before ∈ pathPrefixes) :
    cutName (shortSrcStart (before ++ [] ++ lit ".lua")) = lit "_G" := by
  simp only [pathPrefixes, List.mem_cons, List.not_mem_nil, or_false] at known
  rcases known with rfl | rfl | rfl <;> decide

theorem head?_of_cstr {source rest : Bytes} {c : UInt8} (read : cstr source = c :: rest) :
    source.head? = some c := by
  cases source with
  | nil => cases read
  | cons d tail =>
      unfold cstr at read
      rw [List.takeWhile_cons] at read
      split at read
      · rw [(List.cons.inj read).1]
        rfl
      · cases read

theorem cstr_of_head? {source : Bytes} (marked : source.head? = some 64) :
    cstr source = 64 :: (cstr source).tail := by
  cases source with
  | nil => cases marked
  | cons c rest =>
      cases marked
      rfl

section Files

variable {source what file : Bytes} (read : cstr source = 64 :: file)

include read

theorem callerName_file (short : file.length ≤ 52) :
    callerName (some ⟨source, what, luaOChunkid source luaIdsize⟩) = cutName (shortSrcStart file) := by
  have shown : luaOChunkid source luaIdsize = file := luaOChunkid_file read short
  have free : 0 ∉ file := shown ▸ zero_not_mem_luaOChunkid source luaIdsize
  simp only [callerName, head?_of_cstr read, ne_eq, not_true_eq_false, false_and, if_false, shown,
    cstr_of_not_mem free]

theorem callerName_long (long : 52 < file.length) :
    callerName (some ⟨source, what, luaOChunkid source luaIdsize⟩) = lit "_G" := by
  have shown := luaOChunkid_long read (show luaIdsize - 8 < file.length from long)
  have whole := cstr_of_not_mem (zero_not_mem_luaOChunkid source luaIdsize)
  simp only [callerName, head?_of_cstr read, ne_eq, not_true_eq_false, false_and, if_false, whole]
  rw [cutName_eq_global_iff, shown]
  exact .inr (.inl ⟨_, rfl⟩)

end Files

theorem sourceOf_callerName_iff (source what : Bytes) :
    (callerName (some ⟨source, what, luaOChunkid source luaIdsize⟩) ≠ lit "_G" →
      SourceOf source (callerName (some ⟨source, what, luaOChunkid source luaIdsize⟩))) ↔
      Honest source what := by
  by_cases marked : source.head? = some 64
  · have read := cstr_of_head? marked
    rw [Honest, if_pos marked]
    dsimp only
    generalize (cstr source).tail = file at read ⊢
    by_cases long : 52 < file.length
    · apply iff_of_true
      · intro named
        exact absurd (callerName_long read long) named
      · exact .inl long
    rw [callerName_file read (by omega)]
    constructor
    · intro sound
      by_cases nameless : Nameless (shortSrcStart file)
      · exact .inr (.inl nameless)
      have named := (cutName_eq_global_iff _).not.mpr nameless
      obtain ⟨before, known, path, same, free, -⟩ := sound named
      rw [read] at same
      exact .inr (.inr ⟨before, known, path, (List.cons.inj same).2, free⟩)
    · intro honest named
      rcases honest with cut | nameless | ⟨before, known, path, rfl, free⟩
      · exact absurd cut long
      · exact absurd ((cutName_eq_global_iff _).mpr nameless) named
      · by_cases filled : path = []
        · subst filled
          exact absurd (cutName_empty known) named
        · exact ⟨before, known, path, read, free, (cutName_module known filled free).symm⟩
  · have unnamed : ∀ name, ¬ SourceOf source name := by
      intro name named
      obtain ⟨before, -, path, read, -⟩ := named
      exact marked (head?_of_cstr read)
    have whole := cstr_of_not_mem (zero_not_mem_luaOChunkid source luaIdsize)
    rw [Honest, if_neg marked, ← cutName_eq_global_iff]
    simp only [unnamed, imp_false, not_not, callerName, marked, ne_eq, not_false_eq_true, true_and, whole]
    split
    · rename_i notLua
      exact iff_of_true rfl (.inl notLua)
    · rename_i lua
      simp only [lua, false_or]

/-- `this()` names no module but that of its caller, whoever calls it at whatever level,
exactly when that caller is honest. -/
theorem luaThis_invents_iff (rt : Runtime Server) (callers : List CallInfo) (level : Int)
    (state : LuaState Server) (asked : levelArgument rt state = .ok level state) :
    (∀ final name, luaThis rt (activeRecords (.c :: callers)) state = .ok 1 final →
        final.stack.head? = some (.string name) → name ≠ lit "_G" →
        ∃ ar, activeRecords (.c :: callers) (if level < 1 then 1 else level).toNat = some ar ∧
          SourceOf ar.source name) ↔
      ∀ ar, activeRecords (.c :: callers) (if level < 1 then 1 else level).toNat = some ar →
        Honest ar.source ar.what := by
  have ran := luaThis_active rt (.c :: callers) asked
  cases found : activeRecords (.c :: callers) (if level < 1 then 1 else level).toNat with
  | none =>
      apply iff_of_true
      · intro final name returned top named
        rw [ran, found] at returned
        cases returned
        cases top
        exact absurd rfl named
      · intro ar active
        cases active
  | some ar =>
      have shown := activeRecords_shortSrc found
      obtain ⟨source, what, shortSrc⟩ := ar
      dsimp only at shown
      subst shown
      rw [found] at ran
      have honest := sourceOf_callerName_iff source what
      constructor
      · intro sound ar active
        cases active
        apply honest.mp
        intro named
        obtain ⟨ar, active, sourceOf⟩ := sound _ _ ran rfl named
        cases active
        exact sourceOf
      · intro all final name returned top named
        rw [ran] at returned
        cases returned
        cases top
        exact ⟨_, rfl, honest.mpr (all _ rfl) named⟩

/-- A function of a module from a file. -/
private def inModule : List CallInfo :=
  [.lua (lit "@./game/player.lua") 12 0]

private def noArguments : LuaState Server :=
  ⟨[], [], .start (.ofTables [])⟩

theorem luaThis_invents_module :
    ∃ ar, activeRecords (.c :: inModule) 1 = some ar ∧ SourceOf ar.source (lit "game.player") := by
  have sound := (luaThis_invents_iff default inModule 0 noArguments rfl).mpr
  have ran := luaThis_active default (.c :: inModule) (show levelArgument default noArguments = .ok 0 _ from rfl)
  refine sound ?_ _ _ ran (by decide) (by decide)
  intro ar active
  cases active
  exact .inr (.inr ⟨lit "./", by decide, lit "game/player", by decide, by decide⟩)

/-- `loadstring("function f.g() return this() end")`, called from that function. -/
theorem luaThis_invents_counterexample :
    ¬ ∀ final name, luaThis default
        (activeRecords [.c, .lua (lit "function f.g() return this() end") 1 0]) noArguments =
          .ok 1 final →
      final.stack.head? = some (.string name) → name ≠ lit "_G" →
      ∃ ar, activeRecords [.c, .lua (lit "function f.g() return this() end") 1 0] 1 = some ar ∧
        SourceOf ar.source name := by
  intro sound
  have ran := luaThis_active default [.c, .lua (lit "function f.g() return this() end") 1 0]
    (show levelArgument default noArguments = .ok 0 _ from rfl)
  obtain ⟨ar, active, before, -, path, read, -⟩ := sound _ (lit "[string \"function f") ran (by decide)
    (by decide)
  cases active
  have marked := head?_of_cstr read
  revert marked
  decide

/-! ## Modules that `require` loaded -/

/-- The name of a module: components without separators, joined by dots. -/
structure ModuleName where
  name : Bytes
  plain : ∀ c ∈ name, c ≠ 47 ∧ c ≠ 92 ∧ c ≠ 0
  components : ∀ component ∈ name.splitOn 46, component ≠ []

namespace ModuleName

variable (module : ModuleName)

/-- The path `require` makes of the name. -/
def path : Bytes :=
  module.name.map fun c => if c = 46 then 47 else c

/-- The source of the chunk `require` loads through `./?.lua`. -/
def source : Bytes :=
  loadfileSource (findfileName (lit "./?.lua") module.name)

theorem path_ne_nil : module.path ≠ [] := by
  intro empty
  have none := List.map_eq_nil_iff.mp empty
  exact module.components [] (by rw [none]; decide) rfl

theorem dot_not_mem_path : 46 ∉ module.path := by
  intro member
  obtain ⟨c, -, turned⟩ := List.mem_map.mp member
  split at turned
  · cases turned
  · rename_i plain
    exact plain turned

theorem zero_not_mem_path : 0 ∉ module.path := by
  intro member
  obtain ⟨c, inside, turned⟩ := List.mem_map.mp member
  split at turned
  · cases turned
  · exact (module.plain c inside).2.2 turned

theorem map_path : module.path.map separatorToDot = module.name := by
  rw [path, List.map_map]
  conv_rhs => rw [← List.map_id module.name]
  apply List.map_congr_left
  intro c member
  obtain ⟨noSlash, noBackslash, -⟩ := module.plain c member
  by_cases dot : c = 46
  · subst dot
    rfl
  · simp [separatorToDot, dot, noSlash, noBackslash]

theorem luaLGsub_name : luaLGsub module.name 46 (lit "/") = module.path := by
  have whole : cstr module.name = module.name :=
    cstr_of_not_mem fun member => (module.plain 0 member).2.2 rfl
  have separator : cstr (lit "/") = [47] := by decide
  have each : (fun c : UInt8 => if c = 46 then cstr (lit "/") else [c]) =
      fun c => [if c = 46 then 47 else c] := by
    funext c
    rw [separator]
    split <;> rfl
  rw [luaLGsub, whole, each, path, List.map_eq_flatMap]

theorem cstr_source : cstr module.source = 64 :: (lit "./" ++ module.path ++ lit ".lua") := by
  have free := module.zero_not_mem_path
  have template : cstr (lit "./?.lua") = [46, 47, 63, 46, 108, 117, 97] := by decide
  have file : findfileName (lit "./?.lua") module.name = lit "./" ++ module.path ++ lit ".lua" := by
    rw [findfileName, luaLGsub_name, luaLGsub, template, cstr_of_not_mem free]
    rfl
  have marks : (0 : UInt8) ∉ lit "./" ∧ (0 : UInt8) ∉ lit ".lua" := by decide
  have whole : 0 ∉ 64 :: (lit "./" ++ module.path ++ lit ".lua") := by simp [free, marks]
  rw [source, loadfileSource, file, cstr_of_not_mem fun member => whole (List.mem_cons_of_mem _ member)]
  exact cstr_of_not_mem whole

end ModuleName

/-- Called at level 1 from a module, `this()` answers with the name of the module exactly
when the name has at most 46 bytes. -/
theorem luaThis_inverts_iff (rt : Runtime Server) (module : ModuleName) (linedefined tailcalls : Nat)
    (callers : List CallInfo) (level : Int) (atMostOne : level ≤ 1) (state : LuaState Server)
    (asked : levelArgument rt state = .ok level state) :
    (∃ final, luaThis rt
        (activeRecords (.c :: .lua module.source linedefined tailcalls :: callers)) state =
          .ok 1 final ∧
      final.stack.head? = some (.string module.name)) ↔ module.name.length ≤ 46 := by
  have caller : (if level < 1 then 1 else level).toNat = 1 := by
    split <;> omega
  have ran := luaThis_active rt (.c :: .lua module.source linedefined tailcalls :: callers) asked
  have record : activeRecords (.c :: .lua module.source linedefined tailcalls :: callers) 1 =
      some (funcinfo (.lua module.source linedefined tailcalls)) :=
    congrArg (Option.map luaGetinfo) (luaGetstack_one _ callers)
  rw [caller, record] at ran
  have answers : (∃ final, luaThis rt
        (activeRecords (.c :: .lua module.source linedefined tailcalls :: callers)) state =
          .ok 1 final ∧ final.stack.head? = some (.string module.name)) ↔
      callerName (some (funcinfo (.lua module.source linedefined tailcalls))) = module.name := by
    rw [ran]
    simp
  rw [answers, funcinfo]
  have read := module.cstr_source
  have size : (lit "./" ++ module.path ++ lit ".lua").length = module.name.length + 6 := by
    have marks : (lit "./").length = 2 ∧ (lit ".lua").length = 4 := by decide
    simp only [List.length_append, ModuleName.path, List.length_map, marks]
    omega
  by_cases short : module.name.length ≤ 46
  · apply iff_of_true _ short
    rw [callerName_file read (by omega), cutName_module (by decide) module.path_ne_nil
      module.dot_not_mem_path, module.map_path]
  · apply iff_of_false _ short
    rw [callerName_long read (by omega)]
    intro same
    have lengths := congrArg List.length same
    have two : (lit "_G").length = 2 := by decide
    omega

private theorem playerBag_plain :
    ∀ c ∈ lit "player.bag", c ≠ 47 ∧ c ≠ 92 ∧ c ≠ 0 := by
  decide +kernel

private theorem playerBag_components :
    ∀ component ∈ (lit "player.bag").splitOn 46, component ≠ [] := by
  decide +kernel

private def playerBag : ModuleName :=
  ⟨lit "player.bag", playerBag_plain, playerBag_components⟩

theorem luaThis_inverts_bag :
    ∃ final, luaThis default (activeRecords [.c, .lua playerBag.source 0 0]) noArguments = .ok 1 final ∧
      final.stack.head? = some (.string (lit "player.bag")) :=
  (luaThis_inverts_iff default playerBag 0 0 [] 0 (by decide) noArguments rfl).mpr (by decide)

private theorem longName_plain :
    ∀ c ∈ lit "game.inventory.equipment.enchantment.description", c ≠ 47 ∧ c ≠ 92 ∧ c ≠ 0 := by
  decide +kernel

private theorem longName_components :
    ∀ component ∈ (lit "game.inventory.equipment.enchantment.description").splitOn 46, component ≠ [] := by
  decide +kernel

private def longName : ModuleName :=
  ⟨lit "game.inventory.equipment.enchantment.description", longName_plain, longName_components⟩

theorem luaThis_inverts_counterexample :
    ¬ ∃ final, luaThis default (activeRecords [.c, .lua longName.source 0 0]) noArguments = .ok 1 final ∧
      final.stack.head? = some (.string longName.name) := by
  intro answered
  obtain ⟨final, ran, top⟩ := answered
  have shown := luaThis_active default [.c, .lua longName.source 0 0]
    (show levelArgument default noArguments = .ok 0 _ from rfl)
  rw [shown] at ran
  cases ran
  revert top
  decide

end GameServer
