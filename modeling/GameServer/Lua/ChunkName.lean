import GameServer.CString

namespace GameServer.Lua

/-! What a chunk is called: the file `require` looks for, the source `luaL_loadfile` names
it by, and how `luaO_chunkid` shows that source. -/

/-- `luaL_gsub` for a pattern of one character. -/
def luaLGsub (s : Bytes) (p : UInt8) (r : Bytes) : Bytes :=
  (cstr s).flatMap fun c => if c = p then cstr r else [c]

/-- The file name `findfile` tries for a template of the path. -/
def findfileName (template name : Bytes) : Bytes :=
  luaLGsub template 63 (luaLGsub name 46 (lit "/"))

/-- The chunk name `luaL_loadfile` gives a file. -/
def loadfileSource (filename : Bytes) : Bytes :=
  64 :: cstr filename

/-- `luaO_chunkid`, up to the terminator. -/
def luaOChunkid (source : Bytes) (bufflen : Nat) : Bytes :=
  match cstr source with
  | 61 :: name => name.take (bufflen - 1)
  | 64 :: file =>
      -- `sizeof(" '...' ")`
      let bufflen := bufflen - 8
      if file.length > bufflen then lit "..." ++ file.drop (file.length - bufflen) else file
  | text =>
      -- `sizeof(" [string \"...\"] ")`
      let bufflen := bufflen - 17
      let len := min (text.takeWhile fun c => c ≠ 10 ∧ c ≠ 13).length bufflen
      if len < text.length then lit "[string \"" ++ text.take len ++ lit "...\"]"
      else lit "[string \"" ++ text ++ lit "\"]"

theorem luaOChunkid_file {source file : Bytes} (read : cstr source = 64 :: file) {bufflen : Nat}
    (fits : file.length ≤ bufflen - 8) : luaOChunkid source bufflen = file := by
  have short : ¬ file.length > bufflen - 8 := by omega
  simp only [luaOChunkid, read, short, if_false]

theorem luaOChunkid_long {source file : Bytes} (read : cstr source = 64 :: file) {bufflen : Nat}
    (long : bufflen - 8 < file.length) :
    luaOChunkid source bufflen = lit "..." ++ file.drop (file.length - (bufflen - 8)) := by
  simp only [luaOChunkid, read, gt_iff_lt, long, if_true]

theorem length_luaOChunkid (source : Bytes) {bufflen : Nat} (room : 17 < bufflen) :
    (luaOChunkid source bufflen).length < bufflen := by
  unfold luaOChunkid
  split
  · rw [List.length_take]
    omega
  · dsimp only
    split
    · have dots : (lit "...").length = 3 := by decide
      rw [List.length_append, List.length_drop, dots]
      omega
    · omega
  · have opening : (lit "[string \"").length = 9 := by decide
    have truncated : (lit "...\"]").length = 5 := by decide
    have closing : (lit "\"]").length = 2 := by decide
    dsimp only
    split
    · rw [List.length_append, List.length_append, List.length_take, opening, truncated]
      omega
    · rw [List.length_append, List.length_append, opening, closing]
      omega

theorem zero_not_mem_luaOChunkid (source : Bytes) (bufflen : Nat) :
    0 ∉ luaOChunkid source bufflen := by
  have free := zero_not_mem_cstr source
  unfold luaOChunkid
  split
  · rename_i name read
    rw [read] at free
    intro member
    exact free (List.mem_cons_of_mem _ (List.mem_of_mem_take member))
  · rename_i file read
    rw [read, List.mem_cons, not_or] at free
    have dots : (0 : UInt8) ∉ lit "..." := by decide
    have shown : 0 ∉ file.drop (file.length - (bufflen - 8)) :=
      fun member => free.2 (List.mem_of_mem_drop member)
    dsimp only
    split
    · rw [List.mem_append, not_or]
      exact ⟨dots, shown⟩
    · exact free.2
  · have opening : (0 : UInt8) ∉ lit "[string \"" := by decide
    have truncated : (0 : UInt8) ∉ lit "...\"]" := by decide
    have closing : (0 : UInt8) ∉ lit "\"]" := by decide
    have shown (len : Nat) : 0 ∉ (cstr source).take len :=
      fun member => free (List.mem_of_mem_take member)
    dsimp only
    split
    · simp only [List.mem_append, not_or]
      exact ⟨⟨opening, shown _⟩, truncated⟩
    · simp only [List.mem_append, not_or]
      exact ⟨⟨opening, free⟩, closing⟩

/-! ## Activation records -/

/-- A `CallInfo`: a C function, or a Lua function with what `funcinfo` reads of its
prototype and the calls lost before it. -/
inductive CallInfo where
  | c
  | lua (source : Bytes) (linedefined : Nat) (tailcalls : Nat)
deriving DecidableEq

def CallInfo.tailcalls : CallInfo → Nat
  | .c => 0
  | .lua _ _ tailcalls => tailcalls

/-- What `lua_getstack` finds at a level: a call, or one lost to tail calls. -/
inductive Activation where
  | call (ci : CallInfo)
  | tail
deriving DecidableEq

/-- `lua_getstack`, from the running function down. -/
def luaGetstack : Int → List CallInfo → Option Activation
  | level, [] => if level < 0 then some .tail else none
  | level, ci :: callers =>
      if 0 < level then luaGetstack (level - 1 - ci.tailcalls) callers
      else if level = 0 then some (.call ci)
      else some .tail

theorem luaGetstack_one (caller : CallInfo) (callers : List CallInfo) :
    luaGetstack 1 (.c :: caller :: callers) = some (.call caller) := by
  simp [luaGetstack, CallInfo.tailcalls]

end GameServer.Lua
