import GameServer.Lua.Arguments
import GameServer.Program.Runs

namespace GameServer

open Lua LuaM

/-! The arguments of a request call and the callback record made from them. -/

/-! ## Arguments -/

section Arguments

variable (platform : Platform)

theorem isIp_none (state : LuaState Server) :
    isIp none state =
      .fault .nullPointer { state with passed := state.passed ++ [(.strlen, none)] } := rfl

theorem isIpText_of_short {text : Bytes} (short : sizeToInt text.length < 1) :
    isIpText text = false := by
  have tooShort : ¬ 1 ≤ sizeToInt text.length := by omega
  simp only [isIpText, tooShort, decide_false, Bool.false_and]

@[simp] theorem isIp_some (ip : Bytes) (state : LuaState Server) :
    isIp (some ip) state =
      .ok (isIpText (cstr ip)) { state with passed := state.passed ++ [(.strlen, some ip)] } := by
  have unfolded : isIp (some ip) = (do
      let n ← strlen (some ip)
      if sizeToInt n < 1 then return false
      return isIpText (cstr ip)) := by
    unfold isIp
    rfl
  rw [unfolded, bind_apply, strlen_some, Outcome.ok_bind]
  by_cases short : sizeToInt (cstr ip).length < 1
  · rw [if_pos short, isIpText_of_short short]
    rfl
  · rw [if_neg short]
    rfl

/-- What `http_request` makes of arguments of which the first is the string `ip`. -/
def accepted (arguments : List Value) (ip : Bytes) (port : Int) : Option HttpArguments :=
  if isIpText (cstr ip) then do
    let table ← argumentText platform arguments 3
    let function ← argumentText platform arguments 4
    some ⟨some ip, port, argumentText platform arguments 2, table, function⟩
  else none

theorem accepted_eq_some {arguments : List Value} {ip : Bytes} {port : Int} {read : HttpArguments}
    (given : accepted platform arguments ip port = some read) :
    ∃ table function,
      read = ⟨some ip, port, argumentText platform arguments 2, table, function⟩ ∧
      argumentText platform arguments 3 = some table ∧
      argumentText platform arguments 4 = some function := by
  unfold accepted at given
  split at given
  · obtain ⟨table, tableText, given⟩ := Option.bind_eq_some_iff.mp given
    obtain ⟨function, functionText, given⟩ := Option.bind_eq_some_iff.mp given
    cases given
    exact ⟨table, function, rfl, tableText, functionText⟩
  · cases given

theorem accepted_isAddress {arguments : List Value} {ip : Bytes} {port : Int} {read : HttpArguments}
    (given : accepted platform arguments ip port = some read) : isIpText (cstr ip) = true := by
  unfold accepted at given
  split at given
  case isTrue isAddress => exact isAddress
  case isFalse => cases given

theorem httpArguments_short (rt : Runtime Server) {arguments : List Value} (short : arguments.length < 3)
    (passed : List (Sink × CharPtr)) (world : World Server) :
    httpArguments rt ⟨arguments.reverse, passed, world⟩ =
      .ok none ⟨arguments.reverse, passed, world⟩ := by
  simp [httpArguments, short]

theorem httpArguments_noIp (rt : Runtime Server) {arguments : List Value}
    (enough : 3 ≤ arguments.length) (noIp : argumentText rt.toPlatform arguments 0 = none)
    (passed : List (Sink × CharPtr)) (world : World Server) :
    ∃ stack, httpArguments rt ⟨arguments.reverse, passed, world⟩ =
      .fault .nullPointer ⟨stack, passed ++ [(.strlen, none)], world⟩ := by
  have readIp := @luaTolstring_argument rt.toPlatform Server arguments 1 0 rfl passed world
  have notShort : ¬ arguments.length < 3 := by omega
  rw [noIp] at readIp
  exact ⟨_, by simp [httpArguments, notShort, luaTostring, readIp, isIp_none]; rfl⟩

/-- The arguments are read where they are; converting one of them changes no other. -/
theorem httpArguments_apply (rt : Runtime Server) {arguments : List Value} {ip : Bytes}
    (enough : 3 ≤ arguments.length) (given : argumentText rt.toPlatform arguments 0 = some ip)
    (passed : List (Sink × CharPtr)) (world : World Server) :
    ∃ stack, httpArguments rt ⟨arguments.reverse, passed, world⟩ =
      .ok (accepted rt.toPlatform arguments ip (argumentNumber rt.toPlatform arguments 1).toInt)
        ⟨stack, passed ++ [(.strlen, some ip)], world⟩ := by
  let first := convertArgument rt.toPlatform arguments 0
  let third := convertArgument rt.toPlatform first 2
  let fourth := convertArgument rt.toPlatform third 3
  let checked := passed ++ [(Sink.strlen, some ip)]
  have readIp := @luaTolstring_argument rt.toPlatform Server arguments 1 0 rfl passed world
  have readPort := @luaTonumber_argument rt.toPlatform Server first 2 1 rfl checked world
  have readUri := @luaTolstring_argument rt.toPlatform Server first 3 2 rfl checked world
  have readTable := @luaTolstring_argument rt.toPlatform Server third 4 3 rfl checked world
  have readFunction := @luaTolstring_argument rt.toPlatform Server fourth 5 4 rfl checked world
  have notShort : ¬ arguments.length < 3 := by omega
  rw [given] at readIp
  simp only [first, third, fourth, argumentText_convertArgument] at readUri readTable readFunction
  simp only [first, argumentNumber_convertArgument rt.toPlatform arguments Nat.zero_ne_one]
    at readPort
  rw [httpArguments, bind_apply, luaGettop_apply, Outcome.ok_bind, List.length_reverse,
    if_neg notShort, bind_apply, luaTostring, readIp, Outcome.ok_bind, bind_apply, isIp_some,
    Outcome.ok_bind, accepted]
  generalize isIpText (cstr ip) = isAddress
  cases isAddress with
  | false => exact ⟨_, rfl⟩
  | true =>
  cases table : argumentText rt.toPlatform arguments 3 with
  | none =>
      exact ⟨_, by
        simp [luaTostring, readPort, readUri, readTable, table, checked]
        rfl⟩
  | some table =>
      exact ⟨_, by
        cases function : argumentText rt.toPlatform arguments 4 <;>
          simp [luaTostring, readPort, readUri, readTable, readFunction, table, function,
            checked] <;>
          rfl⟩

theorem luaHttpRequest_apply (rt : Runtime Server) (command : Command) (allocation : Allocation)
    (network : Network) {arguments : List Value} {ip uri table function : Bytes}
    (isAddress : isIpText (cstr ip) = true)
    (ipText : argumentText rt.toPlatform arguments 0 = some ip)
    (uriText : argumentText rt.toPlatform arguments 2 = some uri)
    (tableText : argumentText rt.toPlatform arguments 3 = some table)
    (functionText : argumentText rt.toPlatform arguments 4 = some function) (world : World Server) :
    ∃ stack, luaHttpRequest rt command allocation network ⟨arguments.reverse, [], world⟩ =
      sendRequest rt command allocation network
        ⟨some ip, (argumentNumber rt.toPlatform arguments 1).toInt, some uri, table, function⟩
        ⟨stack, [(.strlen, some ip)], world⟩ := by
  have enough : 3 ≤ arguments.length := lt_length_of_argumentText rt.toPlatform uriText
  obtain ⟨stack, read⟩ := httpArguments_apply rt enough ipText [] world
  have given : accepted rt.toPlatform arguments ip (argumentNumber rt.toPlatform arguments 1).toInt =
      some ⟨some ip, (argumentNumber rt.toPlatform arguments 1).toInt, some uri, table, function⟩ := by
    simp [accepted, isAddress, uriText, tableText, functionText]
  rw [given] at read
  exact ⟨stack, by rw [luaHttpRequest, bind_apply, read]; rfl⟩

theorem Arguments.argumentText_fits (arguments : Arguments) (position : Nat)
    {text : Bytes} (given : argumentText platform arguments.values position = some text) :
    text.length + 1 < 4294967296 := by
  obtain ⟨value, found, converts⟩ := Option.bind_eq_some_iff.mp given
  cases value with
  | string bytes =>
      cases converts
      exact arguments.fits text (List.mem_of_getElem? found)
  | number number =>
      cases converts
      have short := platform.number2str_fits number
      omega
  | _ => cases converts

end Arguments

/-! ## The record -/

def withPool (world : World Server) (memory : Pool) : World Server :=
  { world with host := { world.host with pools := world.host.pools.acquire memory } }

section Pools

variable {stack : List Value} {passed : List (Sink × CharPtr)} {world : World Server} {memory : Pool}

theorem poolNew_apply (state : LuaState Server) :
    poolNew true state = .ok (some state.world.host.pools.length)
      { state with world := withPool state.world ⟨none, []⟩ } := rfl

theorem poolMemory_withPool :
    poolMemory world.host.pools.length ⟨stack, passed, withPool world memory⟩ =
      .ok memory ⟨stack, passed, withPool world memory⟩ := by
  simp [poolMemory, withPool, Ledger.live?_acquire_self]

theorem setPoolMemory_withPool (changed : Pool) :
    setPoolMemory world.host.pools.length changed ⟨stack, passed, withPool world memory⟩ =
      .ok () ⟨stack, passed, withPool world changed⟩ := by
  simp [setPoolMemory, withPool, Ledger.acquire_update]

theorem poolPalloc_withPool {size : Nat} (fits : size < 4294967296) (succeeds : Bool) (junk : UInt8) :
    poolPalloc succeeds junk world.host.pools.length (sizeToInt size)
        ⟨stack, passed, withPool world memory⟩ =
      if succeeds then .ok (some memory.blocks.length) ⟨stack, passed, withPool world
        { memory with blocks := memory.blocks ++ [List.replicate size junk] }⟩
      else .ok none ⟨stack, passed, withPool world memory⟩ := by
  cases succeeds <;>
    simp [poolPalloc, poolMemory_withPool, setPoolMemory_withPool, intToSize_sizeToInt fits]

theorem poolBlock_withPool {block : Nat} {bytes : Bytes} (found : memory.blocks[block]? = some bytes) :
    poolBlock world.host.pools.length block ⟨stack, passed, withPool world memory⟩ =
      .ok bytes ⟨stack, passed, withPool world memory⟩ := by
  simp [poolBlock, poolMemory_withPool, found]

theorem setPoolBlock_withPool {block : Nat} {old bytes : Bytes}
    (found : memory.blocks[block]? = some old) (same : bytes.length = old.length) :
    setPoolBlock world.host.pools.length block bytes ⟨stack, passed, withPool world memory⟩ =
      .ok () ⟨stack, passed, withPool world
        { memory with blocks := memory.blocks.set block bytes }⟩ := by
  simp [setPoolBlock, poolMemory_withPool, found, same, setPoolMemory_withPool]

/-- What `strncpy` and the terminator leave in a fresh block. -/
def copied (text : Bytes) (junk : UInt8) : Bytes :=
  (strncpyBytes text text.length ++
    (List.replicate (text.length + 1) junk).drop text.length).set text.length 0

theorem cstr_copied_fresh (text : Bytes) (junk : UInt8) : cstr (copied text junk) = cstr text :=
  cstr_copied text (List.replicate (text.length + 1) junk)

theorem strncpy_withPool {block : Nat} {old text : Bytes} (found : memory.blocks[block]? = some old)
    (room : text.length ≤ old.length) :
    strncpy world.host.pools.length block (some text) text.length
        ⟨stack, passed, withPool world memory⟩ =
      .ok () ⟨stack, passed ++ [(.strncpy, some text)], withPool world { memory with
        blocks := memory.blocks.set block
          (strncpyBytes text text.length ++ old.drop text.length) }⟩ := by
  have same : (strncpyBytes text text.length ++ old.drop text.length).length = old.length := by
    simp only [List.length_append, length_strncpyBytes, List.length_drop]
    omega
  simp only [strncpy, bind_apply, read_some, Outcome.ok_bind, poolBlock_withPool found,
    setPoolBlock_withPool found same]

theorem terminate_withPool {block n : Nat} {old : Bytes} (found : memory.blocks[block]? = some old)
    (inside : n < old.length) :
    terminate world.host.pools.length block n ⟨stack, passed, withPool world memory⟩ =
      .ok () ⟨stack, passed, withPool world
        { memory with blocks := memory.blocks.set block (old.set n 0) }⟩ := by
  simp [terminate, poolBlock_withPool found, inside, setPoolBlock_withPool found]

theorem copy_withPool (junk : UInt8) {block : Nat} {text : Bytes}
    (found : memory.blocks[block]? = some (List.replicate (text.length + 1) junk))
    (next : Unit → LuaState Server → Outcome Server α) :
    ((strncpy world.host.pools.length block (some text) text.length
        ⟨stack, passed, withPool world memory⟩).bind fun _ after =>
      (terminate world.host.pools.length block text.length after).bind next) =
    next () ⟨stack, passed ++ [(.strncpy, some text)], withPool world
      { memory with blocks := memory.blocks.set block (copied text junk) }⟩ := by
  obtain ⟨inside, -⟩ := List.getElem?_eq_some_iff.mp found
  have written : (memory.blocks.set block (strncpyBytes text text.length ++
      (List.replicate (text.length + 1) junk).drop text.length))[block]? = some _ :=
    List.getElem?_set_self inside
  rw [strncpy_withPool found (by simp), Outcome.ok_bind, terminate_withPool written
    (by simp [length_strncpyBytes]), Outcome.ok_bind, List.set_set]
  rfl

/-- The memory of a callback record that was made. -/
def callbackMemory (pool : Nat) (table function : Bytes) (junk : UInt8) : Pool :=
  ⟨some ⟨pool, some 0, some 1⟩, [copied table junk, copied function junk]⟩

/-- The world once a script has handed over the names of a callback. -/
def withCallback (world : World Server) (table function : Bytes) (junk : UInt8) : World Server :=
  { world with host := { world.host with
    pools := world.host.pools.acquire
      (callbackMemory world.host.pools.length table function junk)
    asked := world.host.asked ++ [⟨world.host.pools.length, table, function⟩] } }

def Allocation.complete (allocation : Allocation) : Bool :=
  allocation.pool && allocation.info && allocation.table && allocation.function

/-- Either the record is complete in a new pool, or there is no pool left of it. -/
theorem newCallbackInfo_apply (allocation : Allocation) {table function : Bytes}
    (tableFits : table.length + 1 < 4294967296) (functionFits : function.length + 1 < 4294967296)
    (stack : List Value) (passed : List (Sink × CharPtr)) (world : World Server) :
    (allocation.complete = true ∧ newCallbackInfo allocation table function ⟨stack, passed, world⟩ =
      .ok (some world.host.pools.length)
        ⟨stack, passed ++ [(.strncpy, some table)] ++ [(.strncpy, some function)],
          withCallback world table function allocation.junk⟩) ∨
    (allocation.complete = false ∧ allocation.pool = false ∧
      newCallbackInfo allocation table function ⟨stack, passed, world⟩ =
        .ok none ⟨stack, passed, world⟩) ∨
    (allocation.complete = false ∧ ∃ memory,
      newCallbackInfo allocation table function ⟨stack, passed, world⟩ =
        .ok none ⟨stack, passed, { world with host := { world.host with
          pools := (world.host.pools.acquire memory).release world.host.pools.length } }⟩) := by
  obtain ⟨pool, info, tableBlock, functionBlock, junk⟩ := allocation
  cases pool with
  | false => exact .inr (.inl ⟨rfl, rfl, rfl⟩)
  | true =>
  cases info with
  | false => exact .inr (.inr ⟨rfl, ⟨none, []⟩, rfl⟩)
  | true =>
  cases tableBlock <;> cases functionBlock
  case true.true =>
    refine .inl ⟨rfl, ?_⟩
    simp only [newCallbackInfo, bind_apply, poolNew_apply, Outcome.ok_bind, Bool.not_true,
      Bool.false_eq_true, if_false, if_true, poolPalloc_withPool tableFits,
      poolPalloc_withPool functionFits, poolMemory_withPool, setPoolMemory_withPool]
    refine (copy_withPool junk ?_ _).trans ((copy_withPool junk ?_ _).trans ?_)
    · rfl
    · rfl
    · rfl
  case false.false =>
    refine .inr (.inr ⟨rfl, ⟨some ⟨world.host.pools.length, none, none⟩, []⟩, ?_⟩)
    simp only [newCallbackInfo, bind_apply, poolNew_apply, Outcome.ok_bind, Bool.not_true,
      Bool.false_eq_true, if_false, poolPalloc_withPool tableFits, poolPalloc_withPool functionFits,
      poolMemory_withPool, setPoolMemory_withPool]
    rfl
  case true.false =>
    refine .inr (.inr ⟨rfl, ⟨some ⟨world.host.pools.length, some 0, none⟩,
      [List.replicate (table.length + 1) junk]⟩, ?_⟩)
    simp only [newCallbackInfo, bind_apply, poolNew_apply, Outcome.ok_bind, Bool.not_true,
      Bool.false_eq_true, if_false, if_true, poolPalloc_withPool tableFits,
      poolPalloc_withPool functionFits, poolMemory_withPool, setPoolMemory_withPool]
    rfl
  case false.true =>
    refine .inr (.inr ⟨rfl, ⟨some ⟨world.host.pools.length, none, some 0⟩,
      [List.replicate (function.length + 1) junk]⟩, ?_⟩)
    simp only [newCallbackInfo, bind_apply, poolNew_apply, Outcome.ok_bind, Bool.not_true,
      Bool.false_eq_true, if_false, if_true, poolPalloc_withPool tableFits,
      poolPalloc_withPool functionFits, poolMemory_withPool, setPoolMemory_withPool]
    rfl

end Pools

end GameServer
