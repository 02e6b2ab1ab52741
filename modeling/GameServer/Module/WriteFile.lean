import GameServer.Lua.Arguments
import GameServer.Module.LuaUtil

namespace GameServer

open Lua LuaM

/-! `write_file`: what reaches the file, and what the script is told. -/

/-! ## The log functions -/

/-- The bytes of one record: the time where it is asked for, the message, a newline. -/
def recordText (isWithTime : Bool) (datetime msg : Bytes) : Bytes :=
  (if isWithTime then lit "[" ++ cstr datetime ++ lit "] " else []) ++ msg ++ lit "\n"

/-- What `log_file` and `log_file_with_time` leave in the buffer when the message is
their format. -/
def printedRecord (isWithTime : Bool) (datetime msg : Bytes) : Option Bytes :=
  (Printf.format (cstr msg) []).map (recordText isWithTime datetime)

/-- A file after a record was appended to it. -/
def appended (files : Bytes → Option Bytes) (file : Bytes) (record : Bytes) :
    Bytes → Option Bytes :=
  Function.update files file ((files file).map (· ++ record))

def FileOutcome.steps (outcome : FileOutcome) (file : Bytes) : List FileStep :=
  if outcome.opens then [.open_ file, .lock, .unlock, .close] else [.unlock]

def FileOutcome.files (outcome : FileOutcome) (before : Bytes → Option Bytes) (file : Bytes)
    (record : Bytes) : Bytes → Option Bytes :=
  if outcome.opens ∧ outcome.contiguous ∧ outcome.writes then appended before file record else before

/-- The world after one log call. -/
def withRecord (world : World Server) (outcome : FileOutcome) (file : Bytes)
    (record : Bytes) : World Server :=
  if outcome.buffer then { world with host := { world.host with
    files := outcome.files world.host.files file record
    fileSteps := world.host.fileSteps ++ outcome.steps file } }
  else world

/-- What a log call hands to the file, `none` where formatting it is undefined: without a
buffer it formats nothing. -/
def FileOutcome.record (outcome : FileOutcome) (isWithTime : Bool) (datetime msg : Bytes) : Option Bytes :=
  if outcome.buffer then printedRecord isWithTime datetime msg else some []

/-- How one log call ends. -/
def FileOutcome.logs (outcome : FileOutcome) (file : Bytes) (stack : List Value)
    (passed : List (Sink × CharPtr)) (world : World Server) : Option Bytes → Outcome Server Unit
  | some record => .ok () ⟨stack, passed, withRecord world outcome file record⟩
  | none => .fault .undefinedFormat ⟨stack, passed, world⟩

/-- Every step below one log call goes through. -/
def FileOutcome.succeeds (outcome : FileOutcome) : Bool :=
  outcome.buffer && outcome.opens && outcome.contiguous && outcome.writes

theorem FileOutcome.eq_of_succeeds (outcome : FileOutcome) (succeeds : outcome.succeeds = true) :
    outcome = ⟨true, true, true, true⟩ := by
  obtain ⟨buffer, opens, contiguous, writes⟩ := outcome
  simp only [FileOutcome.succeeds, Bool.and_eq_true] at succeeds
  obtain ⟨⟨⟨rfl, rfl⟩, rfl⟩, rfl⟩ := succeeds
  rfl

theorem files_withRecord (world : World Server) (outcome : FileOutcome) (file : Bytes)
    (record : Bytes) :
    (withRecord world outcome file record).host.files =
      if outcome.succeeds then appended world.host.files file record else world.host.files := by
  obtain ⟨buffer, opens, contiguous, writes⟩ := outcome
  cases buffer <;> cases opens <;> cases contiguous <;> cases writes <;> rfl

theorem evbufferWriteToFile_apply {outcome : FileOutcome} (buffer : outcome.buffer = true)
    (file : Bytes) (record : Bytes) (state : LuaState Server) :
    evbufferWriteToFile outcome (some file) record state =
      .ok () { state with world := withRecord state.world outcome (cstr file) record } := by
  obtain ⟨_, opens, contiguous, writes⟩ := outcome
  cases buffer
  cases opens with
  | false => rfl
  | true =>
      cases contiguous <;> cases writes <;>
        simp [evbufferWriteToFile, fileStep, appendFile, withRecord, FileOutcome.files,
          FileOutcome.steps, appended]

theorem evbufferAddPrintf_apply (buffer : Bytes) {format added : Bytes} {arguments : List Printf.Arg}
    (defined : Printf.format (cstr format) arguments = some added) (state : LuaState Server) :
    evbufferAddPrintf buffer (some format) arguments state =
      .ok (buffer ++ added) { state with passed := state.passed ++ [(.printf, some format)] } := by
  simp [evbufferAddPrintf, defined]

theorem evbufferAddPrintf_undefined (buffer : Bytes) {format : Bytes} {arguments : List Printf.Arg}
    (undefined : Printf.format (cstr format) arguments = none) (state : LuaState Server) :
    evbufferAddPrintf buffer (some format) arguments state =
      .fault .undefinedFormat { state with passed := state.passed ++ [(.printf, some format)] } := by
  simp [evbufferAddPrintf, undefined]

theorem format_newline : Printf.format (cstr (lit "\n")) [] = some (lit "\n") := rfl

theorem format_datetime (datetime : Bytes) :
    Printf.format (cstr (lit "[%s] ")) [.str (some datetime)] =
      some (lit "[" ++ cstr datetime ++ lit "] ") := by
  simp [lit, cstr, Printf.format]

theorem logFile_apply (outcome : FileOutcome) (datetime file msg : Bytes) (stack : List Value)
    (passed : List (Sink × CharPtr)) (world : World Server) :
    ∃ after, logFile outcome (some file) (some msg) ⟨stack, passed, world⟩ =
      outcome.logs (cstr file) stack after world (outcome.record false datetime msg) := by
  cases buffer : outcome.buffer with
  | false => exact ⟨passed, by simp [logFile, buffer, FileOutcome.record, FileOutcome.logs, withRecord]⟩
  | true =>
      simp only [logFile, buffer, Bool.not_true, Bool.false_eq_true, if_false, bind_apply,
        FileOutcome.record, if_true, printedRecord]
      cases printed : Printf.format (cstr msg) [] with
      | none => exact ⟨_, by rw [evbufferAddPrintf_undefined _ printed]; rfl⟩
      | some text =>
          rw [evbufferAddPrintf_apply _ printed, Outcome.ok_bind,
            evbufferAddPrintf_apply _ format_newline, Outcome.ok_bind, evbufferWriteToFile_apply buffer]
          exact ⟨_, rfl⟩

theorem logFileWithTime_apply (outcome : FileOutcome) (datetime file msg : Bytes) (stack : List Value)
    (passed : List (Sink × CharPtr)) (world : World Server) :
    ∃ after, logFileWithTime outcome datetime (some file) (some msg) ⟨stack, passed, world⟩ =
      outcome.logs (cstr file) stack after world (outcome.record true datetime msg) := by
  cases buffer : outcome.buffer with
  | false => exact ⟨passed, by simp [logFileWithTime, buffer, FileOutcome.record, FileOutcome.logs, withRecord]⟩
  | true =>
      simp only [logFileWithTime, buffer, Bool.not_true, Bool.false_eq_true, if_false, bind_apply,
        FileOutcome.record, if_true, printedRecord, evbufferAddPrintf_apply _ (format_datetime datetime),
        Outcome.ok_bind]
      cases printed : Printf.format (cstr msg) [] with
      | none => exact ⟨_, by rw [evbufferAddPrintf_undefined _ printed]; rfl⟩
      | some text =>
          rw [evbufferAddPrintf_apply _ printed, Outcome.ok_bind,
            evbufferAddPrintf_apply _ format_newline, Outcome.ok_bind, evbufferWriteToFile_apply buffer]
          exact ⟨_, rfl⟩

/-! ## The function -/

section WriteFile

variable (rt : Runtime Server) {arguments : List Value} {file msg : Bytes}

/-- The arguments `write_file` takes: a file name and a message, neither of them empty. -/
structure Writes (platform : Platform) (arguments : List Value) (file msg : Bytes) : Prop where
  named : argumentText platform arguments 0 = some file
  fileNonempty : file ≠ []
  message : argumentText platform arguments 2 = some msg
  msgNonempty : msg ≠ []

/-- Whether the second argument asks for the time. -/
def isWithTime (arguments : List Value) : Bool :=
  (arguments[1]?.map Value.truthy).getD false

theorem luaWriteFile_accepted (writes : Writes rt.toPlatform arguments file msg)
    (outcome : FileOutcome) (datetime : Bytes) (world : World Server) :
    ∃ stack passed, luaWriteFile rt outcome datetime ⟨arguments.reverse, [], world⟩ =
      (outcome.logs (cstr file) stack passed world
        (outcome.record (isWithTime arguments) datetime msg)).bind fun _ after =>
          .ok 1 { after with stack := .boolean true :: after.stack } := by
  obtain ⟨named, fileNonempty, message, msgNonempty⟩ := writes
  have enough : ¬ arguments.length < 3 :=
    Nat.not_lt_of_le (lt_length_of_argumentText rt.toPlatform message)
  have fileLong : ¬ file.length < 1 := by
    rwa [Nat.lt_one_iff, List.length_eq_zero_iff]
  have msgLong : ¬ msg.length < 1 := by
    rwa [Nat.lt_one_iff, List.length_eq_zero_iff]
  let first := convertArgument rt.toPlatform arguments 0
  let third := convertArgument rt.toPlatform first 2
  have readFile := @luaTolstring_argument rt.toPlatform Server arguments 1 0 rfl [] world
  have readFlag := @luaToboolean_argument Server first 2 1 rfl [] world
  have readMsg := @luaTolstring_argument rt.toPlatform Server first 3 2 rfl [] world
  rw [named] at readFile
  rw [getElem?_convertArgument rt.toPlatform arguments Nat.zero_ne_one] at readFlag
  rw [argumentText_convertArgument, message] at readMsg
  simp only [luaWriteFile, bind_apply, luaGettop_apply, Outcome.ok_bind, List.length_reverse, enough,
    if_false, readFile, Option.getD_some, fileLong, readFlag, readMsg, msgLong, first]
  change ∃ stack passed, (if isWithTime arguments = true then _ else _ : EngineM Nat) _ = _
  cases isWithTime arguments with
  | true =>
      obtain ⟨passed, logged⟩ := logFileWithTime_apply outcome datetime file msg third.reverse [] world
      refine ⟨third.reverse, passed, ?_⟩
      rw [← logged]
      rfl
  | false =>
      obtain ⟨passed, logged⟩ := logFile_apply outcome datetime file msg third.reverse [] world
      refine ⟨third.reverse, passed, ?_⟩
      rw [← logged]
      rfl

/-- Either a record is logged, or its message is no format. -/
theorem luaWriteFile_ends (writes : Writes rt.toPlatform arguments file msg)
    (outcome : FileOutcome) (datetime : Bytes) (world : World Server) :
    (∃ record stack passed, outcome.record (isWithTime arguments) datetime msg = some record ∧
      luaWriteFile rt outcome datetime ⟨arguments.reverse, [], world⟩ =
        .ok 1 ⟨.boolean true :: stack, passed, withRecord world outcome (cstr file) record⟩) ∨
    (∃ final, outcome.record (isWithTime arguments) datetime msg = none ∧
      luaWriteFile rt outcome datetime ⟨arguments.reverse, [], world⟩ = .fault .undefinedFormat final) := by
  obtain ⟨stack, passed, called⟩ := luaWriteFile_accepted rt writes outcome datetime world
  rw [called]
  cases outcome.record (isWithTime arguments) datetime msg with
  | some record => exact .inl ⟨record, stack, passed, rfl, rfl⟩
  | none => exact .inr ⟨⟨stack, passed, world⟩, rfl, rfl⟩

theorem luaWriteFile_rejected
    (rejected : ∀ file msg, ¬ Writes rt.toPlatform arguments file msg) (outcome : FileOutcome)
    (datetime : Bytes) (world : World Server) :
    ∃ stack, luaWriteFile rt outcome datetime ⟨arguments.reverse, [], world⟩ =
      .ok 1 ⟨.boolean false :: stack, [], world⟩ := by
  let first := convertArgument rt.toPlatform arguments 0
  have readFile := @luaTolstring_argument rt.toPlatform Server arguments 1 0 rfl [] world
  have readFlag := @luaToboolean_argument Server first 2 1 rfl [] world
  have readMsg := @luaTolstring_argument rt.toPlatform Server first 3 2 rfl [] world
  rw [argumentText_convertArgument] at readMsg
  by_cases short : arguments.length < 3
  · exact ⟨_, by simp [luaWriteFile, short]; rfl⟩
  by_cases noFile : ((argumentText rt.toPlatform arguments 0).getD []).length < 1
  · exact ⟨_, by
      simp only [luaWriteFile, bind_apply, luaGettop_apply, Outcome.ok_bind, List.length_reverse,
        short, if_false, readFile, noFile, if_true]
      rfl⟩
  by_cases noMsg : ((argumentText rt.toPlatform arguments 2).getD []).length < 1
  · exact ⟨_, by
      simp only [luaWriteFile, bind_apply, luaGettop_apply, Outcome.ok_bind, List.length_reverse,
        short, if_false, readFile, noFile, readFlag, first, readMsg, noMsg, if_true]
      rfl⟩
  cases named : argumentText rt.toPlatform arguments 0 with
  | none => simp [named] at noFile
  | some file =>
  cases message : argumentText rt.toPlatform arguments 2 with
  | none => simp [message] at noMsg
  | some msg =>
      have writes : Writes rt.toPlatform arguments file msg :=
        ⟨named, by simpa [named] using noFile, message, by simpa [message] using noMsg⟩
      exact absurd writes (rejected file msg)

/-- The record is appended to the file, and no other file changes. -/
def AppendsRecord (world : World Server) (file record : Bytes) (called : Outcome Server Nat) : Prop :=
  ∃ old after, world.host.files file = some old ∧ called = .ok 1 after ∧
    after.world.host.files = Function.update world.host.files file (some (old ++ record))

theorem recordText_ne_nil (isWithTime : Bool) (datetime msg : Bytes) :
    recordText isWithTime datetime msg ≠ [] := by
  simp [recordText, lit]

theorem printedRecord_eq_some_iff (isWithTime : Bool) (datetime msg : Bytes) :
    printedRecord isWithTime datetime msg = some (recordText isWithTime datetime msg) ↔
      37 ∉ msg ∧ 0 ∉ msg := by
  rw [← Printf.format_cstr_eq_self_iff, printedRecord]
  cases Printf.format (cstr msg) [] <;> simp [recordText]

theorem appended_eq_iff {files : Bytes → Option Bytes} {file old text record : Bytes}
    (contents : files file = some old) :
    appended files file record = Function.update files file (some (old ++ text)) ↔
      record = text := by
  constructor
  · intro same
    have there := congrFun same file
    simpa [appended, contents] using there
  · intro same
    subst same
    simp [appended, contents]

/-- Everything goes through, and the message is printed as it is. -/
theorem record_iff (outcome : FileOutcome) (isWithTime : Bool) (datetime msg : Bytes) :
    outcome.succeeds = true ∧ outcome.record isWithTime datetime msg = some (recordText isWithTime datetime msg) ↔
      outcome.succeeds = true ∧ 37 ∉ msg ∧ 0 ∉ msg := by
  rw [← printedRecord_eq_some_iff isWithTime datetime]
  apply and_congr_right
  intro succeeds
  cases outcome.eq_of_succeeds succeeds
  rfl

/-- The message is the format of the log call, and its length is not passed on. -/
theorem luaWriteFile_appendsRecord_iff (writes : Writes rt.toPlatform arguments file msg)
    (outcome : FileOutcome) (datetime : Bytes) {world : World Server}
    (contents : (world.host.files (cstr file)).isSome) :
    AppendsRecord world (cstr file) (recordText (isWithTime arguments) datetime msg)
        (luaWriteFile rt outcome datetime ⟨arguments.reverse, [], world⟩) ↔
      outcome.succeeds = true ∧ 37 ∉ msg ∧ 0 ∉ msg := by
  obtain ⟨old, contents⟩ := Option.isSome_iff_exists.mp contents
  rw [← record_iff outcome (isWithTime arguments) datetime]
  rcases luaWriteFile_ends rt writes outcome datetime world with
    ⟨record, stack, passed, printed, called⟩ | ⟨final, undefined, called⟩
  · rw [called, printed, Option.some.injEq]
    constructor
    · intro appends
      obtain ⟨found, after, same, answered, files⟩ := appends
      cases answered
      rw [contents] at same
      cases same
      rw [files_withRecord] at files
      cases succeeds : outcome.succeeds with
      | false =>
          have unchanged := congrFun files (cstr file)
          simp [succeeds, contents, recordText_ne_nil] at unchanged
      | true =>
          rw [succeeds, if_pos rfl] at files
          exact ⟨rfl, (appended_eq_iff contents).mp files⟩
    · intro complete
      obtain ⟨succeeds, same⟩ := complete
      refine ⟨old, _, contents, rfl, ?_⟩
      rw [files_withRecord, succeeds, if_pos rfl]
      exact (appended_eq_iff contents).mpr same
  · rw [called, undefined]
    apply iff_of_false
    · intro appends
      obtain ⟨_, _, _, answered, -⟩ := appends
      cases answered
    · exact fun complete => nomatch complete.2

/-- When every step goes through, the record that was asked for is the one appended
exactly for messages without `%` and without NUL. -/
theorem luaWriteFile_appends_iff (writes : Writes rt.toPlatform arguments file msg)
    {outcome : FileOutcome} (succeeds : outcome.succeeds = true) (datetime : Bytes)
    {world : World Server} (contents : (world.host.files (cstr file)).isSome) :
    AppendsRecord world (cstr file) (recordText (isWithTime arguments) datetime msg)
        (luaWriteFile rt outcome datetime ⟨arguments.reverse, [], world⟩) ↔
      37 ∉ msg ∧ 0 ∉ msg := by
  rw [luaWriteFile_appendsRecord_iff rt writes outcome datetime contents]
  exact and_iff_right succeeds

theorem luaWriteFile_appends_hello :
    AppendsRecord (.start (.ofTables [])) (lit "log/game.log") (recordText true (lit "now") (lit "hello"))
      (luaWriteFile default ⟨true, true, true, true⟩ (lit "now")
        ⟨[.string (lit "hello"), .boolean true, .string (lit "log/game.log")], [],
          .start (.ofTables [])⟩) :=
  (@luaWriteFile_appends_iff default [.string (lit "log/game.log"), .boolean true,
    .string (lit "hello")] (lit "log/game.log") (lit "hello") ⟨rfl, by decide, rfl, by decide⟩
    ⟨true, true, true, true⟩ rfl (lit "now") (.start (.ofTables [])) rfl).mpr (by decide)

/-- Of `100%%` only `100%` is written. -/
theorem luaWriteFile_appends_counterexample :
    ¬ AppendsRecord (.start (.ofTables [])) (lit "log/game.log") (recordText false [] (lit "100%%"))
      (luaWriteFile default ⟨true, true, true, true⟩ []
        ⟨[.string (lit "100%%"), .boolean false, .string (lit "log/game.log")], [],
          .start (.ofTables [])⟩) := by
  intro appends
  obtain ⟨old, after, contents, answered, files⟩ := appends
  cases answered
  cases contents
  exact absurd (congrFun files (lit "log/game.log")) (by decide)

def FileStep.isOpen : FileStep → Bool
  | .open_ _ => true
  | _ => false

/-- The script is told whether the complete record was handed to the file; the buffer is
unlocked as often as it was locked, and the file closed when it was opened. -/
def Reports (platform : Platform) (arguments : List Value) (datetime : Bytes) (world : World Server)
    (called : Outcome Server Nat) : Prop :=
  ∃ answer after steps, called = .ok 1 after ∧ after.stack.head? = some (.boolean answer) ∧
    (answer = true ↔ ∃ file msg, Writes platform arguments file msg ∧
      AppendsRecord world (cstr file) (recordText (isWithTime arguments) datetime msg) called) ∧
    after.world.host.fileSteps = world.host.fileSteps ++ steps ∧
    steps.count .unlock = steps.count .lock ∧ steps.count .close = steps.countP FileStep.isOpen

/-- The answer is the same whatever becomes of the record, so it is right only when the
record is written as it was given, or the arguments are refused. -/
theorem luaWriteFile_reports_iff (outcome : FileOutcome) (datetime : Bytes) {world : World Server}
    (contents : ∀ file, (world.host.files file).isSome) :
    Reports rt.toPlatform arguments datetime world
        (luaWriteFile rt outcome datetime ⟨arguments.reverse, [], world⟩) ↔
      ∀ file msg, Writes rt.toPlatform arguments file msg →
        outcome.succeeds = true ∧ 37 ∉ msg ∧ 0 ∉ msg := by
  by_cases accepts : ∃ file msg, Writes rt.toPlatform arguments file msg
  · obtain ⟨file, msg, writes⟩ := accepts
    have appends := luaWriteFile_appendsRecord_iff rt writes outcome datetime (contents (cstr file))
    have ends := luaWriteFile_ends rt writes outcome datetime world
    constructor
    · intro reports otherFile otherMsg others
      obtain ⟨answer, after, steps, answered, top, told, -⟩ := reports
      rcases ends with ⟨record, stack, passed, -, called⟩ | ⟨final, -, called⟩
      · rw [called] at answered
        cases answered
        cases top
        obtain ⟨file', msg', writes', written⟩ := told.mp rfl
        have sameMsg : msg' = otherMsg :=
          Option.some.inj (writes'.message.symm.trans others.message)
        subst sameMsg
        exact (luaWriteFile_appendsRecord_iff rt writes' outcome datetime (contents _)).mp written
      · rw [called] at answered
        cases answered
    · intro complete
      have written := appends.mpr (complete file msg writes)
      obtain ⟨old, after, -, answered, -⟩ := written
      rcases ends with ⟨record, stack, passed, -, called⟩ | ⟨final, -, called⟩
      · cases outcome.eq_of_succeeds (complete file msg writes).1
        exact ⟨true, _, [.open_ (cstr file), .lock, .unlock, .close], called, rfl,
          ⟨fun _ => ⟨file, msg, writes, appends.mpr (complete file msg writes)⟩, fun _ => rfl⟩, rfl,
          rfl, rfl⟩
      · rw [called] at answered
        cases answered
  · have rejected : ∀ file msg, ¬ Writes rt.toPlatform arguments file msg :=
      fun file msg writes => accepts ⟨file, msg, writes⟩
    obtain ⟨stack, called⟩ := luaWriteFile_rejected rt rejected outcome datetime world
    have told : (false = true ↔ ∃ file msg, Writes rt.toPlatform arguments file msg ∧
        AppendsRecord world (cstr file) (recordText (isWithTime arguments) datetime msg)
          (luaWriteFile rt outcome datetime ⟨arguments.reverse, [], world⟩)) := by
      constructor
      · intro impossible
        cases impossible
      · intro wrote
        obtain ⟨file, msg, writes, -⟩ := wrote
        exact absurd writes (rejected file msg)
    exact iff_of_true ⟨false, _, [], called, rfl, told, (List.append_nil _).symm, rfl, rfl⟩
      fun file msg writes => absurd writes (rejected file msg)

theorem luaWriteFile_reports_hello :
    Reports default [.string (lit "log/game.log"), .boolean true, .string (lit "hello")] (lit "now")
      (.start (.ofTables [])) (luaWriteFile default ⟨true, true, true, true⟩ (lit "now")
        ⟨[.string (lit "hello"), .boolean true, .string (lit "log/game.log")], [],
          .start (.ofTables [])⟩) := by
  refine (luaWriteFile_reports_iff default ⟨true, true, true, true⟩ (lit "now") fun _ => rfl).mpr ?_
  intro file msg writes
  cases writes.message
  decide

/-- The file cannot be opened: the script is told that the record was written, and the
buffer is unlocked though it was not locked. -/
theorem luaWriteFile_reports_counterexample :
    ¬ Reports default [.string (lit "log/game.log"), .boolean false, .string (lit "hello")] []
      (.start (.ofTables [])) (luaWriteFile default ⟨true, false, true, true⟩ []
        ⟨[.string (lit "hello"), .boolean false, .string (lit "log/game.log")], [],
          .start (.ofTables [])⟩) := by
  intro reports
  obtain ⟨answer, after, steps, answered, top, told, written, locks, -⟩ := reports
  cases answered
  have unlocked : steps = [.unlock] := written.symm
  rw [unlocked] at locks
  exact absurd locks (by decide)

end WriteFile

end GameServer
