import GameServer.Server

namespace GameServer

open Lua LuaM

/-! `log.c` and `buffer_util.c`: a record goes to a file through an `evbuffer`, which is
its bytes here. -/

/-- What the steps below one log call do: the buffer is allocated, the file opens,
the buffer can be made contiguous, the write goes through. -/
structure FileOutcome where
  buffer : Bool
  opens : Bool
  contiguous : Bool
  writes : Bool

/-- `evbuffer_add_printf` and `evbuffer_add_vprintf`. -/
def evbufferAddPrintf (buffer : Bytes) (format : CharPtr) (arguments : List Printf.Arg) :
    EngineM Bytes := do
  let text ← read .printf format
  match Printf.format (cstr text) arguments with
  | some added => pure (buffer ++ added)
  | none => crash .undefinedFormat

def fileStep (step : FileStep) : EngineM Unit :=
  modifyHost fun server => { server with fileSteps := server.fileSteps ++ [step] }

/-- `fwrite` to a file opened for appending. -/
def appendFile (file : Bytes) (record : Bytes) : EngineM Unit :=
  modifyHost fun server => { server with
    files := Function.update server.files file ((server.files file).map (· ++ record)) }

/-- `evbuffer_write_to_file(file, buf, "a+")`.  Both failures go to `done`, which
unlocks the buffer whether or not it was locked. -/
def evbufferWriteToFile (outcome : FileOutcome) (file : CharPtr) (buffer : Bytes) :
    EngineM Unit := do
  let name := cstr (file.getD [])
  if outcome.opens then
    fileStep (.open_ name)
    fileStep .lock
    (if outcome.contiguous ∧ outcome.writes then appendFile name buffer else pure ())
    fileStep .unlock
    fileStep .close
  else
    fileStep .unlock

/-- `log_file(file, fmt)`, without further arguments. -/
def logFile (outcome : FileOutcome) (file format : CharPtr) : EngineM Unit := do
  if !outcome.buffer then return
  let buffer ← evbufferAddPrintf [] format []
  let buffer ← evbufferAddPrintf buffer (some (lit "\n")) []
  evbufferWriteToFile outcome file buffer

/-- `log_file_with_time(file, fmt)`, with the time `_make_datetime` prints. -/
def logFileWithTime (outcome : FileOutcome) (datetime : Bytes) (file format : CharPtr) :
    EngineM Unit := do
  if !outcome.buffer then return
  let buffer ← evbufferAddPrintf [] (some (lit "[%s] ")) [.str (some datetime)]
  let buffer ← evbufferAddPrintf buffer format []
  let buffer ← evbufferAddPrintf buffer (some (lit "\n")) []
  evbufferWriteToFile outcome file buffer

end GameServer
