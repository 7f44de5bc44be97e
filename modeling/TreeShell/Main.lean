import Std.Time.DateTime.Timestamp
import TreeShell.Calendar
import TreeShell.Console.Start

/-!
# The program

Runs a session on the standard input. What the session draws and logs is written out after every
line that was read.
-/

namespace TreeShell

namespace Console

open Log (Journal)

/-- What a path of this machine leads to. -/
def lookAt (path : String) : IO Host.Entry := do
  try
    return .file (← IO.FS.readFile path)
  catch
    | .noFileOrDirectory .. => return .missing
    | _ => return .directory

def now : IO String := do
  let t ← Std.Time.Timestamp.now
  return Moment.text ⟨t.toNanosecondsSinceUnixEpoch.val / 1000⟩

/-- Writes the records that are to go to a file, which is made if need be. -/
def appendTo (j : Journal) (time path : String) : IO Unit := do
  let above := (Host.names path).dropLast
  unless above = [] do
    IO.FS.createDirAll ((if Host.isAbsolute path then "/" else "") ++ Path.join above)
  IO.FS.withFile path .append fun file ↦ file.putStr (j.fileText time path)

/-- Writes out what a session has drawn and logged. -/
def flush (t : Terminals) (s : Session) (j : Journal) : IO (Session × Journal) := do
  let (s, j) := record s j
  let out ← IO.getStdout
  out.putStr (streamText t.output s.screen)
  out.flush
  let time ← now
  (← IO.getStderr).putStr (j.consoleText time)
  for path in j.files do
    appendTo j time path
  return ({ s with screen := [] }, { j with deliveries := [] })

def breakOff (f : Failure) : IO UInt32 := do
  (← IO.getStderr).putStrLn (f.title ++ ": " ++ f.message)
  return 1

partial def loop (t : Terminals) (s : Session) (j : Journal) : IO UInt32 := do
  let (s, failure) := ask t.input s
  let (s, j) ← flush t s j
  if let some f := failure then return ← breakOff f
  let line ← (← IO.getStdin).getLine
  if line = "" then
    let _ ← flush t (finish t.input s) j
    return 0
  let (s, failure) := take t.input .standard s (.line line)
  let (s, j) ← flush t s j
  if let some f := failure then return ← breakOff f
  loop t s j

def runWith (args : List String) : IO UInt32 := do
  let found ← match Request.ofArguments args with
    | .run { config := some path, .. } => lookAt path
    | _ => pure .missing
  match prepare args fun _ ↦ found with
  | .error (.error f) => breakOff f
  | .error (.ok leave) =>
      (← IO.getStdout).putStr leave.out
      (← IO.getStderr).putStr leave.err
      return leave.code.toUInt32
  | .ok (a, c) =>
      let t : Terminals :=
        ⟨← (← IO.getStdin).isTty, ← (← IO.getStdout).isTty, ← (← IO.getStderr).isTty⟩
      match start a c t fun _ ↦ none with
      | (s, j, some f) =>
          let _ ← flush t s j
          breakOff f
      | (s, j, none) => loop t s j

end Console

end TreeShell

def main (args : List String) : IO UInt32 := TreeShell.Console.runWith args
