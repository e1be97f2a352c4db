import FormFlow.Command
import FormFlow.Command.Clock
import Std.Time.DateTime.Timestamp

/-!
# The program

Reads what the command needs from the environment and the disk, runs the command as a function, and
writes what it leaves behind.
-/

namespace FormFlow.Program

open FormFlow.Command

/-- The variables that the command looks at. -/
def environment : IO Environment := do
  let names := Settings.variableNames ++ Backend.all.map Backend.keyVariable
  let entries ← names.mapM fun name => do return (name, ← IO.getEnv name)
  return entries.filterMap fun entry => entry.2.map (entry.1, ·)

/-- The files that an action reads. -/
def filesOf : Action → List String
  | .compile appFile _ => [appFile]
  | .runEvent appFile _ _ stateFile => [appFile, ".env"] ++ stateFile.toList

/-- Those of the named files that exist. -/
def readFiles (names : List String) : IO Directory := do
  let mut found : Table String := []
  for name in names do
    if ← (System.mkFilePath [name]).pathExists then
      if !(← (System.mkFilePath [name]).isDir) then
        found := found.put name (← IO.FS.readFile name)
  return .ofFiles found

/-- The present time as text. -/
def present : IO String := do
  let now ← Std.Time.Timestamp.now
  return timeText (now.toNanosecondsSinceUnixEpoch.val / 1000).toNat

/-- Write files, making the folders that lead to them. -/
def writeFiles (files : Table String) : IO Unit :=
  for (name, content) in files do
    if let some folder := (System.mkFilePath [name]).parent then IO.FS.createDirAll folder
    IO.FS.writeFile name content

/-- Run the command on the real environment and directory. -/
def run (args : List String) : IO UInt32 := do
  let files :=
    match parse args with
    | .ok invocation => filesOf invocation.action
    | .error _ => []
  let world : World :=
    { environment := ← environment
      directory := ← readFiles files
      home := (← IO.currentDir).toString
      now := ← present }
  match Command.run world args with
  | .error _ =>
    IO.eprintln "ERROR: an output shape has a length bound that cannot be kept"
    return 1
  | .ok report =>
    writeFiles (world.directory.changedFiles report.directory)
    IO.print report.printed
    for (level, message) in report.log do
      IO.eprintln (level.text ++ ": " ++ message)
    return UInt32.ofNat report.exitCode

end FormFlow.Program

/-- The entry point of the program. -/
def main (args : List String) : IO UInt32 := FormFlow.Program.run args
