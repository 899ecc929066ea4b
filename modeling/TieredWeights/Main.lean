import TieredWeights.CommandLine

/-!
# The program

Runs the command line on the files that it names, prints what the command prints, and makes the
folders that the command made.
-/
namespace TieredWeights.Program

/-- The real console: lines go to standard output and runs are timed by the clock. -/
def realConsole : CommandLine.Console IO where
  print lines := lines.forM IO.println
  timed f := do
    let start ← IO.monoNanosNow
    let x ← IO.wait (Task.spawn f)
    let stop ← IO.monoNanosNow
    let millis := Binary64.ofRatio false (stop - start) (tenTo 6)
    pure (x, fun method =>
      Text.padRight 8 method ++ " " ++ Text.padLeft 10 (millis.fixed 3))

/-- Put what stands at a path among the files of a run: a file if it can be read as one, a folder
if it is there but cannot. -/
def lookAt (f : Files) (path : Path) : IO Files := do
  try
    pure (f.put path (← IO.FS.readBinFile path.display))
  catch
    | .noFileOrDirectory .. => pure f
    | _ => pure { f with folders := f.folders ++ [path] }

/-- The files on the way that steps lead from a path. -/
def lookAlong (f : Files) (p : Path) : List String → IO Files
  | [] => pure f
  | name :: rest => do
    let p := Path.step p name
    let f ← if f.isFolder p || f.isFile p then pure f else lookAt f p
    lookAlong f p rest

/-- The files on the route that a text writes, if it is one. -/
def lookFor (f : Files) (written : String) : IO Files :=
  match Route.ofText written with
  | .ok r => lookAlong f r.start r.steps
  | .error _ => pure f

/-- The files that a command may read or meet. -/
def filesOf : CommandLine.Command → IO Files
  | .bench { config := some path, .. } => do
    let f ← lookFor .empty path
    match Config.ofFile f path with
    | .ok { spill := some folder, .. } => lookFor f folder
    | _ => pure f
  | _ => pure .empty

/-- How many bytes of memory are available; 0 where the system does not tell. -/
def availableBytes : IO Nat := do
  try
    let lines ← IO.FS.lines "/proc/meminfo"
    let line := lines.toList.find? fun s => s.startsWith "MemAvailable:"
    let kilobytes := ((line.getD "").toList.filter Char.isDigit).foldl
      (fun n c => 10 * n + Text.digitValue c) 0
    pure (kilobytes * 1024)
  catch _ => pure 0

def usage : String :=
  "Usage: stowage <COMMAND>\n\nCommands:\n" ++
    "  info   Show supported tiers and dtypes\n" ++
    "  bench  Compare loading strategies on a synthetic model\n" ++
    "  plan   Show the tier assignment for a list of parameter sizes\n"

end TieredWeights.Program

open TieredWeights TieredWeights.Program

def main (args : List String) : IO UInt32 := do
  match CommandLine.read args with
  | .error .version => IO.println CommandLine.versionLine; pure 0
  | .error .help => IO.print usage; pure 0
  | .error .misuse => IO.eprint usage; pure 2
  | .ok command =>
    let files ← filesOf command
    -- The clock tells runs apart in place of the number of the process.
    let (result, after) ← CommandLine.run realConsole command files (← availableBytes)
      (← IO.monoMsNow)
    for folder in after.folders do
      if !files.folders.contains folder then
        IO.FS.createDirAll folder.display
    match result with
    | .ok () => pure 0
    | .error failure =>
      failure.lines.forM IO.eprintln
      pure failure.exitCode
