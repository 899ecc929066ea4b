import TieredWeights.CommandLine.Command
import TieredWeights.Config.Json

/-!
# The command line

Three commands: `info` lists the tiers and element types, `plan` shows the tiers of parameters of
given sizes, and `bench` compares loading strategies on a synthetic model. A command prints its
lines to a console as it goes and may end in a failure.
-/
namespace TieredWeights

/-! ### Columns -/

namespace Text

def blanks (n : Nat) : String := String.ofList (List.replicate n ' ')

/-- The text at the left of a column, filled with blanks to its width; one that is too long is kept
whole. -/
def padRight (width : Nat) (s : String) : String := s ++ blanks (width - s.length)

/-- The text at the right of a column. -/
def padLeft (width : Nat) (s : String) : String := blanks (width - s.length) ++ s

/-- A line across `width` columns. -/
def rule (width : Nat) : String := String.ofList (List.replicate width '-')

end Text

namespace CommandLine

/-! ### Failures and lines -/

/-- How a command fails: with an error, which is reported with what failed and perhaps why, or in a
panic. -/
inductive Failure where
  | error (message : String) (cause : Option String := none)
  | panic (message : String)
  deriving DecidableEq, Repr

namespace Failure

def ofFault (e : Fault) : Failure := if e.isPanic then .panic e.message else .error e.message

/-- The report of a failure; all lines of the cause stand in from the margin. -/
def lines : Failure → List String
  | error message none => ["Error: " ++ message]
  | error message (some cause) =>
    ["Error: " ++ message, "", "Caused by:"] ++
      (Text.pieces '\n' cause.toList).map fun line => "    " ++ String.ofList line
  | panic message => [message]

/-- The code that the program ends with. -/
def exitCode : Failure → UInt32
  | error .. => 1
  | panic .. => 101

end Failure

/-- Where a command prints its lines, and where it has its runs timed. The time of a run comes as
the columns that follow the split in a row: the method and the milliseconds. -/
structure Console (m : Type → Type) where
  print : List String → m Unit
  timed : {α : Type} → (Unit → α) → m (α × (String → String))

def version : String := "0.1.0"

def versionLine : String := "stowage " ++ version

def infoLines : List String :=
  let tiers := [Tier.disk, .host, .accelerator 0].map fun t => "  " ++ t.display
  let types := ElementType.all.map fun t =>
    let kind := if t.isFloat then "float" else "integer"
    s!"  {Text.padRight 5 t.display} {t.size} byte(s), {kind}"
  ["stowage v" ++ version, "", "Tiers (canonical placement order)"] ++ tiers ++
    ["", "DTypes"] ++ types

def planRow (name size tier : String) : String :=
  s!"{Text.padRight 10 name} {Text.padLeft 12 size} {Text.padLeft 10 tier}"

def planLines (p : Plan) : List String :=
  [planRow "Param" "Bytes" "Tier", Text.rule 34] ++
    (p.parameters.map fun q => planRow q.name (toString q.size) q.tier.display) ++
    ["", p.display]

/-- Sizes separated by commas, with blanks around them; the first that is none is reported. -/
def readSizes : List (List Char) → Except Failure (List Nat)
  | [] => .ok []
  | part :: rest =>
    match Text.readWord (Text.trim part) with
    | .error e => .error (.error s!"invalid size '{String.ofList part}'" (some e.message))
    | .ok n => (readSizes rest).map (n :: ·)

/-- Parameters of given sizes, named by their position. -/
def numbered (sizes : List Nat) : List (String × Nat) :=
  sizes.zipIdx.map fun x => (s!"param{x.2}", x.1)

/-- The plan of parameters of given sizes. -/
def planOf (sizes : String) (split : Split Binary64) : Except Failure Plan := do
  let sizes ← readSizes (Text.pieces ',' sizes.toList)
  match Brackets.ofSplit split with
  | .error e => .error (.ofFault (.invalidSplit (.ofShares split e)))
  | .ok brackets => .ok (brackets.assign (numbered sizes))

namespace BenchOptions

def model (o : BenchOptions) : SyntheticModel :=
  { side := o.side.getD 1024
    layers := o.layers.getD 8
    redundancy := o.redundancy.getD 1
    type := o.type.getD .f32 }

/-- The split that a sweep puts on an accelerator's share, the host taking what remains. -/
def sweepSplit (accelerator : Nat) (share : Binary64) : Except Failure (Split Binary64) :=
  let split : Split Binary64 := ⟨0, 100 - share, share, accelerator⟩
  match split.validate with
  | .ok () => .ok split
  | .error e => .error (.ofFault (.invalidSplit e))

/-- The splits to compare: those of the sweep if there is one. -/
def splits (o : BenchOptions) : Except Failure (List (Split Binary64)) :=
  let split := o.split.getD .default
  if o.sweep = [] then .ok [split] else o.sweep.mapM (sweepSplit split.accelerator)

def chosen (o : BenchOptions) : List Strategy :=
  if o.strategies = [] then Strategy.all else o.strategies

/-- The configuration of the runs: that of a file or the default one, with a slot for every layer,
and the host bounded to a fraction of the bytes available if one is asked for. -/
def configOf (o : BenchOptions) (f : Files) (available : Nat) : Except Failure Config := do
  let config ← match o.config with
    | none => .ok { blocks := o.model.layers }
    | some path =>
      (Config.ofFile f path).mapError fun e =>
        .error s!"loading config from {path}" (some e.message)
  let config := { config with blocks := max config.blocks o.model.layers }
  .ok (match o.hostFraction with
    | none => config
    | some fraction => config.boundHost available fraction)

def heading (o : BenchOptions) : List String :=
  let m := o.model
  ["=== Stowage Weight Loading Benchmark ===",
    s!"{m.layers} blocks of {m.side}x{m.side} {m.type.display}, redundancy {m.redundancy}", ""]

end BenchOptions

/-- The left columns of a table of runs. -/
def runColumns (split method : String) : String :=
  s!"{Text.padRight 28 split} {Text.padRight 8 method}"

/-- How the making of a model fails. -/
def modelFailure (e : Fault) : Failure :=
  if e.isPanic then .panic e.message else .error "weight size overflows usize"

def tableHeading (blocks : List Block) : List String :=
  ["Theoretical: " ++ (Savings.ofBlocks blocks).display, "",
    " ".intercalate
      [runColumns "Split" "Method", Text.padLeft 12 "Load (ms)", Text.padLeft 10 "Allocs",
        Text.padLeft 12 "Peak (MB)"],
    Text.rule 74]

/-- A row of the table, the method and the time standing in columns of their own. -/
def resultRow (split : Split Binary64) (method : Strategy) (columns : String → String) :
    RunResult → String
  | .done allocations peak =>
    let megabytes : Binary64 := .ofNat peak / CacheStats.bytesPerMegabyte
    s!"{Text.padRight 28 split.display} {columns method.name}ms " ++
      s!"{Text.padLeft 10 (toString allocations)} {Text.padLeft 12 (megabytes.fixed 1)}"
  | .outOfCapacity e =>
    runColumns split.display method.name ++ " " ++ Text.padLeft 12 "OOM" ++ s!" ({e.message})"

/-! ### Running -/

section

variable {m : Type → Type} [Monad m] (console : Console m)

/-- The runs that remain of a comparison, one after another. -/
def compareRuns (config : Config) (blocks : List Block) :
    List (Split Binary64 × Strategy) → Depot → m (Except Failure Unit × Depot)
  | [], d => pure (.ok (), d)
  | (split, method) :: rest, d => do
    let ((result, d), columns) ← console.timed fun _ => Bench.run config blocks split d method
    match result with
    | .error e => pure (.error (.ofFault e), d)
    | .ok result =>
      console.print [resultRow split method columns result]
      compareRuns config blocks rest d

/-- Compare strategies on a synthetic model in a process of the number given; `available` is how many
bytes of memory are free. -/
def runBench (o : BenchOptions) (f : Files) (available process : Nat) :
    m (Except Failure Unit × Files) := do
  match o.splits with
  | .error e => pure (.error e, f)
  | .ok splits =>
    match o.configOf f available with
    | .error e => pure (.error e, f)
    | .ok config =>
      console.print o.heading
      match o.model.blocks with
      | .error e => pure (.error (modelFailure e), f)
      | .ok blocks =>
        console.print (tableHeading blocks)
        let runs := splits.flatMap fun s => o.chosen.map fun x => (s, x)
        let (result, d) ← compareRuns console config blocks runs
          { files := f, process }
        pure (result, d.files)

/-- Run a command on files in a process of the number given. -/
def run (command : Command) (f : Files) (available process : Nat) :
    m (Except Failure Unit × Files) :=
  match command with
  | .info => do
    console.print infoLines
    pure (.ok (), f)
  | .plan sizes split =>
    match planOf sizes split with
    | .error e => pure (.error e, f)
    | .ok plan => do
      console.print (planLines plan)
      pure (.ok (), f)
  | .bench o => runBench console o f available process

end

end CommandLine

end TieredWeights
