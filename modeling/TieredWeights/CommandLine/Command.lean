import TieredWeights.CommandLine.Options
import TieredWeights.Split.Notation
import TieredWeights.Bench

/-!
# Commands

What a command line asks for. A value that its option cannot take, an option that is repeated or
unknown, and a missing command are misuse.
-/
namespace TieredWeights.CommandLine

/-- What a comparison of strategies is asked for. -/
structure BenchOptions where
  side : Option Nat := none
  layers : Option Nat := none
  redundancy : Option Nat := none
  type : Option ElementType := none
  split : Option (Split Binary64) := none
  sweep : List Binary64 := []
  strategies : List Strategy := []
  config : Option String := none
  hostFraction : Option Binary64 := none

structure PlanOptions where
  sizes : Option String := none
  split : Option (Split Binary64) := none

inductive Command where
  | info
  | bench (options : BenchOptions)
  | plan (sizes : String) (split : Split Binary64)

def word? (s : String) : Option Nat := (Text.readWord s.toList).toOption

def number? (s : String) : Option Binary64 := Binary64.read s.toList

def split? (s : String) : Option (Split Binary64) := (Split.read s).toOption

def path? (s : String) : Option String := if s = "" then none else some s

def benchNames : List String :=
  ["--layer-size", "--num-layers", "--redundancy", "--dtype", "--split", "--accel-sweep",
    "--strategy", "--config", "--host-fraction"]

def BenchOptions.set (name value : String) (o : BenchOptions) : Option BenchOptions :=
  match name with
  | "--layer-size" => (once o.side (word? value)).map fun x => { o with side := x }
  | "--num-layers" => (once o.layers (word? value)).map fun x => { o with layers := x }
  | "--redundancy" => (once o.redundancy (word? value)).map fun x => { o with redundancy := x }
  | "--dtype" =>
    (once o.type (ElementType.ofName value.toList)).map fun x => { o with type := x }
  | "--split" => (once o.split (split? value)).map fun x => { o with split := x }
  | "--accel-sweep" => (appendEach number? o.sweep value).map fun x => { o with sweep := x }
  | "--strategy" =>
    (appendEach Strategy.ofName o.strategies value).map fun x => { o with strategies := x }
  | "--config" => (once o.config (path? value)).map fun x => { o with config := x }
  | "--host-fraction" =>
    (once o.hostFraction (number? value)).map fun x => { o with hostFraction := x }
  | _ => none

def planNames : List String := ["--sizes", "--split"]

def PlanOptions.set (name value : String) (o : PlanOptions) : Option PlanOptions :=
  match name with
  | "--sizes" => (once o.sizes (some value)).map fun x => { o with sizes := x }
  | "--split" => (once o.split (split? value)).map fun x => { o with split := x }
  | _ => none

/-- The split of a plan for which none is named. -/
def planSplit : Split Binary64 := ⟨30, 30, 40, 0⟩

/-- The command that the words of a command line ask for. -/
def read : List String → Except Stop Command
  | [] => .error .misuse
  | word :: rest =>
    if asksHelp word then .error .help
    else if asksVersion word then .error .version
    else
      match word with
      | "info" => (readOptions [] (fun _ _ _ => none) rest ()).map fun _ => .info
      | "bench" => (readOptions benchNames BenchOptions.set rest {}).map .bench
      | "plan" =>
        match readOptions planNames PlanOptions.set rest {} with
        | .error stop => .error stop
        | .ok o =>
          match o.sizes with
          | none => .error .misuse
          | some sizes => .ok (.plan sizes (o.split.getD planSplit))
      | "help" =>
        match rest with
        | [] => .error .help
        | [topic] =>
          .error (if ["info", "bench", "plan", "help"].contains topic then .help else .misuse)
        | _ => .error .misuse
      | _ => .error .misuse

end TieredWeights.CommandLine
