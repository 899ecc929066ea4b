import TieredWeights.Config
import TieredWeights.Json.Worth
import TieredWeights.Binary64.Shortest

/-!
# Configurations as JSON text

A record is read from an object of its fields, in any order and among others, or from an array of
them in order. A field with a default may be missing, in an array at its end. A configuration is
written as an object of all its fields without blanks.
-/
namespace TieredWeights

namespace Json

/-- The fields of a record with given names. A name that occurs twice is refused, as is an array
with too many items. -/
def record? (names : List String) : Value → Option (List (String × Value))
  | .array items => if items.length ≤ names.length then some (names.zip items) else none
  | .object fields => do
    let fields ← fields.mapM fun f => f.1.map fun name => (name, f.2)
    let known := fields.filter fun f => names.contains f.1
    if (known.map (·.1)).Nodup then some known else none
  | _ => none

/-- A field that has to be present. -/
def required {α : Type} (read : Value → Option α) (name : String)
    (fields : List (String × Value)) : Option α :=
  (fields.lookup name).bind read

/-- A field that may be missing. -/
def optional {α : Type} (read : Value → Option α) (absent : α) (name : String)
    (fields : List (String × Value)) : Option α :=
  match fields.lookup name with
  | none => some absent
  | some v => read v

def word? : Value → Option Nat
  | .number n => n.toWord?
  | _ => none

def binary64? : Value → Option Binary64
  | .number n => n.toBinary64?
  | _ => none

def text? : Value → Option String
  | .string s => s
  | _ => none

/-- A value that may be `null`. -/
def nullable {α : Type} (read : Value → Option α) : Value → Option (Option α)
  | .null => some none
  | v => (read v).map some

def list? {α : Type} (read : Value → Option α) : Value → Option (List α)
  | .array items => items.mapM read
  | _ => none

/-- An object of fields with their written values. -/
def writeObject (fields : List (String × String)) : String :=
  "\x7b" ++ ",".intercalate (fields.map fun f => writeString f.1 ++ ":" ++ f.2) ++ "\x7d"

def writeList (items : List String) : String := "[" ++ ",".intercalate items ++ "]"

def writeNullable {α : Type} (write : α → String) : Option α → String
  | none => "null"
  | some x => write x

end Json

namespace Split

def fieldNames : List String := ["disk_pct", "host_pct", "accel_pct", "accelerator"]

def ofJson? (v : Json.Value) : Option (Split Binary64) := do
  let fields ← Json.record? fieldNames v
  some
    { disk := ← Json.required Json.binary64? "disk_pct" fields
      host := ← Json.required Json.binary64? "host_pct" fields
      accel := ← Json.required Json.binary64? "accel_pct" fields
      accelerator := ← Json.optional Json.word? 0 "accelerator" fields }

def toJson (s : Split Binary64) : String :=
  let share (x : Binary64) := Json.writeNullable id x.exponential
  Json.writeObject
    [("disk_pct", share s.disk), ("host_pct", share s.host), ("accel_pct", share s.accel),
      ("accelerator", toString s.accelerator)]

end Split

namespace Config

def fieldNames : List String :=
  ["num_blocks", "disk_capacity", "host_capacity", "accelerator_capacities", "spill_dir",
    "default_split"]

def ofJson? (v : Json.Value) : Option Config := do
  let fields ← Json.record? fieldNames v
  let capacity := Json.nullable Json.word?
  some
    { blocks := ← Json.required Json.word? "num_blocks" fields
      diskCapacity := ← Json.optional capacity none "disk_capacity" fields
      hostCapacity := ← Json.optional capacity none "host_capacity" fields
      acceleratorCapacities :=
        ← Json.optional (Json.list? capacity) [none] "accelerator_capacities" fields
      spill := ← Json.optional (Json.nullable Json.text?) none "spill_dir" fields
      split := ← Json.optional Split.ofJson? .default "default_split" fields }

def toJson (c : Config) : String :=
  let capacity := Json.writeNullable fun n : Nat => toString n
  Json.writeObject
    [("num_blocks", toString c.blocks), ("disk_capacity", capacity c.diskCapacity),
      ("host_capacity", capacity c.hostCapacity),
      ("accelerator_capacities", Json.writeList (c.acceleratorCapacities.map capacity)),
      ("spill_dir", Json.writeNullable Json.writeString c.spill),
      ("default_split", c.split.toJson)]

/-- The configuration that a JSON text gives. -/
def read (text : String) : Option Config := (Json.read text.toList).bind ofJson?

/-- The usable configuration that a file holds. -/
def ofFile (f : Files) (path : String) : Except Fault Config := do
  let bytes ← (f.locate path >>= f.read).mapError .io
  match String.fromUTF8? bytes with
  | none => .error (.io .notText)
  | some text =>
    match read text with
    | none => .error (.config (.unreadable path))
    | some config => config.validate.map fun _ => config

end Config

end TieredWeights
