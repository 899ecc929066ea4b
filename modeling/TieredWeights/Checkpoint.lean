import TieredWeights.Block

/-!
# Checkpoints

The named tensors of one model, kept in order of their names. Tensors are registered as they are
read; a tied name shares the tensor of an earlier one. A block is cut out by a prefix: its
parameters are the names after the prefix and a point.
-/
namespace TieredWeights

structure Checkpoint where
  tensors : Table String Tensor

namespace Checkpoint

def empty : Checkpoint := ⟨.empty⟩

instance : Inhabited Checkpoint := ⟨empty⟩

/-- Bind a name that is not bound yet. -/
def insert (c : Checkpoint) (name : String) (t : Tensor) : Except Fault Checkpoint :=
  if c.tensors.contains name then .error (.duplicateParameter name)
  else .ok ⟨c.tensors.insert name t⟩

/-- Read a tensor and bind it. The tensor has its id before the name is looked at. -/
def register (c : Checkpoint) (ids : Issuer) (name : String) (type : ElementType)
    (shape : List Nat) (bytes : Bytes) : Except Fault Tensor × Checkpoint × Issuer :=
  match ids.ofBytes type shape bytes with
  | (.error e, ids) => (.error e, c, ids)
  | (.ok t, ids) =>
    match c.insert name t with
    | .error e => (.error e, c, ids)
    | .ok c => (.ok t, c, ids)

/-- Bind `name` to the tensor of `target`. -/
def tie (c : Checkpoint) (name target : String) : Except Fault Checkpoint :=
  match c.tensors.find? target with
  | none => .error (.config (.tieTarget target))
  | some t => c.insert name t

def get? (c : Checkpoint) (name : String) : Option Tensor := c.tensors.find? name

def size (c : Checkpoint) : Nat := c.tensors.size

/-- How many readings the tensors came from. -/
def uniqueSources (c : Checkpoint) : Nat := (c.tensors.values.map (·.source)).eraseDups.length

/-- What follows the prefix in a name that begins with it. -/
def rest? (start name : String) : Option String :=
  if start.toList.isPrefixOf name.toList then
    some (String.ofList (name.toList.drop start.toList.length))
  else none

/-- The tensors bound from `start` on, up to the first name that does not begin with it. -/
def entriesUnder (start : String) : List (String × Tensor) → List (String × Tensor)
  | [] => []
  | (name, t) :: others =>
    match rest? start name with
    | none => []
    | some rest => (rest, t) :: entriesUnder start others

/-- The parameters whose names begin with the prefix and a point, without both. -/
def block (c : Checkpoint) (stem : String) : Except Fault Block :=
  let start := stem ++ "."
  Block.ofParameters
    (entriesUnder start (c.tensors.toList.dropWhile fun b => compare b.1 start = .lt))

end Checkpoint

end TieredWeights
