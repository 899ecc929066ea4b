import TieredWeights.ElementType
import TieredWeights.Split
import TieredWeights.Text.Quoted

/-!
# Faults

Everything that can go wrong, as a cause. The wording of each cause is given by `message` alone.
-/
namespace TieredWeights

/-- What the file system refuses. -/
inductive IoFault where
  | notFound
  | alreadyExists
  | notADirectory
  | isADirectory
  | notText
  | nameTooLong
  | nullInName
  | sizeOutOfRange
  | other (reason : String)
  deriving DecidableEq, Repr

def IoFault.message : IoFault → String
  | notFound => "No such file or directory (os error 2)"
  | alreadyExists => "File exists (os error 17)"
  | notADirectory => "Not a directory (os error 20)"
  | isADirectory => "Is a directory (os error 21)"
  | notText => "stream did not contain valid UTF-8"
  | nameTooLong => "File name too long (os error 36)"
  | nullInName => "file name contained an unexpected NUL byte"
  | sizeOutOfRange => "number too large to fit in target type"
  | other reason => reason

/-- What is wrong with a name, a shape or a configuration. -/
inductive ConfigFault where
  | elementType (name : String)
  | tier (fault : Tier.NameFault) (text : String)
  | shape (type : ElementType) (shape : List Nat)
  | tieTarget (name : String)
  | unplacedParameter (name : String)
  | missingParameter (block : Nat) (name : String)
  | missingAccelerator (index count : Nat)
  | unreadable (path : String)
  | other (reason : String)
  deriving DecidableEq, Repr

def ConfigFault.message : ConfigFault → String
  | elementType name => s!"unknown dtype '{name}'"
  | tier .badIndex text => s!"invalid device index in '{text}'"
  | tier .unknownName text => s!"unknown device tier '{text}'"
  | shape type dims =>
    s!"{type.display} tensor of shape {Text.bracketed (dims.map toString)} overflows usize"
  | tieTarget name => s!"cannot tie to unknown parameter '{name}'"
  | unplacedParameter name => s!"no placement for parameter '{name}'"
  | missingParameter block name => s!"block {block} has no parameter '{name}'"
  | missingAccelerator index count =>
    s!"default split targets accel:{index} but only {count} accelerator(s) are configured"
  | unreadable path => s!"failed to parse {path}"
  | other reason => reason

inductive Fault where
  | outOfCapacity (tier : Tier) (requested available : Nat)
  | alreadyPopulated (block : Nat)
  | structuralMismatch (block : Nat) (expected found : List String)
  | blockOutOfRange (index length : Nat)
  | commitContention (block attempts : Nat)
  | unknownTier (tier : Tier)
  | invalidSplit (fault : SplitFault)
  | invalidHandle (tier : Tier)
  | sizeMismatch (expected actual : Nat)
  | duplicateParameter (name : String)
  | cancelled
  | prefetch (block : Nat) (reason : String)
  | config (fault : ConfigFault)
  | io (fault : IoFault)
  /-- More memory was asked for than a piece of memory can have; the call does not return. -/
  | capacityOverflow
  deriving DecidableEq

namespace Fault

def message : Fault → String
  | outOfCapacity tier requested available =>
    s!"out of capacity on {tier.display}: requested {requested} bytes, {available} available"
  | alreadyPopulated block => s!"block {block} is already populated"
  | structuralMismatch block expected found =>
    s!"block {block} holds parameters {Text.quotedList found}, " ++
      s!"expected {Text.quotedList expected}"
  | blockOutOfRange index length => s!"block index {index} out of range ({length} slots)"
  | commitContention block attempts => s!"commit for block {block} lost {attempts} races in a row"
  | unknownTier tier => s!"tier {tier.display} is not configured"
  | invalidSplit fault => s!"invalid tier split: {fault.message}"
  | invalidHandle tier => s!"stale or foreign buffer handle on {tier.display}"
  | sizeMismatch expected actual => s!"size mismatch: expected {expected} bytes, got {actual}"
  | duplicateParameter name => s!"duplicate parameter name '{name}'"
  | cancelled => "block load cancelled"
  | prefetch block reason => s!"prefetch failed for block {block}: {reason}"
  | config fault => s!"configuration error: {fault.message}"
  | io fault => fault.message
  | capacityOverflow => "capacity overflow"

/-- The name of a fault's kind, for readers that tell faults apart by name. -/
def kind : Fault → String
  | outOfCapacity .. => "OutOfCapacity"
  | alreadyPopulated .. => "AlreadyPopulated"
  | structuralMismatch .. => "StructuralMismatch"
  | blockOutOfRange .. => "BlockOutOfRange"
  | commitContention .. => "CommitContention"
  | unknownTier .. => "UnknownTier"
  | invalidSplit .. => "InvalidSplit"
  | invalidHandle .. => "InvalidHandle"
  | sizeMismatch .. => "SizeMismatch"
  | duplicateParameter .. => "DuplicateParameter"
  | cancelled => "Cancelled"
  | prefetch .. => "Prefetch"
  | config .. => "Config"
  | io .. => "Io"
  | capacityOverflow => "Panic"

/-- Whether a caller may try again with a different split. -/
def isCapacity : Fault → Bool
  | outOfCapacity .. => true
  | _ => false

/-- Whether the call ends in a panic, so that its caller has nothing to handle. -/
def isPanic : Fault → Bool
  | capacityOverflow => true
  | _ => false

theorem isPanic_eq_false {e : Fault} : e.isPanic = false ↔ e ≠ capacityOverflow := by
  cases e <;> simp [isPanic]

end Fault

/-- The tier that a text names. -/
def Tier.read (text : String) : Except Fault Tier :=
  (Tier.ofName text.toList).mapError fun fault => .config (.tier fault text)

/-- The element type that a text names; the fault shows the name as it was compared. -/
def ElementType.read (text : String) : Except Fault ElementType :=
  match ElementType.ofName text.toList with
  | some t => .ok t
  | none => .error (.config (.elementType (String.ofList (Text.fold text.toList))))

end TieredWeights
