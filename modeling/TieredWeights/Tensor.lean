import TieredWeights.Content
import TieredWeights.Fault

/-!
# Tensors and their identity

A tensor's bytes are read into the system once, and that reading issues a source id. Copies of the
tensor keep the id, so parameters tied to one tensor are recognized as sharing its bytes, while two
tensors read separately stay apart even when their bytes are equal.
-/
namespace TieredWeights

/-- What tells two tensors' bytes apart: the reading that brought them in, their count and the type
of their elements. -/
structure Identity where
  source : Nat
  bytes : Nat
  type : ElementType
  deriving DecidableEq, Repr

namespace Identity

def code (i : Identity) : List Nat := [i.source, i.bytes, i.type.rank]

def sourceDisplay (source : Nat) : String := s!"src#{source}"

def display (i : Identity) : String :=
  s!"{sourceDisplay i.source}[{i.bytes} bytes, {i.type.display}]"

end Identity

/-- Source weights before placement. -/
structure Tensor where
  source : Nat
  type : ElementType
  shape : List Nat
  bytes : ByteArray
  size_le : bytes.size ≤ memoryLimit

namespace Tensor

def identity (t : Tensor) : Identity := ⟨t.source, t.bytes.size, t.type⟩

/-- How many elements the shape holds. -/
def elements (t : Tensor) : Nat := t.shape.foldl (· * ·) 1

end Tensor

/-- The product of dimensions multiplied one after another, as long as every product on the way is
a machine word. -/
def checkedElements (n : Nat) : List Nat → Option Nat
  | [] => some n
  | d :: rest => if n * d ≤ wordMax then checkedElements (n * d) rest else none

/-- The bytes that a shape of elements takes. -/
def shapeBytes (type : ElementType) (shape : List Nat) : Except Fault Nat :=
  match (checkedElements 1 shape).bind type.storageBytes? with
  | some n => .ok n
  | none => .error (.config (.shape type shape))

/-- The issuer of source ids, which knows how many it has issued. -/
structure Issuer where
  issued : Nat := 0
  deriving DecidableEq, Repr

namespace Issuer

/-- A tensor under the next source id. -/
def issue (s : Issuer) (type : ElementType) (shape : List Nat) (bytes : Bytes) :
    Tensor × Issuer :=
  (⟨s.issued + 1, type, shape, bytes.1, bytes.2⟩, ⟨s.issued + 1⟩)

/-- A tensor of given bytes, whose count must be that of the shape. A refused tensor takes no id. -/
def ofBytes (s : Issuer) (type : ElementType) (shape : List Nat) (bytes : Bytes) :
    Except Fault Tensor × Issuer :=
  match shapeBytes type shape with
  | .error e => (.error e, s)
  | .ok expected =>
    if bytes.1.size ≠ expected then (.error (.sizeMismatch expected bytes.1.size), s)
    else
      let (t, s) := s.issue type shape bytes
      (.ok t, s)

/-- A tensor of zero bytes. Its id is taken before the memory is asked for. -/
def zeros (s : Issuer) (type : ElementType) (shape : List Nat) : Except Fault Tensor × Issuer :=
  match shapeBytes type shape with
  | .error e => (.error e, s)
  | .ok n =>
    if h : n ≤ memoryLimit then
      let (t, s) := s.issue type shape ⟨zeroBytes n, by simpa using h⟩
      (.ok t, s)
    else (.error .capacityOverflow, ⟨s.issued + 1⟩)

/-- The four bytes of a number of 32 bits, least significant first. -/
def littleEndian (bits : Nat) : List UInt8 :=
  [bits.toUInt8, (bits / twoTo 8).toUInt8, (bits / twoTo 16).toUInt8, (bits / twoTo 24).toUInt8]

/-- A tensor of numbers of 32 bits. -/
def ofSingles (s : Issuer) (shape : List Nat) (values : List Binary64) :
    Except Fault Tensor × Issuer :=
  let bytes : ByteArray := ⟨(values.flatMap fun x => littleEndian x.toSingleBits).toArray⟩
  if h : bytes.size ≤ memoryLimit then s.ofBytes .f32 shape ⟨bytes, h⟩
  else (.error .capacityOverflow, s)

end Issuer

end TieredWeights
