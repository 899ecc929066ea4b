import TieredWeights.Text.Pieces
import TieredWeights.Text.Numeral

/-!
# Element types

The numeric type of a tensor's elements. Values are never interpreted; the type takes part in a
tensor's identity and in the count of its bytes.
-/
namespace TieredWeights

inductive ElementType where
  | f16 | bf16 | f32 | f64 | i8 | u8 | i32 | i64
  deriving DecidableEq, Repr

namespace ElementType

/-- The position of a type in the canonical list of types. -/
def rank : ElementType → Nat
  | f16 => 0
  | bf16 => 1
  | f32 => 2
  | f64 => 3
  | i8 => 4
  | u8 => 5
  | i32 => 6
  | i64 => 7

theorem rank_injective {s t : ElementType} (h : s.rank = t.rank) : s = t := by
  cases s <;> cases t <;> simp_all [rank]

instance : Ord ElementType := ⟨compareOn rank⟩

/-- All types in canonical order. -/
def all : List ElementType := [f16, bf16, f32, f64, i8, u8, i32, i64]

/-- Bytes of one element. -/
def size : ElementType → Nat
  | f16 | bf16 => 2
  | f32 | i32 => 4
  | f64 | i64 => 8
  | i8 | u8 => 1

def isFloat : ElementType → Bool
  | f16 | bf16 | f32 | f64 => true
  | _ => false

/-- Bytes of `n` elements, if a machine word can count them. -/
def storageBytes? (t : ElementType) (n : Nat) : Option Nat :=
  if t.size * n ≤ wordMax then some (t.size * n) else none

def display : ElementType → String
  | f16 => "f16"
  | bf16 => "bf16"
  | f32 => "f32"
  | f64 => "f64"
  | i8 => "i8"
  | u8 => "u8"
  | i32 => "i32"
  | i64 => "i64"

/-- The accepted names of a type. -/
def names : ElementType → List String
  | f16 => ["f16", "float16", "half"]
  | bf16 => ["bf16", "bfloat16"]
  | f32 => ["f32", "float32", "float"]
  | f64 => ["f64", "float64", "double"]
  | i8 => ["i8", "int8"]
  | u8 => ["u8", "uint8"]
  | i32 => ["i32", "int32"]
  | i64 => ["i64", "int64"]

/-- The type that a text names, blanks around it and the case of letters aside. -/
def ofName (s : List Char) : Option ElementType :=
  all.find? fun t => t.names.any fun name => name.toList = Text.fold s

end ElementType

end TieredWeights
