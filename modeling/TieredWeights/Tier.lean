import TieredWeights.Text.Pieces
import TieredWeights.Text.Numeral

/-!
# Storage tiers

Weights are placed on the disk, in host memory or on an accelerator. The canonical order of tiers
puts the slow and large before the fast and scarce, and accelerators by their index. A tier has
one displayed name and several accepted ones.
-/
namespace TieredWeights

inductive Tier where
  | disk
  | host
  | accelerator (index : Nat)
  deriving DecidableEq, Repr

namespace Tier

/-- The position of a tier in canonical order, as a word to be compared letter by letter. -/
def code : Tier → List Nat
  | disk => [0]
  | host => [1]
  | accelerator i => [2, i]

theorem code_injective {s t : Tier} (h : s.code = t.code) : s = t := by
  cases s <;> cases t <;> simp_all [code]

instance : Ord Tier := ⟨compareOn code⟩

instance : Std.TransOrd Tier := inferInstanceAs (Std.TransCmp (compareOn code))

instance : Std.LawfulEqOrd Tier where
  compare_self {t} := (Std.ReflCmp.compare_self : compare t.code t.code = .eq)
  eq_of_compare h := code_injective (Std.LawfulEqOrd.eq_of_compare h)

def isDisk : Tier → Bool
  | disk => true
  | _ => false

def isHost : Tier → Bool
  | host => true
  | _ => false

def isAccelerator : Tier → Bool
  | accelerator _ => true
  | _ => false

def acceleratorIndex? : Tier → Option Nat
  | accelerator i => some i
  | _ => none

def display : Tier → String
  | disk => "disk"
  | host => "host"
  | accelerator i => s!"accel:{i}"

/-- Why a text names no tier. -/
inductive NameFault where
  | badIndex
  | unknownName
  deriving DecidableEq, Repr

/-- The tier of a kind, with or without an index. -/
def ofKind (kind : List Char) (index : Option Nat) : Except NameFault Tier :=
  if kind = "accel".toList ∨ kind = "cuda".toList ∨ kind = "gpu".toList then
    .ok (accelerator (index.getD 0))
  else if index.isSome then .error .unknownName
  else if kind = "disk".toList then .ok disk
  else if kind = "host".toList ∨ kind = "cpu".toList then .ok host
  else .error .unknownName

/-- The tier that a text names: a kind, and for an accelerator perhaps a colon and an index. The
index is read before the kind is looked at. -/
def ofName (s : List Char) : Except NameFault Tier :=
  let name := Text.fold s
  match Text.cut ':' name with
  | none => ofKind name none
  | some (kind, digits) =>
    match Text.readWord digits with
    | .error _ => .error .badIndex
    | .ok i => ofKind kind (some i)

end Tier

end TieredWeights
