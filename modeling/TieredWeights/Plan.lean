import TieredWeights.Table
import TieredWeights.Split
import TieredWeights.Binary64.Shortest

/-!
# Placement plans

Parameters are placed in the order of their block. Each has a midpoint: the position, in percent of
the block's bytes, of the middle of its own bytes. Tiers with a positive share own consecutive
brackets of percentages in canonical order, and a parameter goes to the first tier whose bracket
reaches its midpoint; so the plan follows the shares of bytes, not of parameters.
-/
namespace TieredWeights

/-- The tiers with a positive share, each with the upper bound of its bracket. -/
structure Brackets (α : Type) where
  bounds : List (Tier × α)
  deriving DecidableEq

/-- A parameter with its size and tier. -/
structure PlannedParameter where
  name : String
  size : Nat
  tier : Tier
  deriving DecidableEq, Repr

/-- The tiers of a block's parameters, in block order. -/
structure Plan where
  parameters : List PlannedParameter
  deriving DecidableEq, Repr

namespace Brackets

variable {α : Type} [ShareArithmetic α]

local instance (n : Nat) : OfNat α n := ⟨ShareArithmetic.ofNat n⟩

/-- Brackets stacked on `upper`, one for each positive share. -/
def stack (upper : α) : List (Tier × α) → List (Tier × α)
  | [] => []
  | (tier, share) :: rest =>
    if 0 < share then (tier, upper + share) :: stack (upper + share) rest else stack upper rest

def ofSplit (s : Split α) : Except ShareFault (Brackets α) :=
  s.normalized.map fun shares => ⟨stack 0 shares⟩

/-- The first tier whose bracket reaches the midpoint, else the last one. -/
def tierOf (b : Brackets α) (midpoint : α) : Tier :=
  match b.bounds.find? fun x => decide (midpoint ≤ x.2 + ShareArithmetic.tolerance) with
  | some (tier, _) => tier
  | none => (b.bounds.getLast?.map (·.1)).getD .host

/-- The midpoint of a parameter that ends at byte `reached` of `total`. -/
def midpoint (total reached size : Nat) : α :=
  if total = 0 then 0
  else
    (ShareArithmetic.ofNat reached - ShareArithmetic.ofNat size / 2) /
      ShareArithmetic.ofNat total * 100

/-- Tiers for the parameters that follow the first `reached` bytes of a block. -/
def assignFrom (b : Brackets α) (total reached : Nat) :
    List (String × Nat) → List PlannedParameter
  | [] => []
  | (name, size) :: rest =>
    ⟨name, size, b.tierOf (midpoint total (reached + size) size)⟩ ::
      b.assignFrom total (reached + size) rest

/-- The tier of every parameter of a block. -/
def assign (b : Brackets α) (parameters : List (String × Nat)) : Plan :=
  ⟨b.assignFrom (sumOf (parameters.map (·.2))) 0 parameters⟩

end Brackets

namespace Plan

def tierOf? (p : Plan) (name : String) : Option Tier :=
  (p.parameters.find? fun q => q.name = name).map (·.tier)

def size (p : Plan) : Nat := p.parameters.length

def totalBytes (p : Plan) : Nat := sumOf (p.parameters.map (·.size))

/-- Bytes planned for each tier that has a parameter. -/
def bytesPerTier (p : Plan) : Table Tier Nat :=
  p.parameters.foldl (fun t q => t.insert q.tier ((t.find? q.tier).getD 0 + q.size)) .empty

/-- A part of a whole in percent, 0 for an empty whole. -/
def percentOf (part whole : Nat) : Binary64 :=
  if whole = 0 then 0 else .ofNat part / .ofNat whole * 100

def display (p : Plan) : String :=
  let parts := p.bytesPerTier.toList.map fun x =>
    s!"{x.1.display} {x.2} B ({(percentOf x.2 p.totalBytes).fixed 1}%)"
  s!"{p.size} params: " ++ ", ".intercalate parts

end Plan

end TieredWeights
