import TieredWeights.Files
import TieredWeights.Tensor

/-!
# Notices

What the library reports besides its results: news and warnings, in the order in which they arise.
-/
namespace TieredWeights

inductive Notice where
  | started (blocks : Nat) (tiers : List Tier) (split : Split Binary64)
  | spillFileKept (path : Path) (fault : IoFault)
  | placementKept (identity : Identity) (fault : Fault)
  | mismatch (block : Nat) (expected found : List String)
  | contended (block attempts : Nat)
  | purged (evicted : Nat)
  | invalidated (tier : Tier) (removed : Nat)
  | cleared (blocks : Nat)
  deriving DecidableEq

namespace Notice

def isWarning : Notice → Bool
  | spillFileKept .. | placementKept .. | mismatch .. | contended .. => true
  | _ => false

def text : Notice → String
  | started blocks tiers split =>
    s!"WeightLoader: {blocks} block slots, " ++
      s!"tiers {Text.bracketed (tiers.map Tier.display)}, default split {split.display}"
  | spillFileKept path fault => s!"failed to remove spill file {path.display}: {fault.message}"
  | placementKept identity fault =>
    s!"failed to release placement for {identity.display}: {fault.message}"
  | mismatch block expected found =>
    s!"{(Fault.structuralMismatch block expected found).message}; " ++
      s!"treating as a miss and reloading block {block}"
  | contended block attempts => s!"giving up after {attempts} contended commits block={block}"
  | purged evicted => s!"purged unreferenced placements evicted={evicted}"
  | invalidated tier removed =>
    s!"invalidated tier placements tier={tier.display} removed={removed}"
  | cleared blocks => s!"cleared all blocks and placements blocks={blocks}"

/-- The line of a notice in a log. -/
def line (n : Notice) : String := (if n.isWarning then "WARN " else "INFO ") ++ n.text

end Notice

end TieredWeights
