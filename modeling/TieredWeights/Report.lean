import TieredWeights.Block
import TieredWeights.Plan

/-!
# Reports

Counts of how often existing placements served a load, of what a cache holds, and of the memory
that sharing saves.
-/
namespace TieredWeights

/-- How often loads were served by existing placements. -/
structure ReuseStats where
  blockLoads : Nat := 0
  holderHits : Nat := 0
  parametersResolved : Nat := 0
  parametersReused : Nat := 0
  deriving DecidableEq, Repr

namespace ReuseStats

def percentage (s : ReuseStats) : Binary64 :=
  Plan.percentOf s.parametersReused s.parametersResolved

def display (s : ReuseStats) : String :=
  s!"Weight sharing: {s.parametersReused}/{s.parametersResolved} tensors reused " ++
    s!"({s.percentage.fixed 1}%), {s.holderHits} of {s.blockLoads} block loads from block store"

end ReuseStats

/-- The part of hits among all calls, 0 if there were none. -/
def hitRateOf (hits misses : Nat) : Binary64 :=
  if hits + misses = 0 then 0 else .ofNat hits / .ofNat (hits + misses)

/-- What a cache holds, tier by tier. -/
structure CacheStats where
  placements : Table Tier Nat
  bytes : Table Tier Nat
  /-- References besides the registrations. -/
  references : Nat
  hits : Nat
  misses : Nat
  hitRate : Binary64

namespace CacheStats

def placementsOn (s : CacheStats) (tier : Tier) : Nat := (s.placements.find? tier).getD 0

def totalPlacements (s : CacheStats) : Nat := sumOf s.placements.values

def bytesPerMegabyte : Binary64 := .ofNat (1024 * 1024)

def display (s : CacheStats) : String :=
  let tiers := s.placements.toList.map fun x =>
    let bytes := (s.bytes.find? x.1).getD 0
    s!"{x.1.display}={x.2} ({(.ofNat bytes / bytesPerMegabyte : Binary64).fixed 1} MB)"
  s!"WeightCache: {Text.bracketed tiers}, {s.references} refs, " ++
    s!"hit rate {(s.hitRate * 100).fixed 1}% ({s.hits} hits, {s.misses} misses)"

end CacheStats

/-- The bytes of a model with a buffer for every parameter, and with one for every tensor. -/
structure Savings where
  naive : Nat := 0
  shared : Nat := 0
  deriving DecidableEq, Repr

namespace Savings

/-- Count one more tensor, `seen` being the identities counted so far. -/
def count (acc : Savings × List Identity) (t : Tensor) : Savings × List Identity :=
  let (s, seen) := acc
  let n := t.bytes.size
  if t.identity ∈ seen then ({ s with naive := s.naive + n }, seen)
  else (⟨s.naive + n, s.shared + n⟩, t.identity :: seen)

def ofBlocks (blocks : List Block) : Savings :=
  ((blocks.flatMap fun b => b.parameters.map (·.2)).foldl count ({}, [])).1

def saved (s : Savings) : Nat := s.naive - s.shared

def fraction (s : Savings) : Binary64 :=
  if s.naive = 0 then 0 else .ofNat s.saved / .ofNat s.naive

def gigabytes (n : Nat) : Binary64 := .ofNat n / .ofNat (1024 * 1024 * 1024)

def display (s : Savings) : String :=
  s!"naive {(gigabytes s.naive).fixed 2} GB, shared {(gigabytes s.shared).fixed 2} GB, " ++
    s!"savings {(gigabytes s.saved).fixed 2} GB ({(s.fraction * 100).fixed 1}%)"

end Savings

end TieredWeights
