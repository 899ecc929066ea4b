import TieredWeights.Loader

/-!
# Configurations

What a loader is made from: the count of its block slots, the capacities of its tiers, the folder
that the disk spills to, and the split used where a caller names none.
-/
namespace TieredWeights

structure Config where
  blocks : Nat
  diskCapacity : Option Nat := none
  hostCapacity : Option Nat := none
  /-- One capacity for each accelerator, by its index. -/
  acceleratorCapacities : List (Option Nat) := [none]
  /-- The folder of the disk's buffers as written; without one they are kept in memory. -/
  spill : Option String := none
  split : Split Binary64 := .default
  deriving DecidableEq

namespace Config

instance : Inhabited Config := ⟨{ blocks := 0 }⟩

/-- The host bounded to a fraction, clamped to lie between 0 and 1, of the bytes available. The
fraction is a number of 32 bits. -/
def boundHost (c : Config) (available : Nat) (fraction : Binary64) : Config :=
  let fraction := fraction.toSingle
  let fraction := if fraction < 0 then 0 else if 1 < fraction then 1 else fraction
  { c with hostCapacity := some ((.ofNat available * fraction : Binary64).toWord wordMax) }

/-- Whether the split gives bytes to an accelerator that is not configured. -/
def lacksAccelerator (c : Config) : Bool :=
  decide (0 < c.split.accel) && decide (c.acceleratorCapacities.length ≤ c.split.accelerator)

/-- A configuration is usable when its split is, and when the accelerator of the split exists. -/
def validate (c : Config) : Except Fault Unit :=
  if c.lacksAccelerator then
    .error (.config (.missingAccelerator c.split.accelerator c.acceleratorCapacities.length))
  else c.split.validate.mapError .invalidSplit

/-- The tiers with their capacities and folders, in canonical order. -/
def tiers (c : Config) : List (Tier × Option Nat × Option String) :=
  (.disk, c.diskCapacity, c.spill) :: (.host, c.hostCapacity, none) ::
    (c.acceleratorCapacities.zipIdx.map fun x => (.accelerator x.2, x.1, none))

/-- A depot with the pools that a configuration describes, made one after another. -/
def furnish (c : Config) (d : Depot) : Except Fault Unit × Depot := d.addPools c.tiers

/-- A loader over the pools that a usable configuration describes. -/
def loader (c : Config) (d : Depot) : Except Fault Loader × Depot :=
  match c.validate with
  | .error e => (.error e, d)
  | .ok () =>
    match c.furnish d with
    | (.error e, d) => (.error e, d)
    | (.ok (), d) =>
      let d := d.note (.started c.blocks d.tiers c.split)
      (Loader.overPools d c.blocks c.split, d)

end Config

end TieredWeights
