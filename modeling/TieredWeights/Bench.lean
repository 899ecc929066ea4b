import TieredWeights.Config

/-!
# Loading strategies compared

A synthetic model is loaded into fresh pools by different strategies: with a buffer for every
reference to a parameter, through a loader that keeps every block, and through a loader that lets
go of each block once the next one is loaded. A run counts the buffers handed out and the bytes in
use at its peak. Every run gives back all its buffers, so that no spill file outlives it.
-/
namespace TieredWeights

inductive Strategy where
  | naive
  | shared
  | lazy
  deriving DecidableEq, Repr

namespace Strategy

def all : List Strategy := [naive, shared, lazy]

def name : Strategy → String
  | naive => "naive"
  | shared => "shared"
  | lazy => "lazy"

def ofName (s : String) : Option Strategy := all.find? fun x => x.name = s

end Strategy

/-- A model of `layers` blocks, each a square matrix of weights and its bias; `redundancy` blocks
share one set of tensors. -/
structure SyntheticModel where
  side : Nat := 1024
  layers : Nat := 8
  redundancy : Nat := 1
  type : ElementType := .f32
  deriving DecidableEq, Repr

namespace SyntheticModel

/-- How many sets of tensors the blocks share. -/
def uniqueSets (m : SyntheticModel) : Nat := max 1 (m.layers / max 1 m.redundancy)

/-- A matrix and its bias. A comparison counts bytes and never looks at them, so they are all zero. -/
def tensors (m : SyntheticModel) (ids : Issuer) : Except Fault (Tensor × Tensor) × Issuer :=
  match ids.zeros m.type [m.side, m.side] with
  | (.error e, ids) => (.error e, ids)
  | (.ok weight, ids) =>
    match ids.zeros m.type [m.side] with
    | (.error e, ids) => (.error e, ids)
    | (.ok bias, ids) => (.ok (weight, bias), ids)

/-- `n` sets of tensors. -/
def tensorSets (m : SyntheticModel) (ids : Issuer) : Nat → Except Fault (List (Tensor × Tensor))
  | 0 => .ok []
  | n + 1 =>
    match m.tensors ids with
    | (.error e, _) => .error e
    | (.ok set, ids) => (m.tensorSets ids n).map (set :: ·)

def blockOf (set : Tensor × Tensor) : Except Fault Block :=
  Block.ofParameters [("weight", set.1), ("bias", set.2)]

/-- The blocks in order, which take the sets of tensors in turn. -/
def blocks (m : SyntheticModel) : Except Fault (List Block) := do
  let sets := (← m.tensorSets {} m.uniqueSets).toArray
  (List.range m.layers).mapM fun i =>
    match sets[i % m.uniqueSets]? with
    | none => .ok .empty
    | some set => blockOf set

end SyntheticModel

/-- What a run achieved. -/
inductive RunResult where
  | done (allocations peak : Nat)
  | outOfCapacity (fault : Fault)
  deriving DecidableEq

namespace RunResult

/-- A failure for want of capacity is a result, any other ends the comparison. -/
def ofFault (e : Fault) : Except Fault RunResult :=
  if e.isCapacity then .ok (.outOfCapacity e) else .error e

end RunResult

namespace Bench

/-- A depot without pools that continues the files and the count of pools of another. -/
def fresh (d : Depot) : Depot :=
  { files := d.files, process := d.process, poolsMade := d.poolsMade }

/-- A buffer for every parameter that remains of a block. The buffers handed out are returned in
their order, also those before a failure. -/
def placeParameters (plan : Plan) :
    List (String × Tensor) → List Buffer → Depot → Except Fault Unit × List Buffer × Depot
  | [], buffers, d => (.ok (), buffers, d)
  | (name, t) :: rest, buffers, d =>
    match plan.tierOf? name with
    | none => (.error (.config (.unplacedParameter name)), buffers, d)
    | some tier =>
      match d.allocate tier t.bytes.size t.type with
      | (.error e, d) => (.error e, buffers, d)
      | (.ok b, d) =>
        match d.copyIn tier b t.bytes with
        | (.error e, d) => (.error e, buffers ++ [b], d)
        | (.ok (), d) => placeParameters plan rest (buffers ++ [b]) d

def placeBlocks (brackets : Brackets Binary64) :
    List Block → List Buffer → Depot → Except Fault Unit × List Buffer × Depot
  | [], buffers, d => (.ok (), buffers, d)
  | block :: rest, buffers, d =>
    match placeParameters (brackets.assign block.sizes) block.parameters buffers d with
    | (.error e, buffers, d) => (.error e, buffers, d)
    | (.ok (), buffers, d) => placeBlocks brackets rest buffers d

/-- Give buffers back to the pools of their tiers. -/
def giveBack : List Buffer → Depot → Except Fault Unit × Depot
  | [], d => (.ok (), d)
  | b :: rest, d =>
    match d.release b.tier b with
    | (.error e, d) => (.error e, d)
    | (.ok (), d) => giveBack rest d

/-- A run with a buffer for every reference to a parameter. -/
def runNaive (config : Config) (blocks : List Block) (split : Split Binary64) (d : Depot) :
    Except Fault RunResult × Depot :=
  match config.furnish (fresh d) with
  | (.error e, d) => (.error e, d)
  | (.ok (), d) =>
    match Brackets.ofSplit split with
    | .error e => (.error (.invalidSplit (.ofShares split e)), d)
    | .ok brackets =>
      let (placed, buffers, d) := placeBlocks brackets blocks [] d
      let result := RunResult.done d.allocations d.usedBytes
      match giveBack buffers d with
      | (.error e, d) => (.error e, d)
      | (.ok (), d) =>
        match placed with
        | .ok () => (.ok result, d)
        | .error e => (RunResult.ofFault e, d)

/-- Let go of the block before, and of the placements that only it used. -/
def letGo (l : Loader) : Nat → Except Fault Unit × Loader
  | 0 => (.ok (), l)
  | before + 1 =>
    match l.clearBlock before with
    | (.error e, l) => (.error e, l)
    | (.ok _, l) => (.ok (), { l with cache := l.cache.purge.2 })

/-- Load the blocks that remain, `index` being the next, and tell the bytes in use at the peak. -/
def loadBlocks (split : Split Binary64) (keep : Bool) (peak index : Nat) :
    List Block → Loader → Except Fault Nat × Loader
  | [], l => (.ok peak, l)
  | block :: rest, l =>
    match l.load index block split with
    | (.error e, l) => (.error e, l)
    | (.ok handle, l) =>
      let l := l.dropHandle handle
      let peak := max peak l.depot.usedBytes
      match if keep then (.ok (), l) else letGo l index with
      | (.error e, l) => (.error e, l)
      | (.ok (), l) => loadBlocks split keep peak (index + 1) rest l

/-- A run through a loader that keeps every block, or only the last one. -/
def runShared (config : Config) (blocks : List Block) (split : Split Binary64) (keep : Bool)
    (d : Depot) : Except Fault RunResult × Depot :=
  match config.loader (fresh d) with
  | (.error e, d) => (.error e, d)
  | (.ok l, _) =>
    match loadBlocks split keep 0 0 blocks l with
    | (.error e, l) => (RunResult.ofFault e, l.close)
    | (.ok peak, l) => (.ok (.done l.depot.allocations peak), l.close)

/-- A run of a strategy. -/
def run (config : Config) (blocks : List Block) (split : Split Binary64) (d : Depot) :
    Strategy → Except Fault RunResult × Depot
  | .naive => runNaive config blocks split d
  | .shared => runShared config blocks split true d
  | .lazy => runShared config blocks split false d

end Bench

end TieredWeights
