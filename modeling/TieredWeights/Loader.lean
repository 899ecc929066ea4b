import TieredWeights.BlockStore

/-!
# The loader

A loader owns the pools, the placement cache and the block store. Loading a block goes through

* the block store: a held map with the block's names is handed out as it is, any other is dismissed;
* the plan of the block under the split;
* the cache: every parameter is resolved onto its tier, in block order;
* the commit: the map of references is stored, unless another caller was faster.

A lost commit starts over, at most `commitAttempts` times in all. A load that fails or is cancelled
releases the references it has gathered. Between any two steps other callers may act on the loader;
a `Company` says what they do, and the load alone is a load in company of nobody.
-/
namespace TieredWeights

structure Loader where
  cache : Cache
  store : BlockStore
  split : Split Binary64
  reuse : ReuseStats := {}

/-- How a load obtained its map. -/
inductive Outcome where
  | holderHit
  | loaded (placed reused attempts : Nat)
  deriving DecidableEq, Repr

/-- A loaded block: a holder of its parameter map. -/
structure Handle where
  block : Nat
  map : MapId
  outcome : Outcome
  deriving DecidableEq, Repr

/-- The moments of a load, each just after the step that it names. -/
inductive Moment where
  | started
  | attempted (attempt : Nat)
  | consulted (attempt : Nat)
  | dismissed (attempt : Nat)
  | admitted (parameters : Nat)
  | resolved (parameters : Nat)
  | approved (attempt : Nat)
  | refused (attempt : Nat)
  deriving DecidableEq, Repr

/-- Other callers of a loader: what they do at the moments of a load, with a state `σ` of their
own, and whether they have cancelled the load. -/
structure Company (σ : Type) where
  act : Moment → Loader × σ → Loader × σ
  cancelled : Loader × σ → Bool

/-- Nobody else. -/
def Company.alone : Company Unit := ⟨fun _ w => w, fun _ => false⟩

/-- References gathered by a load, with the counts of new and shared placements. -/
structure Gathered where
  parameters : Table String PlacementId := .empty
  placed : Nat := 0
  reused : Nat := 0

def Gathered.add (g : Gathered) (name : String) (r : Resolved) : Gathered :=
  { parameters := g.parameters.insert name r.placement
    placed := if r.placed then g.placed + 1 else g.placed
    reused := if r.placed then g.reused else g.reused + 1 }

namespace Loader

/-- How often a load tries to commit. -/
def commitAttempts : Nat := 4

/-- A loader over the pools of a depot that has loaded nothing. -/
def ofDepot (depot : Depot) (blocks : Nat) (split : Split Binary64) : Loader :=
  { cache := .ofDepot depot, store := { size := blocks }, split }

/-- A new loader over the pools of a depot, if there is memory for its block slots. -/
def overPools (depot : Depot) (blocks : Nat) (split : Split Binary64) : Except Fault Loader :=
  match BlockStore.ofSize blocks with
  | .error e => .error e
  | .ok store => .ok { cache := .ofDepot depot, store, split }

theorem overPools_of_le {blocks : Nat} (h : blocks ≤ BlockStore.slotLimit) (depot : Depot)
    (split : Split Binary64) : overPools depot blocks split = .ok (.ofDepot depot blocks split) := by
  simp [overPools, BlockStore.ofSize, Nat.not_lt.2 h, ofDepot]

theorem overPools_of_lt {blocks : Nat} (h : BlockStore.slotLimit < blocks) (depot : Depot)
    (split : Split Binary64) : overPools depot blocks split = .error .capacityOverflow := by
  simp [overPools, BlockStore.ofSize, h]

/-- A loader is made, or there is no memory for its slots. -/
theorem overPools_cases (depot : Depot) (blocks : Nat) (split : Split Binary64) :
    (BlockStore.slotLimit < blocks ∧ overPools depot blocks split = .error .capacityOverflow) ∨
      (blocks ≤ BlockStore.slotLimit ∧
        overPools depot blocks split = .ok (.ofDepot depot blocks split)) := by
  rcases Nat.lt_or_ge BlockStore.slotLimit blocks with h | h
  · exact .inl ⟨h, overPools_of_lt h depot split⟩
  · exact .inr ⟨h, overPools_of_le h depot split⟩

instance : Inhabited Loader := ⟨ofDepot {} 0 .default⟩

def note (l : Loader) (n : Notice) : Loader := { l with cache := l.cache.note n }

def depot (l : Loader) : Depot := l.cache.depot

def releaseAll (l : Loader) (ps : List PlacementId) : Loader :=
  { l with cache := l.cache.releaseAll ps }

/-- Give up a hold on a map. -/
def dropMap (l : Loader) (m : MapId) : Loader :=
  let (released, store) := l.store.drop m
  { l with store }.releaseAll released

def dropHandle (l : Loader) (h : Handle) : Loader := l.dropMap h.map

/-- The parameters of a handle, in order of their names. -/
def parametersOf (l : Loader) (m : MapId) : List (String × PlacementId) :=
  ((l.store.map? m).map (·.toList)).getD []

/-- Store references as the map of a block. References that cannot be stored are released. -/
def storeMap (l : Loader) (block : Nat) (parameters : Table String PlacementId) :
    Except Fault MapId × Loader :=
  match l.store.store block parameters with
  | (.ok m, store) => (.ok m, { l with store })
  | (.error e, store) => (.error e, { l with store }.releaseAll parameters.values)

def loadMap (l : Loader) (block : Nat) : Except Fault (Option MapId) × Loader :=
  let (result, store) := l.store.load block
  (result, { l with store })

/-- Empty the slot of a block, and tell whether it held a map. -/
def clearBlock (l : Loader) (block : Nat) : Except Fault Bool × Loader :=
  let (result, released, store) := l.store.clear block
  (result, { l with store }.releaseAll released)

def clearBlockIf (l : Loader) (block : Nat) (m : MapId) : Except Fault Bool × Loader :=
  let (result, released, store) := l.store.clearIf block m
  (result, { l with store }.releaseAll released)

def clearBlocks (l : Loader) : Nat × Loader :=
  let (n, released, store) := l.store.clearAll
  (n, { l with store }.releaseAll released)

/-- Empty every block slot and forget every placement. -/
def clearAll (l : Loader) : Loader :=
  let (n, l) := l.clearBlocks
  { l with cache := l.cache.clear }.note (.cleared n)

/-- Empty every block slot and forget every placement, and keep the depot alone. -/
def close (l : Loader) : Depot := l.clearBlocks.2.cache.clear.depot

/-- Whether a map has exactly the names of a block. -/
def matchesBlock (parameters : Table String PlacementId) (block : Block) : Bool :=
  parameters.size = block.size && block.names.all parameters.contains

section

variable {σ : Type} (company : Company σ)

/-- Resolve the parameters that remain, after `before` have been resolved by this load. On a
failure the references gathered are released. -/
def gather (plan : Plan) (before : Nat) :
    List (String × Tensor) → Gathered → Loader × σ → Except Fault Gathered × (Loader × σ)
  | [], g, w => (.ok g, w)
  | (name, t) :: rest, g, w =>
    if company.cancelled w then (.error .cancelled, (w.1.releaseAll g.parameters.values, w.2))
    else
      let w := company.act (.admitted before) w
      match plan.tierOf? name with
      | none =>
        (.error (.config (.unplacedParameter name)),
          (w.1.releaseAll g.parameters.values, w.2))
      | some tier =>
        match w.1.cache.resolve t tier with
        | (.error e, cache) =>
          (.error e, ({ w.1 with cache }.releaseAll g.parameters.values, w.2))
        | (.ok r, cache) =>
          gather plan (before + 1) rest (g.add name r)
            (company.act (.resolved (before + 1)) ({ w.1 with cache }, w.2))

/-- Count a load served by the block store. -/
def countHit (l : Loader) (parameters : Nat) : Loader :=
  { l with reuse := { l.reuse with
      holderHits := l.reuse.holderHits + 1
      parametersResolved := l.reuse.parametersResolved + parameters
      parametersReused := l.reuse.parametersReused + parameters } }

/-- Count a load that was committed. -/
def countLoaded (l : Loader) (placed reused : Nat) : Loader :=
  { l with reuse := { l.reuse with
      parametersResolved := l.reuse.parametersResolved + (placed + reused)
      parametersReused := l.reuse.parametersReused + reused } }

/-- Ask the block store. `some` handle if it holds the block; a map of other names is dismissed. -/
def consultStore (index : Nat) (block : Block) (attempt : Nat) (w : Loader × σ) :
    Except Fault (Option Handle) × (Loader × σ) :=
  match w.1.loadMap index with
  | (.error e, l) => (.error e, (l, w.2))
  | (.ok none, l) => (.ok none, company.act (.consulted attempt) (l, w.2))
  | (.ok (some m), l) =>
    let parameters := (l.store.map? m).getD .empty
    if matchesBlock parameters block then
      (.ok (some ⟨index, m, .holderHit⟩), (l.countHit parameters.size, w.2))
    else
      let l := l.note (.mismatch index block.names parameters.keys)
      let w := company.act (.consulted attempt) (l, w.2)
      match w.1.clearBlockIf index m with
      | (.error e, l) => (.error e, (l.dropMap m, w.2))
      | (.ok _, l) => (.ok none, company.act (.dismissed attempt) (l.dropMap m, w.2))

/-- The attempts that remain, after `before` parameters have been resolved by earlier ones. -/
def attempts (index : Nat) (block : Block) (plan : Plan) :
    (remaining before : Nat) → Loader × σ → Except Fault Handle × (Loader × σ)
  | 0, _, w =>
    (.error (.commitContention index commitAttempts),
      (w.1.note (.contended index commitAttempts), w.2))
  | remaining + 1, before, w =>
    let attempt := commitAttempts - remaining
    if company.cancelled w then (.error .cancelled, w)
    else
      match consultStore company index block attempt (company.act (.attempted attempt) w) with
      | (.error e, w) => (.error e, w)
      | (.ok (some handle), w) => (.ok handle, w)
      | (.ok none, w) =>
        match gather company plan before block.parameters {} w with
        | (.error e, w) => (.error e, w)
        | (.ok g, w) =>
          if company.cancelled w then
            (.error .cancelled, (w.1.releaseAll g.parameters.values, w.2))
          else
            let w := company.act (.approved attempt) w
            match w.1.storeMap index g.parameters with
            | (.ok m, l) =>
              (.ok ⟨index, m, .loaded g.placed g.reused attempt⟩,
                (l.countLoaded g.placed g.reused, w.2))
            | (.error (.alreadyPopulated _), l) =>
              attempts index block plan remaining (before + block.size)
                (company.act (.refused attempt) (l, w.2))
            | (.error e, l) => (.error e, (l, w.2))

/-- Load a block in company of other callers. A split that cannot be normalized is refused before
the load counts. -/
def loadAmong (index : Nat) (block : Block) (split : Split Binary64) (w : Loader × σ) :
    Except Fault Handle × (Loader × σ) :=
  match Brackets.ofSplit split with
  | .error e => (.error (.invalidSplit (.ofShares split e)), w)
  | .ok brackets =>
    let reuse := { w.1.reuse with blockLoads := w.1.reuse.blockLoads + 1 }
    attempts company index block (brackets.assign block.sizes) commitAttempts 0
      (company.act .started ({ w.1 with reuse }, w.2))

end

/-- Load a block. -/
def load (l : Loader) (index : Nat) (block : Block) (split : Split Binary64) :
    Except Fault Handle × Loader :=
  let (result, l, _) := loadAmong Company.alone index block split (l, ())
  (result, l)

/-- Load a block with the loader's own split. -/
def loadDefault (l : Loader) (index : Nat) (block : Block) : Except Fault Handle × Loader :=
  l.load index block l.split

/-- The bytes of a parameter of a loaded block. -/
def readParameter (l : Loader) (h : Handle) (name : String) : Except Fault ByteArray :=
  match (l.store.map? h.map).bind (·.find? name) with
  | none => .error (.config (.missingParameter h.block name))
  | some p => l.cache.read p

end Loader

end TieredWeights
