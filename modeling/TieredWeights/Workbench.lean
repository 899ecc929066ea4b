import TieredWeights.Checkpoint
import TieredWeights.Prefetch

/-!
# The workbench

A loader at work, and the objects that its user keeps under names. Entries, parameter maps, handles
and prefetchers hold references to placements; a name that is bound anew or forgotten lets go of
its object and so releases what the object holds.
-/
namespace TieredWeights

/-- An object that can be kept under a name. -/
inductive Item where
  | tensor (t : Tensor)
  | block (b : Block)
  /-- A request for cancellation, by its number. -/
  | request (number : Nat)
  | handle (h : Handle)
  | entry (p : PlacementId)
  | map (m : MapId)
  /-- A pool beside those of the loader, by its number. -/
  | pool (number : Nat)
  | buffer (b : Buffer)
  | prefetcher (p : Prefetcher)

namespace Item

def tensor? : Item → Option Tensor
  | tensor t => some t
  | _ => none

def block? : Item → Option Block
  | block b => some b
  | _ => none

def request? : Item → Option Nat
  | request number => some number
  | _ => none

def handle? : Item → Option Handle
  | handle h => some h
  | _ => none

def entry? : Item → Option PlacementId
  | entry p => some p
  | _ => none

/-- The parameter map of a handle, or a map itself. -/
def map? : Item → Option MapId
  | handle h => some h.map
  | map m => some m
  | _ => none

def buffer? : Item → Option Buffer
  | buffer b => some b
  | _ => none

def prefetcher? : Item → Option Prefetcher
  | prefetcher p => some p
  | _ => none

end Item

structure Workbench where
  loader : Loader
  ids : Issuer := {}
  checkpoint : Checkpoint := .empty
  items : Table String Item := .empty
  /-- Whether each request for cancellation has been made. -/
  requests : Array Bool := #[]
  /-- The pools beside those of the loader. -/
  pools : Table Nat Pool := .empty

/-- A pool of the loader, or one beside them. -/
inductive PoolChoice where
  | tier (t : Tier)
  | beside (number : Nat)
  deriving DecidableEq, Repr

namespace Workbench

instance : Inhabited Workbench := ⟨{ loader := default }⟩

def cache (w : Workbench) : Cache := w.loader.cache

def depot (w : Workbench) : Depot := w.loader.cache.depot

def withCache (w : Workbench) (cache : Cache) : Workbench :=
  { w with loader := { w.loader with cache } }

def withDepot (w : Workbench) (depot : Depot) : Workbench :=
  w.withCache { w.cache with depot }

def find? (w : Workbench) (name : String) : Option Item := w.items.find? name

/-- The placement that a name and a parameter stand for: that of an entry, which has no parameters
to choose from, or that of the parameter in a handle or map. -/
def placement? (w : Workbench) (name parameter : String) : Option PlacementId :=
  match w.find? name with
  | none => none
  | some (.entry p) => some p
  | some item => item.map?.bind fun m => (w.loader.parametersOf m).lookup parameter

/-- Let go of an object. -/
def letGo (w : Workbench) : Item → Workbench
  | .entry p => w.withCache (w.cache.release p)
  | .handle h => { w with loader := w.loader.dropHandle h }
  | .map m => { w with loader := w.loader.dropMap m }
  | .prefetcher p => { w with loader := p.discard w.loader }
  | _ => w

/-- Put an object in the place of another that it continues. -/
def put (w : Workbench) (name : String) (item : Item) : Workbench :=
  { w with items := w.items.insert name item }

/-- Keep an object under a name, and let go of what the name stood for. -/
def keep (w : Workbench) (name : String) (item : Item) : Workbench :=
  match w.find? name with
  | none => w.put name item
  | some old => (w.put name item).letGo old

/-- Forget a name and let go of its object, and tell whether there was one. -/
def forget (w : Workbench) (name : String) : Bool × Workbench :=
  match w.find? name with
  | none => (false, w)
  | some item => (true, { w with items := w.items.erase name }.letGo item)

/-- Forget names one after another, and tell how many stood for an object. -/
def forgetAll (w : Workbench) : List String → Nat × Workbench
  | [] => (0, w)
  | name :: rest =>
    let (found, w) := w.forget name
    let (n, w) := w.forgetAll rest
    (if found then n + 1 else n, w)

/-- A request for cancellation that has not been made. -/
def newRequest (w : Workbench) : Nat × Workbench :=
  (w.requests.size, { w with requests := w.requests.push false })

def isCancelled (w : Workbench) (request : Nat) : Bool := w.requests.getD request false

/-- Make a request, and tell whether it had been made. -/
def cancel (w : Workbench) (request : Nat) : Bool × Workbench :=
  (w.isCancelled request, { w with requests := w.requests.setIfInBounds request true })

def pool? (w : Workbench) : PoolChoice → Option Pool
  | .tier t => w.depot.pools.find? t
  | .beside number => w.pools.find? number

/-- The workbench with a changed pool. -/
def withPool (w : Workbench) (pool : Pool) : PoolChoice → Workbench
  | .tier t => w.withDepot { w.depot with pools := w.depot.pools.insert t pool }
  | .beside number => { w with pools := w.pools.insert number pool }

/-- Work on a pool and the files, if the pool is there. -/
def onPool {α : Type} (w : Workbench) (choice : PoolChoice)
    (work : Pool → Files → α × Pool × Files) : Option (α × Workbench) :=
  (w.pool? choice).map fun pool =>
    let (result, pool, files) := work pool w.depot.files
    (result, (w.withDepot { w.depot with files }).withPool pool choice)

/-- A new pool beside those of the loader. -/
def newPool (w : Workbench) (tier : Tier) (capacity : Option Nat) (spill : Option String) :
    Except Fault Pool × Workbench :=
  match w.depot.newPool tier capacity spill with
  | (.error e, depot) => (.error e, w.withDepot depot)
  | (.ok pool, depot) => (.ok pool, (w.withDepot depot).withPool pool (.beside pool.id))

/-- Resolve a tensor onto a tier `n` times, and keep the references that were given. -/
def resolveTimes (w : Workbench) (t : Tensor) (tier : Tier) : Nat → List Resolved × Workbench
  | 0 => ([], w)
  | n + 1 =>
    match w.cache.resolve t tier with
    | (.error _, cache) => (w.withCache cache).resolveTimes t tier n
    | (.ok r, cache) =>
      let (others, w) := (w.withCache cache).resolveTimes t tier n
      (r :: others, w)

/-- Store references to placements as the map of a block. The map holds references of its own, a
later one of a name replacing an earlier one. -/
def storeEntries (w : Workbench) (block : Nat) (entries : List (String × PlacementId)) :
    Except Fault MapId × Workbench :=
  let parameters : Table String PlacementId := .ofList entries
  let cache := parameters.values.foldl Cache.retain w.cache
  let (result, loader) := (w.withCache cache).loader.storeMap block parameters
  (result, { w with loader })

/-- The notices given since they were last taken. -/
def takeNotices (w : Workbench) : List Notice × Workbench :=
  (w.depot.notices, w.withDepot { w.depot with notices := [] })

end Workbench

end TieredWeights
