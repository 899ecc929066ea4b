import TieredWeights.Loader

/-!
# Loading ahead

A prefetcher loads the blocks of a model in forward order, a number of them ahead of the one asked
for. A load that is submitted ahead waits for a worker, and when the worker has done it, its outcome
waits for the block to be asked for; until then it is pending. Without workers every submitted load
has failed at once, and the failure is kept until it is collected.
-/
namespace TieredWeights

/-- A load that was submitted ahead and whose outcome has not been collected. -/
inductive Submitted where
  | waiting
  | finished (result : Except Fault Handle)

structure Prefetcher where
  blocks : Array Block
  split : Split Binary64
  /-- How many blocks to load beyond the one asked for. -/
  lookahead : Nat
  /-- Whether there are workers to load ahead. -/
  workers : Bool := true
  pending : Table Nat Submitted := .empty

/-- A loader with a depot that has given some notices. -/
def Loader.withNotices (l : Loader) (notices : List Notice) : Loader :=
  { l with cache := { l.cache with depot := { l.cache.depot with notices } } }

namespace Prefetcher

/-- Why a submitted load fails without workers. -/
def noWorkers : String := "no async runtime available"

/-- What a load is when it is submitted. -/
def submission (p : Prefetcher) (index : Nat) : Submitted :=
  if p.workers then .waiting else .finished (.error (.prefetch index noWorkers))

/-- Submit the load of a block, unless it is pending or in the block store already. -/
def submit (p : Prefetcher) (s : BlockStore) (index : Nat) : Prefetcher :=
  if p.blocks.size ≤ index then p
  else if p.pending.contains index then p
  else
    match s.isPopulated index with
    | .ok true => p
    | _ => { p with pending := p.pending.insert index (p.submission index) }

/-- Submit blocks one after another. -/
def submitAll (p : Prefetcher) (s : BlockStore) : List Nat → Prefetcher
  | [] => p
  | index :: rest => (p.submit s index).submitAll s rest

/-- Submit the first blocks. -/
def submitFirst (p : Prefetcher) (s : BlockStore) : Prefetcher :=
  p.submitAll s (List.range (min p.lookahead p.blocks.size))

/-- The blocks to submit when a block has been asked for. -/
def ahead (p : Prefetcher) (index : Nat) : List Nat :=
  List.range' (index + 1) (min p.lookahead (p.blocks.size - (index + 1)))

/-- A worker does a load that waits. Its notices are nobody's. -/
def work (p : Prefetcher) (l : Loader) (index : Nat) : Prefetcher × Loader :=
  match p.blocks[index]?, p.pending.find? index with
  | some block, some .waiting =>
    let (result, after) := l.load index block p.split
    ({ p with pending := p.pending.insert index (.finished result) },
      after.withNotices l.depot.notices)
  | _, _ => (p, l)

/-- Workers do loads that wait, one after another. -/
def workAll (p : Prefetcher) (l : Loader) : List Nat → Prefetcher × Loader
  | [] => (p, l)
  | index :: rest =>
    let (p, l) := p.work l index
    p.workAll l rest

/-- Workers do all loads that wait. -/
def settle (p : Prefetcher) (l : Loader) : Prefetcher × Loader := p.workAll l p.pending.keys

/-- The prefetcher without the load of a block. -/
def without (p : Prefetcher) (index : Nat) : Prefetcher :=
  { p with pending := p.pending.erase index }

/-- Submit the blocks ahead of one that was loaded. -/
def proceed (p : Prefetcher) (index : Nat) (s : BlockStore) : Except Fault Handle → Prefetcher
  | .error _ => p
  | .ok _ => p.submitAll s (p.ahead index)

/-- Collect a block in company of other callers, from its pending load or by loading it now, and
submit those ahead of it. -/
def collect {σ : Type} (company : Company σ) (p : Prefetcher) (index : Nat) (w : Loader × σ) :
    Except Fault Handle × Prefetcher × (Loader × σ) :=
  match p.blocks[index]? with
  | none => (.error (.blockOutOfRange index p.blocks.size), p, w)
  | some block =>
    let (result, w) :=
      match p.pending.find? index with
      | some (.finished result) => (result, w)
      | _ => Loader.loadAmong company index block p.split w
    (result, (p.without index).proceed index w.1.store result, w)

/-- Submit the first blocks, and let the workers do what waits. -/
def start (p : Prefetcher) (l : Loader) : Prefetcher × Loader := (p.submitFirst l.store).settle l

/-- Collect a block, and let the workers do what waits. -/
def get (p : Prefetcher) (l : Loader) (index : Nat) :
    Except Fault Handle × Prefetcher × Loader :=
  let (p, l) := p.work l index
  let (result, p, l, _) := p.collect Company.alone index (l, ())
  (result, p.settle l)

/-- Let the workers do what waits, and release what the outcomes of pending loads hold. -/
def discard (p : Prefetcher) (l : Loader) : Loader :=
  let (p, l) := p.settle l
  p.pending.values.foldl (fun l x =>
    match x with
    | .finished (.ok handle) => l.dropHandle handle
    | _ => l) l

end Prefetcher

end TieredWeights
