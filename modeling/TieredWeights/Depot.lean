import TieredWeights.Pool

/-!
# The depot

All the storage of a loader: a pool for each configured tier, the files that pools spill to, and
the notices given so far. Pools are numbered in the order in which they are made, whether they join
the depot or not.
-/
namespace TieredWeights

structure Depot where
  pools : Table Tier Pool := .empty
  files : Files := .empty
  /-- The number of the process that works on the files. -/
  process : Nat := 0
  poolsMade : Nat := 0
  /-- Notices in the order in which they arose. -/
  notices : List Notice := []

namespace Depot

instance : Inhabited Depot := ⟨{}⟩

def note (d : Depot) (n : Notice) : Depot := { d with notices := d.notices ++ [n] }

/-- A new pool that keeps its buffers in memory or, given a folder, in files there. A pool whose
folder cannot be made takes no number. -/
def newPool (d : Depot) (tier : Tier) (capacity : Option Nat) (spill : Option String) :
    Except Fault Pool × Depot :=
  let pool : Pool :=
    { tier, id := d.poolsMade + 1, capacity := capacity.getD unbounded, process := d.process }
  match spill with
  | none => (.ok pool, { d with poolsMade := d.poolsMade + 1 })
  | some folder =>
    match d.files.makeFolder folder with
    | (.error e, files) => (.error (.io e), { d with files })
    | (.ok path, files) =>
      let pool := { pool with spill := some (.named folder path) }
      (.ok pool, { d with files, poolsMade := d.poolsMade + 1 })

/-- The depot with a pool for its tier, in place of an earlier one. -/
def install (d : Depot) (pool : Pool) : Depot := { d with pools := d.pools.insert pool.tier pool }

/-- A new pool that joins the depot. -/
def addPool (d : Depot) (tier : Tier) (capacity : Option Nat) (spill : Option String) :
    Except Fault Unit × Depot :=
  match d.newPool tier capacity spill with
  | (.error e, d) => (.error e, d)
  | (.ok pool, d) => (.ok (), d.install pool)

/-- New pools that join the depot one after another, until one cannot be made. -/
def addPools (d : Depot) : List (Tier × Option Nat × Option String) → Except Fault Unit × Depot
  | [] => (.ok (), d)
  | (tier, capacity, spill) :: rest =>
    match d.addPool tier capacity spill with
    | (.error e, d) => (.error e, d)
    | (.ok (), d) => d.addPools rest

def tiers (d : Depot) : List Tier := d.pools.keys

/-- Bytes handed out by all pools. -/
def usedBytes (d : Depot) : Nat := sumOf (d.pools.values.map (·.used))

/-- Buffers ever handed out by all pools. -/
def allocations (d : Depot) : Nat := sumOf (d.pools.values.map (·.allocations))

def allocate (d : Depot) (tier : Tier) (n : Nat) (type : ElementType) :
    Except Fault Buffer × Depot :=
  match d.pools.find? tier with
  | none => (.error (.unknownTier tier), d)
  | some pool =>
    let (result, pool, files) := pool.allocate d.files n type
    (result, { d with pools := d.pools.insert tier pool, files })

def copyIn (d : Depot) (tier : Tier) (b : Buffer) (bytes : ByteArray) :
    Except Fault Unit × Depot :=
  match d.pools.find? tier with
  | none => (.error (.unknownTier tier), d)
  | some pool =>
    let (result, pool, files) := pool.copyIn d.files b bytes
    (result, { d with pools := d.pools.insert tier pool, files })

def read (d : Depot) (tier : Tier) (b : Buffer) : Except Fault ByteArray :=
  match d.pools.find? tier with
  | none => .error (.unknownTier tier)
  | some pool => pool.read d.files b

/-- Take a buffer back into the pool of a tier. -/
def release (d : Depot) (tier : Tier) (b : Buffer) : Except Fault Unit × Depot :=
  match d.pools.find? tier with
  | none => (.error (.unknownTier tier), d)
  | some pool =>
    let (result, pool, files) := pool.release d.files b
    let d := { d with pools := d.pools.insert tier pool, files }
    match result with
    | .error e => (.error e, d)
    | .ok notices => (.ok (), { d with notices := d.notices ++ notices })

/-- A buffer that holds a tensor's bytes. `meanwhile` is what others do to the depot after the
buffer is allocated and before it is filled. A buffer that cannot be filled is taken back. -/
def placeTensor (d : Depot) (tier : Tier) (t : Tensor) (meanwhile : Depot → Depot) :
    Except Fault Buffer × Depot :=
  match d.allocate tier t.bytes.size t.type with
  | (.error e, d) => (.error e, d)
  | (.ok b, d) =>
    match (meanwhile d).copyIn tier b t.bytes with
    | (.ok (), d) => (.ok b, d)
    | (.error e, d) =>
      match d.release tier b with
      | (.error e', d) => (.error e', d)
      | (.ok (), d) => (.error e, d)

end Depot

end TieredWeights
