import TieredWeights.Notice

/-!
# Buffer pools

A pool hands out the buffers of one tier from numbered slots and counts their bytes against a
capacity. A slot holds its buffer in memory or, for a pool with a spill folder, in a file. Released
slots are used again, the last released first; every use of a slot has a generation of its own, so
a buffer that was released is never taken for the one that came after it.
-/
namespace TieredWeights

/-- A ticket for a slot of a pool, for one generation of the slot. -/
structure Buffer where
  tier : Tier
  pool : Nat
  slot : Nat
  generation : Nat
  length : Nat
  type : ElementType
  deriving DecidableEq, Repr

/-- Where a slot keeps its bytes. -/
inductive Backing where
  | memory (content : Content)
  | file (path : Path)

structure Slot where
  generation : Nat
  backing : Option Backing

/-- The capacity that stands for none. -/
def unbounded : Nat := wordMax

structure Pool where
  tier : Tier
  id : Nat
  capacity : Nat := unbounded
  /-- The folder of the files that back the slots. -/
  spill : Option Folder := none
  /-- The number of the process, which the names of the files carry. -/
  process : Nat := 0
  used : Nat := 0
  slots : Array Slot := #[]
  /-- Slots without a backing, the next to be used first. -/
  free : List Nat := []
  allocations : Nat := 0
  releases : Nat := 0

/-- The name of a spill file of a pool, given by the name of its tier and the numbers of the process
and of the pool. -/
def spillFileName (tier : String) (process pool slot generation : Nat) : String :=
  let tier := String.ofList (tier.toList.map fun c => if c = ':' then '_' else c)
  s!"{tier}-{process}-{pool}-{slot}-{generation}.bin"

namespace Pool

/-- The capacity, if the pool has one. -/
def limit? (p : Pool) : Option Nat := if p.capacity = unbounded then none else some p.capacity

/-- How many buffers are handed out. -/
def live (p : Pool) : Nat := p.slots.size - p.free.length

/-- Whether the pool issued a buffer. -/
def owns (p : Pool) (b : Buffer) : Bool := b.tier = p.tier && b.pool = p.id

/-- The name of the file that backs a generation of a slot. -/
def spillName (p : Pool) (slot generation : Nat) : String :=
  spillFileName p.tier.display p.process p.id slot generation

/-- The slot to use next, a new one if none is free. -/
def takeSlot (p : Pool) : Nat × Pool :=
  match p.free with
  | i :: rest => (i, { p with free := rest })
  | [] => (p.slots.size, { p with slots := p.slots.push ⟨0, none⟩ })

def generationOf (p : Pool) (slot : Nat) : Nat := (p.slots[slot]?.map (·.generation)).getD 0

/-- Give a slot its backing for a generation, and count the bytes. -/
def occupy (p : Pool) (slot generation length : Nat) (backing : Backing) : Pool :=
  { p with
    slots := p.slots.setIfInBounds slot ⟨generation, some backing⟩
    used := p.used + length
    allocations := p.allocations + 1 }

/-- A new buffer of `n` zero bytes. More memory than there can be is asked for only after a slot has
been taken, which is then lost. -/
def allocate (p : Pool) (f : Files) (n : Nat) (type : ElementType) :
    Except Fault Buffer × Pool × Files :=
  let available := p.capacity - p.used
  if available < n then (.error (.outOfCapacity p.tier n available), p, f)
  else
    let (slot, p) := p.takeSlot
    let generation := p.generationOf slot + 1
    let buffer : Buffer := ⟨p.tier, p.id, slot, generation, n, type⟩
    match p.spill with
    | none =>
      if memoryLimit < n then (.error .capacityOverflow, p, f)
      else (.ok buffer, p.occupy slot generation n (.memory (.zeros n)), f)
    | some folder =>
      match f.createIn folder (p.spillName slot generation) n with
      | (.error e, f) => (.error (.io e), { p with free := slot :: p.free }, f)
      | (.ok path, f) => (.ok buffer, p.occupy slot generation n (.file path), f)

/-- What backs a buffer, if the pool issued it and has not taken it back. -/
def backing (p : Pool) (b : Buffer) : Except Fault Backing :=
  if !p.owns b then .error (.invalidHandle b.tier)
  else
    match p.slots[b.slot]? with
    | some ⟨generation, some backing⟩ =>
      if generation = b.generation then .ok backing else .error (.invalidHandle p.tier)
    | _ => .error (.invalidHandle p.tier)

/-- Fill a buffer with bytes of its length. -/
def copyIn (p : Pool) (f : Files) (b : Buffer) (bytes : ByteArray) :
    Except Fault Unit × Pool × Files :=
  if bytes.size ≠ b.length then (.error (.sizeMismatch b.length bytes.size), p, f)
  else
    match p.backing b with
    | .error e => (.error e, p, f)
    | .ok (.memory _) =>
      let slot : Slot := ⟨b.generation, some (.memory (.written bytes))⟩
      (.ok (), { p with slots := p.slots.setIfInBounds b.slot slot }, f)
    | .ok (.file path) =>
      match f.overwrite path bytes with
      | (.error e, f) => (.error (.io e), p, f)
      | (.ok (), f) => (.ok (), p, f)

/-- The bytes of a buffer. -/
def read (p : Pool) (f : Files) (b : Buffer) : Except Fault ByteArray :=
  match p.backing b with
  | .error e => .error e
  | .ok (.memory content) => .ok content.bytes
  | .ok (.file path) => (f.read path).mapError .io

/-- The pool without a buffer that it has issued. -/
def vacate (p : Pool) (b : Buffer) : Pool :=
  { p with
    slots := p.slots.setIfInBounds b.slot ⟨b.generation, none⟩
    free := b.slot :: p.free
    used := p.used - b.length
    releases := p.releases + 1 }

/-- Take a buffer back. A spill file that cannot be removed is left and reported. -/
def release (p : Pool) (f : Files) (b : Buffer) :
    Except Fault (List Notice) × Pool × Files :=
  match p.backing b with
  | .error e => (.error e, p, f)
  | .ok (.memory _) => (.ok [], p.vacate b, f)
  | .ok (.file path) =>
    match f.remove path with
    | (.error e, f) => (.ok [.spillFileKept path e], p.vacate b, f)
    | (.ok (), f) => (.ok [], p.vacate b, f)

end Pool

end TieredWeights
