import TieredWeights.Depot
import TieredWeights.Report

/-!
# The placement cache

A placement is a buffer that holds a tensor's bytes on a tier. The cache registers at most one
placement for each tensor identity and tier, and resolving the key again shares it. Every placement
counts its references: the registration is one, every entry and every parameter of a live parameter
map another. When the last one is released the buffer goes back to its pool.

Resolving a key that has no placement is done in two steps. `consult` opens the key's slot for a
caller that is to place the bytes, and `settle` takes what that caller brings. Other operations may
come between the two, and may even forget the slot; the placement made is then shared by nobody.
-/
namespace TieredWeights

/-- A tensor's identity and the tier it is placed on. -/
structure Key where
  identity : Identity
  tier : Tier
  deriving DecidableEq, Repr

namespace Key

def code (k : Key) : List Nat := k.identity.code ++ k.tier.code

theorem code_injective {k l : Key} (h : k.code = l.code) : k = l := by
  obtain ⟨⟨s, n, t⟩, tier⟩ := k
  obtain ⟨⟨s', n', t'⟩, tier'⟩ := l
  simp only [code, Identity.code, List.cons_append, List.nil_append, List.cons.injEq] at h
  obtain ⟨rfl, rfl, ht, htier⟩ := h
  rw [ElementType.rank_injective ht, Tier.code_injective htier]

instance : Ord Key := ⟨compareOn code⟩

instance : Std.TransOrd Key := inferInstanceAs (Std.TransCmp (compareOn code))

instance : Std.LawfulEqOrd Key where
  compare_self {k} := (Std.ReflCmp.compare_self : compare k.code k.code = .eq)
  eq_of_compare h := code_injective (Std.LawfulEqOrd.eq_of_compare h)

end Key

/-- The name of a placement, by which references to it are told apart. -/
abbrev PlacementId := Nat

structure Placement where
  key : Key
  buffer : Buffer
  references : Nat
  deriving DecidableEq, Repr

/-- The slot of a key: its registered placement, and how many callers are placing into it. -/
structure KeySlot where
  id : Nat
  registered : Option PlacementId := none
  placing : Nat := 0
  deriving DecidableEq, Repr

structure Cache where
  depot : Depot
  slots : Table Key KeySlot := .empty
  placements : Table PlacementId Placement := .empty
  slotsMade : Nat := 0
  placementsMade : Nat := 0
  hits : Nat := 0
  misses : Nat := 0

/-- The right to place the bytes of a key into its slot. -/
structure Ticket where
  key : Key
  slot : Nat
  deriving DecidableEq, Repr

/-- What a slot answers to a caller. -/
inductive Consulted where
  | hit (placement : PlacementId)
  | vacant (ticket : Ticket)
  deriving DecidableEq, Repr

/-- A reference to a placement, and whether the call that gave it made the placement. -/
structure Resolved where
  placement : PlacementId
  placed : Bool
  deriving DecidableEq, Repr

namespace Cache

/-- An empty cache over the pools of a depot. -/
def ofDepot (depot : Depot) : Cache := { depot }

instance : Inhabited Cache := ⟨ofDepot {}⟩

def note (c : Cache) (n : Notice) : Cache := { c with depot := c.depot.note n }

def find? (c : Cache) (p : PlacementId) : Option Placement := c.placements.find? p

/-- How many references a placement has. -/
def references (c : Cache) (p : PlacementId) : Nat := ((c.find? p).map (·.references)).getD 0

/-- One more reference to a placement. -/
def retain (c : Cache) (p : PlacementId) : Cache :=
  { c with
    placements := c.placements.modify p fun q => { q with references := q.references + 1 } }

/-- Give a placement's buffer back to its pool. A refusal is reported. -/
def free (c : Cache) (p : PlacementId) (placement : Placement) : Cache :=
  let c := { c with placements := c.placements.erase p }
  match c.depot.release placement.key.tier placement.buffer with
  | (.ok (), depot) => { c with depot }
  | (.error e, depot) =>
    { c with depot := depot.note (.placementKept placement.key.identity e) }

/-- One reference to a placement less; with the last one the buffer is given back. -/
def release (c : Cache) (p : PlacementId) : Cache :=
  match c.find? p with
  | none => c
  | some placement =>
    if placement.references ≤ 1 then c.free p placement
    else
      { c with
        placements := c.placements.insert p
          { placement with references := placement.references - 1 } }

def releaseAll (c : Cache) (ps : List PlacementId) : Cache := ps.foldl release c

/-- The slot of a key, a new one if it has none. -/
def slotOf (c : Cache) (key : Key) : KeySlot × Cache :=
  match c.slots.find? key with
  | some slot => (slot, c)
  | none =>
    let slot : KeySlot := { id := c.slotsMade }
    (slot, { c with slots := c.slots.insert key slot, slotsMade := c.slotsMade + 1 })

/-- Ask for a key. A registered placement is shared; otherwise, if the tier is configured, the
caller receives a ticket to place the bytes. -/
def consult (c : Cache) (key : Key) : Except Fault Consulted × Cache :=
  let (slot, c) := c.slotOf key
  match slot.registered with
  | some p => (.ok (.hit p), { c.retain p with hits := c.hits + 1 })
  | none =>
    let c := { c with misses := c.misses + 1 }
    match c.depot.pools.find? key.tier with
    | none => (.error (.unknownTier key.tier), c)
    | some _ =>
      let slots := c.slots.insert key { slot with placing := slot.placing + 1 }
      (.ok (.vacant ⟨key, slot.id⟩), { c with slots })

/-- The slot that a ticket was given for, if it has not been forgotten. -/
def slotOfTicket? (c : Cache) (ticket : Ticket) : Option KeySlot :=
  (c.slots.find? ticket.key).filter fun slot => slot.id = ticket.slot

/-- The holder of a ticket is done with its slot. -/
def leave (c : Cache) (ticket : Ticket) : Cache :=
  match c.slotOfTicket? ticket with
  | none => c
  | some slot =>
    { c with slots := c.slots.insert ticket.key { slot with placing := slot.placing - 1 } }

/-- A buffer becomes the placement of a key, registered unless the slot has been forgotten. The
caller receives a reference. -/
def register (c : Cache) (ticket : Ticket) (buffer : Buffer) : PlacementId × Cache :=
  let p := c.placementsMade
  let slot := c.slotOfTicket? ticket
  let placement : Placement := ⟨ticket.key, buffer, if slot.isSome then 2 else 1⟩
  let slots :=
    match slot with
    | none => c.slots
    | some slot => c.slots.insert ticket.key { slot with registered := some p }
  (p, { c with placements := c.placements.insert p placement, slots, placementsMade := p + 1 })

/-- Take what the holder of a ticket brings. A buffer must come from the pool of the tier and have
the length of the tensor; one of another length is given back. -/
def settle (c : Cache) (ticket : Ticket) (brought : Except Fault Buffer) :
    Except Fault PlacementId × Cache :=
  let c := c.leave ticket
  match brought with
  | .error e => (.error e, c)
  | .ok buffer =>
    match c.depot.pools.find? ticket.key.tier with
    | none => (.error (.unknownTier ticket.key.tier), c)
    | some pool =>
      if !pool.owns buffer then (.error (.invalidHandle buffer.tier), c)
      else if buffer.length ≠ ticket.key.identity.bytes then
        match c.depot.release ticket.key.tier buffer with
        | (.error e, depot) => (.error e, { c with depot })
        | (.ok (), depot) =>
          (.error (.sizeMismatch ticket.key.identity.bytes buffer.length), { c with depot })
      else
        let (p, c) := c.register ticket buffer
        (.ok p, c)

/-- Resolve a key. If it has no placement, `place` brings a buffer; it may do anything to the cache
and to whatever else `σ` holds. -/
def resolveWith {σ : Type} (key : Key)
    (place : Cache × σ → Except Fault Buffer × (Cache × σ)) (w : Cache × σ) :
    Except Fault Resolved × (Cache × σ) :=
  match w.1.consult key with
  | (.error e, c) => (.error e, (c, w.2))
  | (.ok (.hit p), c) => (.ok ⟨p, false⟩, (c, w.2))
  | (.ok (.vacant ticket), c) =>
    let (brought, c, rest) := place (c, w.2)
    match c.settle ticket brought with
    | (.error e, c) => (.error e, (c, rest))
    | (.ok p, c) => (.ok ⟨p, true⟩, (c, rest))

/-- Resolve a tensor onto a tier, with a buffer that holds its bytes. `meanwhile` is what others do
to the depot before the buffer is filled. -/
def resolveAmid (c : Cache) (meanwhile : Depot → Depot) (t : Tensor) (tier : Tier) :
    Except Fault Resolved × Cache :=
  match c.consult ⟨t.identity, tier⟩ with
  | (.error e, c) => (.error e, c)
  | (.ok (.hit p), c) => (.ok ⟨p, false⟩, c)
  | (.ok (.vacant ticket), c) =>
    let (brought, depot) := c.depot.placeTensor tier t meanwhile
    match { c with depot }.settle ticket brought with
    | (.error e, c) => (.error e, c)
    | (.ok p, c) => (.ok ⟨p, true⟩, c)

/-- Resolve a tensor onto a tier. -/
def resolve (c : Cache) (t : Tensor) (tier : Tier) : Except Fault Resolved × Cache :=
  c.resolveAmid id t tier

/-- The placement registered under a key. -/
def registered? (c : Cache) (key : Key) : Option PlacementId :=
  (c.slots.find? key).bind (·.registered)

/-- A new reference to the placement registered under a key. -/
def get (c : Cache) (key : Key) : Option PlacementId × Cache :=
  match c.registered? key with
  | none => (none, c)
  | some p => (some p, c.retain p)

def contains (c : Cache) (key : Key) : Bool := (c.registered? key).isSome

/-- The bytes of a placement. -/
def read (c : Cache) (p : PlacementId) : Except Fault ByteArray :=
  match c.find? p with
  | none => .error (.config (.other "released placement"))
  | some placement => c.depot.read placement.key.tier placement.buffer

/-- The registrations of slots. -/
def registrations (slots : List (Key × KeySlot)) : List PlacementId :=
  slots.filterMap (·.2.registered)

/-- Forget every slot of a tier, also empty ones, and tell how many there were. -/
def invalidate (c : Cache) (tier : Tier) : Nat × Cache :=
  let kept := c.slots.filter fun k _ => k.tier ≠ tier
  let gone := c.slots.filter fun k _ => k.tier = tier
  let c := { c with slots := kept }.releaseAll (registrations gone.toList)
  (gone.size, c.note (.invalidated tier gone.size))

/-- Whether a purge forgets a slot: nobody places into it, and its placement, if it has one, has no
reference but the registration. -/
def isIdle (c : Cache) (slot : KeySlot) : Bool :=
  slot.placing = 0 &&
    match slot.registered with
    | none => true
    | some p => c.references p = 1

/-- Forget the slots of placements that nobody uses, and tell how many placements went. -/
def purge (c : Cache) : Nat × Cache :=
  let kept := c.slots.filter fun _ slot => !c.isIdle slot
  let gone := c.slots.filter fun _ slot => c.isIdle slot
  let evicted := registrations gone.toList
  let c := { c with slots := kept }.releaseAll evicted
  (evicted.length, if evicted = [] then c else c.note (.purged evicted.length))

/-- Forget every slot. -/
def clear (c : Cache) : Cache :=
  { c with slots := .empty }.releaseAll (registrations c.slots.toList)

/-- The registered placements, in order of their keys. -/
def registeredPlacements (c : Cache) : List Placement :=
  (registrations c.slots.toList).filterMap c.find?

def addTo (t : Table Tier Nat) (tier : Tier) (n : Nat) : Table Tier Nat :=
  t.insert tier ((t.find? tier).getD 0 + n)

def stats (c : Cache) : CacheStats :=
  let placements := c.registeredPlacements
  { placements := placements.foldl (fun t p => addTo t p.key.tier 1) .empty
    bytes := placements.foldl (fun t p => addTo t p.key.tier p.buffer.length) .empty
    references := sumOf (placements.map fun p => p.references - 1)
    hits := c.hits
    misses := c.misses
    hitRate := hitRateOf c.hits c.misses }

end Cache

end TieredWeights
