import TieredWeights.Cache

/-!
# The block store

A fixed number of block slots, each empty or holding the complete parameter map of its block. A map
is shared: the slot is one holder, every handle and every caller that asked for the map another.
The map goes with its last holder, and the references of its parameters then have to be released;
operations that may end a map say which.
-/
namespace TieredWeights

/-- The name of a parameter map, by which shared maps are told apart. -/
abbrev MapId := Nat

structure ParameterMap where
  parameters : Table String PlacementId
  holders : Nat

structure BlockStore where
  size : Nat
  held : Table Nat MapId := .empty
  maps : Table MapId ParameterMap := .empty
  mapsMade : Nat := 0

namespace BlockStore

instance : Inhabited BlockStore := ⟨{ size := 0 }⟩

/-- How many slots fit in one piece of memory; a slot takes 24 bytes. -/
def slotLimit : Nat := memoryLimit / 24

/-- A store of empty slots. -/
def ofSize (size : Nat) : Except Fault BlockStore :=
  if slotLimit < size then .error .capacityOverflow else .ok { size }

def map? (s : BlockStore) (m : MapId) : Option (Table String PlacementId) :=
  (s.maps.find? m).map (·.parameters)

/-- One more holder of a map. -/
def retain (s : BlockStore) (m : MapId) : BlockStore :=
  { s with maps := s.maps.modify m fun x => { x with holders := x.holders + 1 } }

/-- One holder of a map less; with the last one the map goes, and its parameters are returned. -/
def drop (s : BlockStore) (m : MapId) : List PlacementId × BlockStore :=
  match s.maps.find? m with
  | none => ([], s)
  | some x =>
    if x.holders ≤ 1 then (x.parameters.values, { s with maps := s.maps.erase m })
    else ([], { s with maps := s.maps.insert m { x with holders := x.holders - 1 } })

/-- The map that a slot holds. -/
def held? (s : BlockStore) (block : Nat) : Except Fault (Option MapId) :=
  if block < s.size then .ok (s.held.find? block) else .error (.blockOutOfRange block s.size)

def isPopulated (s : BlockStore) (block : Nat) : Except Fault Bool :=
  (s.held? block).map Option.isSome

def populated (s : BlockStore) : Nat := s.held.size

/-- Fill an empty slot. The slot and the caller are the holders of the new map. -/
def store (s : BlockStore) (block : Nat) (parameters : Table String PlacementId) :
    Except Fault MapId × BlockStore :=
  match s.held? block with
  | .error e => (.error e, s)
  | .ok (some _) => (.error (.alreadyPopulated block), s)
  | .ok none =>
    let m := s.mapsMade
    (.ok m, { s with
      held := s.held.insert block m
      maps := s.maps.insert m ⟨parameters, 2⟩
      mapsMade := m + 1 })

/-- The map of a slot, with the caller as a new holder. -/
def load (s : BlockStore) (block : Nat) : Except Fault (Option MapId) × BlockStore :=
  match s.held? block with
  | .error e => (.error e, s)
  | .ok none => (.ok none, s)
  | .ok (some m) => (.ok (some m), s.retain m)

/-- Empty a slot that holds a map. -/
def empty (s : BlockStore) (block : Nat) (m : MapId) : List PlacementId × BlockStore :=
  { s with held := s.held.erase block }.drop m

/-- Empty a slot, and tell whether it held a map. -/
def clear (s : BlockStore) (block : Nat) : Except Fault Bool × List PlacementId × BlockStore :=
  match s.held? block with
  | .error e => (.error e, [], s)
  | .ok none => (.ok false, [], s)
  | .ok (some m) => (.ok true, s.empty block m)

/-- Empty a slot that still holds the map given; a slot that holds another is left alone. -/
def clearIf (s : BlockStore) (block : Nat) (m : MapId) :
    Except Fault Bool × List PlacementId × BlockStore :=
  match s.held? block with
  | .error e => (.error e, [], s)
  | .ok current => if current = some m then (.ok true, s.empty block m) else (.ok false, [], s)

/-- Empty the slots of a list of bindings, one after another. -/
def clearEach (s : BlockStore) : List (Nat × MapId) → List PlacementId × BlockStore
  | [] => ([], s)
  | (block, m) :: rest =>
    let (released, s) := s.empty block m
    let (others, s) := s.clearEach rest
    (released ++ others, s)

/-- Empty every slot, and tell how many held a map. -/
def clearAll (s : BlockStore) : Nat × List PlacementId × BlockStore :=
  (s.populated, s.clearEach s.held.toList)

end BlockStore

end TieredWeights
