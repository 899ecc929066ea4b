import TieredWeights.Proofs.BlockStore
import TieredWeights.Proofs.Cache.Steps
import TieredWeights.Proofs.Loader

/-!
# A loader and its users

A scene is a loader beside what its users have of it: the entries and the maps that they hold, and
as a record the calls of the cache made for them. `Run` relates a scene to every scene that users
can bring about, one operation after another in any order. A load is an operation too, during which
the other users may go on at every moment of it, and which may be cancelled at any; a load that
nobody disturbs is the case in which they rest.
-/
namespace TieredWeights

/-- What users have of a loader. -/
structure Users where
  /-- The references held one by one. -/
  entries : Multiset PlacementId := 0
  /-- The maps held, by handles or as such. -/
  maps : Multiset MapId := 0
  /-- The calls of the cache made so far, by users and by loads. -/
  calls : Multiset Call := 0
  /-- The time, by which cancellations are told. -/
  clock : Nat := 0

namespace Users

/-- The users after a call of theirs. -/
def called (u : Users) (call : Call) : Users :=
  { u with entries := Cache.given call.answer + u.entries, calls := call ::ₘ u.calls }

/-- The users after a load made a call. -/
def record (u : Users) : Option Call → Users
  | none => u
  | some call => { u with calls := call ::ₘ u.calls }

/-- The users with more references and maps. -/
def and (u : Users) (entries : Multiset PlacementId) (maps : Multiset MapId) : Users :=
  { u with entries := entries + u.entries, maps := maps + u.maps }

end Users

abbrev Scene := Loader × Users

namespace Scene

/-- A loader that nobody uses yet. -/
def start (depot : Depot) (blocks : Nat) (split : Split Binary64) : Scene :=
  (.ofDepot depot blocks split, {})

/-- The plan of a block under a split that can be normalized. -/
def planOf (block : Block) (split : Split Binary64) : Plan :=
  match Brackets.ofSplit split with
  | .error _ => ⟨[]⟩
  | .ok brackets => brackets.assign block.sizes

/-- The call that a load makes once its parameter of a number is admitted, earlier attempts
counted. -/
def callAt (block : Block) (plan : Plan) (n : Nat) (c : Cache) : Option Call :=
  block.parameters[n % block.size]?.bind fun x =>
    (plan.tierOf? x.1).map fun tier => Call.make c ⟨x.2.identity, tier⟩ (.ofTensor x.2 id tier)

/-- The users as the company of a load: at every moment they do what `rivals` says, and the calls
of the load are recorded. -/
def company (block : Block) (plan : Plan) (rivals : Moment → Scene → Scene)
    (cancelled : Scene → Bool) : Company Users where
  act moment w :=
    let w := rivals moment w
    match moment with
    | .admitted n => (w.1, w.2.record (callAt block plan n w.1.cache))
    | _ => w
  cancelled := cancelled

/-- The map that the handle of a load holds. -/
def handed : Except Fault Handle → Multiset MapId
  | .ok handle => {handle.map}
  | .error _ => 0

/-- The map that was stored. -/
def stored : Except Fault MapId → Multiset MapId
  | .ok m => {m}
  | .error _ => 0

/-- What users can bring about. -/
inductive Run (permits : Permits) : Scene → Scene → Prop
  | rest (w : Scene) : Run permits w w
  | andThen {w w' w'' : Scene} (h : Run permits w w') (h' : Run permits w' w'') : Run permits w w''
  /-- A load, during which the users go on as `rivals` says. -/
  | load {l l' : Loader} {u u' : Users} (index : Nat) (block : Block) (split : Split Binary64)
      (rivals : Moment → Scene → Scene) (cancelled : Scene → Bool)
      (hblock : ∀ x ∈ block.parameters, permits.tensors x.2)
      (hrivals : ∀ moment w, Run permits w (rivals moment w)) {r : Except Fault Handle}
      (h : Loader.loadAmong (company block (planOf block split) rivals cancelled) index block split
        (l, u) = (r, l', u')) :
      Run permits (l, u) (l', u'.and 0 (handed r))
  | resolve {l : Loader} {u : Users} {t : Tensor} (ht : permits.tensors t) (tier : Tier)
      (tamper : Files → Files) (htamper : permits.tampers ∨ tamper = id)
      {r : Except Fault Resolved} {c : Cache}
      (h : l.cache.resolveAmid (fun d => { d with files := tamper d.files }) t tier = (r, c)) :
      Run permits (l, u) ({ l with cache := c }, u.called ⟨l.cache, ⟨t.identity, tier⟩, r, c⟩)
  /-- A key resolved with a maker, which may purge while the slot of the key is open. -/
  | resolveWith {l : Loader} {u : Users} {key : Key} {make : Maker} (hm : permits.makers key make)
      (honest : make.Honest permits.purges permits.tampers key.tier) {r : Except Fault Resolved}
      {c : Cache} (h : Cache.resolveWith key (Cache.place make) (l.cache, ()) = (r, c, ())) :
      Run permits (l, u) ({ l with cache := c }, u.called ⟨l.cache, key, r, c⟩)
  | get {l : Loader} {u : Users} (key : Key) {r : Option PlacementId} {c : Cache}
      (h : l.cache.get key = (r, c)) : Run permits (l, u) ({ l with cache := c }, u.and r.toList 0)
  | clone {l : Loader} {u : Users} {p : PlacementId} (h : p ∈ u.entries) :
      Run permits (l, u) ({ l with cache := l.cache.retain p }, u.and {p} 0)
  | drop {l : Loader} {u : Users} (p : PlacementId) :
      Run permits (l, u.and {p} 0) ({ l with cache := l.cache.release p }, u)
  /-- An entry taken out of a map that is held. -/
  | take {l : Loader} {u : Users} {m : MapId} (hm : m ∈ u.maps)
      {parameters : Table String PlacementId} (hmap : l.store.map? m = some parameters)
      {name : String} {p : PlacementId} (hp : parameters.find? name = some p) :
      Run permits (l, u) ({ l with cache := l.cache.retain p }, u.and {p} 0)
  | loadMap {l l' : Loader} {u : Users} (block : Nat) {r : Except Fault (Option MapId)}
      (h : l.loadMap block = (r, l')) : Run permits (l, u) (l', u.and 0 (BlockStore.found r))
  | cloneMap {l : Loader} {u : Users} {m : MapId} (h : m ∈ u.maps) :
      Run permits (l, u) ({ l with store := l.store.retain m }, u.and 0 {m})
  | dropMap {l : Loader} {u : Users} (m : MapId) : Run permits (l, u.and 0 {m}) (l.dropMap m, u)
  /-- Entries stored as the map of a block. -/
  | storeMap {l l' : Loader} {u : Users} (block : Nat) (parameters : Table String PlacementId)
      {r : Except Fault MapId} (h : l.storeMap block parameters = (r, l')) :
      Run permits (l, u.and parameters.values 0) (l', u.and 0 (stored r))
  | clearBlock {l : Loader} {u : Users} (block : Nat) :
      Run permits (l, u) ((l.clearBlock block).2, u)
  | clearBlockIf {l : Loader} {u : Users} (block : Nat) (m : MapId) :
      Run permits (l, u) ((l.clearBlockIf block m).2, u)
  | clearBlocks {l : Loader} {u : Users} : Run permits (l, u) (l.clearBlocks.2, u)
  | clearAll {l : Loader} {u : Users} (h : permits.forgets) : Run permits (l, u) (l.clearAll, u)
  | purge {l : Loader} {u : Users} (h : permits.purges) :
      Run permits (l, u) ({ l with cache := l.cache.purge.2 }, u)
  | invalidate {l : Loader} {u : Users} (h : permits.forgets) (tier : Tier) :
      Run permits (l, u) ({ l with cache := (l.cache.invalidate tier).2 }, u)
  | clear {l : Loader} {u : Users} (h : permits.forgets) :
      Run permits (l, u) ({ l with cache := l.cache.clear }, u)
  | tamper {l : Loader} {u : Users} (h : permits.tampers) (files : Files) :
      Run permits (l, u)
        ({ l with cache := { l.cache with depot := { l.cache.depot with files } } }, u)
  | tick {l : Loader} {u : Users} (n : Nat) : Run permits (l, u) (l, { u with clock := n })

end Scene

end TieredWeights
