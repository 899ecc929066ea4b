import TieredWeights.Proofs.Meters
import TieredWeights.Proofs.Scene.Loads

/-!
# Audited runs

Beside a loader stand the books of its past: the loads begun, the handles returned with their outcomes
and lengths, the calls of the cache and how they were answered, the commits that were lost, and the
buffers that others than loads have allocated. `Run` relates a loader with its books to all that users
can bring about. During a load the others go on as they like, at every moment of it, and so does
whoever places bytes into an open slot of the cache; what they find then is seen by the ledger.
-/
namespace TieredWeights

/-- What is told of the past of a loader. -/
structure Books where
  /-- Loads begun under a split that is valid. -/
  loads : Nat := 0
  /-- The handles returned, each with its outcome and the number of its parameters. -/
  handles : Multiset (Outcome × Nat) := 0
  /-- Calls of the cache made by users and by loads. -/
  calls : Nat := 0
  /-- Calls answered with a placement that was there. -/
  shared : Nat := 0
  /-- Commits that found the slot of the block taken. -/
  lost : Nat := 0
  /-- Buffers allocated by others than loads. -/
  others : Nat := 0

/-- Whether a call was answered with a placement that was there. -/
def sharedBy : Except Fault Resolved → Nat
  | .ok ⟨_, false⟩ => 1
  | _ => 0

namespace Outcome

def placed : Outcome → Nat
  | .holderHit => 0
  | .loaded placed _ _ => placed

/-- The parameters of a handle of some length that were there before the load. -/
def reused (length : Nat) : Outcome → Nat
  | .holderHit => length
  | .loaded _ reused _ => reused

end Outcome

namespace Books

def asked (b : Books) : Books := { b with calls := b.calls + 1 }

def answered (r : Except Fault Resolved) (b : Books) : Books :=
  { b with shared := b.shared + sharedBy r }

def allocated (n : Nat) (b : Books) : Books := { b with others := b.others + n }

/-- A load has returned. -/
def handed (b : Books) (l : Loader) : Except Fault Handle → Books
  | .ok handle =>
    { b with handles := (handle.outcome, (l.parametersOf handle.map).length) ::ₘ b.handles }
  | .error _ => b

/-- A load is begun under a split. -/
def begun (split : Split Binary64) (b : Books) : Books :=
  match split.validate with
  | .ok _ => { b with loads := b.loads + 1 }
  | .error _ => b

/-- What a load tells when it reaches a moment. -/
def told : Moment → Books → Books
  | .refused _, b => { b with lost := b.lost + 1 }
  | _, b => b

/-- The parameters placed by the loads that have returned a handle. -/
def placed (b : Books) : Nat := (b.handles.map fun h => h.1.placed).sum

/-- The parameters of the handles returned. -/
def resolved (b : Books) : Nat := (b.handles.map Prod.snd).sum

/-- The parameters of the handles returned that were there before their loads. -/
def reused (b : Books) : Nat := (b.handles.map fun h => h.1.reused h.2).sum

/-- The handles returned without a load. -/
def holderHits (b : Books) : Nat := b.handles.countP fun h => h.1 = .holderHit

section

variable (b : Books) (l : Loader) (handle : Handle)

theorem calls_handed (r : Except Fault Handle) : (b.handed l r).calls = b.calls := by
  cases r <;> rfl

theorem shared_handed (r : Except Fault Handle) : (b.handed l r).shared = b.shared := by
  cases r <;> rfl

theorem loads_handed (r : Except Fault Handle) : (b.handed l r).loads = b.loads := by
  cases r <;> rfl

theorem placed_handed :
    (b.handed l (.ok handle)).placed = handle.outcome.placed + b.placed := by
  simp [handed, placed]

theorem resolved_handed :
    (b.handed l (.ok handle)).resolved = (l.parametersOf handle.map).length + b.resolved := by
  simp [handed, resolved]

theorem reused_handed : (b.handed l (.ok handle)).reused =
    handle.outcome.reused (l.parametersOf handle.map).length + b.reused := by
  simp [handed, reused]

theorem holderHits_handed : (b.handed l (.ok handle)).holderHits =
    b.holderHits + if handle.outcome = .holderHit then 1 else 0 := by
  simp [handed, holderHits, Multiset.countP_cons]

end

end Books

/-- The books, and what others have seen of the loader and of the books when a load or a call left
them a moment. -/
structure Ledger where
  books : Books := {}
  seen : List (Loader × Books) := []

def Ledger.book (f : Books → Books) (ledger : Ledger) : Ledger := { ledger with books := f ledger.books }

namespace Audit

abbrev World := Loader × Ledger

/-- A load has returned. -/
def handed (w : World) (r : Except Fault Handle) : World := (w.1, w.2.book (·.handed w.1 r))

/-- Others see how things stand. -/
def witnessed (w : World) : World := (w.1, { w.2 with seen := (w.1, w.2.books) :: w.2.seen })

/-- The others as the company of a load, whose calls of the cache are booked. -/
def company (block : Block) (plan : Plan) (rivals : Moment → World → World)
    (cancelled : World → Bool) : Company Ledger where
  act moment w :=
    let w := rivals moment (witnessed (w.1, w.2.book (.told moment)))
    match moment with
    | .admitted n =>
      match Scene.callAt block plan n w.1.cache with
      | none => w
      | some call => (w.1, w.2.book fun b => b.asked.answered call.answer)
    | _ => w
  cancelled := cancelled

/-- The books are told of a call for a parameter that the plan has a tier for. -/
theorem company_admitted (block : Block) (plan : Plan) (rivals : Moment → World → World)
    (cancelled : World → Bool) (n : Nat) (w : World) :
    (company block plan rivals cancelled).act (.admitted n) w =
      (Scene.callAt block plan n (rivals (.admitted n) (witnessed w)).1.cache).elim
        (rivals (.admitted n) (witnessed w)) fun call =>
          ((rivals (.admitted n) (witnessed w)).1,
            (rivals (.admitted n) (witnessed w)).2.book fun b => b.asked.answered call.answer) := by
  obtain ⟨l, ledger⟩ := w
  have htold : ledger.book (·.told (.admitted n)) = ledger := rfl
  simp only [company, htold]
  generalize rivals (.admitted n) (witnessed (l, ledger)) = w₁
  cases Scene.callAt block plan n w₁.1.cache <;> rfl

/-- Resolve a key. Whoever places its bytes may do whatever users do. -/
def resolving (key : Key) (place : World → Except Fault Buffer × World) (w : World) :
    Except Fault Resolved × World :=
  let place' : Cache × World → Except Fault Buffer × (Cache × World) := fun x =>
    let (brought, w) := place (witnessed ({ x.2.1 with cache := x.1 }, x.2.2))
    (brought, (w.1.cache, w))
  let (r, c, w) := Cache.resolveWith key place' (w.1.cache, (w.1, w.2.book .asked))
  (r, ({ w.1 with cache := c }, w.2.book (.answered r)))

/-- Whatever users do but load, resolve and allocate. -/
inductive Deed (l : Loader) : Loader → Prop
  | get (key : Key) : Deed l { l with cache := (l.cache.get key).2 }
  | retain (p : PlacementId) : Deed l { l with cache := l.cache.retain p }
  | release (p : PlacementId) : Deed l { l with cache := l.cache.release p }
  | loadMap (block : Nat) : Deed l (l.loadMap block).2
  | retainMap (m : MapId) : Deed l { l with store := l.store.retain m }
  | dropMap (m : MapId) : Deed l (l.dropMap m)
  | storeMap (block : Nat) (parameters : Table String PlacementId) :
      Deed l (l.storeMap block parameters).2
  | clearBlock (block : Nat) : Deed l (l.clearBlock block).2
  | clearBlockIf (block : Nat) (m : MapId) : Deed l (l.clearBlockIf block m).2
  | clearBlocks : Deed l l.clearBlocks.2
  | clearAll : Deed l l.clearAll
  | purge : Deed l { l with cache := l.cache.purge.2 }
  | invalidate (tier : Tier) : Deed l { l with cache := (l.cache.invalidate tier).2 }
  | clear : Deed l { l with cache := l.cache.clear }
  | copyIn (tier : Tier) (b : Buffer) (bytes : ByteArray) :
      Deed l { l with cache := { l.cache with depot := (l.depot.copyIn tier b bytes).2 } }
  | giveBack (tier : Tier) (b : Buffer) :
      Deed l { l with cache := { l.cache with depot := (l.depot.release tier b).2 } }
  | tamper (files : Files) :
      Deed l { l with cache := { l.cache with depot := { l.depot with files } } }

/-- What users can bring about. -/
inductive Run : World → World → Prop
  | rest (w : World) : Run w w
  | andThen {w w' w'' : World} (h : Run w w') (h' : Run w' w'') : Run w w''
  /-- A load, during which the users go on as `rivals` says. -/
  | load {l l' : Loader} {ledger ledger' : Ledger} (index : Nat) (block : Block)
      (split : Split Binary64) (rivals : Moment → World → World) (cancelled : World → Bool)
      (hrivals : ∀ moment w, Run w (rivals moment w)) {r : Except Fault Handle}
      (h : Loader.loadAmong (company block (Scene.planOf block split) rivals cancelled) index block
        split (l, ledger.book (.begun split)) = (r, (l', ledger'))) :
      Run (l, ledger) (handed (l', ledger') r)
  /-- A key resolved with whatever users do to place its bytes. -/
  | resolveWith {w : World} (key : Key) (place : World → Except Fault Buffer × World)
      (hplace : ∀ w, Run w (place w).2) : Run w (resolving key place w).2
  /-- A tensor resolved, while others tamper with the files. -/
  | resolve {l : Loader} {ledger : Ledger} (t : Tensor) (tier : Tier) (tamper : Files → Files)
      {r : Except Fault Resolved} {c : Cache}
      (h : l.cache.resolveAmid (fun d => { d with files := tamper d.files }) t tier = (r, c)) :
      Run (l, ledger) ({ l with cache := c }, ledger.book fun b =>
        (b.asked.answered r).allocated (c.depot.allocations - l.depot.allocations))
  | allocate {l : Loader} {ledger : Ledger} (tier : Tier) (n : Nat) (type : ElementType)
      {r : Except Fault Buffer} {d : Depot} (h : l.depot.allocate tier n type = (r, d)) :
      Run (l, ledger) ({ l with cache := { l.cache with depot := d } },
        ledger.book (.allocated (Depot.brought r).card))
  | deed {l l' : Loader} {ledger : Ledger} (h : Deed l l') : Run (l, ledger) (l', ledger)

end Audit

namespace Loader

/-- The meters of a loader. -/
def meters (l : Loader) : Meters := l.cache.meters l.reuse

theorem meters_releaseAll (l : Loader) (ps : List PlacementId) :
    (l.releaseAll ps).meters = l.meters := l.cache.meters_releaseAll l.reuse ps

theorem meters_dropMap (l : Loader) (m : MapId) : (l.dropMap m).meters = l.meters :=
  meters_releaseAll { l with store := (l.store.drop m).2 } _

theorem meters_clearBlock (l : Loader) (block : Nat) : (l.clearBlock block).2.meters = l.meters :=
  meters_releaseAll { l with store := (l.store.clear block).2.2 } _

theorem meters_clearBlockIf (l : Loader) (block : Nat) (m : MapId) :
    (l.clearBlockIf block m).2.meters = l.meters :=
  meters_releaseAll { l with store := (l.store.clearIf block m).2.2 } _

theorem meters_clearBlocks (l : Loader) : l.clearBlocks.2.meters = l.meters :=
  meters_releaseAll { l with store := l.store.clearAll.2.2 } _

theorem meters_storeMap (l : Loader) (block : Nat) (parameters : Table String PlacementId) :
    (l.storeMap block parameters).2.meters = l.meters := by
  unfold storeMap
  rcases l.store.store block parameters with ⟨e | m, store⟩
  · exact meters_releaseAll { l with store } _
  · rfl

/-- A map that is stored has the parameters given. -/
theorem parametersOf_storeMap {l l' : Loader} {block : Nat} {parameters : Table String PlacementId}
    {m : MapId} (h : l.storeMap block parameters = (.ok m, l')) :
    l'.parametersOf m = parameters.toList := by
  unfold storeMap BlockStore.store at h
  rcases hheld : l.store.held? block with e | _ | m' <;> simp only [hheld] at h <;> cases h
  simp only [parametersOf, BlockStore.map?, Table.find?_insert_self, Option.map_some, Option.getD_some]

end Loader

namespace Audit

/-- None of these deeds moves a meter. -/
theorem Deed.meters {l l' : Loader} (h : Deed l l') : l'.meters = l.meters := by
  cases h with
  | get key =>
    unfold Cache.get
    split <;> rfl
  | retain p => rfl
  | release p => exact l.cache.meters_release l.reuse p
  | loadMap block => rfl
  | retainMap m => rfl
  | dropMap m => exact l.meters_dropMap m
  | storeMap block parameters => exact l.meters_storeMap block parameters
  | clearBlock block => exact l.meters_clearBlock block
  | clearBlockIf block m => exact l.meters_clearBlockIf block m
  | clearBlocks => exact l.meters_clearBlocks
  | clearAll =>
    have hclear := l.clearBlocks.2.cache.meters_clear l.clearBlocks.2.reuse
    exact hclear.trans l.meters_clearBlocks
  | purge => exact l.cache.meters_purge l.reuse
  | invalidate tier => exact l.cache.meters_invalidate l.reuse tier
  | clear => exact l.cache.meters_clear l.reuse
  | copyIn tier b bytes =>
    exact congrArg (Meters.mk l.reuse l.cache.hits l.cache.misses)
      (l.depot.allocations_copyIn tier b bytes)
  | giveBack tier b =>
    exact congrArg (Meters.mk l.reuse l.cache.hits l.cache.misses)
      (l.depot.allocations_release tier b)
  | tamper files => rfl

end Audit

end TieredWeights
