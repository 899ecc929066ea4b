import TieredWeights.Proofs.Cache.Filling
import TieredWeights.Proofs.Stocking

/-!
# The order of loads

Blocks loaded one after another into a new loader over memory share what they have in common, so
which load pays for a shared tensor depends on the order. What they place together does not: it is
the keys of all their plans. So all loads succeed just if every pool can take the keys of its tier,
and in whatever order they do, the counts of the pools, of the cache and of the loader end the same.
-/
namespace TieredWeights

open Scene

/-- A load that is asked for. -/
structure LoadRequest where
  index : Nat
  block : Block
  split : Split Binary64

namespace LoadRequest

/-- The keys of a request under its own plan. -/
def keys (request : LoadRequest) : List Key :=
  request.block.keys (planOf request.block request.split)

/-- A request in range, under a split that is accepted, for tiers that are there. -/
structure Valid (depot : Depot) (blocks : Nat) (request : LoadRequest) : Prop where
  range : request.index < blocks
  split : request.split.validate = .ok ()
  configured : ∀ planned ∈ (planOf request.block request.split).parameters,
    (depot.pools.find? planned.tier).isSome

/-- The tiers of the keys of a request are there. -/
theorem Valid.isSome_of_mem_keys {depot : Depot} {blocks : Nat} {request : LoadRequest}
    (h : request.Valid depot blocks) {key : Key} (hkey : key ∈ request.keys) :
    (depot.pools.find? key.tier).isSome := by
  obtain ⟨planned, hplanned, htier⟩ := Block.exists_planned hkey
  rw [← htier]
  exact h.configured planned hplanned

end LoadRequest

/-- The different keys of some requests. -/
def keysOf (requests : List LoadRequest) : Finset Key :=
  (requests.flatMap LoadRequest.keys).toFinset

/-- How many parameters some requests have. -/
def parametersIn (requests : List LoadRequest) : Nat :=
  (requests.map fun request => request.block.size).sum

namespace Loader

/-- Load one block after another, whatever becomes of each. -/
def loadEach (l : Loader) : List LoadRequest → List (Except Fault Handle) × Loader
  | [] => ([], l)
  | request :: rest =>
    let (r, l) := l.load request.index request.block request.split
    let (rs, l) := l.loadEach rest
    (r :: rs, l)

variable {depot : Depot} {blocks : Nat} {done : List LoadRequest} {request : LoadRequest}
  {l : Loader} {c : Cache} {g : Gathered}

/-- Some requests have been loaded into a new loader over the pools of a depot. -/
structure Filled (depot : Depot) (blocks : Nat) (done : List LoadRequest) (l : Loader) : Prop where
  store : ∃ maps, l.store.Sound maps
  size : l.store.size = blocks
  vacant : ∀ index, index ∉ done.map LoadRequest.index → l.store.held.find? index = none
  filling : l.cache.Filling depot (keysOf done) l.store.references
  references : l.store.references.card = parametersIn done
  loads : l.reuse.blockLoads = done.length
  hits : l.reuse.holderHits = 0
  resolved : l.reuse.parametersResolved = parametersIn done
  reused : l.reuse.parametersReused + (keysOf done).card = parametersIn done

theorem filled_ofDepot (hd : depot.Sound 0) (blocks : Nat) (own : Split Binary64) :
    Filled depot blocks [] (.ofDepot depot blocks own) where
  store := ⟨0, BlockStore.sound_empty blocks⟩
  size := rfl
  vacant _ _ := rfl
  filling := Cache.filling_ofDepot hd
  references := rfl
  loads := rfl
  hits := rfl
  resolved := rfl
  reused := rfl

theorem keysOf_append (requests requests' : List LoadRequest) :
    keysOf (requests ++ requests') = keysOf requests ∪ keysOf requests' := by
  rw [keysOf, List.flatMap_append, List.toFinset_append, keysOf, keysOf]

theorem keysOf_snoc (requests : List LoadRequest) (request : LoadRequest) :
    keysOf (requests ++ [request]) =
      keysOf requests ∪ (request.block.keys (planOf request.block request.split)).toFinset := by
  rw [keysOf_append, keysOf, keysOf, List.flatMap_singleton]
  rfl

namespace Filled

/-- What was collected for one more request is committed to its slot. -/
theorem committed (h : Filled depot blocks done l)
    (hindex : request.index ∉ done.map LoadRequest.index) (hrange : request.index < l.store.size)
    (hcollected : Collected depot (keysOf done) l.store.references l.cache request.block
      (planOf request.block request.split) g c) :
    Filled depot blocks (done ++ [request]) (l.committed request.index g c) := by
  obtain ⟨maps, hs⟩ := h.store
  have hheld := h.vacant _ hindex
  have hstore := BlockStore.store_vacant hrange hheld g.parameters
  have hparameters : parametersIn (done ++ [request]) = parametersIn done + request.block.size := by
    simp [parametersIn]
  have hplaced := hcollected.placed
  have hgains := hcollected.gains
  have hstock := hcollected.stock
  rw [← keysOf_snoc] at hplaced hgains hstock
  rcases hs.store hstore with ⟨e, he, -⟩ | ⟨-, -, -, hs', hreferences, -, -⟩
  · cases he
  · constructor
    case store => exact ⟨_, hs'⟩
    case size => exact h.size
    case vacant =>
      intro index hnot
      rw [List.map_append, List.mem_append, not_or] at hnot
      have hne : index ≠ request.index := by simpa using hnot.2
      exact (Table.find?_insert_ne _ _ hne).trans (h.vacant index hnot.1)
    case filling =>
      have hfilling := h.filling.gained hstock hgains (by
        rw [Multiset.card_add, Multiset.coe_card, hcollected.values, Nat.add_comm])
      rwa [← hreferences] at hfilling
    case references =>
      have hcard := congrArg Multiset.card hreferences
      rw [Multiset.card_add, Multiset.coe_card, h.references, hcollected.values] at hcard
      rw [hparameters]
      exact hcard.trans (Nat.add_comm _ _)
    case loads => simp [Loader.committed, countLoaded, h.loads]
    case hits => exact h.hits
    case resolved =>
      rw [hparameters, ← hcollected.counted, ← h.resolved]
      rfl
    case reused =>
      have hreused := h.reused
      have hcounted := hcollected.counted
      rw [hparameters]
      simp only [Loader.committed, countLoaded]
      omega

/-- One more request: it is served, or with its keys the keys no longer fit. -/
theorem load (h : Filled depot blocks done l) (hd : depot.Sound 0) (hmemory : depot.InMemory)
    (hindex : request.index ∉ done.map LoadRequest.index) (hvalid : request.Valid depot blocks) :
    (∃ e l', l.load request.index request.block request.split = (.error e, l') ∧
        ¬ depot.Fits (keysOf (done ++ [request]))) ∨
      ∃ handle l', l.load request.index request.block request.split = (.ok handle, l') ∧
        Filled depot blocks (done ++ [request]) l' := by
  have hrange : request.index < l.store.size := h.size ▸ hvalid.range
  have hstock := h.filling.toStock
  rcases load_stocked (hmemory.tidy hd) hstock (fun _ => hstock.returned) hvalid.split hrange
    (h.vacant _ hindex) with ⟨e, l', hload, hfull⟩ | ⟨g, c, hload, hcollected⟩
  · refine .inl ⟨e, l', hload, fun hfits => hfull (hmemory.accommodates (fun key hkey => ?_) ?_ _ _)⟩
    · rcases Finset.mem_union.1 hkey with hkey | hkey
      · obtain ⟨pool, hpool, -⟩ := h.filling.sized key hkey
        rw [hpool]
        rfl
      · exact hvalid.isSome_of_mem_keys (List.mem_toFinset.1 hkey)
    · rwa [keysOf_snoc] at hfits
  · exact .inr ⟨_, _, hload, h.committed hindex hrange hcollected⟩

/-- More requests: they are all served, or one of them is not and the keys do not fit. By induction
on the requests that are left. -/
theorem loadEach (h : Filled depot blocks done l) (hd : depot.Sound 0) (hmemory : depot.InMemory)
    {rest : List LoadRequest} (hindices : ((done ++ rest).map LoadRequest.index).Nodup)
    (hvalid : ∀ request ∈ rest, request.Valid depot blocks) :
    ((l.loadEach rest).1.all Except.isOk ∧ Filled depot blocks (done ++ rest) (l.loadEach rest).2) ∨
      ((l.loadEach rest).1.all Except.isOk = false ∧ ¬ depot.Fits (keysOf (done ++ rest))) := by
  induction rest generalizing done l with
  | nil =>
    refine .inl ⟨rfl, ?_⟩
    rw [List.append_nil]
    exact h
  | cons request rest ih =>
    have hsplit : done ++ request :: rest = (done ++ [request]) ++ rest := by simp
    have hindex : request.index ∉ done.map LoadRequest.index := by
      rw [List.map_append, List.nodup_append] at hindices
      intro hmem
      exact hindices.2.2 _ hmem request.index (by simp) rfl
    have hrest : ∀ request ∈ rest, request.Valid depot blocks :=
      fun request hmem => hvalid request (List.mem_cons_of_mem _ hmem)
    rw [hsplit] at hindices ⊢
    rcases h.load hd hmemory hindex (hvalid request List.mem_cons_self) with
      ⟨e, l', hload, hfull⟩ | ⟨handle, l', hload, hfilled⟩
    · refine .inr ⟨by simp [Loader.loadEach, hload, Except.isOk, Except.toBool], fun hfits => ?_⟩
      rw [keysOf_append] at hfits
      exact hfull (hfits.mono Finset.subset_union_left)
    · have hothers := ih hfilled hindices hrest
      simpa [Loader.loadEach, hload, Except.isOk, Except.toBool] using hothers

end Filled

/-- The counts of two loaders are the same. -/
structure Alike (l l' : Loader) : Prop where
  pools : ∀ tier, (l.depot.pools.find? tier).map (fun p => (p.used, p.live, p.allocations)) =
    (l'.depot.pools.find? tier).map fun p => (p.used, p.live, p.allocations)
  stats : l.cache.stats = l'.cache.stats
  reuse : l.reuse = l'.reuse

/-- The order in which requests were loaded does not show in the counts. -/
theorem Filled.alike {done' : List LoadRequest} {l' : Loader} (h : Filled depot blocks done l)
    (h' : Filled depot blocks done' l') (hperm : done'.Perm done) : Alike l l' := by
  have hkeys : keysOf done' = keysOf done :=
    List.toFinset_eq_of_perm _ _ (hperm.flatMap_right _)
  have hparameters : parametersIn done' = parametersIn done := (hperm.map _).sum_eq
  have hfilling' := h'.filling
  rw [hkeys] at hfilling'
  constructor
  case pools =>
    intro tier
    exact (h.filling.pools tier).trans (hfilling'.pools tier).symm
  case stats =>
    refine h.filling.stats_eq hfilling' ?_
    rw [h.references, h'.references, hparameters]
  case reuse =>
    have hloads : l.reuse.blockLoads = l'.reuse.blockLoads := by
      rw [h.loads, h'.loads, hperm.length_eq]
    have hhits : l.reuse.holderHits = l'.reuse.holderHits := h.hits.trans h'.hits.symm
    have hresolved : l.reuse.parametersResolved = l'.reuse.parametersResolved := by
      rw [h.resolved, h'.resolved, hparameters]
    have hreused : l.reuse.parametersReused = l'.reuse.parametersReused := by
      have hsum := h.reused
      have hsum' := h'.reused
      rw [hkeys, hparameters] at hsum'
      omega
    cases hl : l.reuse
    cases hl' : l'.reuse
    simp_all

end Loader

open Loader in
/-- Requests with slots of their own, loaded one after another into a new loader over memory: all of
them succeed just if every pool can take the different keys of its tier. So they all succeed in
whatever order they come, and then their order does not show in the counts. -/
theorem load_order {depot : Depot} {blocks : Nat} {own : Split Binary64}
    {requests : List LoadRequest} (hd : depot.Sound 0) (hmemory : depot.InMemory)
    (hindices : (requests.map LoadRequest.index).Nodup)
    (hvalid : ∀ request ∈ requests, request.Valid depot blocks) :
    ((loadEach (.ofDepot depot blocks own) requests).1.all Except.isOk ↔
      depot.Fits (keysOf requests)) ∧
    ∀ requests' : List LoadRequest, requests'.Perm requests →
      ((loadEach (.ofDepot depot blocks own) requests').1.all Except.isOk ↔
        (loadEach (.ofDepot depot blocks own) requests).1.all Except.isOk) ∧
      ((loadEach (.ofDepot depot blocks own) requests).1.all Except.isOk →
        Alike (loadEach (.ofDepot depot blocks own) requests).2
          (loadEach (.ofDepot depot blocks own) requests').2) := by
  have hstart : Filled depot blocks [] (.ofDepot depot blocks own) := filled_ofDepot hd blocks own
  have hall : ∀ requests' : List LoadRequest, requests'.Perm requests →
      ((loadEach (.ofDepot depot blocks own) requests').1.all Except.isOk ∧
        Filled depot blocks requests' (loadEach (.ofDepot depot blocks own) requests').2) ∨
      ((loadEach (.ofDepot depot blocks own) requests').1.all Except.isOk = false ∧
        ¬ depot.Fits (keysOf requests')) := by
    intro requests' hperm
    exact hstart.loadEach hd hmemory ((hperm.map LoadRequest.index).nodup_iff.2 hindices)
      fun request hmem => hvalid request (hperm.mem_iff.1 hmem)
  have hiff : ∀ requests' : List LoadRequest, requests'.Perm requests →
      ((loadEach (.ofDepot depot blocks own) requests').1.all Except.isOk ↔
        depot.Fits (keysOf requests')) := by
    intro requests' hperm
    rcases hall requests' hperm with ⟨hok, hfilled⟩ | ⟨hok, hfull⟩
    · exact iff_of_true hok hfilled.filling.fits
    · exact iff_of_false (by simp [hok]) hfull
  refine ⟨hiff requests (.refl _), fun requests' hperm => ?_⟩
  have hkeys : keysOf requests' = keysOf requests :=
    List.toFinset_eq_of_perm _ _ (hperm.flatMap_right _)
  have hsame : (loadEach (.ofDepot depot blocks own) requests').1.all Except.isOk ↔
      (loadEach (.ofDepot depot blocks own) requests).1.all Except.isOk := by
    rw [hiff requests' hperm, hiff requests (.refl _), hkeys]
  refine ⟨hsame, fun hok => ?_⟩
  rcases hall requests (.refl _) with ⟨-, hfilled⟩ | ⟨hno, -⟩
  · rcases hall requests' hperm with ⟨-, hfilled'⟩ | ⟨hno, -⟩
    · exact hfilled.alike hfilled' hperm
    · rw [hsame.2 hok] at hno
      cases hno
  · rw [hok] at hno
    cases hno

/-- The sample's block, and one that shares its tensor and has another for the rest of the pool. -/
def sampleRequests : List LoadRequest :=
  [⟨0, sampleBlock, sampleSplit⟩, ⟨1, ⟨[("shared", sampleTensor),
    ("own", ⟨2, .f32, [3], zeroBytes (4 * 3), by decide⟩)], by decide⟩, sampleSplit⟩]

open Loader in
/-- The pool is just large enough, whichever block comes first. -/
theorem load_order_sample : sampleDepot.Fits (keysOf sampleRequests) ∧
    (loadEach (.ofDepot sampleDepot 2 sampleSplit) sampleRequests.reverse).1.all Except.isOk ∧
      Alike (loadEach (.ofDepot sampleDepot 2 sampleSplit) sampleRequests).2
        (loadEach (.ofDepot sampleDepot 2 sampleSplit) sampleRequests.reverse).2 := by
  have hpools : sampleDepot.pools.toList.all fun b => b.2.spill.isNone := by decide +kernel
  have hmemory : sampleDepot.InMemory := by
    intro tier pool hpool
    have hnone := List.all_eq_true.1 hpools (tier, pool) (Table.mem_toList.2 hpool)
    simpa using hnone
  have hindices : (sampleRequests.map LoadRequest.index).Nodup := by decide
  have hvalid : ∀ request ∈ sampleRequests, request.Valid sampleDepot 2 := by
    intro request hmem
    simp only [sampleRequests, List.mem_cons, List.not_mem_nil, or_false] at hmem
    rcases hmem with rfl | rfl
    · exact ⟨by decide, by decide +kernel, by decide +kernel⟩
    · exact ⟨by decide, by decide +kernel, by decide +kernel⟩
  have hok : (loadEach (.ofDepot sampleDepot 2 sampleSplit) sampleRequests).1.all Except.isOk := by
    decide +kernel
  obtain ⟨hfits, hperm⟩ :=
    @load_order sampleDepot 2 sampleSplit sampleRequests sampleDepot_sound hmemory hindices hvalid
  obtain ⟨hsame, halike⟩ := hperm sampleRequests.reverse (List.reverse_perm _)
  exact ⟨hfits.1 hok, hsame.2 hok, halike hok⟩

end TieredWeights
