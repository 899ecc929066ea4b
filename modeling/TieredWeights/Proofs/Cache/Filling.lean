import TieredWeights.Proofs.Cache.Stock

/-!
# Filling a cache

A cache that only ever gains placements has as many misses as keys in stock, and its calls are the
references that who called holds. So what the cache and its pools count can be read off the keys and
the number of references, however these came about.
-/
namespace TieredWeights.Cache

variable {depot : Depot} {keys keys' : Finset Key} {held held' : Multiset PlacementId}
  {c c' : Cache} {loose : Multiset Buffer}

theorem registrationCount_le (c : Cache) (p : PlacementId) : c.registrationCount p ≤ 1 := by
  unfold registrationCount
  split
  · split_ifs <;> simp
  · simp

/-- The registered placements, read by name. -/
theorem Sound.map_registeredPlacements {α : Type} {f : Placement → α} {g : PlacementId → α}
    (h : c.Sound held loose) (hfg : ∀ p q, c.find? p = some q → f q = g p) :
    c.registeredPlacements.map f = (registrations c.slots.toList).map g := by
  rw [registeredPlacements, List.map_filterMap, ← List.filterMap_eq_map]
  refine List.filterMap_congr fun p hp => ?_
  have hmem : p ∈ registrationsOf c.slots := hp
  obtain ⟨q, hq⟩ := h.find?_of_mem (Multiset.mem_add.2 (.inl hmem))
  simp [hq, hfg p q hq]

/-- The keys of the registered placements are those of slots with a registration. -/
theorem Sound.map_key_registeredPlacements (h : c.Sound held loose) :
    c.registeredPlacements.map Placement.key =
      (c.slots.toList.filter fun b => b.2.registered.isSome).map Prod.fst := by
  have hslots : ∀ l : List (Key × KeySlot), (∀ b ∈ l, c.slots.find? b.1 = some b.2) →
      ((registrations l).filterMap c.find?).map Placement.key =
        (l.filter fun b => b.2.registered.isSome).map Prod.fst := by
    intro l hl
    induction l with
    | nil => rfl
    | cons b rest ih =>
      have hrest := ih fun b hb => hl b (List.mem_cons_of_mem _ hb)
      cases hreg : b.2.registered with
      | none => simpa [registrations_cons, hreg] using hrest
      | some p =>
        have hkey : c.registered? b.1 = some p := by
          rw [registered?, hl b List.mem_cons_self, Option.bind_some, hreg]
        obtain ⟨q, hq, hown⟩ := h.keyed b.1 p hkey
        simpa [registrations_cons, hreg, hq, hown] using hrest
  exact hslots _ fun b hb => Table.mem_toList.1 hb

theorem Sound.ascending_keys (h : c.Sound held loose) :
    (c.registeredPlacements.map Placement.key).Pairwise fun k k' => compare k k' = .lt := by
  rw [h.map_key_registeredPlacements]
  exact (c.slots.ascending.filter _).map _ fun _ _ hlt => hlt

theorem Sound.mem_registeredKeys (h : c.Sound held loose) {key : Key} :
    key ∈ c.registeredPlacements.map Placement.key ↔ (c.registered? key).isSome := by
  rw [h.map_key_registeredPlacements, List.mem_map, registered?]
  constructor
  · rintro ⟨⟨k, slot⟩, hb, rfl⟩
    obtain ⟨hslot, hsome⟩ := List.mem_filter.1 hb
    rw [Table.mem_toList.1 hslot]
    exact hsome
  · intro hsome
    obtain ⟨p, hp⟩ := Option.isSome_iff_exists.1 hsome
    obtain ⟨slot, hslot, hreg⟩ := Option.bind_eq_some_iff.1 hp
    exact ⟨(key, slot), List.mem_filter.2 ⟨Table.mem_toList.2 hslot, by simp [hreg]⟩, rfl⟩

/-- A cache that has only ever gained placements. Who called holds a reference for every call. -/
structure Filling (depot : Depot) (keys : Finset Key) (held : Multiset PlacementId) (c : Cache) :
    Prop extends Stock depot keys held c where
  terms : Depot.Keeps Pool.terms depot c.depot
  misses : c.misses = keys.card
  calls : c.hits + c.misses = held.card

theorem filling_ofDepot (hd : depot.Sound 0) : Filling depot ∅ 0 (.ofDepot depot) where
  toStock := stock_ofDepot hd
  terms := .refl _ depot
  misses := rfl
  calls := rfl

namespace Filling

/-- Calls that succeed fill the cache further. -/
theorem gained (h : Filling depot keys held c) {n : Nat} (hstock : Stock depot keys' held' c')
    (hgains : Gains keys keys' n c c') (hcard : held'.card = held.card + n) :
    Filling depot keys' held' c' where
  toStock := hstock
  terms := h.terms.trans hgains.terms
  misses := by
    have hmisses := hgains.misses
    rw [h.misses] at hmisses
    omega
  calls := by rw [hgains.calls, h.calls, hcard]

/-- The counts of the pools depend on the keys placed alone. -/
theorem pools (h : Filling depot keys held c) (tier : Tier) :
    (c.depot.pools.find? tier).map (fun p => (p.used, p.live, p.allocations)) =
      (depot.pools.find? tier).map fun p => (bytesOn keys tier,
        (keys.filter fun key => key.tier = tier).card,
          p.releases + (keys.filter fun key => key.tier = tier).card) := by
  cases hpool : c.depot.pools.find? tier with
  | none =>
    have hnone : depot.pools.find? tier = none := by
      have hsome := h.terms.isSome tier
      rwa [hpool, Option.isSome_none, eq_comm, Option.isSome_eq_false_iff,
        Option.isNone_iff_eq_none] at hsome
    rw [hnone, Option.map_none, Option.map_none]
  | some pool =>
    obtain ⟨pool₀, hpool₀, hterms⟩ := h.terms.find?_before hpool
    obtain ⟨hused, hlive, hallocations⟩ := h.counts hpool
    have hreleases : pool.releases = pool₀.releases := congrArg Prod.snd hterms
    rw [hpool₀, Option.map_some, Option.map_some, hused, hlive, hallocations, hreleases]

/-- Every placement has its registration's reference, and those that are held. -/
theorem sum_references (h : Filling depot keys held c) :
    sumOf (c.registeredPlacements.map fun q => q.references - 1) = held.card := by
  have hcount : ∀ p ∈ registrationsOf c.slots, (registrationsOf c.slots).count p = 1 := by
    intro p hp
    have hpos := Multiset.count_pos.2 hp
    have hle := c.registrationCount_le p
    rw [← h.sound.count_registrationsOf] at hle
    omega
  have hnodup : (registrationsOf c.slots).Nodup :=
    Multiset.nodup_iff_count_eq_one.2 hcount
  have hheld : ∀ p ∈ held, p ∈ (registrationsOf c.slots).toFinset := by
    intro p hp
    obtain ⟨q, hq⟩ := h.sound.find?_of_mem (Multiset.mem_add.2 (.inr hp))
    exact Multiset.mem_toFinset.2 (mem_registrationsOf_iff.2 ⟨q.key, h.own p q hq⟩)
  have hone : ∀ p ∈ registrationsOf c.slots, c.references p - 1 = held.count p := by
    intro p hp
    rw [h.sound.counted, Multiset.count_add, hcount p hp]
    omega
  have hread : c.registeredPlacements.map (fun q => q.references - 1) =
      (registrations c.slots.toList).map fun p => c.references p - 1 :=
    h.sound.map_registeredPlacements fun p q hq => by rw [references_of_find? hq]
  calc sumOf (c.registeredPlacements.map fun q => q.references - 1)
      = ((registrationsOf c.slots).map fun p => c.references p - 1).sum := by
        rw [sumOf_eq_sum, hread]
        rfl
    _ = ∑ p ∈ (registrationsOf c.slots).toFinset, held.count p := by
        rw [Multiset.map_congr rfl hone, Finset.sum, Multiset.toFinset_val, hnodup.dedup]
    _ = held.card := Multiset.sum_count_eq_card hheld

/-- What the cache reports, read off the keys in their order and the count of references held. -/
theorem stats (h : Filling depot keys held c) :
    c.stats =
      { placements := (c.registeredPlacements.map Placement.key).foldl
          (fun table key => addTo table key.tier 1) .empty
        bytes := (c.registeredPlacements.map Placement.key).foldl
          (fun table key => addTo table key.tier key.identity.bytes) .empty
        references := held.card
        hits := held.card - keys.card
        misses := keys.card
        hitRate := hitRateOf (held.card - keys.card) keys.card } := by
  have hhits : c.hits = held.card - keys.card := by
    have hcalls := h.calls
    have hmisses := h.misses
    omega
  have hbytes : c.registeredPlacements.foldl
      (fun table q => addTo table q.key.tier q.buffer.length) .empty =
        c.registeredPlacements.foldl
          (fun table q => addTo table q.key.tier q.key.identity.bytes) .empty := by
    refine List.foldl_ext _ _ _ fun table q hq => ?_
    obtain ⟨p, -, hp⟩ := List.mem_filterMap.1 hq
    rw [(h.sound.fits p q hp).2]
  simp only [Cache.stats, hbytes, h.sum_references, hhits, h.misses, List.foldl_map]

/-- The same keys and as many references are reported alike, however they came about. -/
theorem stats_eq {depot' : Depot} {held' : Multiset PlacementId} (h : Filling depot keys held c)
    (h' : Filling depot' keys held' c') (hcard : held.card = held'.card) : c.stats = c'.stats := by
  have hkeys : c.registeredPlacements.map Placement.key =
      c'.registeredPlacements.map Placement.key := by
    refine Table.eq_of_ascending (f := id) h.sound.ascending_keys h'.sound.ascending_keys
      fun key => ?_
    rw [h.sound.mem_registeredKeys, h'.sound.mem_registeredKeys, h.registered, h'.registered]
  rw [h.stats, h'.stats, hkeys, hcard]

end Filling

end TieredWeights.Cache
