import TieredWeights.Proofs.BroughtBuffers
import TieredWeights.Proofs.Cache.Invalidate
import TieredWeights.Proofs.Purging

/-!
# What an invalidation forgets

Whatever users did before, an invalidation forgets what is registered on its tier and nothing else:
entries go on reading their bytes, the buffers that nobody holds go back to their pool, and a tensor
that is resolved onto the tier again is placed anew. But the number that it tells counts slots and
not placements, and a call that failed has left an empty slot. So the number is that of the
placements just if the tier has no empty slot; a purge, which counts the placements that it evicts,
skips such slots.
-/
namespace TieredWeights

namespace Cache

/-- A cache as users may find it, with the references that they hold: whatever they did with a
loader, even while one of them has a slot open, and whatever buffers they brought, as long as none
misled a call. -/
inductive Found (depot : Depot) : Cache → Multiset PlacementId → Prop
  | shown {blocks : Nat} {split : Split Binary64} {w : Scene} {c : Cache}
      (h : Scene.Run {} (.start depot blocks split) w) (hc : w.Shows c) :
      Found depot c (w.1.store.references + w.2.entries)
  | brought {c : Cache} {held : Multiset PlacementId} {stray : Multiset Buffer}
      (h : Reached depot c held stray) : Found depot c held

/-- A tensor resolved onto a tier that has been forgotten: it has a placement of its own, in a buffer
that no placement had before, or its pool did not take it. -/
inductive Anew (c c' : Cache) (t : Tensor) (tier : Tier) : Except Fault Resolved → Cache → Prop
  | refused {e : Fault} {c'' : Cache} (full : ¬ c'.depot.Takes tier t.bytes.size) :
      Anew c c' t tier (.error e) c''
  | placed {c'' : Cache} {p : PlacementId} {q : Placement}
      (registered : c''.registered? ⟨t.identity, tier⟩ = some p) (found : c''.find? p = some q)
      (own : q.key = ⟨t.identity, tier⟩) (read : c''.read p = .ok t.bytes)
      (new : c.find? p = none) (apart : ∀ p₀ q₀, c.find? p₀ = some q₀ → q₀.buffer ≠ q.buffer) :
      Anew c c' t tier (.ok ⟨p, true⟩) c''

/-- A tier has been forgotten, and nothing else. -/
structure Invalidated (held : Multiset PlacementId) (tier : Tier) (c c' : Cache) : Prop where
  slots : ∀ key, c'.slots.find? key = if key.tier = tier then none else c.slots.find? key
  contained : ∀ key, key.tier = tier → c'.contains key = false
  /-- The placements of other tiers are handed out with the buffers and the references as before. -/
  got : ∀ key, key.tier ≠ tier → (c'.get key).1 = (c.get key).1 ∧
    ∀ p ∈ (c.get key).1, (c'.get key).2.find? p = (c.get key).2.find? p
  /-- Those of the tier stay as long as somebody holds them, without the registration. -/
  placements : ∀ p q, c.find? p = some q → c'.find? p =
    if q.key.tier ≠ tier then some q
    else if p ∈ held then some { q with references := held.count p }
    else none
  reads : ∀ p q, c.find? p = some q → q.key.tier ≠ tier ∨ p ∈ held →
    ∀ bytes, c.read p = .ok bytes → c'.read p = .ok bytes
  live : ∀ p q, c.find? p = some q →
    (c'.depot.IsLive q.buffer ↔ q.key.tier ≠ tier ∨ p ∈ held)
  pool : ∀ pool, c.depot.pools.find? tier = some pool →
    ∃ pool', c'.depot.pools.find? tier = some pool' ∧
      pool.used = pool'.used + bytesOf (c.unheldOn held tier) ∧
      pool.live = pool'.live + (c.unheldOn held tier).card
  otherPools : ∀ t ≠ tier, ∀ pool, c.depot.pools.find? t = some pool →
    ∃ pool', c'.depot.pools.find? t = some pool' ∧ pool'.used = pool.used ∧ pool'.live = pool.live
  hits : c'.hits = c.hits
  misses : c'.misses = c.misses
  unshared : ∀ key, key.tier = tier → ∀ p, (c'.consult key).1 ≠ .ok (.hit p)
  again : ∀ t : Tensor, Anew c c' t tier (c'.resolve t tier).1 (c'.resolve t tier).2

variable {depot : Depot} {c : Cache} {held : Multiset PlacementId} {loose : Multiset Buffer}
  {tier : Tier} {key : Key} {p : PlacementId} {q : Placement}

theorem Found.sound (h : Found depot c held) (hd : depot.Sound 0) : ∃ loose, c.Sound held loose := by
  cases h with
  | shown h hc =>
    obtain ⟨loose, hs, -⟩ := hc.sound (h.sound_start hd)
    exact ⟨loose, hs⟩
  | brought h => exact ⟨_, (h.intact hd).sound⟩

/-- What is registered on other tiers is handed out as before. -/
theorem Sound.get_invalidate (hs : c.Sound held loose) (hkey : key.tier ≠ tier) :
    ((c.invalidate tier).2.get key).1 = (c.get key).1 ∧
      ∀ p ∈ (c.get key).1, ((c.invalidate tier).2.get key).2.find? p = (c.get key).2.find? p := by
  have hregistered := registered?_invalidate c tier key
  rw [if_neg hkey] at hregistered
  cases hp : c.registered? key with
  | none => simp [get, hp, hregistered]
  | some p =>
    obtain ⟨q, hq, rfl⟩ := hs.keyed key p hp
    simp [get, hp, hregistered, find?_retain, hs.find?_invalidate tier hq, hq, hkey]

/-- Just the placements that stay keep their buffers. -/
theorem Sound.isLive_invalidate (hs : c.Sound held loose) (hq : c.find? p = some q) :
    (c.invalidate tier).2.depot.IsLive q.buffer ↔ q.key.tier ≠ tier ∨ p ∈ held := by
  obtain ⟨hs', hlater⟩ := hs.invalidate False tier
  have hfind := hs.find?_invalidate tier hq
  rcases hlater.kept p q hq with ⟨q', hq', -, hbuffer⟩ | ⟨hnone, -, hspent⟩
  · refine iff_of_true ?_ ?_
    · rw [← hbuffer]
      exact hs'.depot.isLive (Multiset.mem_add.2 (.inl (mem_buffersOf hq')))
    · by_contra hgone
      rw [hfind, if_neg fun htier => hgone (.inl htier), if_neg fun hheld => hgone (.inr hheld)] at hq'
      cases hq'
  · refine iff_of_false hspent.not_isLive ?_
    rw [hnone] at hfind
    rintro (htier | hheld)
    · rw [if_pos htier] at hfind
      cases hfind
    · split_ifs at hfind

/-- What is resolved onto a forgotten tier is placed anew. -/
theorem Sound.anew_invalidate (hs : c.Sound held loose) (t : Tensor) :
    Anew c (c.invalidate tier).2 t tier ((c.invalidate tier).2.resolve t tier).1
      ((c.invalidate tier).2.resolve t tier).2 := by
  obtain ⟨hs', hlater⟩ := hs.invalidate False tier
  have hslot : (c.invalidate tier).2.slots.find? ⟨t.identity, tier⟩ = none := by
    rw [slots_invalidate, if_pos rfl]
  rcases hr : (c.invalidate tier).2.resolve t tier with ⟨r, c''⟩
  rcases hs'.resolve_anew hslot hr with
    ⟨e, rfl, hfull⟩ | ⟨b, rfl, hregistered, hfound, hread, hs'', hlater'⟩
  · exact .refused hfull
  · have hnew : ∀ p q, c.find? p = some q → p ≠ (c.invalidate tier).2.placementsMade :=
      fun p q hq => ((hs.numbered p q hq).trans_le hlater.made).ne
    refine .placed hregistered hfound rfl hread ?_ fun p₀ q₀ hq₀ => ?_
    · cases hq : c.find? (c.invalidate tier).2.placementsMade with
      | none => rfl
      | some q => exact absurd rfl (hnew _ q hq)
    · have hlive := hs''.depot.isLive (Multiset.mem_add.2 (.inl (mem_buffersOf hfound)))
      rintro rfl
      rcases (hlater.trans hlater').kept p₀ q₀ hq₀ with ⟨q, hq, -, hbuffer⟩ | ⟨-, -, hspent⟩
      · exact hs''.slot_ne hq hfound (hnew p₀ q₀ hq₀) (by rw [hbuffer]) (by rw [hbuffer])
      · exact hspent.not_isLive hlive

theorem Sound.invalidated (hs : c.Sound held loose) (tier : Tier) :
    c.Invalidated held tier (c.invalidate tier).2 := by
  obtain ⟨hs', hlater⟩ := hs.invalidate False tier
  obtain ⟨placements, d, hforget⟩ := forget_eq c fun k _ => k.tier ≠ tier
  constructor
  case slots => exact slots_invalidate c tier
  case contained =>
    intro key hkey
    rw [contains, registered?_invalidate, if_pos hkey, Option.isSome_none]
  case got => exact fun key hkey => hs.get_invalidate hkey
  case placements => exact fun p q hq => hs.find?_invalidate tier hq
  case reads =>
    intro p q hq hstays bytes
    refine hlater.reads not_false p bytes ?_
    rw [hs.find?_invalidate tier hq]
    rcases hstays with htier | hheld
    · simp [htier]
    · by_cases htier : q.key.tier = tier <;> simp [htier, hheld]
  case live => exact fun p q hq => hs.isLive_invalidate hq
  case pool => exact fun pool hpool => hs.pool_invalidate hpool
  case otherPools => exact fun t ht pool hpool => hs.otherPool_invalidate ht hpool
  case hits => rw [invalidate_eq, note, hforget]
  case misses => rw [invalidate_eq, note, hforget]
  case unshared =>
    intro key hkey p hhit
    have hslot := slots_invalidate c tier key
    rw [if_pos hkey] at hslot
    unfold consult slotOf at hhit
    simp only [hslot] at hhit
    split at hhit <;> cases hhit
  case again => exact fun t => hs.anew_invalidate t

end Cache

open Cache in
/-- In every state of a cache that users can find, an invalidation forgets its tier and nothing else.
It tells the number of the placements that were registered there, and in it counts the slots that
calls left empty: so the number is right just if there were none. -/
theorem invalidate_forgets_tier {depot : Depot} {c : Cache} {held : Multiset PlacementId}
    (hd : depot.Sound 0) (h : Found depot c held) (tier : Tier) :
    c.Invalidated held tier (c.invalidate tier).2 ∧
      (c.invalidate tier).1 = c.stats.placementsOn tier + c.emptyOn tier ∧
      ((c.invalidate tier).1 = c.stats.placementsOn tier ↔
        ∀ key slot, c.slots.find? key = some slot → key.tier = tier → slot.registered ≠ none) := by
  obtain ⟨loose, hs⟩ := h.sound hd
  have hcount := hs.invalidate_count tier
  refine ⟨hs.invalidated tier, hcount, ?_⟩
  rw [hcount, Nat.add_eq_left, emptyOn_eq_zero]

section

open Scene (sampleDepot sampleSplit sampleLarge sampleDepot_sound)

/-- A cache over the sample's pools after a tensor was refused for which they have no room. -/
def refusedCache : Cache := ((Cache.ofDepot sampleDepot).resolve sampleLarge .host).2

open Cache in
/-- After the load of the greedy block its third parameter has left an empty slot: an invalidation
counts it besides the two placements. -/
theorem invalidate_forgets_greedy :
    greedyScene.1.cache.Invalidated (greedyScene.1.store.references + greedyScene.2.entries) .host
        (greedyScene.1.cache.invalidate .host).2 ∧
      (greedyScene.1.cache.invalidate .host).1 = 3 ∧
      greedyScene.1.cache.stats.placementsOn .host = 2 ∧ greedyScene.1.cache.emptyOn .host = 1 := by
  have hrun : Scene.Run {} (.start sampleDepot 1 sampleSplit) greedyScene :=
    .andThen (Scene.sample_run trivial) (.loaded _ _ _ fun _ _ => trivial)
  have hforgets := invalidate_forgets_tier sampleDepot_sound (.shown hrun .atRest) .host
  have hplaced : greedyScene.1.cache.stats.placementsOn .host = 2 := by decide +kernel
  have hempty : greedyScene.1.cache.emptyOn .host = 1 := by decide +kernel
  have hcount := hforgets.2.1
  rw [hplaced, hempty] at hcount
  exact ⟨hforgets.1, hcount, hplaced, hempty⟩

open Cache in
/-- A tensor was refused, so nothing is placed; yet an invalidation tells that a placement went, and a
purge that none did. -/
theorem refused_slot_counted :
    (∃ held, Found sampleDepot refusedCache held) ∧
      ((Cache.ofDepot sampleDepot).resolve sampleLarge .host).1 =
        .error (.outOfCapacity .host 20 16) ∧
      refusedCache.stats.placementsOn .host = 0 ∧ (refusedCache.invalidate .host).1 = 1 ∧
      refusedCache.purge.1 = 0 := by
  have hrun : Scene.Run {} (.start sampleDepot 1 sampleSplit) _ :=
    .resolve (t := sampleLarge) trivial .host id (.inr rfl) rfl
  exact ⟨⟨_, .shown hrun .atRest⟩, by decide +kernel, by decide +kernel, by decide +kernel,
    by decide +kernel⟩

end

end TieredWeights
