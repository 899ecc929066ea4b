import Mathlib.Algebra.BigOperators.Group.Finset.Basic
import Mathlib.Algebra.GroupWithZero.Nat
import TieredWeights.Proofs.Scene.Sound

/-!
# Conservation of buffers

Whatever users do with a loader, every reference of a placement has an owner: the registration under
its key, an entry that a user holds, or a parameter of a map in use, a shared map counted once. A
placed buffer is live exactly as long as it is referenced, so each pool counts the live placements
of its tier and their bytes.
-/
namespace TieredWeights

/-- 1 for the placement that is registered under its key, else 0. -/
def Cache.registrationCount (c : Cache) (p : PlacementId) : Nat :=
  match c.find? p with
  | some q => if c.registered? q.key = some p then 1 else 0
  | none => 0

/-- The placements of a tier that are referenced. -/
def Cache.livePlacements (c : Cache) (tier : Tier) : List Placement :=
  c.placements.values.filter fun q => 0 < q.references ∧ q.key.tier = tier

/-- How many parameters of a map are bound to a placement. -/
def BlockStore.uses (s : BlockStore) (m : MapId) (p : PlacementId) : Nat :=
  (((s.map? m).map (·.values)).getD []).count p

/-- The maps that slots or users hold. -/
def Scene.mapsInUse (w : Scene) : Finset MapId :=
  ((w.1.store.held.values : Multiset MapId) + w.2.maps).toFinset

namespace Cache

variable {c : Cache} {held : Multiset PlacementId} {loose : Multiset Buffer} {p : PlacementId}

theorem mem_registrationsOf_iff : p ∈ registrationsOf c.slots ↔
    ∃ key, c.registered? key = some p := by
  simp only [mem_registrationsOf, registered?, Option.bind_eq_some_iff]

/-- A placement is registered under its own key only, and once. -/
theorem Sound.count_registrationsOf (h : c.Sound held loose) (p : PlacementId) :
    (registrationsOf c.slots).count p = c.registrationCount p := by
  by_cases hmem : p ∈ registrationsOf c.slots
  · obtain ⟨key, hkey⟩ := mem_registrationsOf_iff.1 hmem
    obtain ⟨q, hq, rfl⟩ := h.keyed key p hkey
    have hothers : p ∉ registrationsOf (c.slots.erase q.key) := fun hother => by
      obtain ⟨key, slot, hslot, hkey'⟩ := mem_registrationsOf.1 hother
      rw [Table.find?_erase] at hslot
      split_ifs at hslot with hne
      obtain ⟨q', hq', rfl⟩ := h.keyed key p (Option.bind_eq_some_iff.2 ⟨slot, hslot, hkey'⟩)
      rw [hq, Option.some.injEq] at hq'
      exact hne (by rw [hq'])
    have hself : ((c.slots.find? q.key).bind KeySlot.registered) = some p := hkey
    rw [registrationsOf_eq c.slots q.key, hself, Multiset.count_add,
      Multiset.count_eq_zero.2 hothers]
    simp [registrationCount, hq, hkey]
  · rw [Multiset.count_eq_zero.2 hmem, registrationCount]
    split
    · rename_i q hq
      exact (if_neg fun hkey => hmem (mem_registrationsOf_iff.2 ⟨q.key, hkey⟩)).symm
    · rfl

theorem Sound.references_pos (h : c.Sound held loose) {q : Placement} (hq : c.find? p = some q) :
    0 < c.references p := by
  rw [references_of_find? hq]
  exact h.positive p q hq

/-- The buffers of a tier are those of the live placements of the tier. -/
theorem Sound.onTier_buffersOf (h : c.Sound held loose) (tier : Tier) :
    Depot.onTier (buffersOf c.placements) tier =
      ((c.livePlacements tier).map Placement.buffer : Multiset Buffer) := by
  rw [Depot.onTier, buffersOf, Multiset.map_coe, Multiset.filter_coe, List.filter_map, livePlacements]
  refine congrArg _ (congrArg _ (List.filter_congr fun q hq => ?_))
  obtain ⟨p, hp⟩ := Table.mem_values.1 hq
  simp [(h.fits p q hp).1, h.positive p q hp]

/-- Where no buffer is out but those of placements, pools count what is live. -/
theorem Sound.pool_counts (h : c.Sound held 0) {tier : Tier} {pool : Pool}
    (hpool : c.depot.pools.find? tier = some pool) :
    pool.live = (c.livePlacements tier).length ∧
      pool.used = sumOf ((c.livePlacements tier).map (·.buffer.length)) := by
  have hsound := (h.depot.pools tier pool hpool).2
  rw [add_zero, h.onTier_buffersOf] at hsound
  have hused := hsound.used
  rw [Multiset.map_coe, Multiset.sum_coe, List.map_map] at hused
  refine ⟨by rw [hsound.live_eq, Multiset.coe_card, List.length_map], ?_⟩
  rw [hused, sumOf_eq_sum]
  rfl

end Cache

namespace BlockStore

variable {s : BlockStore} {outside : Multiset MapId}

theorem Sound.mem_keys (h : s.Sound outside) (m : MapId) :
    m ∈ s.maps.keys ↔ m ∈ (s.held.values : Multiset MapId) + outside := by
  rw [Table.mem_keys]
  refine ⟨fun hm => ?_, fun hm => ?_⟩
  · obtain ⟨x, hx⟩ := Option.isSome_iff_exists.1 hm
    have hcount := h.counted m
    rw [holders_of_find? hx] at hcount
    exact Multiset.count_pos.1 (hcount ▸ h.positive m x hx)
  · obtain ⟨x, hx⟩ := h.find?_of_mem hm
    rw [hx]
    rfl

/-- The references of a store, map by map. -/
theorem Sound.count_references (h : s.Sound outside) (p : PlacementId) :
    s.references.count p =
      ∑ m ∈ ((s.held.values : Multiset MapId) + outside).toFinset, s.uses m p := by
  have hkeys : ((s.held.values : Multiset MapId) + outside).toFinset = s.maps.keys.toFinset := by
    ext m
    rw [Multiset.mem_toFinset, List.mem_toFinset, h.mem_keys]
  rw [hkeys, List.sum_toFinset _ (Table.nodup_keys s.maps), references, Multiset.count_bind,
    Multiset.map_coe, Multiset.sum_coe, Table.values, Table.keys, List.map_map, List.map_map]
  refine congrArg List.sum (List.map_congr_left fun b hb => ?_)
  have hfind : s.maps.find? b.1 = some b.2 := Table.mem_toList.1 hb
  simp [uses, map?, hfind, ofMap]

end BlockStore

open Cache in
/-- In every scene that users bring about, each placement counts its registration, the entries of
users and the parameters of maps in use; a buffer that a call has placed or shared is live just as
long as its placement is referenced; and each pool counts the live placements of its tier and the
bytes of their buffers. -/
theorem references_conserved {depot : Depot} {blocks : Nat} {split : Split Binary64} {w : Scene}
    (hd : depot.Sound 0) (h : Scene.Run {} (.start depot blocks split) w) :
    (∀ p, w.1.cache.references p = w.1.cache.registrationCount p + w.2.entries.count p +
      ∑ m ∈ w.mapsInUse, w.1.store.uses m p) ∧
    (∀ m ∈ w.mapsInUse, (w.1.store.map? m).isSome) ∧
    (∀ call ∈ w.2.calls, ∀ r, call.answer = .ok r →
      ∃ q, call.after.find? r.placement = some q ∧ q.key = call.key ∧
        (w.1.depot.IsLive q.buffer ↔ 0 < w.1.cache.references r.placement)) ∧
    ∀ tier pool, w.1.depot.pools.find? tier = some pool →
      pool.live = (w.1.cache.livePlacements tier).length ∧
      pool.used = sumOf ((w.1.cache.livePlacements tier).map (·.buffer.length)) := by
  have hw := h.sound_start hd
  have hc : w.1.cache.Sound (w.1.store.references + w.2.entries) 0 := hw.tally.cache
  refine ⟨fun p => ?_, fun m hm => ?_, fun call hcall r hr => ?_,
    fun tier pool hpool => hc.pool_counts hpool⟩
  · rw [hc.counted, Multiset.count_add, Multiset.count_add, hc.count_registrationsOf,
      hw.store.count_references, Scene.mapsInUse]
    omega
  · obtain ⟨x, hx⟩ := hw.store.find?_of_mem (Multiset.mem_toFinset.1 hm)
    rw [BlockStore.map?, hx]
    rfl
  · obtain ⟨hgenuine, hlater⟩ := hw.tally.calls call hcall
    obtain ⟨q, hq, hkey⟩ := hgenuine.found hr
    refine ⟨q, hq, hkey, ?_⟩
    rcases hlater.kept r.placement q hq with ⟨q', hq', -, hbuffer⟩ | ⟨hnone, -, hspent⟩
    · refine iff_of_true ?_ (hc.references_pos hq')
      rw [← hbuffer]
      exact hc.depot.isLive (Multiset.mem_add.2 (.inl (mem_buffersOf hq')))
    · refine iff_of_false hspent.not_isLive ?_
      have hzero : w.1.cache.references r.placement = 0 := references_of_none hnone
      omega

open Scene in
/-- The tensor of the sample is referenced by its registration and by two parameters of one map. -/
theorem references_conserved_sample : sampleScene.1.cache.references 0 = 3 ∧
    sampleScene.1.cache.registrationCount 0 = 1 ∧
    ∑ m ∈ sampleScene.mapsInUse, sampleScene.1.store.uses m 0 = 2 := by
  have hsum := (references_conserved sampleDepot_sound (sample_run trivial)).1 0
  have hreferences : sampleScene.1.cache.references 0 = 3 := by decide +kernel
  have hregistered : sampleScene.1.cache.registrationCount 0 = 1 := by decide +kernel
  have hentries : sampleScene.2.entries.count 0 = 0 := by decide +kernel
  exact ⟨hreferences, hregistered, by omega⟩

end TieredWeights
