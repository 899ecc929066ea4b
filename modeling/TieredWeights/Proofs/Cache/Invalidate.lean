import TieredWeights.Proofs.Cache.Filling
import TieredWeights.Proofs.Cache.Intact

/-!
# Forgetting a tier

An invalidation forgets all slots of a tier, those without a placement as well. The placements of the
tier lose their registrations, and count from then on the references that somebody holds; those that
nobody holds go, and their buffers with them. What is of other tiers stays as it is. A tensor that is
resolved onto the tier again gets a new slot and a buffer of its own.
-/
namespace TieredWeights.Cache

variable {c c' : Cache} {held : Multiset PlacementId} {loose : Multiset Buffer} {tier : Tier}
  {key : Key} {p : PlacementId} {q : Placement}

theorem invalidate_slots (c : Cache) (tier : Tier) :
    (c.invalidate tier).2.slots = c.slots.filter fun k _ => k.tier ≠ tier := by
  obtain ⟨placements, depot, hforget⟩ := forget_eq c fun k _ => k.tier ≠ tier
  rw [invalidate_eq, note, hforget]

theorem slots_invalidate (c : Cache) (tier : Tier) (key : Key) :
    (c.invalidate tier).2.slots.find? key =
      if key.tier = tier then none else c.slots.find? key := by
  rw [invalidate_slots, Table.find?_filter]
  by_cases htier : key.tier = tier
  · simp [htier]
  · rw [if_neg htier]
    cases c.slots.find? key <;> simp [htier]

theorem registered?_invalidate (c : Cache) (tier : Tier) (key : Key) :
    (c.invalidate tier).2.registered? key =
      if key.tier = tier then none else c.registered? key := by
  rw [registered?, slots_invalidate, registered?]
  split_ifs <;> rfl

theorem Sound.invalidate (tampered : Prop) (hs : c.Sound held loose) (tier : Tier) :
    (c.invalidate tier).2.Sound held loose ∧ Later tampered c (c.invalidate tier).2 := by
  rw [invalidate_eq]
  exact hs.forget_note _ rfl rfl

/-- A placement counts its registration and the references held. -/
theorem Sound.references_eq (hs : c.Sound held loose) (hq : c.find? p = some q) :
    q.references = (if c.registered? q.key = some p then 1 else 0) + held.count p := by
  have hcount := hs.counted p
  rw [Multiset.count_add, hs.count_registrationsOf, references_of_find? hq] at hcount
  simpa only [registrationCount, hq] using hcount

/-- A placement of the tier is left with the references held, and goes if there are none; the others
stay as they are. -/
theorem Sound.find?_invalidate (hs : c.Sound held loose) (tier : Tier) (hq : c.find? p = some q) :
    (c.invalidate tier).2.find? p =
      if q.key.tier ≠ tier then some q
      else if p ∈ held then some { q with references := held.count p }
      else none := by
  obtain ⟨hs', hlater⟩ := hs.invalidate False tier
  have hcount := hs.references_eq hq
  have hpos := hs.positive p q hq
  rcases hlater.kept p q hq with ⟨⟨key, buffer, n⟩, hq', rfl, rfl⟩ | ⟨hnone, -, -⟩
  · have hcount' := hs'.references_eq hq'
    have hpos' := hs'.positive p _ hq'
    simp only [registered?_invalidate] at hcount' hpos'
    by_cases htier : q.key.tier = tier
    · simp only [htier, if_true, reduceCtorEq, if_false, zero_add] at hcount'
      have hheld : p ∈ held := Multiset.count_pos.1 (by omega)
      rw [hq', if_neg (not_not.2 htier), if_pos hheld, hcount']
    · simp only [htier, if_false] at hcount'
      rw [hq', if_pos htier, hcount', ← hcount]
  · -- Without a placement there is no registration and no holder left.
    have hcount' := hs'.counted p
    rw [references_of_none hnone, eq_comm, Multiset.count_add, Nat.add_eq_zero_iff,
      Multiset.count_eq_zero, Multiset.count_eq_zero] at hcount'
    obtain ⟨hgone, hheld⟩ := hcount'
    have htier : q.key.tier = tier := by
      by_contra htier
      refine hgone (mem_registrationsOf_iff.2 ⟨q.key, ?_⟩)
      rw [registered?_invalidate, if_neg htier]
      by_contra hregistered
      rw [if_neg hregistered, Multiset.count_eq_zero.2 hheld] at hcount
      omega
    rw [hnone, if_neg (not_not.2 htier), if_neg hheld]

/-- No placement comes. -/
theorem Sound.find?_invalidate_none (hs : c.Sound held loose) (tier : Tier)
    (hq : c.find? p = none) :
    (c.invalidate tier).2.find? p = none := by
  obtain ⟨hs', hlater⟩ := hs.invalidate False tier
  cases hq' : (c.invalidate tier).2.find? p with
  | none => rfl
  | some q' =>
    obtain ⟨placements, depot, hforget⟩ := forget_eq c fun k _ => k.tier ≠ tier
    have hmade : (c.invalidate tier).2.placementsMade = c.placementsMade := by
      rw [invalidate_eq, note, hforget]
    have hlt := hs'.numbered p q' hq'
    rw [hmade] at hlt
    rw [← hq', hlater.gone p hlt hq]

theorem buffersOf_congr {placements placements' : Table PlacementId Placement}
    (h : ∀ p, (placements.find? p).map Placement.buffer = (placements'.find? p).map Placement.buffer) :
    buffersOf placements = buffersOf placements' := by
  have hmap : placements.map (fun _ q => q.buffer) = placements'.map fun _ q => q.buffer := by
    apply Table.eq_of_find?
    intro p
    rw [Table.find?_map, Table.find?_map]
    exact h p
  have hbuffers : ∀ t : Table PlacementId Placement,
      buffersOf t = ((t.map fun _ q => q.buffer).values : Multiset Buffer) := by
    intro t
    simp [buffersOf, Table.values, Table.map, Function.comp_def]
  rw [hbuffers, hbuffers, hmap]

/-- The keys of a tier whose placements nobody holds. -/
def unheldOn (c : Cache) (held : Multiset PlacementId) (tier : Tier) : Finset Key :=
  (c.keysWhere fun p => p ∉ held).filter fun key => key.tier = tier

/-- The buffers that go with a tier are those of the keys that nobody holds. -/
theorem Sound.buffersOf_invalidate (hs : c.Sound held loose) (tier : Tier) :
    ∃ gone : Multiset Buffer,
      buffersOf c.placements = gone + buffersOf (c.invalidate tier).2.placements ∧
      gone.map (fun b => (b.tier, b.length)) =
        (c.unheldOn held tier).val.map fun key => (key.tier, key.identity.bytes) := by
  have hgone : ∀ p q,
      (c.placements.filter fun p q => !decide (q.key.tier ≠ tier ∨ p ∈ held)).find? p = some q ↔
        c.find? p = some q ∧ q.key.tier = tier ∧ p ∉ held := by
    intro p q
    rw [Table.find?_filter, Option.filter_eq_some_iff, Bool.not_eq_true', decide_eq_false_iff_not,
      not_or, not_not]
    rfl
  have hstay : buffersOf (c.invalidate tier).2.placements =
      buffersOf (c.placements.filter fun p q => decide (q.key.tier ≠ tier ∨ p ∈ held)) := by
    refine buffersOf_congr fun p => ?_
    rw [Table.find?_filter]
    cases hq : c.placements.find? p with
    | none =>
      have hnone := hs.find?_invalidate_none tier hq
      rw [find?] at hnone
      rw [hnone]
      rfl
    | some q =>
      have hfind := hs.find?_invalidate tier hq
      rw [find?] at hfind
      rw [hfind]
      by_cases htier : q.key.tier = tier <;> by_cases hheld : p ∈ held <;>
        simp [htier, hheld, Option.filter_some]
  refine ⟨_, by rw [hstay]; exact buffersOf_filter c.placements _, ?_⟩
  refine hs.map_buffersOf (fun p q hq => ?_) fun key => ?_
  · obtain ⟨hq, -, hheld⟩ := (hgone p q).1 hq
    exact ⟨hq, (hs.references_of_notMem hq hheld).1⟩
  · simp only [unheldOn, Finset.mem_filter, mem_keysWhere, hgone, decide_eq_true_iff]
    constructor
    · rintro ⟨⟨p, hp, hheld⟩, htier⟩
      obtain ⟨q, hq, rfl⟩ := hs.keyed key p hp
      exact ⟨p, q, ⟨hq, htier, hheld⟩, rfl⟩
    · rintro ⟨p, q, ⟨hq, htier, hheld⟩, rfl⟩
      exact ⟨⟨p, (hs.references_of_notMem hq hheld).1, hheld⟩, htier⟩

/-- The pool of the tier gives up the bytes of its keys that nobody holds. -/
theorem Sound.pool_invalidate (hs : c.Sound held loose) {pool : Pool}
    (hpool : c.depot.pools.find? tier = some pool) :
    ∃ pool', (c.invalidate tier).2.depot.pools.find? tier = some pool' ∧
      pool.used = pool'.used + bytesOf (c.unheldOn held tier) ∧
      pool.live = pool'.live + (c.unheldOn held tier).card := by
  obtain ⟨hs', hlater⟩ := hs.invalidate False tier
  obtain ⟨gone, hparted, hgone⟩ := hs.buffersOf_invalidate tier
  have hall : ((c.unheldOn held tier).filter fun key => key.tier = tier) = c.unheldOn held tier :=
    Finset.filter_true_of_mem fun key hkey => (Finset.mem_filter.1 hkey).2
  have hcounts := hs.pools_given_back hs' hlater hparted hgone hpool
  rwa [bytesOn, hall] at hcounts

/-- The pools of other tiers give up nothing. -/
theorem Sound.otherPool_invalidate (hs : c.Sound held loose) {t : Tier} (ht : t ≠ tier) {pool : Pool}
    (hpool : c.depot.pools.find? t = some pool) :
    ∃ pool', (c.invalidate tier).2.depot.pools.find? t = some pool' ∧
      pool'.used = pool.used ∧ pool'.live = pool.live := by
  obtain ⟨hs', hlater⟩ := hs.invalidate False tier
  obtain ⟨gone, hparted, hgone⟩ := hs.buffersOf_invalidate tier
  have hnone : ((c.unheldOn held tier).filter fun key => key.tier = t) = ∅ :=
    Finset.filter_false_of_mem fun key hkey he => ht (he ▸ (Finset.mem_filter.1 hkey).2)
  obtain ⟨pool', hpool', hused, hlive⟩ := hs.pools_given_back hs' hlater hparted hgone hpool
  rw [bytesOn, hnone, Finset.sum_empty, add_zero] at hused
  rw [hnone, Finset.card_empty, add_zero] at hlive
  exact ⟨pool', hpool', hused.symm, hlive.symm⟩

/-- The slots of a tier that have no placement. -/
def emptyOn (c : Cache) (tier : Tier) : Nat :=
  (c.slots.filter fun k slot => k.tier = tier ∧ slot.registered = none).size

theorem emptyOn_eq_zero : c.emptyOn tier = 0 ↔
    ∀ key slot, c.slots.find? key = some slot → key.tier = tier → slot.registered ≠ none := by
  rw [emptyOn, Table.size, List.length_eq_zero_iff, Table.filter, List.filter_eq_nil_iff]
  simp only [Prod.forall, Table.mem_toList, decide_eq_true_iff, not_and, ne_eq]

/-- What is counted one by one for each tier. -/
theorem find?_foldl_addTo (placements : List Placement) (table : Table Tier Nat) (tier : Tier) :
    ((placements.foldl (fun t q => addTo t q.key.tier 1) table).find? tier).getD 0 =
      (table.find? tier).getD 0 + placements.countP fun q => q.key.tier = tier := by
  induction placements generalizing table with
  | nil => rfl
  | cons q rest ih =>
    rw [List.foldl_cons, ih, List.countP_cons, addTo, Table.find?_insert]
    by_cases htier : q.key.tier = tier
    · simp [htier]
      omega
    · simp [htier, Ne.symm htier]

/-- The statistics count the slots of a tier that have a placement. -/
theorem Sound.placementsOn_stats (hs : c.Sound held loose) (tier : Tier) :
    c.stats.placementsOn tier =
      (c.slots.filter fun k slot => k.tier = tier ∧ slot.registered.isSome).size := by
  have hkeys := congrArg (List.countP fun k : Key => k.tier = tier) hs.map_key_registeredPlacements
  rw [List.countP_map, List.countP_map] at hkeys
  calc c.stats.placementsOn tier
      = c.registeredPlacements.countP fun q => q.key.tier = tier := by
        rw [CacheStats.placementsOn, stats, find?_foldl_addTo]
        simp
    _ = (c.slots.toList.filter fun b => b.2.registered.isSome).countP fun b => b.1.tier = tier := hkeys
    _ = (c.slots.filter fun k slot => k.tier = tier ∧ slot.registered.isSome).size := by
        rw [List.countP_filter, List.countP_eq_length_filter, Table.size, Table.filter]
        simp

/-- An invalidation counts slots: those with a placement, which the statistics count, and the empty
ones. -/
theorem Sound.invalidate_count (hs : c.Sound held loose) (tier : Tier) :
    (c.invalidate tier).1 = c.stats.placementsOn tier + c.emptyOn tier := by
  have hsome : ∀ b ∈ c.slots.toList,
      (b.2.registered.isSome && decide (b.1.tier = tier)) =
        decide (b.1.tier = tier ∧ b.2.registered.isSome) := fun b _ => by
    rw [Bool.and_comm, Bool.decide_and, Bool.decide_coe]
  have hnone : ∀ b ∈ c.slots.toList,
      (!b.2.registered.isSome && decide (b.1.tier = tier)) =
        decide (b.1.tier = tier ∧ b.2.registered = none) := fun b _ => by
    cases b.2.registered <;> simp
  calc (c.invalidate tier).1
      = (c.slots.toList.filter fun b => b.1.tier = tier).length := rfl
    _ = ((c.slots.toList.filter fun b => b.1.tier = tier).filter fun b => b.2.registered.isSome).length +
        ((c.slots.toList.filter fun b => b.1.tier = tier).filter
          fun b => !b.2.registered.isSome).length :=
        List.length_eq_length_filter_add _
    _ = c.stats.placementsOn tier + c.emptyOn tier := by
        rw [List.filter_filter, List.filter_filter, List.filter_congr hsome, List.filter_congr hnone,
          hs.placementsOn_stats]
        rfl

/-- A tensor whose key has no slot is placed anew, unless its pool does not take it. -/
theorem Sound.resolve_anew (hs : c.Sound held loose) {t : Tensor} {r : Except Fault Resolved}
    (hslot : c.slots.find? ⟨t.identity, tier⟩ = none) (hr : c.resolve t tier = (r, c')) :
    (∃ e, r = .error e ∧ ¬ c.depot.Takes tier t.bytes.size) ∨
      ∃ b, r = .ok ⟨c.placementsMade, true⟩ ∧
        c'.registered? ⟨t.identity, tier⟩ = some c.placementsMade ∧
        c'.find? c.placementsMade = some ⟨⟨t.identity, tier⟩, b, 2⟩ ∧
        c'.read c.placementsMade = .ok t.bytes ∧
        c'.Sound (c.placementsMade ::ₘ held) loose ∧ Later False c c' := by
  have hvacant : c.registered? ⟨t.identity, tier⟩ = none := by rw [registered?, hslot, Option.bind_none]
  obtain ⟨slot, n, hempty, -, hconsult⟩ := consult_vacant (fun s hs' => by simp [hslot] at hs') hvacant
  rw [resolve_eq_call] at hr
  cases hpool : c.depot.pools.find? tier with
  | none =>
    simp only [hpool] at hconsult
    simp only [call, hconsult] at hr
    cases hr
    refine .inl ⟨_, rfl, ?_⟩
    rintro ⟨pool, hsome, -⟩
    rw [hpool] at hsome
    cases hsome
  | some pool =>
    simp only [hpool] at hconsult
    have hopen : ({ slot with placing := 1 } : KeySlot).registered = none := hempty
    obtain ⟨hs₁, hl₁⟩ := hs.withSlot False hvacant hopen n (c.misses + 1)
    have hself : (c.opened ⟨t.identity, tier⟩ { slot with placing := 1 } n).slots.find?
        ⟨t.identity, tier⟩ = some { slot with placing := 1 } := Table.find?_insert_self _ _ _
    have honest : (Maker.ofTensor t id tier).Honest False False tier :=
      Maker.ofTensor_honest _ t tier (.inr rfl)
    obtain ⟨⟨hs₂, htier⟩, hl₂, htrimmed⟩ :=
      (honest (c.opened ⟨t.identity, tier⟩ { slot with placing := 1 } n)).sound
        (by rw [zero_add]; exact hs₁) fun b hb => absurd hb (Multiset.notMem_zero b)
    simp only [call, hconsult] at hr
    rcases hs₂.settle False (htrimmed.placing _ _ hself Nat.one_ne_zero) hempty rfl htier with
      ⟨e, c₃, hsettle, -, -, -⟩ | ⟨b, c₃, hb, hsettle, hsettled, -, hfound, hdepot, hs₃⟩
    · simp only [hsettle] at hr
      cases hr
      refine .inl ⟨e, rfl, fun htakes => ?_⟩
      obtain ⟨b, d₁, hallocate⟩ := htakes.allocate t.type
      obtain ⟨_, hpool', -, hwrites⟩ := htakes
      obtain ⟨d, hplace, hlength, -⟩ := hs.depot.placeTensor_allocated hpool' hwrites hallocate
      obtain ⟨c₄, hsettle', -⟩ := Sound.settle_placed hs₁ hself hplace hlength
      have hmake : Maker.ofTensor t id tier (c.opened ⟨t.identity, tier⟩ { slot with placing := 1 } n) =
          (.ok b, { c.opened ⟨t.identity, tier⟩ { slot with placing := 1 } n with depot := d }) :=
        congrArg (fun x : Except Fault Buffer × Depot => (x.1,
          { c.opened ⟨t.identity, tier⟩ { slot with placing := 1 } n with depot := x.2 })) hplace
      rw [hmake] at hsettle
      cases hsettle'.symm.trans hsettle
    · have hmade : (Maker.ofTensor t id tier
          (c.opened ⟨t.identity, tier⟩ { slot with placing := 1 } n)).2.placementsMade =
            c.placementsMade := htrimmed.made
      rw [hmade] at hsettle hsettled hfound hs₃
      simp only [hsettle] at hr
      cases hr
      obtain ⟨slot', hregistered, -, hslots⟩ := hsettled.slots
      refine .inr ⟨b, rfl, ?_, hfound, ?_, hs₃, hl₁.trans (hl₂.trans hsettled.later)⟩
      · rw [registered?_insert hslots, if_pos rfl, hregistered]
      · refine read_eq_ok.2 ⟨_, hfound, ?_⟩
        rw [hdepot]
        exact Maker.ofTensor_fills t tier _ held loose b _ hs₁ (Prod.ext hb rfl)

end TieredWeights.Cache
