import TieredWeights.Proofs.Cache.Stock

/-!
# What a purge evicts

A placement is in use as long as an entry of a user or a parameter of a map in use refers to it. A
purge reads counts of references alone, but every reference has its owner; so it evicts just the
registered placements that nobody uses, each pool gets their bytes back, and all else is as it was.
That holds between the operations of users, and also while one of them has a slot open to place
into, which a purge leaves alone.
-/
namespace TieredWeights

namespace Cache

variable {c : Cache} {held : Multiset PlacementId} {loose : Multiset Buffer} {key : Key}

theorem Sound.pools_purge (hs : c.Sound held loose) (hopen : c.OpensVacant) {tier : Tier}
    {pool : Pool} (hpool : c.depot.pools.find? tier = some pool) :
    ∃ pool', c.purge.2.depot.pools.find? tier = some pool' ∧
      pool.used = pool'.used + bytesOn (c.keysWhere fun p => p ∉ held) tier ∧
      pool.live = pool'.live +
        ((c.keysWhere fun p => p ∉ held).filter fun key => key.tier = tier).card := by
  obtain ⟨hs', hlater⟩ := hs.purge False
  obtain ⟨gone, hparted, hgone⟩ := hs.buffersOf_purge hopen
  exact hs.pools_given_back hs' hlater hparted hgone hpool

/-- What a purge leaves registered is handed out as before. -/
theorem Sound.get_purge (hs : c.Sound held loose) (hopen : c.OpensVacant)
    (hkey : key ∉ c.keysWhere fun p => p ∉ held) :
    (c.purge.2.get key).1 = (c.get key).1 ∧
      ∀ p ∈ (c.get key).1, (c.purge.2.get key).2.find? p = (c.get key).2.find? p := by
  have hregistered := hs.registered?_purge hopen key
  cases hp : c.registered? key with
  | none =>
    rw [hp, Option.filter_none] at hregistered
    simp [get, hp, hregistered]
  | some p =>
    have hheld : p ∈ held := by
      by_contra hheld
      exact hkey (mem_keysWhere.2 ⟨p, hp, by simp [hheld]⟩)
    rw [hp, Option.filter_some, if_pos (by simpa using hheld)] at hregistered
    simp [get, hp, hregistered, find?_retain, hs.find?_purge hopen, hheld]

end Cache

namespace Scene

/-- No entry of a user and no map in use refers to a placement. -/
def Unused (w : Scene) (p : PlacementId) : Prop :=
  p ∉ w.2.entries ∧ ∀ m ∈ w.mapsInUse, w.1.store.uses m p = 0

instance (w : Scene) (p : PlacementId) : Decidable (w.Unused p) :=
  inferInstanceAs (Decidable (_ ∧ _))

/-- The registered keys of a cache whose placements nobody uses. -/
def unusedKeys (w : Scene) (c : Cache) : Finset Key := c.keysWhere fun p => w.Unused p

/-- The cache of a scene as somebody may find it: between operations, or while a slot is open to
place into, after any deeds of whoever opened it. -/
inductive Shows (w : Scene) : Cache → Prop
  | atRest : Shows w w.1.cache
  | placing {key : Key} {ticket : Ticket} {c c' : Cache} {own : Multiset Buffer}
      (h : w.1.cache.consult key = (.ok (.vacant ticket), c))
      (hdeeds : Cache.Deeds True True key.tier c 0 c' own) : Shows w c'

/-- A purge has evicted the placements that nobody uses, and nothing else. -/
structure Evicted (w : Scene) (c : Cache) (n : Nat) (c' : Cache) : Prop where
  count : n = (w.unusedKeys c).card
  registered : ∀ key, c'.registered? key =
    if key ∈ w.unusedKeys c then none else c.registered? key
  /-- Of the slots those stay that somebody places into or whose placements are in use. -/
  slots : ∀ key slot, c'.slots.find? key = some slot ↔ c.slots.find? key = some slot ∧
    (slot.placing ≠ 0 ∨ ∃ p, slot.registered = some p ∧ ¬ w.Unused p)
  pools : ∀ tier pool, c.depot.pools.find? tier = some pool →
    ∃ pool', c'.depot.pools.find? tier = some pool' ∧
      pool.used = pool'.used + bytesOn (w.unusedKeys c) tier ∧
      pool.live = pool'.live + ((w.unusedKeys c).filter fun key => key.tier = tier).card
  /-- The placements of other keys are handed out with the buffers and the references as before. -/
  got : ∀ key ∉ w.unusedKeys c, (c'.get key).1 = (c.get key).1 ∧
    ∀ p ∈ (c.get key).1, (c'.get key).2.find? p = (c.get key).2.find? p
  placements : ∀ p, c'.find? p = if w.Unused p then none else c.find? p
  reads : ∀ p, ¬ w.Unused p → (c.find? p).isSome ∧
    ∀ bytes, c.read p = .ok bytes → c'.read p = .ok bytes
  /-- Holders of maps find in them what they found before. -/
  holders : ∀ handle : Handle, handle.map ∈ w.mapsInUse → ∀ name bytes,
    { w.1 with cache := c }.readParameter handle name = .ok bytes →
      { w.1 with cache := c' }.readParameter handle name = .ok bytes
  hits : c'.hits = c.hits
  misses : c'.misses = c.misses
  again : c'.purge = (0, c')

variable {permits : Permits} {w : Scene} {c : Cache} {p : PlacementId}

theorem Sound.unused_iff (hw : w.Sound permits) :
    w.Unused p ↔ p ∉ w.1.store.references + w.2.entries := by
  rw [Unused, Multiset.mem_add, not_or, and_comm, ← Multiset.count_eq_zero (s := w.1.store.references),
    hw.store.count_references, Finset.sum_eq_zero_iff]
  rfl

/-- A parameter of a map in use is used. -/
theorem not_unused {m : MapId} (hm : m ∈ w.mapsInUse) {parameters : Table String PlacementId}
    (hmap : w.1.store.map? m = some parameters) {name : String}
    (hp : parameters.find? name = some p) : ¬ w.Unused p := by
  intro hunused
  have hzero := hunused.2 m hm
  rw [BlockStore.uses, hmap, Option.map_some, Option.getD_some, List.count_eq_zero] at hzero
  exact hzero (Table.mem_values.2 ⟨name, hp⟩)

/-- Whoever finds the cache finds all references accounted for. -/
theorem Shows.sound (h : w.Shows c) (hw : w.Sound {}) :
    ∃ loose, c.Sound (w.1.store.references + w.2.entries) loose ∧ c.OpensVacant := by
  have hs : w.1.cache.Sound (w.1.store.references + w.2.entries) 0 := hw.tally.cache
  have hquiet : w.1.cache.Quiet := hw.tally.quiet
  cases h with
  | atRest => exact ⟨0, hs, hquiet.opensVacant⟩
  | @placing key ticket c₁ _ own h hdeeds =>
    obtain ⟨hvacant, -⟩ := Cache.vacant_of_consult h
    obtain ⟨slot, n, hslot, -, hconsult⟩ := hquiet.consult_vacant hvacant
    have hopened : c₁ = w.1.cache.opened key { slot with placing := 1 } n := by
      rw [hconsult] at h
      split at h <;> cases h
      rfl
    subst hopened
    have hopen : ({ slot with placing := 1 } : KeySlot).registered = none := hslot
    obtain ⟨hs₁, -⟩ := hs.withSlot True hvacant hopen n (w.1.cache.misses + 1)
    obtain ⟨⟨hs', -⟩, -, htrimmed⟩ := hdeeds.sound (by rwa [zero_add])
      fun b hb => absurd hb (Multiset.notMem_zero b)
    refine ⟨_, hs', fun k s hs hplacing => ?_⟩
    have hold := htrimmed.slots k s hs
    rw [Cache.opened, Table.find?_insert] at hold
    split_ifs at hold
    · cases hold
      exact hslot
    · exact absurd (hquiet k s hold) hplacing

/-- With the slots go the placements that nobody uses. -/
theorem evicted_purge {loose : Multiset Buffer} (hw : w.Sound permits)
    (hs : c.Sound (w.1.store.references + w.2.entries) loose) (hopen : c.OpensVacant) :
    w.Evicted c c.purge.1 c.purge.2 := by
  have hkeys : w.unusedKeys c = c.keysWhere fun p => p ∉ w.1.store.references + w.2.entries := by
    simp only [unusedKeys, hw.unused_iff]
  have htrimmed := hs.purge_trimmed
  have hreads : ∀ p, ¬ w.Unused p → (c.find? p).isSome ∧
      ∀ bytes, c.read p = .ok bytes → c.purge.2.read p = .ok bytes := by
    intro p hused
    rw [hw.unused_iff, not_not] at hused
    obtain ⟨q, hq⟩ := hs.find?_of_mem (Multiset.mem_add.2 (.inr hused))
    have hstays : (c.purge.2.find? p).isSome := by simp [hs.find?_purge hopen, hused, hq]
    exact ⟨by simp [hq], fun bytes => (hs.purge False).2.reads not_false p bytes hstays⟩
  constructor
  case count => rw [hkeys, hs.purge_count hopen]
  case registered =>
    intro key
    rw [hs.registered?_purge hopen, hkeys]
    cases hp : c.registered? key with
    | none => simp
    | some p =>
      by_cases hheld : p ∈ w.1.store.references + w.2.entries
      · simp [Cache.mem_keysWhere, hp, Option.filter_some, -Multiset.mem_add, hheld]
      · simp [Cache.mem_keysWhere, hp, Option.filter_some, -Multiset.mem_add, hheld]
  case slots =>
    intro key slot
    rw [Cache.purge_slots, Table.find?_filter, Option.filter_eq_some_iff, Bool.not_eq_true']
    refine and_congr_right fun hslot => ?_
    cases hp : slot.registered with
    | none => simp [Cache.isIdle, hp]
    | some p =>
      have hidle := hs.isIdle_iff hopen hslot hp
      have hplacing : slot.placing = 0 := hopen.placing_eq_zero hslot hp
      rw [← hw.unused_iff] at hidle
      simp [hplacing, ← hidle]
  case pools =>
    rw [hkeys]
    exact fun tier pool hpool => hs.pools_purge hopen hpool
  case got =>
    rw [hkeys]
    exact fun key hkey => hs.get_purge hopen hkey
  case placements =>
    intro p
    rw [hs.find?_purge hopen]
    simp only [hw.unused_iff, ite_not]
  case reads => exact hreads
  case holders =>
    intro handle hm name bytes hread
    unfold Loader.readParameter at hread ⊢
    cases hp : (w.1.store.map? handle.map).bind (·.find? name) with
    | none =>
      simp only [hp] at hread
      cases hread
    | some p =>
      simp only [hp] at hread ⊢
      obtain ⟨parameters, hmap, hname⟩ := Option.bind_eq_some_iff.1 hp
      exact (hreads p (not_unused hm hmap hname)).2 bytes hread
  case hits => exact htrimmed.hits
  case misses => exact htrimmed.misses
  case again => exact hs.purge_purge hopen

end Scene

/-- Whenever somebody purges the cache of a scene that users bring about, he is told how many
registered placements nobody uses, and just these have been evicted. -/
theorem purge_evicts_unused {depot : Depot} {blocks : Nat} {split : Split Binary64} {w : Scene}
    {c : Cache} (hd : depot.Sound 0) (h : Scene.Run {} (.start depot blocks split) w)
    (hc : w.Shows c) : w.Evicted c c.purge.1 c.purge.2 := by
  have hw := h.sound_start hd
  obtain ⟨loose, hs, hopen⟩ := hc.sound hw
  exact Scene.evicted_purge hw hs hopen

/-- Two small tensors, one of them the sample's, and one that the sample's pool has no room for. -/
def sampleGreedy : Block :=
  ⟨[("first", ⟨2, .f32, [1], ⟨#[0, 0, 0, 64]⟩, by decide⟩), ("second", Scene.sampleTensor),
    ("third", Scene.sampleLarge)], by decide⟩

open Scene in
/-- The load of the greedy block fails. The sample's tensor is still in use, the other small one is
in use no more, and the third has left an empty slot. -/
def greedyScene : Scene := sampleScene.loaded 0 sampleGreedy sampleSplit

open Scene in
theorem purge_evicts_greedy : Run {} (start sampleDepot 1 sampleSplit) greedyScene ∧
    greedyScene.Evicted greedyScene.1.cache 1 greedyScene.1.cache.purge.2 ∧
    greedyScene.1.cache.slots.size = 3 ∧ greedyScene.1.cache.purge.2.slots.size = 1 := by
  have hrun : Run {} (start sampleDepot 1 sampleSplit) greedyScene :=
    .andThen (sample_run trivial) (.loaded _ _ _ fun _ _ => trivial)
  have hevicted := purge_evicts_unused sampleDepot_sound hrun .atRest
  have hone : greedyScene.1.cache.purge.1 = 1 := by decide +kernel
  rw [hone] at hevicted
  exact ⟨hrun, hevicted, by decide +kernel, by decide +kernel⟩

end TieredWeights
