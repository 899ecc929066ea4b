import Mathlib.Algebra.Order.BigOperators.Group.Finset
import TieredWeights.Proofs.Cache.Progress
import TieredWeights.Proofs.Cache.Purge
import TieredWeights.Proofs.Depot.Room

/-!
# Caches in stock

A cache stocks some keys if each has one placement and nothing else is placed; then its pools count
just the bytes of these keys. A key that is new comes into stock unless the pools cannot accommodate
it besides the others. References given up leave the stock as it is, and a purge reduces it to the
keys whose placements somebody holds.
-/
namespace TieredWeights

/-- The bytes of keys. -/
def bytesOf (keys : Finset Key) : Nat := ∑ key ∈ keys, key.identity.bytes

/-- The bytes of the keys of a tier. -/
def bytesOn (keys : Finset Key) (tier : Tier) : Nat :=
  ∑ key ∈ keys with key.tier = tier, key.identity.bytes

/-- How many of some keys are of a tier. -/
def countOn (keys : Finset Key) (tier : Tier) : Nat := (keys.filter fun key => key.tier = tier).card

theorem bytesOf_mono {keys keys' : Finset Key} (h : keys ⊆ keys') : bytesOf keys ≤ bytesOf keys' :=
  Finset.sum_le_sum_of_subset h

theorem bytesOn_insert {keys : Finset Key} {key : Key} (h : key ∉ keys) :
    bytesOn (insert key keys) key.tier = key.identity.bytes + bytesOn keys key.tier := by
  rw [bytesOn, Finset.filter_insert, if_pos rfl, Finset.sum_insert (by simp [h]), bytesOn]

theorem countOn_insert {keys : Finset Key} {key : Key} (h : key ∉ keys) :
    countOn (insert key keys) key.tier = countOn keys key.tier + 1 := by
  rw [countOn, Finset.filter_insert, if_pos rfl, Finset.card_insert_of_notMem (by simp [h]), countOn]

theorem countOn_mono {keys keys' : Finset Key} (h : keys ⊆ keys') (tier : Tier) :
    countOn keys tier ≤ countOn keys' tier :=
  Finset.card_le_card (Finset.filter_subset_filter _ h)

namespace Depot

/-- Every pool of a depot can take the keys of its tier. -/
def Fits (d : Depot) (keys : Finset Key) : Prop :=
  ∀ tier pool, d.pools.find? tier = some pool → bytesOn keys tier ≤ pool.capacity

/-- The pools of a depot can take all of some keys in turn: their tiers are there, no capacity is
exceeded, and the file system takes all files that `n` more allocations can need where no pool takes
back more than `returns` buffers meanwhile. -/
structure Accommodates (d : Depot) (keys : Finset Key) (n returns : Nat) : Prop where
  sized : ∀ key ∈ keys, d.Sized key.tier key.identity.bytes
  fits : d.Fits keys
  names : ∀ tier pool, d.pools.find? tier = some pool →
    pool.Names (min (d.allocations + n) (returns + countOn keys tier)) (returns + 1)

variable {d : Depot} {keys keys' : Finset Key} {n n' returns : Nat}

theorem Fits.mono (h : d.Fits keys') (hsub : keys ⊆ keys') : d.Fits keys := by
  intro tier pool hpool
  refine le_trans ?_ (h tier pool hpool)
  exact Finset.sum_le_sum_of_subset (Finset.filter_subset_filter _ hsub)

theorem Accommodates.mono (h : d.Accommodates keys' n' returns) (hsub : keys ⊆ keys')
    (hn : n ≤ n') : d.Accommodates keys n returns where
  sized key hkey := h.sized key (hsub hkey)
  fits := h.fits.mono hsub
  names tier pool hpool := by
    have hcount := countOn_mono hsub tier
    exact (h.names tier pool hpool).mono (by omega) le_rfl

/-- Buffers of the tiers and lengths of keys have, on a tier, the lengths of its keys. -/
theorem map_onTier {out : Multiset Buffer} {references : Multiset Key}
    (h : out.map (fun b => (b.tier, b.length)) =
      references.map fun key => (key.tier, key.identity.bytes)) (tier : Tier) :
    (onTier out tier).map Buffer.length =
      (references.filter fun key => key.tier = tier).map fun key => key.identity.bytes := by
  have hfilter := congrArg (fun m => (m.filter fun x => x.1 = tier).map Prod.snd) h
  simpa [Multiset.filter_map, onTier, Function.comp_def] using hfilter

/-- Buffers of the tiers and lengths of keys, each once, have the bytes and the number of the keys of
a tier. -/
theorem counts_onTier {out : Multiset Buffer} (h : out.map (fun b => (b.tier, b.length)) =
    keys.val.map fun key => (key.tier, key.identity.bytes)) (tier : Tier) :
    ((onTier out tier).map Buffer.length).sum = bytesOn keys tier ∧
      (onTier out tier).card = (keys.filter fun key => key.tier = tier).card := by
  have hlength := map_onTier h tier
  have hcard := congrArg Multiset.card hlength
  rw [Multiset.card_map, Multiset.card_map] at hcard
  exact ⟨congrArg Multiset.sum hlength, hcard⟩

/-- Buffers given back leave their pools with that much less. -/
theorem Sound.counts_given_back {d' : Depot} {gone out : Multiset Buffer} {tier : Tier}
    {pool pool' : Pool} (hd : d.Sound (gone + out)) (hd' : d'.Sound out)
    (hpool : d.pools.find? tier = some pool) (hpool' : d'.pools.find? tier = some pool') :
    pool.used = pool'.used + ((onTier gone tier).map Buffer.length).sum ∧
      pool.live = pool'.live + (onTier gone tier).card := by
  have hs := (hd.pools tier pool hpool).2
  have hs' := (hd'.pools tier pool' hpool').2
  have hparted : onTier (gone + out) tier = onTier gone tier + onTier out tier :=
    Multiset.filter_add _ _ _
  constructor
  · rw [hs.used, hs'.used, hparted, Multiset.map_add, Multiset.sum_add, add_comm]
  · rw [hs.live_eq, hs'.live_eq, hparted, Multiset.card_add, add_comm]

/-- In memory capacities alone decide. -/
theorem InMemory.accommodates (h : d.InMemory)
    (htiers : ∀ key ∈ keys, (d.pools.find? key.tier).isSome) (hfits : d.Fits keys)
    (n returns : Nat) : d.Accommodates keys n returns where
  sized key hkey := by
    obtain ⟨pool, hpool⟩ := Option.isSome_iff_exists.1 (htiers key hkey)
    exact ⟨pool, hpool, by simp [Pool.Sized, h key.tier pool hpool]⟩
  fits := hfits
  names tier pool hpool slot _ earlier _ := Pool.named_of_memory (h tier pool hpool) slot _

end Depot

namespace Cache

variable {depot : Depot} {keys keys' used : Finset Key} {held : Multiset PlacementId}
  {c c' : Cache} {tier : Tier} {pool : Pool} {t : Tensor} {n returns : Nat} {loose : Multiset Buffer}

/-- The tensor of a ticket in a sound cache is registered, if its buffer has its length. -/
theorem Sound.settle_ok {key : Key} {slot : KeySlot} {b : Buffer}
    (h : c.Sound held (b ::ₘ loose)) (hslot : c.slots.find? key = some slot)
    (htier : b.tier = key.tier) (hlength : b.length = key.identity.bytes) :
    ∃ c', c.settle ⟨key, slot.id⟩ (.ok b) = (.ok c.placementsMade, c') ∧ c'.depot = c.depot := by
  have hmem : b ∈ buffersOf c.placements + b ::ₘ loose := by simp
  obtain ⟨pool, hpool⟩ := h.depot.housed b hmem
  rw [htier] at hpool
  have howns : pool.owns b :=
    (h.depot.pools key.tier pool hpool).2.issued b (Depot.mem_onTier.2 ⟨hmem, htier⟩)
  unfold Cache.settle
  rw [leave_eq hslot]
  simp only [hpool, howns, Bool.not_true, Bool.false_eq_true, if_false, hlength, ne_eq,
    not_true_eq_false]
  exact ⟨_, rfl, rfl⟩

/-- A tensor that is placed while its slot is open is registered. -/
theorem Sound.settle_placed {slot : KeySlot} (h : c.Sound held loose)
    (hslot : c.slots.find? ⟨t.identity, tier⟩ = some slot) {b : Buffer} {d : Depot}
    (hplace : c.depot.placeTensor tier t id = (.ok b, d)) (hlength : b.length = t.bytes.size) :
    ∃ c', Cache.settle { c with depot := d } ⟨⟨t.identity, tier⟩, slot.id⟩ (.ok b) =
      (.ok c.placementsMade, c') ∧ c'.depot = d := by
  have honest : (Maker.ofTensor t id tier).Honest False False tier :=
    Maker.ofTensor_honest _ t tier (.inr rfl)
  obtain ⟨⟨hs, htier⟩, -, -⟩ := (honest c).sound (by rwa [zero_add])
    fun b hb => absurd hb (Multiset.notMem_zero b)
  have hmake : Maker.ofTensor t id tier c = (.ok b, { c with depot := d }) :=
    congrArg (fun x : Except Fault Buffer × Depot => (x.1, { c with depot := x.2 })) hplace
  rw [hmake, Depot.brought, Multiset.singleton_add] at hs
  rw [hmake] at htier
  exact hs.settle_ok hslot (htier b (Multiset.mem_singleton_self b)) hlength

/-- What a tensor's maker brings is settled, or its pool is full. -/
theorem Sound.settle_ofTensor {slot : KeySlot} (h : c.Sound held 0) (htidy : c.depot.Tidy)
    (hslot : c.slots.find? ⟨t.identity, tier⟩ = some slot) {r : Except Fault PlacementId}
    (hr : (Maker.ofTensor t id tier c).2.settle ⟨⟨t.identity, tier⟩, slot.id⟩
      (Maker.ofTensor t id tier c).1 = (r, c')) :
    (∃ e, r = .error e ∧ c.depot.Full tier t.bytes.size) ∨
      ∃ p, r = .ok p ∧ c.depot.TookIn tier t.bytes.size c'.depot := by
  rcases hplace : c.depot.placeTensor tier t id with ⟨brought, d⟩
  have hmake : Maker.ofTensor t id tier c = (brought, { c with depot := d }) :=
    congrArg (fun x : Except Fault Buffer × Depot => (x.1, { c with depot := x.2 })) hplace
  rw [hmake] at hr
  rcases h.depot.placeTensor htidy hplace with ⟨e, rfl, hfull⟩ | ⟨b, rfl, hlength, htook⟩
  · unfold Cache.settle at hr
    rw [leave_eq (c := { c with depot := d }) hslot] at hr
    cases hr
    exact .inl ⟨e, rfl, hfull⟩
  · obtain ⟨c₁, hsettle, hdepot⟩ := h.settle_placed hslot hplace hlength
    rw [hsettle] at hr
    cases hr
    exact .inr ⟨_, rfl, hdepot ▸ htook⟩

/-- A call shares a placement, or is refused because a pool is full, or takes a tensor in. -/
theorem Sound.call_ofTensor (h : c.Sound held 0) (hquiet : c.Quiet) (htidy : c.depot.Tidy)
    {r : Except Fault Resolved}
    (hr : c.call ⟨t.identity, tier⟩ (.ofTensor t id tier) = (r, c')) :
    (∃ e, r = .error e ∧ c.depot.Full tier t.bytes.size) ∨
      ∃ x, r = .ok x ∧ (x.placed → c.depot.TookIn tier t.bytes.size c'.depot) := by
  cases hreg : c.registered? ⟨t.identity, tier⟩ with
  | some p =>
    simp only [call, consult_hit hreg] at hr
    cases hr
    exact .inr ⟨_, rfl, fun hplaced => by cases hplaced⟩
  | none =>
    obtain ⟨slot, n, hslot, -, hconsult⟩ := hquiet.consult_vacant hreg
    cases hpool : c.depot.pools.find? tier with
    | none =>
      simp only [hpool] at hconsult
      simp only [call, hconsult] at hr
      cases hr
      refine .inl ⟨_, rfl, fun pool hsome => ?_⟩
      rw [hpool] at hsome
      cases hsome
    | some pool =>
      simp only [hpool] at hconsult
      have hopen : ({ slot with placing := 1 } : KeySlot).registered = none := hslot
      obtain ⟨hs, -⟩ := h.withSlot False hreg hopen n (c.misses + 1)
      have hself : (c.opened ⟨t.identity, tier⟩ { slot with placing := 1 } n).slots.find?
          ⟨t.identity, tier⟩ = some { slot with placing := 1 } := Table.find?_insert_self _ _ _
      simp only [call, hconsult] at hr
      rcases hsettle : (Maker.ofTensor t id tier
        (c.opened ⟨t.identity, tier⟩ { slot with placing := 1 } n)).2.settle
          ⟨⟨t.identity, tier⟩, slot.id⟩ (Maker.ofTensor t id tier
            (c.opened ⟨t.identity, tier⟩ { slot with placing := 1 } n)).1 with ⟨e | p, c₂⟩ <;>
        have hsettled := Sound.settle_ofTensor hs htidy hself hsettle <;>
        simp only [hsettle] at hr <;> cases hr
      · rcases hsettled with ⟨-, -, hfull⟩ | ⟨p, hp, -⟩
        · exact .inl ⟨e, rfl, hfull⟩
        · cases hp
      · rcases hsettled with ⟨e, he, -⟩ | ⟨-, -, htook⟩
        · cases he
        · exact .inr ⟨_, rfl, fun _ => htook⟩

/-- Where a cache has lost placements, each pool has lost the buffers of their keys. -/
theorem Sound.pools_given_back {held' : Multiset PlacementId} {gone : Multiset Buffer}
    (hs : c.Sound held loose) (hs' : c'.Sound held' loose) (hlater : Later False c c')
    (hparted : buffersOf c.placements = gone + buffersOf c'.placements)
    (hgone : gone.map (fun b => (b.tier, b.length)) =
      keys.val.map fun key => (key.tier, key.identity.bytes))
    (hpool : c.depot.pools.find? tier = some pool) :
    ∃ pool', c'.depot.pools.find? tier = some pool' ∧
      pool.used = pool'.used + bytesOn keys tier ∧
      pool.live = pool'.live + (keys.filter fun key => key.tier = tier).card := by
  obtain ⟨pool', hpool'⟩ : ∃ pool', c'.depot.pools.find? tier = some pool' := by
    rw [← Option.isSome_iff_exists, hlater.tiers, hpool, Option.isSome_some]
  have hd := hs.depot
  rw [hparted, add_assoc] at hd
  obtain ⟨hused, hlive⟩ := hd.counts_given_back hs'.depot hpool hpool'
  obtain ⟨hbytes, hcard⟩ := Depot.counts_onTier hgone tier
  exact ⟨pool', hpool', by rw [hused, hbytes], by rw [hlive, hcard]⟩

@[simp] theorem releaseAll_registered? (c : Cache) (ps : List PlacementId) (key : Key) :
    (c.releaseAll ps).registered? key = c.registered? key := by
  obtain ⟨_, _, he⟩ := releaseAll_eq c ps
  rw [he]
  rfl

/-- A reference given up leaves pools where they are, and is no allocation. -/
theorem Sound.steady_release {p : PlacementId} (h : c.Sound (p ::ₘ held) loose) :
    c.depot.Steady (c.release p).depot ∧ (c.release p).depot.allocations = c.depot.allocations := by
  obtain ⟨q, hq⟩ := h.find?_of_mem (p := p) (by simp)
  simp only [Cache.release, hq]
  split_ifs with hlast
  · have hd := h.depot
    rw [buffersOf_erase hq, Multiset.cons_add] at hd
    rcases hr : c.depot.release q.key.tier q.buffer with ⟨r, d⟩
    obtain ⟨rfl, -⟩ := hd.release False (h.fits p q hq).1 hr
    have hreleased := hd.released (h.fits p q hq).1 hr
    simpa only [Cache.free, hr] using hreleased
  · exact ⟨.refl _, rfl⟩

theorem Sound.steady_releaseAll {ps : List PlacementId} (h : c.Sound (↑ps + held) loose) :
    c.depot.Steady (c.releaseAll ps).depot ∧
      (c.releaseAll ps).depot.allocations = c.depot.allocations := by
  induction ps generalizing c with
  | nil => exact ⟨.refl _, rfl⟩
  | cons p ps ih =>
    rw [← Multiset.cons_coe, Multiset.cons_add] at h
    obtain ⟨hsteady, hcount⟩ := h.steady_release
    obtain ⟨hsteady', hcount'⟩ := ih (h.release False).1
    exact ⟨hsteady.trans hsteady', hcount'.trans hcount⟩

theorem Sound.steady_purge (h : c.Sound held loose) :
    c.depot.Steady c.purge.2.depot ∧ c.purge.2.depot.allocations = c.depot.allocations := by
  obtain ⟨d, he, hpools, hfiles⟩ := purge_eq c
  obtain ⟨hsteady, hcount⟩ := (h.unregister fun _ slot => !c.isIdle slot).steady_releaseAll
  rw [he]
  refine ⟨hsteady.trans (.of_pools hpools hfiles), Eq.trans ?_ hcount⟩
  exact congrArg (fun pools => sumOf (pools.values.map Pool.allocations)) hpools

/-- A cache over the pools of a depot that has placed just some keys, each once. Who called holds
references. -/
structure Stock (depot : Depot) (keys : Finset Key) (held : Multiset PlacementId) (c : Cache) :
    Prop where
  sound : c.Sound held 0
  quiet : c.Quiet
  registered : ∀ key, (c.registered? key).isSome ↔ key ∈ keys
  own : ∀ p q, c.find? p = some q → c.registered? q.key = some p
  steady : depot.Steady c.depot
  allocations : c.depot.allocations = depot.allocations + c.misses
  sized : ∀ key ∈ keys, depot.Sized key.tier key.identity.bytes

/-- What calls that succeed do to the counts of a cache and its pools. -/
structure Gains (keys keys' : Finset Key) (n : Nat) (c c' : Cache) : Prop where
  terms : Depot.Keeps Pool.terms c.depot c'.depot
  misses : c'.misses + keys.card = c.misses + keys'.card
  calls : c'.hits + c'.misses = c.hits + c.misses + n

theorem Gains.refl (keys : Finset Key) (c : Cache) : Gains keys keys 0 c c :=
  ⟨.refl _ _, rfl, rfl⟩

theorem Gains.trans {keys'' : Finset Key} {m : Nat} {c'' : Cache} (h : Gains keys keys' n c c')
    (h' : Gains keys' keys'' m c' c'') : Gains keys keys'' (n + m) c c'' where
  terms := h.terms.trans h'.terms
  misses := by
    have hfirst := h.misses
    have hsecond := h'.misses
    omega
  calls := by
    have hfirst := h.calls
    have hsecond := h'.calls
    omega

theorem stock_ofDepot (hd : depot.Sound 0) : Stock depot ∅ 0 (.ofDepot depot) where
  sound := sound_ofDepot hd
  quiet _ _ hslot := nomatch hslot
  registered _ := by simp [registered?, ofDepot]
  own _ _ hq := nomatch hq
  steady := .refl depot
  allocations := rfl
  sized _ hkey := absurd hkey (Finset.notMem_empty _)

namespace Stock

theorem registered?_eq_some (h : Stock depot keys held c) {key : Key} {p : PlacementId} :
    c.registered? key = some p ↔ ∃ q, c.find? p = some q ∧ q.key = key := by
  constructor
  · exact h.sound.keyed key p
  · rintro ⟨q, hq, rfl⟩
    exact h.own p q hq

theorem mem_keys (h : Stock depot keys held c) {key : Key} :
    key ∈ keys ↔ ∃ p q, c.find? p = some q ∧ q.key = key := by
  simp only [← h.registered, Option.isSome_iff_exists, h.registered?_eq_some]

/-- The buffers of the placements are of the tiers and lengths of the keys in stock. -/
theorem map_buffer (h : Stock depot keys held c) :
    (buffersOf c.placements).map (fun b => (b.tier, b.length)) =
      keys.val.map fun key => (key.tier, key.identity.bytes) :=
  h.sound.map_buffersOf (fun p q hq => ⟨hq, h.own p q hq⟩) fun _ => h.mem_keys

/-- A pool counts the keys of its tier. -/
theorem counts (h : Stock depot keys held c) (hpool : c.depot.pools.find? tier = some pool) :
    pool.used = bytesOn keys tier ∧ pool.live = (keys.filter fun key => key.tier = tier).card ∧
      pool.allocations = pool.releases + (keys.filter fun key => key.tier = tier).card := by
  have hs := (h.sound.depot.pools tier pool hpool).2
  rw [add_zero] at hs
  obtain ⟨hbytes, hcard⟩ := Depot.counts_onTier h.map_buffer tier
  refine ⟨?_, ?_, ?_⟩
  · rw [hs.used, hbytes]
  · rw [hs.live_eq, hcard]
  · rw [hs.counted, hcard]

/-- No pool has taken back more than was handed out. -/
theorem returned (h : Stock depot keys held c) : c.depot.Returned c.depot.allocations := by
  intro tier pool hpool
  have hle := Depot.allocations_le hpool
  have hown := (h.counts hpool).2.2
  omega

theorem usedBytes (h : Stock depot keys held c) : c.depot.usedBytes = bytesOf keys := by
  have hlength := congrArg (Multiset.map Prod.snd) h.map_buffer
  rw [Multiset.map_map, Multiset.map_map] at hlength
  have hused := h.sound.depot.usedBytes
  rw [add_zero] at hused
  rw [hused]
  exact congrArg Multiset.sum hlength

theorem fits (h : Stock depot keys held c) : depot.Fits keys := by
  intro tier pool hpool
  obtain ⟨pool', hpool', hsite⟩ := h.steady.sites.find?_after hpool
  rw [← (h.counts hpool').1, ← Pool.capacity_of_site hsite]
  exact (h.sound.depot.pools tier pool' hpool').2.within

/-- A pool that is full cannot accommodate another key. -/
theorem not_accommodates (h : Stock depot keys held c) (hreturned : c.depot.Returned returns)
    (hnew : (⟨t.identity, tier⟩ : Key) ∉ keys) (hfull : c.depot.Full tier t.bytes.size) :
    ¬ depot.Accommodates (insert ⟨t.identity, tier⟩ keys) (c.misses + 1) returns := by
  intro hall
  obtain ⟨pool, hpool, hsized⟩ : depot.Sized tier t.bytes.size :=
    hall.sized _ (Finset.mem_insert_self _ _)
  obtain ⟨pool', hpool', hsite⟩ := h.steady.sites.find?_after hpool
  have hnames : pool'.Names (pool'.allocations + 1) (pool'.releases + 1) := by
    have hle := Depot.allocations_le hpool'
    have hcount := h.allocations
    have hback := hreturned tier pool' hpool'
    have hown : pool'.allocations = pool'.releases + countOn keys tier := (h.counts hpool').2.2
    have hmore : countOn (insert ⟨t.identity, tier⟩ keys) tier = countOn keys tier + 1 :=
      countOn_insert hnew
    refine (Pool.names_of_site hsite).2 ((hall.names tier pool hpool).mono ?_ ?_)
    · rw [hmore]
      omega
    · omega
  have hover := hfull pool' hpool' ((Pool.sized_of_site hsite).2 hsized) hnames
  have hroom := hall.fits tier pool hpool
  have hbytes : bytesOn (insert ⟨t.identity, tier⟩ keys) tier = t.bytes.size + bytesOn keys tier :=
    bytesOn_insert hnew
  rw [hbytes] at hroom
  rw [(h.counts hpool').1, Pool.capacity_of_site hsite] at hover
  omega

/-- What a placement shared once more leaves. -/
theorem hit (h : Stock depot keys held c) {p : PlacementId}
    (hs : Cache.Sound { c.retain p with hits := c.hits + 1 } (p ::ₘ held) 0) :
    Stock depot keys (p ::ₘ held) { c.retain p with hits := c.hits + 1 } := by
  constructor
  case sound => exact hs
  case quiet => exact h.quiet
  case registered => exact h.registered
  case own =>
    intro p' q' hq'
    have hfind : (c.retain p).find? p' = some q' := hq'
    rw [find?_retain] at hfind
    split_ifs at hfind with hp
    · obtain ⟨q₀, hq₀, rfl⟩ := Option.map_eq_some_iff.1 hfind
      rw [hp]
      exact h.own p q₀ hq₀
    · exact h.own p' q' hfind
  case steady => exact h.steady
  case allocations => exact h.allocations
  case sized => exact h.sized

/-- What a new placement leaves. -/
theorem placed (h : Stock depot keys held c) {key : Key} {b : Buffer}
    (hmissed : c.Missed False key (some c.placementsMade) c')
    (hmade : c'.placementsMade = c.placementsMade + 1)
    (hfound : c'.find? c.placementsMade = some ⟨key, b, 2⟩)
    (hready : c.Ready False (c.placementsMade ::ₘ held) 0 c')
    (htook : c.depot.TookIn key.tier key.identity.bytes c'.depot) :
    key ∉ keys ∧ Stock depot (insert key keys) (c.placementsMade ::ₘ held) c' := by
  have hnew : key ∉ keys := by
    rw [← h.registered, hmissed.vacant]
    exact Bool.false_ne_true
  refine ⟨hnew, ?_⟩
  constructor
  case sound => exact hready.sound
  case quiet => exact hready.quiet
  case registered =>
    intro k
    rw [Finset.mem_insert, ← h.registered]
    by_cases hk : k = key
    · simp [hk, hmissed.self]
    · simp [hk, hmissed.registered?_eq id hk]
  case own =>
    intro p q hq
    by_cases hp : p < c.placementsMade
    · obtain ⟨q₀, hq₀, hkey, -⟩ := hready.later.find?_old hq hp
      rw [hkey]
      exact (hmissed.kept q₀.key p (h.own p q₀ hq₀)).resolve_right And.left
    · have hlt := hready.sound.numbered p q hq
      rw [hmade] at hlt
      have hlast : p = c.placementsMade := le_antisymm (Nat.le_of_lt_succ hlt) (not_lt.1 hp)
      subst hlast
      rw [hfound, Option.some.injEq] at hq
      rw [← hq]
      exact hmissed.self
  case steady => exact h.steady.trans htook.steady
  case allocations =>
    rw [htook.allocations, h.allocations, hmissed.misses]
    omega
  case sized =>
    intro k hk
    rcases Finset.mem_insert.1 hk with rfl | hk
    · exact h.steady.sites.sized htook.sized
    · exact h.sized k hk

/-- A key comes into stock, unless the pools cannot accommodate it besides the others. -/
theorem call (h : Stock depot keys held c) (htidy : depot.Tidy)
    (hreturned : c.depot.Returned returns) {r : Except Fault Resolved}
    (hr : c.call ⟨t.identity, tier⟩ (.ofTensor t id tier) = (r, c')) :
    (∃ e, r = .error e ∧
      ¬ depot.Accommodates (insert ⟨t.identity, tier⟩ keys) (c.misses + 1) returns) ∨
    ∃ x, r = .ok x ∧ Stock depot (insert ⟨t.identity, tier⟩ keys) (x.placement ::ₘ held) c' ∧
      Gains keys (insert ⟨t.identity, tier⟩ keys) 1 c c' := by
  have hroom := h.sound.call_ofTensor h.quiet (h.steady.tidy htidy) hr
  have honest : (Maker.ofTensor t id tier).Honest False False (⟨t.identity, tier⟩ : Key).tier :=
    Maker.ofTensor_honest _ t tier (.inr rfl)
  obtain ⟨hcalled, hready⟩ := h.sound.called h.quiet honest
  rw [hr] at hcalled hready
  cases hcalled with
  | @hit p q registered found own =>
    have hmem : (⟨t.identity, tier⟩ : Key) ∈ keys := by
      rw [← h.registered, registered]
      rfl
    rw [Finset.insert_eq_self.2 hmem]
    refine .inr ⟨_, rfl, h.hit ?_, .refl _ _, rfl, ?_⟩
    · simpa only [given, Multiset.singleton_add] using hready.sound
    · change c.hits + 1 + c.misses = _
      omega
  | failed missed made =>
    have hnew : (⟨t.identity, tier⟩ : Key) ∉ keys := by
      rw [← h.registered, missed.vacant]
      exact Bool.false_ne_true
    rcases hroom with ⟨e, -, hfull⟩ | ⟨x, hx, -⟩
    · exact .inl ⟨_, rfl, h.not_accommodates hreturned hnew hfull⟩
    · cases hx
  | placed missed made found brought =>
    rw [given, Multiset.singleton_add] at hready
    have htook : c.depot.TookIn tier t.bytes.size c'.depot := by
      rcases hroom with ⟨e, he, -⟩ | ⟨x, hx, htook⟩
      · cases he
      · cases hx
        exact htook rfl
    obtain ⟨hnew, hstock⟩ := h.placed missed made found hready htook
    have hcard := Finset.card_insert_of_notMem hnew
    have hmisses : c'.misses = c.misses + 1 := missed.misses
    have hhits : c'.hits = c.hits := missed.hits
    refine .inr ⟨_, rfl, hstock, htook.terms, ?_, ?_⟩
    · omega
    · omega

/-- References given up leave what is in stock. -/
theorem releaseAll {ps : List PlacementId} (h : Stock depot keys (↑ps + held) c) :
    Stock depot keys held (c.releaseAll ps) := by
  obtain ⟨hs, hquiet, hprogress⟩ := h.sound.progress_releaseAll h.quiet
  obtain ⟨hsteady, hcount⟩ := h.sound.steady_releaseAll
  have hmade : (c.releaseAll ps).placementsMade = c.placementsMade := by
    obtain ⟨placements, d, he⟩ := releaseAll_eq c ps
    rw [he]
  constructor
  case sound => exact hs
  case quiet => exact hquiet
  case registered =>
    intro key
    rw [releaseAll_registered?, h.registered]
  case own =>
    intro p q hq
    have hlt := hs.numbered p q hq
    rw [hmade] at hlt
    obtain ⟨q₀, hq₀, hkey, -⟩ := hprogress.later.find?_old hq hlt
    rw [releaseAll_registered?, hkey, h.own p q₀ hq₀]
  case steady => exact h.steady.trans hsteady
  case allocations => rw [hcount, h.allocations, releaseAll_misses]
  case sized => exact h.sized

/-- A purge leaves in stock the keys whose placements are held. -/
theorem purge (h : Stock depot keys held c)
    (hheld : ∀ key, key ∈ keys' ↔ ∃ p ∈ held, c.registered? key = some p) :
    Stock depot keys' held c.purge.2 := by
  obtain ⟨hs, -⟩ := h.sound.purge False
  have htrimmed := h.sound.purge_trimmed
  obtain ⟨hsteady, hcount⟩ := h.sound.steady_purge
  have hopen := h.quiet.opensVacant
  -- The registrations that stay are those of placements that are held.
  have hstays : ∀ key p, c.purge.2.registered? key = some p ↔
      p ∈ held ∧ c.registered? key = some p := by
    intro key p
    rw [h.sound.registered?_purge hopen, Option.filter_eq_some_iff, decide_eq_true_iff, and_comm]
  constructor
  case sound => exact hs
  case quiet => exact fun key slot hslot => h.quiet key slot (htrimmed.slots key slot hslot)
  case registered =>
    intro key
    simp only [hheld, Option.isSome_iff_exists, hstays]
  case own =>
    intro p q hq
    rw [h.sound.find?_purge hopen] at hq
    split_ifs at hq with hheld
    exact (hstays _ _).2 ⟨hheld, h.own p q hq⟩
  case steady => exact h.steady.trans hsteady
  case allocations => rw [hcount, h.allocations, htrimmed.misses]
  case sized =>
    intro key hkey
    obtain ⟨p, -, hp⟩ := (hheld key).1 hkey
    exact h.sized key ((h.registered key).1 (by rw [hp]; rfl))

end Stock

end Cache

end TieredWeights
