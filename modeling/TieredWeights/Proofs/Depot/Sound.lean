import Mathlib.Data.Multiset.Filter
import TieredWeights.Depot
import TieredWeights.Proofs.Bindings
import TieredWeights.Proofs.Pool.Reading

/-!
# Sound depots

A depot is sound for a multiset of buffers if every pool of it is sound for those of its own tier,
stands under that tier, and has a number of its own. Each operation on a pool of the depot is
either refused or touches one slot of that pool; what it leaves alone is said once, by `Touches`.
-/
namespace TieredWeights.Depot

/-- The buffers of a tier. -/
def onTier (out : Multiset Buffer) (tier : Tier) : Multiset Buffer :=
  out.filter fun b => b.tier = tier

theorem mem_onTier {out : Multiset Buffer} {tier : Tier} {b : Buffer} :
    b ∈ onTier out tier ↔ b ∈ out ∧ b.tier = tier := Multiset.mem_filter

theorem onTier_cons_self {b : Buffer} {tier : Tier} (h : b.tier = tier) (out : Multiset Buffer) :
    onTier (b ::ₘ out) tier = b ::ₘ onTier out tier :=
  Multiset.filter_cons_of_pos (p := fun c : Buffer => c.tier = tier) out h

theorem onTier_cons_ne {b : Buffer} {tier : Tier} (h : tier ≠ b.tier) (out : Multiset Buffer) :
    onTier (b ::ₘ out) tier = onTier out tier :=
  Multiset.filter_cons_of_neg (p := fun c : Buffer => c.tier = tier) out h.symm

/-- The buffers handed out and not taken back, on all tiers, are those of a multiset. -/
structure Sound (d : Depot) (out : Multiset Buffer) : Prop where
  pools : ∀ tier pool, d.pools.find? tier = some pool →
    pool.tier = tier ∧ pool.Sound (onTier out tier)
  housed : ∀ b ∈ out, ∃ pool, d.pools.find? b.tier = some pool
  distinct : ∀ s t p q, d.pools.find? s = some p → d.pools.find? t = some q → p.id = q.id → s = t

/-- A buffer has a backing in the pool of its tier. -/
def IsLive (d : Depot) (b : Buffer) : Prop :=
  ∃ pool k, d.pools.find? b.tier = some pool ∧ pool.backing b = .ok k

/-- A buffer was issued by the pool of its tier and taken back. -/
def Spent (d : Depot) (b : Buffer) : Prop :=
  ∃ pool, d.pools.find? b.tier = some pool ∧ pool.Spent b

/-- Another depot differs from this one in the pool of one tier, and there in one slot at most. -/
structure Touches (d : Depot) (tier : Tier) (slot generation : Nat) (pool pool' : Pool)
    (d' : Depot) : Prop where
  found : d.pools.find? tier = some pool
  pools : d'.pools = d.pools.insert tier pool'
  pool : pool.Touches d.files slot generation pool' d'.files

theorem Spent.not_isLive {d : Depot} {b : Buffer} (h : d.Spent b) : ¬ d.IsLive b := by
  rintro ⟨pool, k, hpool, hk⟩
  obtain ⟨pool', hpool', s, hs, hold⟩ := h
  rw [hpool, Option.some.injEq] at hpool'
  subst hpool'
  rw [(Pool.backing_eq_ok.1 hk).2, Option.some.injEq] at hs
  subst hs
  rcases hold with hlt | ⟨-, hnone⟩
  · exact Nat.lt_irrefl _ hlt
  · cases hnone

variable {d d' : Depot} {out out' rest : Multiset Buffer} {tier : Tier} {b : Buffer}

theorem Sound.isLive (h : d.Sound out) (hb : b ∈ out) : d.IsLive b := by
  obtain ⟨pool, hpool⟩ := h.housed b hb
  obtain ⟨k, hk, -⟩ := (h.pools b.tier pool hpool).2.backing (mem_onTier.2 ⟨hb, rfl⟩)
  exact ⟨pool, k, hpool, hk⟩

/-- A pool issues buffers of the tier that it stands for. -/
theorem Sound.tier_of_owns {pool : Pool} (h : d.Sound out) (hpool : d.pools.find? tier = some pool)
    (howns : pool.owns b) : b.tier = tier :=
  (Pool.owns_iff.1 howns).1.trans (h.pools tier pool hpool).1

/-- Buffers that are out on one tier never share a slot. -/
theorem Sound.slot_ne {c : Buffer} (h : d.Sound (b ::ₘ out)) (hc : c ∈ out)
    (ht : c.tier = b.tier) : c.slot ≠ b.slot := by
  obtain ⟨pool, hpool⟩ := h.housed b (Multiset.mem_cons_self b out)
  have hs := (h.pools b.tier pool hpool).2
  rw [onTier_cons_self rfl] at hs
  exact hs.slot_ne (mem_onTier.2 ⟨hc, ht⟩)

theorem read_eq {pool : Pool} (h : d.pools.find? tier = some pool) (b : Buffer) :
    d.read tier b = pool.read d.files b := by
  rw [Depot.read, h]

namespace Touches

variable {slot generation : Nat} {pool pool' : Pool}

theorem find?_self (h : d.Touches tier slot generation pool pool' d') :
    d'.pools.find? tier = some pool' := by
  rw [h.pools, Table.find?_insert_self]

theorem find?_ne (h : d.Touches tier slot generation pool pool' d') {t : Tier} (ht : t ≠ tier) :
    d'.pools.find? t = d.pools.find? t := by
  rw [h.pools, Table.find?_insert_ne _ _ ht]

theorem isSome (h : d.Touches tier slot generation pool pool' d') (t : Tier) :
    (d'.pools.find? t).isSome = (d.pools.find? t).isSome := by
  by_cases ht : t = tier
  · rw [ht, h.find?_self, h.found]
    rfl
  · rw [h.find?_ne ht]

theorem spent (h : d.Touches tier slot generation pool pool' d') (hb : d.Spent b) :
    d'.Spent b := by
  obtain ⟨q, hq, hs⟩ := hb
  by_cases ht : b.tier = tier
  · rw [ht, h.found, Option.some.injEq] at hq
    subst hq
    exact ⟨pool', by rw [ht, h.find?_self], h.pool.spent hs⟩
  · exact ⟨q, by rw [h.find?_ne ht, hq], hs⟩

/-- A touched depot is sound if its touched pool is, and the buffers of other tiers are the same. -/
theorem sound (h : d.Touches tier slot generation pool pool' d') (hd : d.Sound out)
    (hpool : pool'.Sound (onTier out' tier)) (hout : ∀ t, t ≠ tier → onTier out' t = onTier out t) :
    d'.Sound out' := by
  have hid := h.pool.id
  refine ⟨?_, ?_, ?_⟩
  · intro t q hq
    by_cases ht : t = tier
    · subst ht
      rw [h.find?_self, Option.some.injEq] at hq
      subst hq
      exact ⟨h.pool.tier.trans (hd.pools t pool h.found).1, hpool⟩
    · rw [h.find?_ne ht] at hq
      rw [hout t ht]
      exact hd.pools t q hq
  · intro b hb
    by_cases ht : b.tier = tier
    · exact ⟨pool', by rw [ht, h.find?_self]⟩
    · have hmem : b ∈ onTier out' b.tier := mem_onTier.2 ⟨hb, rfl⟩
      rw [hout _ ht] at hmem
      obtain ⟨q, hq⟩ := hd.housed b (mem_onTier.1 hmem).1
      exact ⟨q, by rw [h.find?_ne ht, hq]⟩
  · intro s t p q hp hq he
    by_cases hs : s = tier <;> by_cases ht : t = tier
    · rw [hs, ht]
    · rw [hs, h.find?_self, Option.some.injEq] at hp
      rw [h.find?_ne ht] at hq
      rw [hs]
      exact hd.distinct tier t pool q h.found hq (by rw [← he, ← hp, hid])
    · rw [ht, h.find?_self, Option.some.injEq] at hq
      rw [h.find?_ne hs] at hp
      rw [ht]
      exact hd.distinct s tier p pool hp h.found (by rw [he, ← hq, hid])
    · rw [h.find?_ne hs] at hp
      rw [h.find?_ne ht] at hq
      exact hd.distinct s t p q hp hq he

/-- What touches a slot leaves what a buffer of another slot or of another tier reads. -/
theorem read (h : d.Touches tier slot generation pool pool' d') (hd : d.Sound out) (hb : b ∈ out)
    (hne : b.tier = tier → b.slot ≠ slot) {bytes : ByteArray}
    (hr : d.read b.tier b = .ok bytes) : d'.read b.tier b = .ok bytes := by
  obtain ⟨q, hq⟩ := hd.housed b hb
  have hmem : b ∈ onTier out b.tier := mem_onTier.2 ⟨hb, rfl⟩
  have hs := (hd.pools b.tier q hq).2
  rw [read_eq hq] at hr
  by_cases ht : b.tier = tier
  · rw [ht, h.found, Option.some.injEq] at hq
    subst hq
    rw [read_eq (by rw [ht, h.find?_self])]
    exact hs.read_of_touches hmem h.pool (hne ht) hr
  · rw [read_eq (by rw [h.find?_ne ht, hq])]
    refine hs.read_of_files hmem (fun path hpath => h.pool.files path fun he => ht ?_) hr
    exact hd.distinct _ _ _ _ hq h.found (Pool.spillPath?_inj hpath he).1

end Touches

/-- A new pool is sound, with nothing handed out. -/
theorem sound_new (tier : Tier) (id capacity process : Nat) (spill : Option Folder) :
    Pool.Sound { tier, id, capacity, spill, process } 0 where
  issued b hb := absurd hb (Multiset.notMem_zero b)
  backed b hb := absurd hb (Multiset.notMem_zero b)
  apart := Multiset.nodup_zero
  vacant _ hi := absurd hi List.not_mem_nil
  free_nodup := .nil
  size := rfl
  used := rfl
  within := Nat.zero_le _
  counted := rfl

theorem sound_install {pool : Pool} (hd : d.Sound 0) (hn : ∀ t p, d.pools.find? t = some p →
    p.id ≤ d.poolsMade) (hp : pool.Sound 0) (hid : d.poolsMade < pool.id) :
    (d.install pool).Sound 0 := by
  refine ⟨fun t p hp' => ?_, fun b hb => absurd hb (Multiset.notMem_zero b), fun s t p q h h' he => ?_⟩
  · rw [install, Table.find?_insert] at hp'
    split_ifs at hp' with ht
    · rw [Option.some.injEq] at hp'
      subst hp'
      exact ⟨ht.symm, hp⟩
    · exact hd.pools t p hp'
  · rw [install, Table.find?_insert] at h h'
    split_ifs at h h' with hs ht ht
    · rw [hs, ht]
    · have hle := hn t q h'
      rw [Option.some.injEq] at h
      subst h
      omega
    · have hle := hn s p h
      rw [Option.some.injEq] at h'
      subst h'
      omega
    · exact hd.distinct s t p q h h' he

/-- A depot of new pools is sound, with nothing handed out. -/
theorem sound_addPools {specs : List (Tier × Option Nat × Option String)} {r : Except Fault Unit}
    (hd : d.Sound 0) (hn : ∀ t p, d.pools.find? t = some p → p.id ≤ d.poolsMade)
    (h : d.addPools specs = (r, d')) : d'.Sound 0 := by
  induction specs generalizing d with
  | nil =>
    cases h
    exact hd
  | cons spec rest ih =>
    obtain ⟨tier, capacity, spill⟩ := spec
    have hkeep : ∀ files, Depot.Sound { d with files } 0 := fun files =>
      ⟨hd.pools, hd.housed, hd.distinct⟩
    have step : ∀ files spill', (Depot.install { d with files, poolsMade := d.poolsMade + 1 }
        { tier, id := d.poolsMade + 1, capacity := capacity.getD unbounded, spill := spill',
          process := d.process }).addPools rest = (r, d') → d'.Sound 0 := by
      intro files spill' h
      refine ih ?_ ?_ h
      · have hs := sound_install (hkeep files) hn (sound_new tier (d.poolsMade + 1)
          (capacity.getD unbounded) d.process spill') (Nat.lt_succ_self _)
        exact ⟨hs.pools, hs.housed, hs.distinct⟩
      · intro t p hp
        rw [install, Table.find?_insert] at hp
        split_ifs at hp with ht
        · rw [Option.some.injEq] at hp
          subst hp
          exact le_rfl
        · exact Nat.le_succ_of_le (hn t p hp)
    cases spill with
    | none => exact step d.files none h
    | some folder =>
      rcases hm : d.files.makeFolder folder with ⟨e | path, files⟩
      · simp only [addPools, addPool, newPool, hm, Prod.mk.injEq] at h
        rw [← h.2]
        exact hkeep files
      · simp only [addPools, addPool, newPool, hm] at h
        exact step files (some (.named folder path)) h

/-- Where there were no pools, nothing is handed out of the new ones. -/
theorem sound_addPools_of_empty {specs : List (Tier × Option Nat × Option String)}
    {r : Except Fault Unit} (hd : d.pools = .empty) (h : d.addPools specs = (r, d')) :
    d'.Sound 0 := by
  have hempty : ∀ tier pool, d.pools.find? tier ≠ some pool := fun tier pool => by
    rw [hd, Table.find?_empty]
    exact nofun
  refine sound_addPools ⟨fun t p hp => absurd hp (hempty t p), ?_, ?_⟩
    (fun t p hp => absurd hp (hempty t p)) h
  · exact fun b hb => absurd hb (Multiset.notMem_zero b)
  · exact fun t _ p _ hp => absurd hp (hempty t p)

end TieredWeights.Depot
