import TieredWeights.Proofs.Depot.Work
import TieredWeights.Proofs.Pool.Refusals

/-!
# Tidy depots

A depot is tidy if each of its pools is tidy among the files and, if it spills, thrifty. An
allocation that is granted, a write and a release keep a depot tidy and its pools where they are:
the one pool that an operation touches stays tidy, and no other has spill files at the paths that
are touched. Only a granted allocation counts.
-/
namespace TieredWeights

namespace Pool

/-- What allocations and writes leave as it is. -/
def terms (p : Pool) : (Tier × Nat × Nat × Nat × Option Folder) × Nat := (p.site, p.releases)

variable {p p' : Pool} {f f' : Files}

theorem takeSlot_terms (p : Pool) : p.takeSlot.2.terms = p.terms := by
  unfold takeSlot
  split <;> rfl

theorem allocate_terms {n : Nat} {type : ElementType} {r : Except Fault Buffer}
    (h : p.allocate f n type = (r, p', f')) : p'.terms = p.terms := by
  rcases allocate_cases h with ⟨e, -, -, rfl | rfl⟩ | ⟨-, -, rfl, -⟩ | ⟨k, -, -, rfl, -, -⟩
  · rfl
  · exact takeSlot_terms p
  · exact takeSlot_terms p
  · exact takeSlot_terms p

theorem copyIn_terms {b : Buffer} {bytes : ByteArray} {r : Except Fault Unit}
    (h : p.copyIn f b bytes = (r, p', f')) : p'.terms = p.terms := by
  rcases copyIn_cases h with ⟨e, -, rfl, -⟩ | ⟨c, -, -, -, -, rfl⟩ |
    ⟨path, old, part, -, -, rfl, -⟩ <;> rfl

end Pool

namespace Depot

/-- Every pool keeps a trait, and no pool comes or goes. -/
def Keeps {α : Type} (trait : Pool → α) (d d' : Depot) : Prop :=
  ∀ tier, (d'.pools.find? tier).map trait = (d.pools.find? tier).map trait

/-- Every pool is tidy among the files, and thrifty if it spills. -/
def Tidy (d : Depot) : Prop := ∀ tier pool, d.pools.find? tier = some pool →
  pool.Tidy d.files ∧ (pool.spill.isSome → pool.Thrifty)

/-- The pool of a tier is there, and the file system takes a file of `n` bytes if it spills. -/
def Sized (d : Depot) (tier : Tier) (n : Nat) : Prop :=
  ∃ pool, d.pools.find? tier = some pool ∧ pool.Sized n

/-- The file system takes the names of the first `n` slots of each pool, in each of their first `ages`
generations. -/
def Names (d : Depot) (n ages : Nat) : Prop :=
  ∀ tier pool, d.pools.find? tier = some pool → pool.Names n ages

/-- No pool has taken back more than `n` buffers. -/
def Returned (d : Depot) (n : Nat) : Prop :=
  ∀ tier pool, d.pools.find? tier = some pool → pool.releases ≤ n

/-- No pool has a folder to spill to. -/
def InMemory (d : Depot) : Prop := ∀ tier pool, d.pools.find? tier = some pool → pool.spill = none

variable {d d' d'' : Depot} {tier : Tier} {pool pool' : Pool} {out rest : Multiset Buffer}
  {b : Buffer} {n : Nat}

namespace Keeps

variable {α : Type} {trait : Pool → α}

theorem refl (trait : Pool → α) (d : Depot) : Keeps trait d d := fun _ => rfl

theorem trans (h : Keeps trait d d') (h' : Keeps trait d' d'') : Keeps trait d d'' :=
  fun tier => (h' tier).trans (h tier)

/-- One pool is put in the place of another. -/
theorem of_insert (hpool : d.pools.find? tier = some pool) (htrait : trait pool' = trait pool)
    (h : d'.pools = d.pools.insert tier pool') : Keeps trait d d' := by
  intro t
  rw [h, Table.find?_insert]
  split_ifs with ht
  · rw [ht, hpool, Option.map_some, Option.map_some, htrait]
  · rfl

/-- The pool of a tier, before and after. -/
theorem find?_before (h : Keeps trait d d') (hpool : d'.pools.find? tier = some pool') :
    ∃ pool, d.pools.find? tier = some pool ∧ trait pool' = trait pool := by
  have htier := h tier
  rw [hpool, Option.map_some] at htier
  obtain ⟨pool, hfind, htrait⟩ := Option.map_eq_some_iff.1 htier.symm
  exact ⟨pool, hfind, htrait.symm⟩

theorem find?_after (h : Keeps trait d d') (hpool : d.pools.find? tier = some pool) :
    ∃ pool', d'.pools.find? tier = some pool' ∧ trait pool' = trait pool := by
  have htier := h tier
  rw [hpool, Option.map_some] at htier
  exact Option.map_eq_some_iff.1 htier

/-- The file system takes what it took, as pools stay where they are. -/
theorem sized (h : Keeps Pool.site d d') (hs : d'.Sized tier n) : d.Sized tier n := by
  obtain ⟨pool', hpool', hsized⟩ := hs
  obtain ⟨pool, hpool, hsite⟩ := h.find?_before hpool'
  exact ⟨pool, hpool, (Pool.sized_of_site hsite).1 hsized⟩

/-- Pools that keep their terms stay where they are. -/
theorem sites (h : Keeps Pool.terms d d') : Keeps Pool.site d d' := by
  intro tier
  have hterms := congrArg (Option.map Prod.fst) (h tier)
  rwa [Option.map_map, Option.map_map] at hterms

/-- Pools that keep their terms take nothing back. -/
theorem returned (h : Keeps Pool.terms d d') (hd : d.Returned n) : d'.Returned n := by
  intro tier pool' hpool'
  obtain ⟨pool, hpool, hterms⟩ := h.find?_before hpool'
  have hreleases : pool'.releases = pool.releases := congrArg Prod.snd hterms
  rw [hreleases]
  exact hd tier pool hpool

theorem isSome (h : Keeps trait d d') (tier : Tier) :
    (d'.pools.find? tier).isSome = (d.pools.find? tier).isSome := by
  rw [← Option.isSome_map (f := trait), h tier, Option.isSome_map]

end Keeps

/-- Pools stay where they are, and a tidy depot stays tidy. -/
structure Steady (d d' : Depot) : Prop where
  sites : Keeps Pool.site d d'
  tidy : d.Tidy → d'.Tidy

namespace Steady

theorem refl (d : Depot) : Steady d d := ⟨.refl _ d, id⟩

theorem trans (h : Steady d d') (h' : Steady d' d'') : Steady d d'' :=
  ⟨h.sites.trans h'.sites, fun ht => h'.tidy (h.tidy ht)⟩

/-- Notices are no matter of order. -/
theorem of_pools (h : d'.pools = d.pools) (hf : d'.files = d.files) : Steady d d' := by
  refine ⟨fun tier => by rw [h], fun ht tier pool hpool => ?_⟩
  rw [h] at hpool
  rw [hf]
  exact ht tier pool hpool

end Steady

/-- A touched depot is tidy if its touched pool is: at the paths of other pools nothing changes. -/
theorem Touches.steady {slot generation : Nat} (h : d.Touches tier slot generation pool pool' d')
    (hd : d.Sound out) (htidy : pool.Tidy d.files → pool'.Tidy d'.files)
    (hthrifty : pool.Thrifty → pool'.Thrifty) : Steady d d' := by
  refine ⟨.of_insert h.found h.pool.site h.pools, fun ht t q hq => ?_⟩
  obtain ⟨hfiles, hcount⟩ := ht tier pool h.found
  by_cases htier : t = tier
  · subst htier
    rw [h.find?_self, Option.some.injEq] at hq
    subst hq
    refine ⟨htidy hfiles, fun hspill => hthrifty (hcount ?_)⟩
    rwa [h.pool.spill] at hspill
  · rw [h.find?_ne htier] at hq
    obtain ⟨hother, hcount'⟩ := ht t q hq
    refine ⟨hother.of_files h.pool.refuses fun i g path hpath =>
      h.pool.files path fun hself => htier ?_, hcount'⟩
    exact hd.distinct t tier q pool hq h.found (Pool.spillPath?_inj hpath hself).1

theorem allocations_of_touches {slot generation : Nat}
    (h : d.Touches tier slot generation pool pool' d') :
    d'.allocations + pool.allocations = d.allocations + pool'.allocations := by
  rw [allocations, allocations, h.pools]
  exact Table.sumOf_values_insert Pool.allocations h.found pool'

theorem allocations_le (hpool : d.pools.find? tier = some pool) :
    pool.allocations ≤ d.allocations := by
  have hsum := Table.sumOf_values_insert Pool.allocations hpool { pool with allocations := 0 }
  exact (Nat.le_add_left _ _).trans hsum.le

/-- What a granted allocation leaves. -/
theorem Sound.allocated {type : ElementType} (hd : d.Sound out)
    (h : d.allocate tier n type = (.ok b, d')) : Steady d d' ∧ Keeps Pool.terms d d' ∧
      d'.allocations = d.allocations + 1 ∧
      d.Sized tier n := by
  unfold Depot.allocate at h
  cases hpool : d.pools.find? tier with
  | none =>
    simp only [hpool] at h
    cases h
  | some pool =>
    rcases ha : pool.allocate d.files n type with ⟨r, pool', files⟩
    simp only [hpool, ha, Prod.mk.injEq] at h
    obtain ⟨rfl, rfl⟩ := h
    have hs := (hd.pools tier pool hpool).2
    have htouch : d.Touches tier _ _ pool pool'
        { d with pools := d.pools.insert tier pool', files } :=
      ⟨hpool, rfl, Pool.touches_allocate ha⟩
    have hcount := allocations_of_touches htouch
    have hone := Pool.allocations_of_allocate ha
    refine ⟨htouch.steady hd (fun ht => ht.allocated hs ha) fun ht => ht.allocated hs ha,
      .of_insert hpool (Pool.allocate_terms ha) rfl, by omega, pool, hpool,
      (Pool.limits_of_allocate ha).1⟩

/-- What a write leaves. -/
theorem Sound.written {bytes : ByteArray} {r : Except Fault Unit} (hd : d.Sound (b ::ₘ rest))
    (hb : b.tier = tier) (h : d.copyIn tier b bytes = (r, d')) :
    Steady d d' ∧ Keeps Pool.terms d d' ∧ d'.allocations = d.allocations := by
  unfold Depot.copyIn at h
  cases hpool : d.pools.find? tier with
  | none =>
    simp only [hpool] at h
    cases h
    exact ⟨.refl d, .refl _ d, rfl⟩
  | some pool =>
    rcases hc : pool.copyIn d.files b bytes with ⟨r', pool', files⟩
    simp only [hpool, hc, Prod.mk.injEq] at h
    obtain ⟨rfl, rfl⟩ := h
    have hs := (hd.pools tier pool hpool).2
    rw [onTier_cons_self hb] at hs
    have htouch : d.Touches tier b.slot b.generation pool pool'
        { d with pools := d.pools.insert tier pool', files } :=
      ⟨hpool, rfl, hs.touches_copyIn (Multiset.mem_cons_self b _) hc⟩
    have hcount := allocations_of_touches htouch
    have hsame := Pool.allocations_of_copyIn hc
    exact ⟨htouch.steady hd (fun ht => ht.copyIn hc) fun ht => ht.copyIn hc,
      .of_insert hpool (Pool.copyIn_terms hc) rfl, by omega⟩

/-- What a release leaves. -/
theorem Sound.released {r : Except Fault Unit} (hd : d.Sound (b ::ₘ rest)) (hb : b.tier = tier)
    (h : d.release tier b = (r, d')) : Steady d d' ∧ d'.allocations = d.allocations := by
  obtain ⟨pool, hpool⟩ := hd.housed b (Multiset.mem_cons_self b rest)
  rw [hb] at hpool
  have hs := (hd.pools tier pool hpool).2
  rw [onTier_cons_self hb] at hs
  obtain ⟨k, hk, -⟩ := hs.backing (Multiset.mem_cons_self b _)
  rcases hr : pool.release d.files b with ⟨r', pool', files⟩
  obtain ⟨⟨notices, rfl⟩, rfl, hfiles, hrefuses⟩ := hs.release hr
  simp only [Depot.release, hpool, hr, Prod.mk.injEq] at h
  obtain ⟨rfl, rfl⟩ := h
  have htouch : d.Touches tier b.slot b.generation pool (pool.vacate b)
      { d with pools := d.pools.insert tier (pool.vacate b), files, notices := d.notices ++ notices } :=
    ⟨hpool, rfl, (hs.touches_vacate hfiles hrefuses).1⟩
  have hcount := allocations_of_touches htouch
  have hsame : (pool.vacate b).allocations = pool.allocations := rfl
  refine ⟨htouch.steady hd (fun ht => ?_) fun ht => ht.vacate hk, by omega⟩
  obtain ⟨files', hrelease, htidy, -⟩ := ht.release hk
  rw [hr] at hrelease
  cases hrelease
  exact htidy

end Depot

end TieredWeights
