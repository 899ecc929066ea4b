import Mathlib.Algebra.Order.BigOperators.Group.Finset
import TieredWeights.Bench
import TieredWeights.Proofs.Cache.Stock
import TieredWeights.Proofs.Plan
import TieredWeights.Proofs.Pool.Sessions
import TieredWeights.Proofs.Scene

/-!
# What the strategies start from

Every strategy starts from pools that a configuration describes and that nothing has been asked of
yet, and it asks for the tensors of the same blocks by the same plans. What these need is counted by
references, a key for every parameter, and by the different keys among them.
-/
namespace TieredWeights

/-- A pool that nothing has been asked of. -/
def Pool.IsNew (p : Pool) : Prop :=
  ∃ tier id capacity spill process, p = { tier, id, capacity, spill, process }

namespace Depot

/-- Nothing has been asked of any pool. -/
def IsNew (d : Depot) : Prop := ∀ tier pool, d.pools.find? tier = some pool → pool.IsNew

/-- A depot to start from: nothing is handed out or was ever, and nobody stands in the way of files. -/
structure Ground (d : Depot) : Prop where
  sound : d.Sound 0
  tidy : d.Tidy
  allocations : d.allocations = 0
  returned : d.Returned 0

variable {d d' : Depot} {n : Nat}

theorem newPool_pools (d : Depot) (tier : Tier) (capacity : Option Nat) (spill : Option String) :
    (d.newPool tier capacity spill).2.pools = d.pools := by
  unfold newPool
  cases spill with
  | none => rfl
  | some folder => rcases hm : d.files.makeFolder folder with ⟨e | path, files⟩ <;> simp only [hm]

/-- Pools that join a depot are new. -/
theorem IsNew.addPools {specs : List (Tier × Option Nat × Option String)} {r : Except Fault Unit}
    (hd : d.IsNew) (h : d.addPools specs = (r, d')) : d'.IsNew := by
  induction specs generalizing d with
  | nil =>
    cases h
    exact hd
  | cons spec rest ih =>
    obtain ⟨tier, capacity, spill⟩ := spec
    have hpools := d.newPool_pools tier capacity spill
    rcases hnew : d.newPool tier capacity spill with ⟨e | pool, d₁⟩ <;>
      simp only [Depot.addPools, addPool, hnew] at h hpools
    · cases h
      rwa [IsNew, hpools]
    · refine ih (fun t p hp => ?_) h
      rw [install, Table.find?_insert, hpools] at hp
      split_ifs at hp
      · obtain ⟨⟨folder, rfl⟩, -, -⟩ := newPool_eq_ok hnew
        cases hp
        exact ⟨tier, _, _, folder, _, rfl⟩
      · exact hd t p hp

theorem IsNew.returned (h : d.IsNew) : d.Returned 0 := by
  intro tier pool hpool
  obtain ⟨_, _, _, _, _, rfl⟩ := h tier pool hpool
  exact le_rfl

theorem IsNew.allocations (h : d.IsNew) : d.allocations = 0 := by
  rw [Depot.allocations, sumOf_eq_sum, List.sum_eq_zero_iff]
  intro n hn
  obtain ⟨pool, hpool, rfl⟩ := List.mem_map.1 hn
  obtain ⟨tier, htier⟩ := Table.mem_values.1 hpool
  obtain ⟨_, _, _, _, _, rfl⟩ := h tier pool htier
  rfl

/-- New pools are tidy if no file stands where theirs will, and the system refuses nothing to those
that spill. -/
theorem IsNew.tidy (h : d.IsNew) (hobliging : ∀ tier pool, d.pools.find? tier = some pool →
    pool.spill.isSome → d.files.Obliging) (hfree : ∀ tier pool, d.pools.find? tier = some pool →
    ∀ slot generation path, pool.spillPath? slot generation = some path →
      d.files.contents.find? path = none) : d.Tidy := by
  intro tier pool hpool
  have hpaths := hfree tier pool hpool
  have hspill := hobliging tier pool hpool
  obtain ⟨t, id, capacity, spill, process, rfl⟩ := h tier pool hpool
  exact ⟨Pool.tidy_new hspill hpaths, fun _ => Pool.thrifty_new t id capacity process spill⟩

/-- Notices do not matter to those who start. -/
theorem Ground.note (h : d.Ground) (notice : Notice) : (d.note notice).Ground :=
  ⟨h.sound.of_pools rfl, h.tidy, h.allocations, h.returned⟩

end Depot

namespace Bench

open Scene

/-- The keys of all parameters of some blocks, in their order. -/
def references (blocks : List Block) (split : Split Binary64) : List Key :=
  blocks.flatMap fun block => block.keys (planOf block split)

/-- The different keys of some blocks. -/
def keysOf (blocks : List Block) (split : Split Binary64) : Finset Key :=
  (references blocks split).toFinset

/-- Nobody stands in the way of spill files: the system refuses nothing to the pools of a
configuration that spill, and no file of others is where they spill to. -/
structure Undisturbed (config : Config) (d : Depot) : Prop where
  obliging : ∀ tier pool, (config.furnish (fresh d)).2.pools.find? tier = some pool →
    pool.spill.isSome → (config.furnish (fresh d)).2.files.Obliging
  free : ∀ tier pool, (config.furnish (fresh d)).2.pools.find? tier = some pool →
    ∀ slot generation path, pool.spillPath? slot generation = some path →
      (config.furnish (fresh d)).2.files.contents.find? path = none

/-- The routes to the spill files of as many slots and generations are not too long. -/
def ShortRoutes (config : Config) (d : Depot) (n : Nat) : Prop :=
  (config.furnish (fresh d)).2.Names n n

variable {config : Config} {d depot : Depot} {n : Nat} {blocks : List Block} {block : Block}
  {split : Split Binary64}

/-- Nothing is handed out of a depot that was just furnished. -/
theorem furnish_sound {r : Except Fault Unit} (h : config.furnish (fresh d) = (r, depot)) :
    depot.Sound 0 :=
  Depot.sound_addPools_of_empty rfl h

/-- A configuration furnishes a depot to start from. -/
theorem Undisturbed.ground (h : Undisturbed config d)
    (hfurnish : config.furnish (fresh d) = (.ok (), depot)) : depot.Ground := by
  have hobliging := h.obliging
  have hfree := h.free
  rw [hfurnish] at hobliging hfree
  have hstart : (fresh d).IsNew := fun tier pool hpool => by simp [fresh] at hpool
  have hnew := hstart.addPools hfurnish
  exact ⟨furnish_sound hfurnish, hnew.tidy hobliging hfree, hnew.allocations, hnew.returned⟩

theorem references_append (blocks blocks' : List Block) (split : Split Binary64) :
    references (blocks ++ blocks') split = references blocks split ++ references blocks' split :=
  List.flatMap_append

theorem references_singleton (block : Block) (split : Split Binary64) :
    references [block] split = block.keys (planOf block split) := List.flatMap_singleton _ _

theorem keysOf_append (blocks blocks' : List Block) (split : Split Binary64) :
    keysOf (blocks ++ blocks') split = keysOf blocks split ∪ keysOf blocks' split := by
  rw [keysOf, references_append, List.toFinset_append, keysOf, keysOf]

theorem keysOf_singleton (block : Block) (split : Split Binary64) :
    keysOf [block] split = (block.keys (planOf block split)).toFinset := by
  rw [keysOf, references_singleton]

/-- The keys of a block under a split that is accepted are looked up by name. -/
theorem keys_planOf {brackets : Brackets Binary64} (hbrackets : Brackets.ofSplit split = .ok brackets)
    (block : Block) : block.keys (planOf block split) =
      block.parameters.map (Block.keyOf (brackets.assign block.sizes)) := by
  rw [planOf, hbrackets, Block.keys_assign]

/-- A block has a key for every parameter. -/
theorem length_keys (hsplit : split.validate = .ok ()) (block : Block) :
    (block.keys (planOf block split)).length = block.size := by
  obtain ⟨brackets, hbrackets⟩ := Split.ofSplit_of_validate hsplit
  rw [keys_planOf hbrackets, List.length_map, Block.size]

end Bench

/-- A set of values counts no value twice. -/
theorem sum_toFinset_le {α : Type} [DecidableEq α] (l : List α) (f : α → Nat) :
    ∑ a ∈ l.toFinset, f a ≤ (l.map f).sum := by
  rw [Finset.sum_list_map_count]
  exact Finset.sum_le_sum fun a ha =>
    Nat.le_mul_of_pos_left _ (List.count_pos_iff.2 (List.mem_toFinset.1 ha))

end TieredWeights
