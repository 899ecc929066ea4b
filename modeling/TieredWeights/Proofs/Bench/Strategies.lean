import TieredWeights.Proofs.Accepted
import TieredWeights.Proofs.Bench.Naive
import TieredWeights.Proofs.Bench.Sharing
import TieredWeights.Proofs.Depot.OwnFiles
import TieredWeights.Proofs.Savings

/-!
# Strategies compared

The less a strategy holds on to, the less it asks of the pools: what has room for every reference
has room for the different keys of all blocks, and what has room for these has it for those of any
two blocks that follow each other. Letting go costs allocations instead, for what comes again is
placed again, but never more than one for each reference.
-/
namespace TieredWeights

/-- All positive shares of a split are those of one tier. -/
def Split.Single (split : Split Binary64) : Prop :=
  ∃ tier, ∀ x ∈ split.shares, 0 < x.2 → x.1 = tier

/-- With names for `n` slots in each of `n` generations there is room for keys that fit, however often
they are given back in `n` allocations. -/
theorem Depot.Names.accommodates {d : Depot} {keys : Finset Key} {n : Nat} (h : d.Names n n)
    (hzero : d.allocations = 0) (hsized : ∀ key ∈ keys, d.Sized key.tier key.identity.bytes)
    (hfits : d.Fits keys) : d.Accommodates keys n (n - 1) where
  sized := hsized
  fits := hfits
  names tier pool hpool slot hslot earlier hearlier := by
    rw [hzero, Nat.zero_add, Nat.lt_min] at hslot
    exact h tier pool hpool slot hslot.1 earlier (by omega)

namespace Bench

open Scene

variable {config : Config} {d depot : Depot} {blocks : List Block} {split : Split Binary64}
  {keep : Bool} {l : Loader}

/-- The references of blocks are the identities of their tensors. -/
theorem map_identity (hsplit : split.validate = .ok ()) (blocks : List Block) :
    (references blocks split).map Key.identity = (tensorsOf blocks).map Tensor.identity := by
  obtain ⟨brackets, hbrackets⟩ := Split.ofSplit_of_validate hsplit
  rw [references, tensorsOf, List.map_flatMap, List.map_flatMap]
  refine List.flatMap_congr fun block _ => ?_
  rw [keys_planOf hbrackets, List.map_map, List.map_map]
  rfl

theorem sum_references (hsplit : split.validate = .ok ()) (blocks : List Block) :
    ((references blocks split).map fun key => key.identity.bytes).sum =
      (Savings.ofBlocks blocks).naive := by
  have hbytes := congrArg (List.map Identity.bytes) (map_identity hsplit blocks)
  rw [List.map_map, List.map_map] at hbytes
  rw [Savings.naive_ofBlocks]
  exact congrArg List.sum hbytes

/-- The keys of one block. -/
def keysAt (blocks : List Block) (split : Split Binary64) (index : Nat) : Finset Key :=
  keysOf blocks[index]?.toList split

theorem keysAt_eq {block : Block} {index : Nat} (hblock : blocks[index]? = some block) :
    keysAt blocks split index = (block.keys (planOf block split)).toFinset := by
  rw [keysAt, hblock, Option.toList_some, keysOf_singleton]

/-- A run that lets go comes to the first block with nothing and to every other with the one before. -/
theorem keysBetween_lazy (split : Split Binary64) {index : Nat} (hindex : index < blocks.length) :
    keysBetween blocks split (oldest false index) index =
        (if index = 0 then ∅ else keysAt blocks split (index - 1)) ∧
      keysBetween blocks split (oldest false index) (index + 1) =
        keysAt blocks split (index - 1) ∪ keysAt blocks split index := by
  have hself : ∀ i, i < blocks.length → keysBetween blocks split i (i + 1) = keysAt blocks split i := by
    intro i hi
    have hblock := List.getElem?_eq_getElem hi
    rw [keysBetween_succ hblock le_rfl, keysBetween_self, Finset.empty_union, keysAt_eq hblock]
  rw [oldest, if_neg Bool.false_ne_true]
  cases index with
  | zero => exact ⟨keysBetween_self _ _ 0, by rw [hself 0 hindex, Nat.zero_sub, Finset.union_self]⟩
  | succ before =>
    have hblock := List.getElem?_eq_getElem hindex
    have hbefore := hself before (Nat.lt_of_succ_lt hindex)
    rw [Nat.add_sub_cancel, if_neg (Nat.succ_ne_zero before), hbefore,
      keysBetween_succ hblock (Nat.le_succ before), hbefore, keysAt_eq hblock]
    exact ⟨rfl, rfl⟩

/-- The peak of a run that lets go is reached with two blocks that follow each other. -/
theorem peakOf_lazy (blocks : List Block) (split : Split Binary64) :
    peakOf blocks split false blocks.length = (Finset.range blocks.length).sup fun i =>
      bytesOf (keysAt blocks split (i - 1) ∪ keysAt blocks split i) :=
  Finset.sup_congr rfl fun _ hi => congrArg bytesOf (keysBetween_lazy split (Finset.mem_range.1 hi)).2

theorem peakOf_le (blocks : List Block) (split : Split Binary64) (keep : Bool) (index : Nat) :
    peakOf blocks split keep index ≤ bytesOf (keysOf blocks split) :=
  Finset.sup_le fun _ _ => bytesOf_mono (keysOf_subset fun _ hb =>
    List.mem_of_mem_take (List.mem_of_mem_drop hb))

/-- The peak of a run that keeps every block is reached with all of them. -/
theorem peakOf_shared (blocks : List Block) (split : Split Binary64) :
    peakOf blocks split true blocks.length = bytesOf (keysOf blocks split) := by
  refine le_antisymm (peakOf_le blocks split true _) ?_
  cases hlength : blocks.length with
  | zero =>
    rw [List.length_eq_zero_iff.1 hlength]
    rfl
  | succ last =>
    have hall : keysBetween blocks split (oldest true last) (last + 1) = keysOf blocks split := by
      rw [keysBetween, oldest, if_pos rfl, List.drop_zero, ← hlength, List.take_length]
    rw [← hall]
    exact Finset.le_sup (f := fun i => bytesOf (keysBetween blocks split (oldest true i) (i + 1)))
      (Finset.self_mem_range_succ last)

/-- A run of a strategy is done, with its allocations and its peak. -/
def Done (config : Config) (blocks : List Block) (split : Split Binary64) (d : Depot)
    (strategy : Strategy) (allocations peak : Nat) : Prop :=
  (run config blocks split d strategy).1 = .ok (.done allocations peak)

/-- Only a run over pools that could be made is done. -/
theorem Done.furnished {strategy : Strategy} {a p : Nat} (hconfig : config.validate = .ok ())
    (h : Done config blocks split d strategy a p) :
    ∃ depot, config.furnish (fresh d) = (.ok (), depot) := by
  rcases hfurnish : config.furnish (fresh d) with ⟨e | u, depot⟩
  · exfalso
    cases strategy <;>
      simp [Done, run, runNaive, runShared, Config.loader, hconfig, hfurnish] at h
  · exact ⟨depot, rfl⟩

/-- Only a run that makes no loader is done without memory for its slots. -/
theorem Done.slots {strategy : Strategy} {a p : Nat} (hconfig : config.validate = .ok ())
    (hloads : strategy ≠ .naive) (h : Done config blocks split d strategy a p) :
    config.blocks ≤ BlockStore.slotLimit := by
  by_contra hlarge
  obtain ⟨depot, hfurnish⟩ := h.furnished hconfig
  cases strategy <;>
    simp [Done, run, runShared, Config.loader, hconfig, hfurnish,
      Loader.overPools_of_lt (Nat.lt_of_not_le hlarge)] at h hloads

/-- A run that is done without sharing has had room for all, and counts every reference. -/
theorem Done.naive {a p : Nat} (hsplit : split.validate = .ok ())
    (hfurnish : config.furnish (fresh d) = (.ok (), depot)) (hground : depot.Ground)
    (h : Done config blocks split d .naive a p) :
    depot.HasRoom (references blocks split) ∧
      a = (references blocks split).length ∧ p = (Savings.ofBlocks blocks).naive := by
  obtain ⟨depot', d₁, buffers, hfurnish', hplaced, rfl, rfl⟩ :=
    runNaive_done hsplit (show runNaive config blocks split d = _ from Prod.ext h rfl)
  rw [hfurnish] at hfurnish'
  cases hfurnish'
  have hplaced := hplaced hground.sound
  refine ⟨hplaced.hasRoom hground.tidy hground.returned, ?_, ?_⟩
  · rw [hplaced.allocations, hground.allocations, Nat.zero_add]
  · rw [hplaced.usedBytes, sum_references hsplit]

/-- Where all blocks have been loaded, what was placed lies between the different keys and the
references; and a run that keeps every block has had room for all. -/
theorem Running.finished (h : Running depot blocks split keep blocks.length l) :
    (keysOf blocks split).card ≤ l.cache.misses ∧
      l.cache.misses ≤ (references blocks split).length ∧
      (keep = true → l.cache.misses = (keysOf blocks split).card ∧
        (∀ key ∈ keysOf blocks split, depot.Sized key.tier key.identity.bytes) ∧
        depot.Fits (keysOf blocks split)) := by
  have hcalls := h.counts.calls
  have hdistinct := h.counts.distinct
  have honce := h.counts.once
  rw [List.take_length] at hcalls hdistinct honce
  refine ⟨hdistinct, by omega, fun hkeep => ⟨honce hkeep, ?_⟩⟩
  have hkeys : keysBetween blocks split (oldest keep blocks.length) blocks.length =
      keysOf blocks split := by
    rw [keysBetween, oldest, if_pos hkeep, List.drop_zero, List.take_length]
  rw [← hkeys]
  exact ⟨h.stock.sized, h.stock.fits⟩

section

variable (hconfig : config.validate = .ok ()) (hsplit : split.validate = .ok ())
  (hblocks : blocks.length ≤ config.blocks) (hfurnish : config.furnish (fresh d) = (.ok (), depot))
  (hground : depot.Ground)

include hconfig hsplit hblocks hfurnish hground

/-- A run that keeps every block is done if the pools can accommodate all keys without giving back. -/
theorem exists_done_shared (hslots : config.blocks ≤ BlockStore.slotLimit)
    (hall : depot.Accommodates (keysOf blocks split) (references blocks split).length 0) :
    ∃ a p, Done config blocks split d .shared a p := by
  rcases runShared_cases true hconfig hsplit hblocks hslots hfurnish hground with
    ⟨-, hfull⟩ | ⟨notice, l, hdone, -⟩
  · exact absurd hall hfull
  · exact ⟨_, _, hdone⟩

/-- A run that is done keeping every block has had room for all keys. -/
theorem Done.shared {a p : Nat} (h : Done config blocks split d .shared a p) :
    a = (keysOf blocks split).card ∧ p = bytesOf (keysOf blocks split) ∧
      (∀ key ∈ keysOf blocks split, depot.Sized key.tier key.identity.bytes) ∧
      depot.Fits (keysOf blocks split) := by
  have hslots := h.slots hconfig (by decide)
  rcases runShared_cases true hconfig hsplit hblocks hslots hfurnish hground with
    ⟨hnot, -⟩ | ⟨notice, l, hdone, hrunning⟩
  · exact absurd h (hnot a p)
  · obtain ⟨-, -, honly⟩ := hrunning.finished
    obtain ⟨hcard, hsized, hfits⟩ := honly rfl
    rw [peakOf_shared, hcard] at hdone
    cases h.symm.trans hdone
    exact ⟨rfl, rfl, hsized, hfits⟩

/-- A run that lets go is done if the pools can accommodate all keys as often as it may take. -/
theorem exists_done_lazy (hslots : config.blocks ≤ BlockStore.slotLimit)
    (hall : depot.Accommodates (keysOf blocks split) (references blocks split).length
      (returnsOf blocks split false)) :
    ∃ a p, Done config blocks split d .lazy a p := by
  rcases runShared_cases false hconfig hsplit hblocks hslots hfurnish hground with
    ⟨-, hfull⟩ | ⟨notice, l, hdone, -⟩
  · exact absurd hall hfull
  · exact ⟨_, _, hdone⟩

theorem Done.lazy {a p : Nat} (h : Done config blocks split d .lazy a p) :
    (keysOf blocks split).card ≤ a ∧ a ≤ (references blocks split).length ∧
      p = peakOf blocks split false blocks.length := by
  have hslots := h.slots hconfig (by decide)
  rcases runShared_cases false hconfig hsplit hblocks hslots hfurnish hground with
    ⟨hnot, -⟩ | ⟨notice, l, hdone, hrunning⟩
  · exact absurd h (hnot a p)
  · obtain ⟨hdistinct, hcalls, -⟩ := hrunning.finished
    cases h.symm.trans hdone
    exact ⟨hdistinct, hcalls, rfl⟩

/-- A run that lets go allocates for each block what the one before does not have. -/
theorem Done.lazy_allocations {a p : Nat} (h : Done config blocks split d .lazy a p) :
    a = ∑ i ∈ Finset.range blocks.length,
      (keysAt blocks split i \ if i = 0 then ∅ else keysAt blocks split (i - 1)).card := by
  have hslots := h.slots hconfig (by decide)
  rcases runShared_cases false hconfig hsplit hblocks hslots hfurnish hground with
    ⟨hnot, -⟩ | ⟨notice, l, hdone, hrunning⟩
  · exact absurd h (hnot a p)
  · cases h.symm.trans hdone
    refine hrunning.counts.placed.trans (Finset.sum_congr rfl fun i hi => congrArg Finset.card ?_)
    obtain ⟨hbefore, hafter⟩ := keysBetween_lazy split (Finset.mem_range.1 hi)
    rw [hbefore, hafter]
    split_ifs with hzero
    · rw [hzero, Nat.zero_sub, Finset.union_self]
    · exact Finset.union_sdiff_left _ _

end

end Bench

section

open Bench

/-- Three tensors. The first block has one of them twice, and the last block has it again. -/
def sampleModel : List Block :=
  let a : Tensor := ⟨1, .u8, [4], zeroBytes 4, by decide⟩
  let b : Tensor := ⟨2, .u8, [12], zeroBytes 12, by decide⟩
  let c : Tensor := ⟨3, .u8, [4], zeroBytes 4, by decide⟩
  [⟨[("weight", a), ("tied", a)], by decide⟩, ⟨[("weight", b)], by decide⟩,
    ⟨[("weight", c)], by decide⟩, ⟨[("weight", a)], by decide⟩]

/-- A disk that spills to a folder and has room for all references. -/
def sampleDisk : Config := { blocks := 4, diskCapacity := some 28, spill := some "spill" }

/-- Everything on the disk. -/
def sampleShares : Split Binary64 := ⟨100, 0, 0, 0⟩

end

end TieredWeights
