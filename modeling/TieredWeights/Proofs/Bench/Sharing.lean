import Mathlib.Data.Finset.Lattice.Fold
import Mathlib.Order.Lattice.Nat
import TieredWeights.Proofs.Bench.Ground
import TieredWeights.Proofs.Stocking

/-!
# Blocks loaded one after another

A run through a loader keeps in stock the keys of the blocks that it holds on to: of all blocks so
far, or of the last one. Each load brings the keys of one more block into stock, and letting go of
the block before takes out what only that used. So a run fails only if the pools cannot accommodate
the keys of all blocks together, and what it counts can be read off the keys.
-/
namespace TieredWeights

namespace BlockStore

variable {s : BlockStore} {block before : Nat} {parameters : Table String PlacementId}

/-- The store with a map in a slot, for which nobody else has asked. -/
def shelve (s : BlockStore) (block : Nat) (parameters : Table String PlacementId) : BlockStore :=
  { s with
    held := s.held.insert block s.mapsMade
    maps := s.maps.insert s.mapsMade ⟨parameters, 1⟩
    mapsMade := s.mapsMade + 1 }

/-- All references of the store are those of the block before, whose map nobody else holds. -/
def HoldsLast (s : BlockStore) : Nat → Prop
  | 0 => s.references = 0
  | before + 1 => ∃ m parameters, s.held.find? before = some m ∧
      s.maps.find? m = some ⟨parameters, 1⟩ ∧ s.references = ↑parameters.values

/-- Who has stored a map and gives up his hold on it leaves it shelved. -/
theorem drop_stored (s : BlockStore) (block : Nat) (parameters : Table String PlacementId) :
    BlockStore.drop { s with
      held := s.held.insert block s.mapsMade
      maps := s.maps.insert s.mapsMade ⟨parameters, 2⟩
      mapsMade := s.mapsMade + 1 } s.mapsMade = ([], s.shelve block parameters) := by
  simp [drop, shelve, Table.find?_insert_self, Table.insert_insert]

theorem Sound.shelve (h : s.Sound 0) (hblock : block < s.size) (hheld : s.held.find? block = none)
    (parameters : Table String PlacementId) : (s.shelve block parameters).Sound 0 ∧
      (s.shelve block parameters).references = ↑parameters.values + s.references := by
  rcases h.store (store_vacant hblock hheld parameters) with
    ⟨e, he, -⟩ | ⟨-, -, -, hs, hreferences, -, -⟩
  · cases he
  · have hdrop := hs.drop
    rw [drop_stored, hreferences] at hdrop
    exact ⟨hdrop.1, (hdrop.2.trans (zero_add _)).symm⟩

/-- The block before is let go of once the next one is shelved. -/
theorem Sound.clear_shelve (h : s.Sound 0) (hlast : s.HoldsLast (before + 1))
    (hblock : before + 1 < s.size) (hheld : s.held.find? (before + 1) = none)
    (parameters : Table String PlacementId) :
    ∃ released s', (s.shelve (before + 1) parameters).clear before = (.ok true, released, s') ∧
      s.references = ↑released ∧ s'.references = ↑parameters.values ∧ s'.Sound 0 ∧
      s'.HoldsLast (before + 2) ∧ s'.size = s.size ∧
      ∀ index, index ≠ before + 1 → s.held.find? index = none → s'.held.find? index = none := by
  obtain ⟨m, old, hm, hx, hold⟩ := hlast
  obtain ⟨hs, hreferences⟩ := h.shelve hblock hheld parameters
  have hne : m ≠ s.mapsMade := (h.numbered m _ hx).ne
  have hm' : (s.shelve (before + 1) parameters).held.find? before = some m := by
    rw [BlockStore.shelve, Table.find?_insert_ne _ _ (Nat.ne_of_lt (Nat.lt_succ_self before)), hm]
  have hx' : (s.shelve (before + 1) parameters).maps.find? m = some ⟨old, 1⟩ := by
    rw [BlockStore.shelve, Table.find?_insert_ne _ _ hne, hx]
  have hclear : (s.shelve (before + 1) parameters).clear before =
      (.ok true, old.values, { s.shelve (before + 1) parameters with
        held := (s.shelve (before + 1) parameters).held.erase before
        maps := (s.shelve (before + 1) parameters).maps.erase m }) := by
    have hlt : before < (s.shelve (before + 1) parameters).size :=
      (Nat.lt_succ_self before).trans hblock
    simp [BlockStore.clear, held?, hlt, hm', BlockStore.empty, BlockStore.drop, hx']
  obtain ⟨hs', hreferences'⟩ := hs.clear before
  rw [hclear] at hs' hreferences'
  have hleft : BlockStore.references { s.shelve (before + 1) parameters with
        held := (s.shelve (before + 1) parameters).held.erase before
        maps := (s.shelve (before + 1) parameters).maps.erase m } = ↑parameters.values := by
    rw [hreferences, hold, add_comm] at hreferences'
    exact (add_left_cancel hreferences').symm
  refine ⟨old.values, _, hclear, hold, hleft, hs', ⟨s.mapsMade, parameters, ?_, ?_, hleft⟩, rfl,
    fun index hindex hnone => ?_⟩
  · rw [Table.find?_erase_ne _ (Nat.succ_ne_self before), BlockStore.shelve, Table.find?_insert_self]
  · rw [Table.find?_erase_ne _ hne.symm, BlockStore.shelve, Table.find?_insert_self]
  · rw [Table.find?_erase, BlockStore.shelve, Table.find?_insert_ne _ _ hindex, hnone, ite_self]

end BlockStore

namespace Bench

open Scene

/-- The keys of the blocks from one index up to another. -/
def keysBetween (blocks : List Block) (split : Split Binary64) (first upto : Nat) : Finset Key :=
  keysOf ((blocks.take upto).drop first) split

/-- The first block that a run still holds on to when it comes to the next one. -/
def oldest (keep : Bool) (index : Nat) : Nat := if keep then 0 else index - 1

variable {depot : Depot} {blocks : List Block} {block : Block} {split : Split Binary64} {keep : Bool}
  {first index : Nat} {l : Loader} {c c' : Cache}

theorem keysBetween_succ (hblock : blocks[index]? = some block) (hfirst : first ≤ index) :
    keysBetween blocks split first (index + 1) =
      keysBetween blocks split first index ∪ (block.keys (planOf block split)).toFinset := by
  have hlength : first ≤ (blocks.take index).length := by
    obtain ⟨hlt, -⟩ := List.getElem?_eq_some_iff.1 hblock
    rw [List.length_take]
    omega
  rw [keysBetween, List.take_add_one, hblock, Option.toList_some,
    List.drop_append_of_le_length hlength, keysOf_append, keysOf_singleton, keysBetween]

theorem keysBetween_self (blocks : List Block) (split : Split Binary64) (index : Nat) :
    keysBetween blocks split index index = ∅ := by
  rw [keysBetween, List.drop_eq_nil_of_le (List.length_take_le _ _)]
  rfl

theorem keysOf_subset {blocks blocks' : List Block} (h : blocks' ⊆ blocks) :
    keysOf blocks' split ⊆ keysOf blocks split := by
  intro key hkey
  obtain ⟨block, hblock, hkey⟩ := List.mem_flatMap.1 (List.mem_toFinset.1 hkey)
  exact List.mem_toFinset.2 (List.mem_flatMap.2 ⟨block, h hblock, hkey⟩)

theorem oldest_le (keep : Bool) (index : Nat) : oldest keep index ≤ index := by
  unfold oldest
  split_ifs <;> omega

/-- What the calls of a run have counted when it comes to a block. -/
structure Counts (blocks : List Block) (split : Split Binary64) (keep : Bool) (index : Nat)
    (c : Cache) : Prop where
  calls : c.hits + c.misses = (references (blocks.take index) split).length
  distinct : (keysOf (blocks.take index) split).card ≤ c.misses
  once : keep = true → c.misses = (keysOf (blocks.take index) split).card
  placed : c.misses = ∑ i ∈ Finset.range index, (keysBetween blocks split (oldest keep i) (i + 1) \
    keysBetween blocks split (oldest keep i) i).card

/-- Counts once one more block is loaded. -/
theorem Counts.next (h : Counts blocks split keep index c) (hsplit : split.validate = .ok ())
    (hblock : blocks[index]? = some block)
    (hgains : c.Gains (keysBetween blocks split (oldest keep index) index)
      (keysBetween blocks split (oldest keep index) (index + 1)) block.size c') :
    Counts blocks split keep (index + 1) c' := by
  have htake : blocks.take (index + 1) = blocks.take index ++ [block] := by
    rw [List.take_add_one, hblock, Option.toList_some]
  have hcalls := h.calls
  have hdistinct := h.distinct
  have hmisses := hgains.misses
  have hmore := hgains.calls
  have hkeys : keysOf (blocks.take (index + 1)) split =
      (block.keys (planOf block split)).toFinset ∪ keysOf (blocks.take index) split := by
    rw [htake, keysOf_append, Finset.union_comm, keysOf_singleton]
  constructor
  case calls =>
    rw [htake, references_append, List.length_append, references_singleton, length_keys hsplit]
    omega
  case distinct =>
    -- What is new to the stock includes what is new altogether.
    have hsub : keysBetween blocks split (oldest keep index) index ⊆
        keysOf (blocks.take index) split := keysOf_subset (List.drop_subset _ _)
    have hnew := Finset.card_le_card
      (Finset.sdiff_subset_sdiff (subset_refl (block.keys (planOf block split)).toFinset) hsub)
    have hall := Finset.card_sdiff_add_card (block.keys (planOf block split)).toFinset
      (keysOf (blocks.take index) split)
    have hstage := Finset.card_sdiff_add_card (block.keys (planOf block split)).toFinset
      (keysBetween blocks split (oldest keep index) index)
    rw [Finset.union_comm, ← keysBetween_succ hblock (oldest_le keep index)] at hstage
    rw [hkeys]
    omega
  case once =>
    intro hkeep
    have honce := h.once hkeep
    have hall : ∀ upto, keysBetween blocks split (oldest keep index) upto =
        keysOf (blocks.take upto) split := by
      intro upto
      rw [keysBetween, oldest, if_pos hkeep, List.drop_zero]
    rw [hall, hall] at hmisses
    omega
  case placed =>
    have hplaced := h.placed
    have hsub : keysBetween blocks split (oldest keep index) index ⊆
        keysBetween blocks split (oldest keep index) (index + 1) := by
      rw [keysBetween_succ hblock (oldest_le keep index)]
      exact Finset.subset_union_left
    have hadded := Finset.card_sdiff_add_card_eq_card hsub
    rw [Finset.sum_range_succ]
    omega

/-- What is not called counts nothing. -/
theorem Counts.of_eq (h : Counts blocks split keep index c) (hhits : c'.hits = c.hits)
    (hmisses : c'.misses = c.misses) : Counts blocks split keep index c' := by
  refine ⟨?_, ?_, ?_, ?_⟩
  · rw [hhits, hmisses, h.calls]
  · rw [hmisses]
    exact h.distinct
  · rw [hmisses]
    exact h.once
  · rw [hmisses]
    exact h.placed

/-- A run has come to a block: the keys of the blocks that it holds on to are in stock. -/
structure Running (depot : Depot) (blocks : List Block) (split : Split Binary64) (keep : Bool)
    (index : Nat) (l : Loader) : Prop where
  size : blocks.length ≤ l.store.size
  store : l.store.Sound 0
  vacant : ∀ i, index ≤ i → l.store.held.find? i = none
  last : keep = false → l.store.HoldsLast index
  stock : l.cache.Stock depot (keysBetween blocks split (oldest keep index) index) l.store.references
  returned : keep = true → l.cache.depot.Returned 0
  counts : Counts blocks split keep index l.cache

theorem running_ofDepot (hd : depot.Sound 0) (hnone : depot.Returned 0) {slots : Nat}
    (hslots : blocks.length ≤ slots) (own : Split Binary64) :
    Running depot blocks split keep 0 (.ofDepot depot slots own) where
  size := hslots
  store := BlockStore.sound_empty slots
  vacant _ _ := rfl
  last _ := rfl
  stock := by
    have hempty : keysBetween blocks split (oldest keep 0) 0 = ∅ := by
      rw [keysBetween, List.take_zero, List.drop_nil]
      rfl
    rw [hempty]
    exact Cache.stock_ofDepot hd
  returned _ := hnone
  counts := ⟨rfl, Nat.zero_le _, fun _ => rfl, rfl⟩

/-- The load of a block and the handle dropped again leave its map shelved. -/
theorem dropHandle_committed (l : Loader) (index : Nat) (g : Gathered) (c : Cache)
    (outcome : Outcome) :
    (l.committed index g c).dropHandle ⟨index, l.store.mapsMade, outcome⟩ =
      { l.committed index g c with store := l.store.shelve index g.parameters } := by
  unfold Loader.dropHandle Loader.dropMap
  simp only [Loader.committed, Loader.countLoaded, BlockStore.drop_stored]
  rfl

/-- With a load the keys of one more block are in stock. -/
theorem stock_of_collected {held : Multiset PlacementId} {c₀ : Cache} {g : Gathered}
    (hblock : blocks[index]? = some block) (h : Loader.Collected depot
      (keysBetween blocks split (oldest keep index) index) held c₀ block (planOf block split) g c) :
    c.Stock depot (keysBetween blocks split (oldest keep index) (index + 1))
      (↑g.parameters.values + held) := by
  rw [keysBetween_succ hblock (oldest_le keep index)]
  exact h.stock

/-- A run that has loaded one more block lets go of what it does not keep. -/
theorem Running.next (h : Running depot blocks split keep index l) (hsplit : split.validate = .ok ())
    {g : Gathered}
    (hblock : blocks[index]? = some block)
    (hcollected : Loader.Collected depot (keysBetween blocks split (oldest keep index) index)
      l.store.references l.cache block (planOf block split) g c) :
    ∃ l', (if keep then (.ok (), { l.committed index g c with
          store := l.store.shelve index g.parameters })
        else letGo { l.committed index g c with store := l.store.shelve index g.parameters } index) =
        ((.ok () : Except Fault Unit), l') ∧
      Running depot blocks split keep (index + 1) l' := by
  obtain ⟨hlt, -⟩ := List.getElem?_eq_some_iff.1 hblock
  have hindex : index < l.store.size := hlt.trans_le h.size
  have hheld := h.vacant index le_rfl
  obtain ⟨hs, hreferences⟩ := h.store.shelve hindex hheld g.parameters
  have hvacant : ∀ i, index + 1 ≤ i →
      (l.store.shelve index g.parameters).held.find? i = none := fun i hi =>
    (Table.find?_insert_ne _ _ (Nat.ne_of_gt hi)).trans (h.vacant i (Nat.le_of_succ_le hi))
  have hgains := hcollected.gains
  rw [← keysBetween_succ hblock (oldest_le keep index)] at hgains
  have hcounts := h.counts.next hsplit hblock hgains
  have hstock := stock_of_collected hblock hcollected
  cases keep with
  | true =>
    have hreturned := hcollected.gains.terms.returned (h.returned rfl)
    refine ⟨_, rfl, h.size, hs, hvacant, nofun, ?_, fun _ => hreturned, hcounts⟩
    rw [hreferences]
    exact hstock
  | false =>
    cases index with
    | zero =>
      refine ⟨_, rfl, h.size, hs, hvacant, fun _ => ?_, ?_, nofun, hcounts⟩
      · have hempty : l.store.references = 0 := h.last rfl
        rw [hempty, add_zero] at hreferences
        exact ⟨_, _, Table.find?_insert_self _ _ _, Table.find?_insert_self _ _ _, hreferences⟩
      · rw [hreferences]
        exact hstock
    | succ before =>
      obtain ⟨released, s', hclear, hold, hleft, hs', hlast', hsize, hothers⟩ :=
        h.store.clear_shelve (h.last rfl) hindex hheld g.parameters
      rw [hold, add_comm (g.parameters.values : Multiset PlacementId)] at hstock
      have hreleased := hstock.releaseAll
      have hpurged : (c.releaseAll released).purge.2.Stock depot
          (block.keys (planOf block split)).toFinset ↑g.parameters.values :=
        hreleased.purge fun key => by simp [hcollected.bound]
      have htrimmed := hreleased.sound.purge_trimmed
      refine ⟨{ l.committed (before + 1) g c with
        store := s', cache := (c.releaseAll released).purge.2 }, ?_, ?_⟩
      · simp only [Bool.false_eq_true, if_false, letGo, Loader.clearBlock, hclear]
        rfl
      · refine ⟨h.size.trans hsize.ge, hs', fun i hi => ?_, fun _ => hlast', ?_, nofun, ?_⟩
        · exact hothers i (Nat.ne_of_gt hi) (h.vacant i (Nat.le_of_succ_le hi))
        · have hkeys : keysBetween blocks split (oldest false (before + 1 + 1)) (before + 1 + 1) =
              (block.keys (planOf block split)).toFinset := by
            rw [oldest, if_neg Bool.false_ne_true, Nat.add_sub_cancel,
              keysBetween_succ hblock le_rfl, keysBetween_self, Finset.empty_union]
          rw [hkeys, hleft]
          exact hpurged
        · refine hcounts.of_eq ?_ ?_
          · exact htrimmed.hits.trans (Cache.releaseAll_hits _ _)
          · exact htrimmed.misses.trans (Cache.releaseAll_misses _ _)

/-- The bytes in use at the peak, once a run has come to a block. -/
def peakOf (blocks : List Block) (split : Split Binary64) (keep : Bool) (index : Nat) : Nat :=
  (Finset.range index).sup fun i => bytesOf (keysBetween blocks split (oldest keep i) (i + 1))

theorem peakOf_succ (blocks : List Block) (split : Split Binary64) (keep : Bool) (index : Nat) :
    peakOf blocks split keep (index + 1) = max (peakOf blocks split keep index)
      (bytesOf (keysBetween blocks split (oldest keep index) (index + 1))) := by
  rw [peakOf, Finset.range_add_one, Finset.sup_insert, sup_comm, peakOf]

/-- How often a run may give a buffer back before it allocates another: never if it keeps all. -/
def returnsOf (blocks : List Block) (split : Split Binary64) (keep : Bool) : Nat :=
  if keep then 0 else (references blocks split).length - 1

/-- The calls of a block more are no more than those of all blocks. -/
theorem Running.misses_le (h : Running depot blocks split keep index l)
    (hsplit : split.validate = .ok ()) (hblock : blocks[index]? = some block) :
    l.cache.misses + block.size ≤ (references blocks split).length := by
  have hcalls := h.counts.calls
  have hsum : references blocks split = references (blocks.take index) split ++
      (block.keys (planOf block split) ++ references (blocks.drop (index + 1)) split) := by
    rw [← references_singleton, ← references_append, ← references_append, List.singleton_append]
    obtain ⟨hlt, rfl⟩ := List.getElem?_eq_some_iff.1 hblock
    rw [← List.drop_eq_getElem_cons hlt, List.take_append_drop]
  rw [hsum, List.length_append, List.length_append, length_keys hsplit]
  omega

/-- What was given back has been allocated, and a block with a parameter makes one more call. -/
theorem Running.returned_le (h : Running depot blocks split keep index l)
    (hsplit : split.validate = .ok ()) (hzero : depot.allocations = 0)
    (hblock : blocks[index]? = some block) (hsome : block.parameters ≠ []) :
    l.cache.depot.Returned (returnsOf blocks split keep) := by
  cases keep with
  | true => exact h.returned rfl
  | false =>
    intro tier pool hpool
    have hback := h.stock.returned tier pool hpool
    have hcount := h.stock.allocations
    have hcalls := h.misses_le hsplit hblock
    have hsize : 0 < block.size := List.length_pos_of_ne_nil hsome
    rw [returnsOf, if_neg Bool.false_ne_true]
    omega

/-- The keys and calls of a block more are no more than those of all blocks. -/
theorem Running.mono (h : Running depot blocks split keep index l) (hsplit : split.validate = .ok ())
    (hblock : blocks[index]? = some block) {returns : Nat}
    (hall : depot.Accommodates (keysOf blocks split) (references blocks split).length returns) :
    depot.Accommodates (keysBetween blocks split (oldest keep index) index ∪
      (block.keys (planOf block split)).toFinset) (l.cache.misses + block.size) returns := by
  rw [← keysBetween_succ hblock (oldest_le keep index)]
  refine hall.mono (keysOf_subset ?_) (h.misses_le hsplit hblock)
  exact fun b hb => List.mem_of_mem_take (List.mem_of_mem_drop hb)

/-- The blocks that remain are loaded, unless the pools cannot accommodate the keys of all. By
induction on what remains. -/
theorem Running.loadBlocks (h : Running depot blocks split keep index l) (hground : depot.Ground)
    (hsplit : split.validate = .ok ()) (hindex : index ≤ blocks.length) {rest : List Block}
    (hrest : blocks.drop index = rest) :
    (∃ e l', Bench.loadBlocks split keep (peakOf blocks split keep index) index rest l =
        (.error e, l') ∧
      ¬ depot.Accommodates (keysOf blocks split) (references blocks split).length
        (returnsOf blocks split keep)) ∨
    ∃ l', Bench.loadBlocks split keep (peakOf blocks split keep index) index rest l =
        (.ok (peakOf blocks split keep blocks.length), l') ∧
      Running depot blocks split keep blocks.length l' := by
  induction rest generalizing index l with
  | nil =>
    have hlast : index = blocks.length := le_antisymm hindex (List.drop_eq_nil_iff.1 hrest)
    subst hlast
    exact .inr ⟨l, rfl, h⟩
  | cons block rest ih =>
    have hblock : blocks[index]? = some block := by
      rw [← List.head?_drop, hrest, List.head?_cons]
    obtain ⟨hlt, -⟩ := List.getElem?_eq_some_iff.1 hblock
    rcases Loader.load_stocked hground.tidy h.stock
      (h.returned_le hsplit hground.allocations hblock) hsplit (hlt.trans_le h.size)
      (h.vacant index le_rfl) with ⟨e, l', hload, hfull⟩ | ⟨g, c, hload, hcollected⟩
    · refine .inl ⟨e, l', ?_, fun hall => hfull (h.mono hsplit hblock hall)⟩
      rw [Bench.loadBlocks]
      simp only [hload]
    · obtain ⟨l₂, hnext, hrunning⟩ := h.next hsplit hblock hcollected
      have hused : (Loader.depot { l.committed index g c with
          store := l.store.shelve index g.parameters }).usedBytes =
            bytesOf (keysBetween blocks split (oldest keep index) (index + 1)) :=
        (stock_of_collected hblock hcollected).usedBytes
      have hstep : Bench.loadBlocks split keep (peakOf blocks split keep index) index
          (block :: rest) l =
            Bench.loadBlocks split keep (peakOf blocks split keep (index + 1)) (index + 1) rest l₂ := by
        rw [Bench.loadBlocks]
        simp only [hload, dropHandle_committed, hused, hnext, peakOf_succ]
      rw [hstep]
      refine ih hrunning hlt ?_
      rw [← List.tail_drop, hrest, List.tail_cons]

/-- What a run through a loader comes to is what its loads come to, once the pools are made. -/
theorem runShared_of_furnish {config : Config} {d : Depot} (hconfig : config.validate = .ok ())
    (hfurnish : config.furnish (fresh d) = (.ok (), depot))
    (hslots : config.blocks ≤ BlockStore.slotLimit) (blocks : List Block) (split : Split Binary64)
    (keep : Bool) : (runShared config blocks split keep d).1 =
      match Bench.loadBlocks split keep 0 0 blocks (.ofDepot
        (depot.note (.started config.blocks depot.tiers config.split)) config.blocks config.split) with
      | (.error e, _) => RunResult.ofFault e
      | (.ok peak, l) => .ok (.done l.depot.allocations peak) := by
  unfold runShared Config.loader
  simp only [hconfig, hfurnish, Loader.overPools_of_le hslots]
  split <;> simp only [*]

/-- A run through a loader is done with the counts that its blocks call for, or the pools cannot
accommodate all keys. -/
theorem runShared_cases {config : Config} {d : Depot} (keep : Bool)
    (hconfig : config.validate = .ok ()) (hsplit : split.validate = .ok ())
    (hblocks : blocks.length ≤ config.blocks) (hslots : config.blocks ≤ BlockStore.slotLimit)
    (hfurnish : config.furnish (fresh d) = (.ok (), depot)) (hground : depot.Ground) :
    ((∀ a p, (runShared config blocks split keep d).1 ≠ .ok (.done a p)) ∧
      ¬ depot.Accommodates (keysOf blocks split) (references blocks split).length
        (returnsOf blocks split keep)) ∨
    ∃ notice l, (runShared config blocks split keep d).1 =
        .ok (.done l.cache.misses (peakOf blocks split keep blocks.length)) ∧
      Running (depot.note notice) blocks split keep blocks.length l := by
  have hnoted := hground.note (.started config.blocks depot.tiers config.split)
  have hstart : Running _ blocks split keep 0 _ :=
    running_ofDepot hnoted.sound hnoted.returned hblocks config.split
  rw [runShared_of_furnish hconfig hfurnish hslots]
  rcases hstart.loadBlocks hnoted hsplit (Nat.zero_le _) rfl with
    ⟨e, l', hload, hfull⟩ | ⟨l', hload, hrunning⟩
  · refine .inl ⟨fun a p => ?_, fun hall => hfull ⟨hall.sized, hall.fits, hall.names⟩⟩
    have hpeak : peakOf blocks split keep 0 = 0 := rfl
    rw [hpeak, List.drop_zero] at hload
    simp only [hload, RunResult.ofFault]
    split_ifs <;> simp
  · refine .inr ⟨_, l', ?_, hrunning⟩
    have hpeak : peakOf blocks split keep 0 = 0 := rfl
    rw [hpeak, List.drop_zero] at hload
    have hcount : l'.depot.allocations = l'.cache.misses := by
      have hallocations := hrunning.stock.allocations
      rw [hnoted.allocations, Nat.zero_add] at hallocations
      exact hallocations
    simp only [hload, hcount]

end Bench

end TieredWeights
