import TieredWeights.Proofs.Bench.CleanUp

/-!
# Tiers without a limit

A machine word is as much as a pool without a limit counts. So where the tiers of all references have
none and the file system stands in nobody's way, there is room for every reference as long as a
machine word counts their bytes. Then each strategy is done, and what it reports can be read off the
references and the keys of the blocks.
-/
namespace TieredWeights

namespace Depot

variable {d d' : Depot} {tier : Tier} {capacity : Option Nat} {spill : Option String}
  {specs : List (Tier × Option Nat × Option String)}

/-- A new pool is as described. -/
theorem newPool_described {pool : Pool} (h : d.newPool tier capacity spill = (.ok pool, d')) :
    pool.tier = tier ∧ pool.capacity = capacity.getD unbounded ∧
      pool.spill.isSome = spill.isSome := by
  unfold newPool at h
  cases spill with
  | none =>
    cases h
    exact ⟨rfl, rfl, rfl⟩
  | some folder =>
    rcases hm : d.files.makeFolder folder with ⟨e | path, files⟩ <;> simp only [hm] at h <;> cases h
    exact ⟨rfl, rfl, rfl⟩

/-- Where no tier is described twice each has a pool as described, and other tiers keep theirs. By
induction on the descriptions. -/
theorem find?_addPools (hnodup : (specs.map Prod.fst).Nodup)
    (h : d.addPools specs = (.ok (), d')) :
    (∀ tier capacity spill, (tier, capacity, spill) ∈ specs → ∃ pool,
      d'.pools.find? tier = some pool ∧ pool.capacity = capacity.getD unbounded ∧
        pool.spill.isSome = spill.isSome) ∧
    ∀ tier, tier ∉ specs.map Prod.fst → d'.pools.find? tier = d.pools.find? tier := by
  induction specs generalizing d with
  | nil =>
    cases h
    exact ⟨fun _ _ _ hspec => absurd hspec List.not_mem_nil, fun _ _ => rfl⟩
  | cons spec rest ih =>
    obtain ⟨tier, capacity, spill⟩ := spec
    rw [List.map_cons, List.nodup_cons] at hnodup
    obtain ⟨hfresh, hnodup⟩ := hnodup
    have hpools := d.newPool_pools tier capacity spill
    rcases hnew : d.newPool tier capacity spill with ⟨e | pool, d₁⟩ <;>
      simp only [addPools, addPool, hnew] at h hpools
    · cases h
    obtain ⟨htier, hdescribed⟩ := newPool_described hnew
    obtain ⟨hmade, hkept⟩ := ih hnodup h
    refine ⟨fun t c s hspec => ?_, fun t ht => ?_⟩
    · rcases List.mem_cons.1 hspec with hspec | hspec
      · cases hspec
        refine ⟨pool, ?_, hdescribed⟩
        rw [hkept tier hfresh, install, htier, Table.find?_insert_self]
      · exact hmade t c s hspec
    · rw [List.map_cons, List.mem_cons, not_or] at ht
      rw [hkept t ht.2, install, htier, Table.find?_insert_ne _ _ ht.1, hpools]

/-- Pools that need no folder are in memory. -/
theorem InMemory.addPools (hd : d.InMemory) (hspecs : ∀ spec ∈ specs, spec.2.2 = none)
    {r : Except Fault Unit} (h : d.addPools specs = (r, d')) : d'.InMemory := by
  induction specs generalizing d with
  | nil =>
    cases h
    exact hd
  | cons spec rest ih =>
    obtain ⟨tier, capacity, spill⟩ := spec
    obtain rfl : spill = none := hspecs _ List.mem_cons_self
    refine ih (fun t p hp => ?_) (fun spec hspec => hspecs spec (List.mem_cons_of_mem _ hspec)) h
    rw [install, Table.find?_insert] at hp
    split_ifs at hp
    · cases hp
      rfl
    · exact hd t p hp

end Depot

namespace Config

variable {c : Config} {d d' : Depot}

theorem nodup_tiers (c : Config) : (c.tiers.map Prod.fst).Nodup := by
  have haccelerators : c.acceleratorCapacities.zipIdx.map (fun x => Tier.accelerator x.2) =
      (List.range c.acceleratorCapacities.length).map Tier.accelerator := by
    rw [List.range_eq_range', ← List.zipIdx_map_snd 0 c.acceleratorCapacities, List.map_map]
    rfl
  have hinjective : Function.Injective Tier.accelerator := fun _ _ h => Tier.accelerator.inj h
  simp [tiers, Function.comp_def, haccelerators, List.nodup_range.map hinjective]

/-- Only the disk can have a folder. -/
theorem spill_of_mem_tiers {tier : Tier} {capacity : Option Nat} {folder : String}
    (h : (tier, capacity, some folder) ∈ c.tiers) : c.spill = some folder := by
  simp only [tiers, List.mem_cons, Prod.mk.injEq, List.mem_map, reduceCtorEq, and_false, exists_false,
    or_false] at h
  exact h.2.2.symm

/-- Without a folder for the disk all pools are made, in memory. -/
theorem furnish_of_memory (hspill : c.spill = none) (d : Depot) :
    ∃ d', c.furnish (Bench.fresh d) = (.ok (), d') ∧ d'.InMemory := by
  rcases c.furnish_cases (Bench.fresh d) with ⟨folder, e, files, hfolder, -⟩ | ⟨d', hfurnish, -⟩
  · rw [hspill] at hfolder
    cases hfolder
  · have hempty : (Bench.fresh d).InMemory := fun tier pool hpool => by simp [Bench.fresh] at hpool
    refine ⟨d', hfurnish, hempty.addPools (fun spec hspec => ?_) hfurnish⟩
    obtain ⟨tier, capacity, spill⟩ := spec
    cases spill with
    | none => rfl
    | some folder =>
      rw [spill_of_mem_tiers hspec] at hspill
      cases hspill

end Config

namespace Bench

open Scene

variable {config : Config} {d depot : Depot} {blocks : List Block} {split : Split Binary64} {n : Nat}

/-- Nobody can stand in the way of pools in memory. -/
theorem undisturbed_of_memory (hspill : config.spill = none) (d : Depot) :
    Undisturbed config d := by
  obtain ⟨depot, hfurnish, hmemory⟩ := Config.furnish_of_memory hspill d
  constructor
  case obliging =>
    intro tier pool hpool hspills
    rw [hfurnish] at hpool
    rw [hmemory tier pool hpool] at hspills
    cases hspills
  case free =>
    intro tier pool hpool slot generation path hpath
    rw [hfurnish] at hpool
    rw [Pool.spillPath?_eq_none (hmemory tier pool hpool)] at hpath
    cases hpath

theorem shortRoutes_of_memory (hspill : config.spill = none) (d : Depot) (n : Nat) :
    ShortRoutes config d n := by
  obtain ⟨depot, hfurnish, hmemory⟩ := Config.furnish_of_memory hspill d
  intro tier pool hpool slot _ earlier _
  rw [hfurnish] at hpool
  exact Pool.named_of_memory (hmemory tier pool hpool) slot _

/-- A configuration and a split suit some blocks: both can be used, there is a slot for every block
and memory for the slots, and no tier that a reference is assigned to has a limit. If the disk spills
to a folder, then the folder can be made and the file system takes whatever the blocks need. -/
structure Suits (config : Config) (blocks : List Block) (split : Split Binary64) (d : Depot) :
    Prop where
  usable : config.validate = .ok ()
  accepted : split.validate = .ok ()
  slots : blocks.length ≤ config.blocks
  memory : config.blocks ≤ BlockStore.slotLimit
  unlimited : ∀ key ∈ references blocks split, ∃ spill, (key.tier, none, spill) ∈ config.tiers
  furnishes : config.spill.isSome → (config.furnish (fresh d)).1 = .ok ()
  undisturbed : config.spill.isSome → Undisturbed config d
  routes : config.spill.isSome → ShortRoutes config d (references blocks split).length

/-- A reference has the bytes of some tensor of the blocks. -/
theorem exists_tensor {key : Key} (hkey : key ∈ references blocks split) :
    ∃ t : Tensor, key.identity.bytes = t.bytes.size := by
  obtain ⟨block, -, hkey⟩ := List.mem_flatMap.1 hkey
  obtain ⟨k, hk⟩ := List.mem_iff_getElem?.1 hkey
  obtain ⟨x, planned, -, -, rfl⟩ := List.getElem?_zipWith_eq_some.1 hk
  exact ⟨x.2, rfl⟩

namespace Suits

theorem ground (h : Suits config blocks split d) : ∃ depot,
    config.furnish (fresh d) = (.ok (), depot) ∧ depot.Ground ∧
      depot.Names (references blocks split).length (references blocks split).length := by
  cases hspill : config.spill with
  | none =>
    obtain ⟨depot, hfurnish, -⟩ := Config.furnish_of_memory hspill d
    have hroutes := shortRoutes_of_memory hspill d (references blocks split).length
    rw [ShortRoutes, hfurnish] at hroutes
    exact ⟨depot, hfurnish, (undisturbed_of_memory hspill d).ground hfurnish, hroutes⟩
  | some folder =>
    have hsome : config.spill.isSome := by rw [hspill, Option.isSome_some]
    have hfurnish : config.furnish (fresh d) = (.ok (), (config.furnish (fresh d)).2) :=
      Prod.ext (h.furnishes hsome) rfl
    exact ⟨_, hfurnish, (h.undisturbed hsome).ground hfurnish, h.routes hsome⟩

/-- There is room for all references as long as a machine word counts their bytes. -/
theorem hasRoom (h : Suits config blocks split d)
    (hfurnish : config.furnish (fresh d) = (.ok (), depot))
    (hground : depot.Ground)
    (hnames : depot.Names (references blocks split).length (references blocks split).length)
    (hbytes : ((references blocks split).map fun key => key.identity.bytes).sum ≤ wordMax) :
    depot.HasRoom (references blocks split) := by
  obtain ⟨hmade, -⟩ := Depot.find?_addPools config.nodup_tiers hfurnish
  constructor
  case sized =>
    intro key hkey
    obtain ⟨spill, hspec⟩ := h.unlimited key hkey
    obtain ⟨pool, hpool, -⟩ := hmade _ _ _ hspec
    obtain ⟨t, hsize⟩ := exists_tensor hkey
    exact ⟨pool, hpool, fun _ => hsize ▸ t.size_le⟩
  case fits =>
    intro tier pool hpool
    by_cases hnone : (references blocks split).filter (fun key => key.tier = tier) = []
    · rw [hnone, List.map_nil, List.sum_nil]
      exact Nat.zero_le _
    · obtain ⟨key, hkey⟩ := List.exists_mem_of_ne_nil _ hnone
      obtain ⟨hkey, htier⟩ := List.mem_filter.1 hkey
      obtain ⟨spill, hspec⟩ := h.unlimited key hkey
      rw [of_decide_eq_true htier] at hspec
      obtain ⟨pool', hpool', hcapacity, -⟩ := hmade _ _ _ hspec
      rw [hpool] at hpool'
      cases hpool'
      rw [hcapacity]
      exact ((List.filter_sublist.map _).sum_le_sum fun n _ => Nat.zero_le n).trans hbytes
  case names =>
    intro tier pool hpool slot hslot earlier hearlier
    have hnone : pool.releases = 0 := Nat.le_zero.1 (hground.returned tier pool hpool)
    have hcount : (references blocks split).countP (fun key => key.tier = tier) ≤
        (references blocks split).length := List.countP_le_length
    rw [hnone] at hslot hearlier
    exact hnames tier pool hpool slot (by omega) earlier (by omega)

end Suits

/-- A run without sharing is done if the pools have room for every reference. -/
theorem exists_done_naive (hsplit : split.validate = .ok ())
    (hfurnish : config.furnish (fresh d) = (.ok (), depot))
    (hground : depot.Ground) (hroom : depot.HasRoom (references blocks split)) :
    ∃ a p, Done config blocks split d .naive a p := by
  obtain ⟨brackets, hbrackets⟩ := Split.ofSplit_of_validate hsplit
  have hstart := placed_nil hground.sound
  obtain ⟨buffers, d₁, hplace⟩ := hstart.placeBlocks hbrackets hground.tidy hroom
  have hplaced := hstart.ofBlocks hbrackets hplace
  rcases hback : giveBack buffers d₁ with ⟨r, d₂⟩
  obtain ⟨rfl, -⟩ := sound_giveBack hplaced.sound hback
  refine ⟨d₁.allocations, d₁.usedBytes, ?_⟩
  simp only [Done, run, runNaive, hfurnish, hbrackets, hplace, hback]

/-- Each strategy is done where configuration and split suit the blocks and a machine word counts the
bytes of all parameters. -/
theorem Suits.done (h : Suits config blocks split d)
    (hbytes : (Savings.ofBlocks blocks).naive ≤ wordMax) :
    Done config blocks split d .naive (references blocks split).length
        (Savings.ofBlocks blocks).naive ∧
      Done config blocks split d .shared (keysOf blocks split).card
        (bytesOf (keysOf blocks split)) ∧
      Done config blocks split d .lazy
        (∑ i ∈ Finset.range blocks.length,
          (keysAt blocks split i \ if i = 0 then ∅ else keysAt blocks split (i - 1)).card)
        ((Finset.range blocks.length).sup fun i =>
          bytesOf (keysAt blocks split (i - 1) ∪ keysAt blocks split i)) := by
  obtain ⟨depot, hfurnish, hground, hnames⟩ := h.ground
  rw [← sum_references h.accepted] at hbytes
  have hroom := h.hasRoom hfurnish hground hnames hbytes
  have hall := hroom.accommodates hground.returned
  refine ⟨?_, ?_, ?_⟩
  · obtain ⟨a, p, hdone⟩ := exists_done_naive h.accepted hfurnish hground hroom
    obtain ⟨-, rfl, rfl⟩ := hdone.naive h.accepted hfurnish hground
    exact hdone
  · obtain ⟨a, p, hdone⟩ :=
      exists_done_shared h.usable h.accepted h.slots hfurnish hground h.memory hall
    obtain ⟨rfl, rfl, -⟩ := hdone.shared h.usable h.accepted h.slots hfurnish hground
    exact hdone
  · obtain ⟨a, p, hdone⟩ :=
      exists_done_lazy h.usable h.accepted h.slots hfurnish hground h.memory
        (hnames.accommodates hground.allocations hall.sized hall.fits)
    obtain ⟨-, -, rfl⟩ := hdone.lazy h.usable h.accepted h.slots hfurnish hground
    rw [← hdone.lazy_allocations h.usable h.accepted h.slots hfurnish hground, ← peakOf_lazy]
    exact hdone

end Bench

end TieredWeights
