import TieredWeights.Config.Json
import TieredWeights.Proofs.Brackets
import TieredWeights.Proofs.Fixtures
import TieredWeights.Proofs.Plan
import TieredWeights.Proofs.Scene.Sound

/-!
# Accepted configurations

A usable configuration makes a loader that can place by its own split. A tier has a bracket only if
its percentage is positive, and then its share is; so the accelerator of the split is planned onto
only if it is configured. The disk and the host always have a pool, and on the host everything is
planned that has no bracket.
-/
namespace TieredWeights

namespace Binary64

theorem infinityRank_pos : 0 < infinityRank := Nat.mul_pos (by decide) (Nat.two_pow_pos _)

theorem ofUnits_zero (negative : Bool) (d : Nat) : ofUnits negative 0 d = signedZero negative := by
  have hrank : roundedRank fractionBits 0 d = 0 := by
    simp [roundedRank, nearestEven, eq_comm]
  simp only [ofUnits, hrank, signedZero, Nat.min_zero]

theorem zero_eq : (0 : Binary64) = signedZero false := by
  have hnat : (0 : Binary64) = ofNat 0 := rfl
  rw [hnat, ofNat, Nat.zero_mul, ofUnits_zero]

theorem pos_iff {x : Binary64} : 0 < x ↔ ∃ r, x = .signed false r ∧ 0 < r.val := by
  have hlt : 0 < x ↔ (signedZero false).lt x = true := by rw [zero_eq]; exact Iff.rfl
  rw [hlt]
  rcases x with negative | ⟨negative, r⟩
  · simp [lt, key?]
  · cases negative <;> simp [lt, key?, signedZero]

theorem neg_iff {x : Binary64} : x < 0 ↔ ∃ r, x = .signed true r ∧ 0 < r.val := by
  have hlt : x < 0 ↔ x.lt (signedZero false) = true := by rw [zero_eq]; exact Iff.rfl
  rw [hlt]
  rcases x with negative | ⟨negative, r⟩
  · simp [lt, key?]
  · cases negative <;> simp [lt, key?, signedZero]

/-- No product with zero is positive, not even with infinity. -/
theorem not_pos_zero_mul (negative : Bool) (y : Binary64) : ¬ 0 < signedZero negative * y := by
  have hunits : rankUnits 0 = 0 := by simp [rankUnits, rankSignificand]
  rw [pos_iff]
  rintro ⟨r, hr, hpos⟩
  change (signedZero negative).mul y = _ at hr
  rcases y with negative' | ⟨negative', r'⟩
  · cases hr
  · by_cases hinfinite : r'.val = infinityRank
    · simp [mul, signedZero, hinfinite, noResult] at hr
    · have hzero : (signedZero negative).mul (.signed negative' r') =
          ofUnits (negative != negative') 0 unitsPerOne := by
        simp [mul, signedZero, hinfinite, hunits, infinityRank_pos.ne]
      rw [hzero, ofUnits_zero, signedZero, signed.injEq] at hr
      rw [← hr.2] at hpos
      exact Nat.lt_irrefl 0 hpos

/-- Of a number that is not negative, a product is positive only if the number is. -/
theorem pos_of_pos_mul {x y : Binary64} (hx : ¬ x < 0) (h : 0 < x * y) : 0 < x := by
  rcases x with negative | ⟨negative, r⟩
  · obtain ⟨_, hr, -⟩ := pos_iff.1 h
    cases y <;> cases hr
  · rcases Nat.eq_zero_or_pos r.val with hr | hr
    · have hzero : (.signed negative r : Binary64) = signedZero negative :=
        congrArg _ (Fin.ext hr)
      rw [hzero] at h
      exact absurd h (not_pos_zero_mul negative y)
    · cases negative with
      | false => exact pos_iff.2 ⟨r, rfl, hr⟩
      | true => exact absurd (neg_iff.2 ⟨r, rfl, hr⟩) hx

/-- Finite and not negative, as a share has to be. -/
structure IsShare (x : Binary64) : Prop where
  finite : x.isFinite = true
  nonneg : ¬ x < 0

end Binary64

theorem Split.isShare_of_check {s : Split Binary64} (hs : s.check = .ok ()) {tier : Tier}
    {share : Binary64} (h : (tier, share) ∈ s.shares) : share.IsShare := by
  unfold check at hs
  split_ifs at hs with hany
  have hshare := List.any_eq_false.1 (Bool.eq_false_iff.2 hany) _ h
  rw [Bool.or_eq_true, not_or] at hshare
  have hfinite : ShareArithmetic.isFinite share = true := by simpa using hshare.1
  exact ⟨hfinite, fun hneg => hshare.2 (decide_eq_true hneg)⟩

/-- A share whose percentage is positive is positive itself. -/
theorem Split.pos_of_percentage {s : Split Binary64} (hs : s.check = .ok ()) {tier : Tier}
    {percentage : Binary64} (h : (tier, percentage) ∈ s.percentages) (hpos : 0 < percentage) :
    ∃ share, (tier, share) ∈ s.shares ∧ 0 < share := by
  obtain ⟨⟨tier', share⟩, hshare, he⟩ := List.mem_map.1 h
  cases he
  exact ⟨share, hshare, Binary64.pos_of_pos_mul (isShare_of_check hs hshare).nonneg hpos⟩

namespace Brackets

/-- Only a tier with a positive share has a bracket. -/
theorem exists_share {split : Split Binary64} {b : Brackets Binary64} (hb : ofSplit split = .ok b)
    {tier : Tier} {bound : Binary64} (h : (tier, bound) ∈ b.bounds) :
    ∃ share, (tier, share) ∈ split.shares ∧ 0 < share := by
  obtain ⟨hcheck, hbounds⟩ := ofSplit_eq_ok.1 hb
  rw [hbounds] at h
  obtain ⟨percentage, hmem, hpos⟩ := mem_stack h
  exact Split.pos_of_percentage hcheck hmem hpos

/-- Whatever is planned goes to the host or to a tier with a positive share. -/
theorem tier_of_mem_assign {split : Split Binary64} {b : Brackets Binary64}
    (hb : ofSplit split = .ok b) {parameters : List (String × Nat)} {planned : PlannedParameter}
    (h : planned ∈ (b.assign parameters).parameters) :
    planned.tier = .host ∨ ∃ share, (planned.tier, share) ∈ split.shares ∧ 0 < share := by
  obtain ⟨reached, size, he⟩ := tier_of_mem_assignFrom h
  rw [he]
  exact (b.tierOf_mem _).imp And.right fun ⟨_, hbound⟩ => exists_share hb hbound

end Brackets

namespace Depot

variable {d d' : Depot} {tier : Tier} {capacity : Option Nat} {spill : Option String}

/-- Making a pool fails only if its folder cannot be made. -/
theorem addPool_cases (d : Depot) (tier : Tier) (capacity : Option Nat) (spill : Option String) :
    (∃ folder e files, spill = some folder ∧ d.files.makeFolder folder = (.error e, files) ∧
      d.addPool tier capacity spill = (.error (.io e), { d with files })) ∨
    ∃ d', d.addPool tier capacity spill = (.ok (), d') ∧
      ∀ t, t ∈ d'.tiers ↔ t = tier ∨ t ∈ d.tiers := by
  have hinstall : ∀ (d : Depot) (pool : Pool) t,
      t ∈ (d.install pool).tiers ↔ t = pool.tier ∨ t ∈ d.tiers := fun d pool t => by
    rw [mem_tiers, mem_tiers, install, Table.find?_insert]
    split_ifs with ht
    · exact iff_of_true rfl (.inl ht)
    · exact ⟨.inr, fun h => h.resolve_left ht⟩
  cases spill with
  | none => exact .inr ⟨_, rfl, hinstall _ _⟩
  | some folder =>
    unfold addPool newPool
    rcases hm : d.files.makeFolder folder with ⟨e | path, files⟩ <;> simp only [hm]
    · exact .inl ⟨folder, e, files, rfl, hm, rfl⟩
    · exact .inr ⟨_, rfl, hinstall _ _⟩

/-- Pools that need no folder are made. -/
theorem addPools_of_memory {specs : List (Tier × Option Nat × Option String)}
    (h : ∀ spec ∈ specs, spec.2.2 = none) :
    ∃ d', d.addPools specs = (.ok (), d') ∧
      ∀ t, t ∈ d'.tiers ↔ t ∈ specs.map Prod.fst ∨ t ∈ d.tiers := by
  induction specs generalizing d with
  | nil => exact ⟨d, rfl, fun t => by simp⟩
  | cons spec rest ih =>
    obtain ⟨tier, capacity, spill⟩ := spec
    obtain rfl : spill = none := h _ List.mem_cons_self
    rcases d.addPool_cases tier capacity none with ⟨_, _, _, hsome, -⟩ | ⟨d₁, hadd, htiers⟩
    · cases hsome
    · obtain ⟨d', hrest, htiers'⟩ := ih (d := d₁) fun spec hspec => h spec (List.mem_cons_of_mem _ hspec)
      refine ⟨d', ?_, fun t => ?_⟩
      · simp only [addPools, hadd, hrest]
      · rw [htiers', htiers, List.map_cons, List.mem_cons]
        exact or_left_comm.trans or_assoc.symm

end Depot

namespace Config

variable {c : Config}

theorem validate_split (hc : c.validate = .ok ()) : c.split.validate = .ok () := by
  unfold validate at hc
  split_ifs at hc
  cases hs : c.split.validate with
  | error e =>
    rw [hs] at hc
    cases hc
  | ok u => rfl

/-- The accelerator of the split is configured if it has a positive share. -/
theorem accelerator_lt (hc : c.validate = .ok ()) (hpos : 0 < c.split.accel) :
    c.split.accelerator < c.acceleratorCapacities.length := by
  unfold validate at hc
  split_ifs at hc with hlacks
  refine Nat.lt_of_not_le fun hle => hlacks ?_
  rw [lacksAccelerator, Bool.and_eq_true, decide_eq_true_eq, decide_eq_true_eq]
  exact ⟨hpos, hle⟩

/-- A usable configuration has every tier onto which its split can plan. -/
theorem tier_mem_of_planned (hc : c.validate = .ok ()) {b : Brackets Binary64}
    (hb : Brackets.ofSplit c.split = .ok b) {parameters : List (String × Nat)}
    {planned : PlannedParameter} (h : planned ∈ (b.assign parameters).parameters) :
    planned.tier ∈ c.tiers.map Prod.fst := by
  have hhost : Tier.host ∈ c.tiers.map Prod.fst := by simp [tiers]
  rcases Brackets.tier_of_mem_assign hb h with he | ⟨share, hshare, hpos⟩
  · rwa [he]
  · simp only [Split.shares, List.mem_cons, List.not_mem_nil, or_false, Prod.mk.injEq] at hshare
    rcases hshare with ⟨he, -⟩ | ⟨he, -⟩ | ⟨he, rfl⟩
    · rw [he]
      simp [tiers]
    · rwa [he]
    · rw [he]
      have hlt := accelerator_lt hc hpos
      simp [tiers, List.mem_zipIdx_iff_getElem?, hlt]

/-- A depot is furnished with all tiers, unless the folder of the disk cannot be made. -/
theorem furnish_cases (c : Config) (d : Depot) :
    (∃ folder e files, c.spill = some folder ∧ d.files.makeFolder folder = (.error e, files) ∧
      c.furnish d = (.error (.io e), { d with files })) ∨
    ∃ d', c.furnish d = (.ok (), d') ∧ ∀ t ∈ c.tiers.map Prod.fst, t ∈ d'.tiers := by
  unfold furnish tiers
  rw [Depot.addPools]
  rcases d.addPool_cases .disk c.diskCapacity c.spill with
    ⟨folder, e, files, hspill, hmake, hadd⟩ | ⟨d₁, hadd, htiers⟩
  · refine .inl ⟨folder, e, files, hspill, hmake, ?_⟩
    simp only [hadd]
  · have hmemory : ∀ spec ∈ (Tier.host, c.hostCapacity, (none : Option String)) ::
        c.acceleratorCapacities.zipIdx.map fun x => (Tier.accelerator x.2, x.1, none),
        spec.2.2 = none := by
      intro spec hspec
      rcases List.mem_cons.1 hspec with rfl | hspec
      · rfl
      · obtain ⟨x, -, rfl⟩ := List.mem_map.1 hspec
        rfl
    obtain ⟨d', hrest, htiers'⟩ := Depot.addPools_of_memory (d := d₁) hmemory
    refine .inr ⟨d', ?_, fun t ht => ?_⟩
    · simp only [hadd, hrest]
    · rw [List.map_cons, List.mem_cons] at ht
      rw [htiers', htiers]
      rcases ht with rfl | ht
      · exact .inr (.inl rfl)
      · exact .inl ht

theorem validate_of_ofFile {f : Files} {path : String} (h : ofFile f path = .ok c) :
    c.validate = .ok () := by
  unfold ofFile at h
  rcases hread : (f.locate path >>= f.read).mapError Fault.io with e | bytes <;> rw [hread] at h
  · cases h
  · simp only [bind, Except.bind] at h
    split at h
    · cases h
    · split at h
      · cases h
      · rename_i config _
        cases hvalid : config.validate with
        | error e =>
          rw [hvalid] at h
          cases h
        | ok u =>
          rw [hvalid] at h
          cases h
          exact hvalid

/-- A loader is made unless the folder of the disk cannot be, or there is no memory for the block
slots. -/
theorem loader_cases (hc : c.validate = .ok ()) {d d' : Depot} {r : Except Fault Loader}
    (h : c.loader d = (r, d')) :
    (∃ folder e files, c.spill = some folder ∧ d.files.makeFolder folder = (.error e, files) ∧
      r = .error (.io e)) ∨
    (BlockStore.slotLimit < c.blocks ∧ r = .error .capacityOverflow) ∨
    (c.blocks ≤ BlockStore.slotLimit ∧ ∃ l, r = .ok l ∧ l.split = c.split ∧
      ∀ t ∈ c.tiers.map Prod.fst, t ∈ l.depot.tiers) := by
  unfold loader at h
  simp only [hc] at h
  rcases c.furnish_cases d with ⟨folder, e, files, hspill, hmake, hfurnish⟩ | ⟨d₁, hfurnish, htiers⟩
  · simp only [hfurnish] at h
    cases h
    exact .inl ⟨folder, e, files, hspill, hmake, rfl⟩
  · simp only [hfurnish] at h
    obtain ⟨rfl, -⟩ := Prod.mk.inj h
    rcases Loader.overPools_cases (d₁.note (.started c.blocks d₁.tiers c.split)) c.blocks c.split with
      ⟨hlt, he⟩ | ⟨hle, he⟩
    · exact .inr (.inl ⟨hlt, he⟩)
    · exact .inr (.inr ⟨hle, _, he, rfl, htiers⟩)

end Config

namespace Loader

variable {σ : Type} {company : Company σ} {c : Config} {w w' : Loader × σ}

/-- A load by the split of a usable configuration whose tiers the loader has blames neither. -/
theorem not_blamesTiers_of_load (hc : c.validate = .ok ())
    (htiers : ∀ t ∈ c.tiers.map Prod.fst, t ∈ w.1.depot.tiers)
    (hact : ∀ moment w, (company.act moment w).1.fixtures = w.1.fixtures) {index : Nat}
    {block : Block} {e : Fault} (h : loadAmong company index block c.split w = (.error e, w')) :
    ¬ e.BlamesTiers := by
  obtain ⟨brackets, hbrackets⟩ := Split.ofSplit_of_validate (Config.validate_split hc)
  refine loadAmong_blameless hact hbrackets (fun name tier htier => ?_) h
  obtain ⟨planned, hplanned, rfl⟩ := Option.map_eq_some_iff.1 htier
  exact htiers _ (Config.tier_mem_of_planned hc hbrackets (List.mem_of_find?_eq_some hplanned))

end Loader

open Scene in
/-- A usable configuration, such as every one read from a file, makes a loader unless the folder of
its disk cannot be made or its block slots are more than memory can hold, as a usable configuration
may ask for. Whatever users then bring about, the loader has every tier onto which its own split can
plan; so no load by that split, alone or in company, is refused for want of a tier or for its
split. -/
theorem accepted_configuration_places {permits : Permits} {c : Config}
    (hc : c.validate = .ok () ∨ ∃ f path, Config.ofFile f path = .ok c) (d : Depot) :
    (∀ e d', c.loader d = (.error e, d') →
      (∃ folder io files, c.spill = some folder ∧
        d.files.makeFolder folder = (.error io, files) ∧ e = .io io) ∨
      (BlockStore.slotLimit < c.blocks ∧ e = .capacityOverflow)) ∧
    (BlockStore.slotLimit < c.blocks → ∀ l d', c.loader d ≠ (.ok l, d')) ∧
    ∀ l d', c.loader d = (.ok l, d') → ∀ w, Run permits (l, {}) w →
      (∀ brackets, Brackets.ofSplit c.split = .ok brackets → ∀ parameters,
        ∀ planned ∈ (brackets.assign parameters).parameters, planned.tier ∈ w.1.depot.tiers) ∧
      (∀ index block e l', w.1.loadDefault index block = (.error e, l') →
        (∀ tier, e ≠ .unknownTier tier) ∧ ∀ fault, e ≠ .invalidSplit fault) ∧
      ∀ index block rivals cancelled, (∀ moment w, Run permits w (rivals moment w)) → ∀ e w',
        Loader.loadAmong (company block (planOf block w.1.split) rivals cancelled) index block
          w.1.split w = (.error e, w') →
        (∀ tier, e ≠ .unknownTier tier) ∧ ∀ fault, e ≠ .invalidSplit fault := by
  have hvalid : c.validate = .ok () := hc.elim id fun ⟨_, _, h⟩ => Config.validate_of_ofFile h
  have hblameless : ∀ {e : Fault}, ¬ e.BlamesTiers →
      (∀ tier, e ≠ .unknownTier tier) ∧ ∀ fault, e ≠ .invalidSplit fault := fun he =>
    ⟨fun _ h => he (h ▸ trivial), fun _ h => he (h ▸ trivial)⟩
  refine ⟨fun e d' hloader => ?_, fun hslots l d' hloader => ?_, fun l d' hloader w hrun => ?_⟩
  · rcases Config.loader_cases hvalid hloader with
      ⟨folder, io, files, hspill, hmake, he⟩ | ⟨hlt, he⟩ | ⟨-, _, he, -⟩
    · exact .inl ⟨folder, io, files, hspill, hmake, Except.error.inj he⟩
    · exact .inr ⟨hlt, Except.error.inj he⟩
    · cases he
  · rcases Config.loader_cases hvalid hloader with ⟨_, _, _, -, -, he⟩ | ⟨-, he⟩ | ⟨hle, -⟩
    · cases he
    · cases he
    · exact Nat.not_lt.2 hle hslots
  · rcases Config.loader_cases hvalid hloader with
      ⟨_, _, _, -, -, he⟩ | ⟨-, he⟩ | ⟨-, _, he, hsplit, htiers⟩
    · cases he
    · cases he
    · cases he
      obtain ⟨hsame, hsplit'⟩ := Prod.mk.inj hrun.fixtures
      rw [hsplit] at hsplit'
      have htiers' : ∀ t ∈ c.tiers.map Prod.fst, t ∈ w.1.depot.tiers := fun t ht => by
        rw [hsame]
        exact htiers t ht
      refine ⟨fun brackets hb parameters planned h => ?_, fun index block e l' h => ?_,
        fun index block rivals cancelled hrivals e w' h => ?_⟩
      · exact htiers' _ (Config.tier_mem_of_planned hvalid hb h)
      · rw [Loader.loadDefault, hsplit'] at h
        exact hblameless (Loader.not_blamesTiers_of_load (w := (w.1, ())) hvalid htiers'
          (fun _ _ => rfl) (Loader.loadAmong_alone h))
      · rw [hsplit'] at h
        exact hblameless (Loader.not_blamesTiers_of_load hvalid htiers'
          (fixtures_company fun moment w => (hrivals moment w).fixtures) h)

/-- Everything goes to the second of two accelerators, which has room for nothing. -/
def sampleConfig : Config :=
  { blocks := 1, acceleratorCapacities := [none, some 0], split := ⟨0, 0, 50, 1⟩ }

open Scene in
/-- The sample's block is planned onto an accelerator that is there, so what it is refused for is
the capacity. -/
theorem accepted_configuration_sample : sampleConfig.validate = .ok () ∧ ∃ l d',
    sampleConfig.loader {} = (.ok l, d') ∧
      ∃ l', l.loadDefault 0 sampleBlock = (.error (.outOfCapacity (.accelerator 1) 4 0), l') ∧
        ∀ tier, Fault.outOfCapacity (.accelerator 1) 4 0 ≠ .unknownTier tier := by
  have hvalid : sampleConfig.validate = .ok () := by decide +kernel
  have hrefused : (sampleConfig.loader {}).1.toOption.map
      (fun l => (l.loadDefault 0 sampleBlock).1) =
        some (.error (.outOfCapacity (.accelerator 1) 4 0)) := by decide +kernel
  refine ⟨hvalid, ?_⟩
  rcases hloader : sampleConfig.loader {} with ⟨e | l, d'⟩ <;> rw [hloader] at hrefused
  · cases hrefused
  · have hload : l.loadDefault 0 sampleBlock =
        (.error (.outOfCapacity (.accelerator 1) 4 0), (l.loadDefault 0 sampleBlock).2) :=
      Prod.ext (Option.some.inj hrefused) rfl
    have hrun : Run {} (l, {}) (l, {}) := .rest _
    have hplaces := (accepted_configuration_places (.inl hvalid) {}).2.2 l d' hloader _ hrun
    exact ⟨l, d', rfl, _, hload, (hplaces.2.1 0 sampleBlock _ _ hload).1⟩

/-- As many block slots as a word can count. -/
def endlessConfig : Config := { blocks := wordMax }

/-- The configuration is usable and spills to no folder, but there is no memory for its slots. -/
theorem no_memory_for_accepted_slots : endlessConfig.validate = .ok () ∧
    endlessConfig.spill = none ∧ ∃ d', endlessConfig.loader {} = (.error .capacityOverflow, d') := by
  have hvalid : endlessConfig.validate = .ok () := by decide +kernel
  have hslots : BlockStore.slotLimit < endlessConfig.blocks := by decide
  rcases hloader : endlessConfig.loader {} with ⟨r, d'⟩
  rcases Config.loader_cases hvalid hloader with ⟨_, _, _, hspill, -⟩ | ⟨-, he⟩ | ⟨hle, -⟩
  · cases hspill
  · exact ⟨hvalid, rfl, d', by rw [he]⟩
  · exact absurd hslots (Nat.not_lt.2 hle)

end TieredWeights
