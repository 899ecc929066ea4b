import TieredWeights.Proofs.Bench.Ground

/-!
# A buffer for every reference

A run that shares nothing has a buffer for every reference, of its tier and length. So its count of
allocations is that of the references and its peak their bytes. All references are placed just if the
pools have room for them, and then the pools can accommodate the different keys.
-/
namespace TieredWeights

namespace Depot

/-- The pools of a depot can take a buffer for every reference in turn: the tiers are there, no
capacity is exceeded, and the file system takes all files that this can need where nothing is given
back. -/
structure HasRoom (d : Depot) (references : List Key) : Prop where
  sized : ∀ key ∈ references, d.Sized key.tier key.identity.bytes
  fits : ∀ tier pool, d.pools.find? tier = some pool →
    ((references.filter fun key => key.tier = tier).map fun key => key.identity.bytes).sum ≤
      pool.capacity
  names : ∀ tier pool, d.pools.find? tier = some pool →
    pool.Names (pool.releases + references.countP fun key => key.tier = tier) (pool.releases + 1)

namespace HasRoom

variable {d : Depot} {references references' : List Key}

/-- There is room for the first of some references if there is room for all. -/
theorem mono (h : d.HasRoom references) (hfirst : references' <+: references) :
    d.HasRoom references' where
  sized key hkey := h.sized key (hfirst.subset hkey)
  fits tier pool hpool := by
    have hbytes := ((hfirst.filter fun key => key.tier = tier).map
      fun key => key.identity.bytes).sublist.sum_le_sum fun n _ => Nat.zero_le n
    exact hbytes.trans (h.fits tier pool hpool)
  names tier pool hpool :=
    (h.names tier pool hpool).mono (Nat.add_le_add_left hfirst.sublist.countP_le _) le_rfl

/-- The different keys of a tier among some references. -/
theorem filter_toFinset (references : List Key) (tier : Tier) :
    references.toFinset.filter (fun key => key.tier = tier) =
      (references.filter fun key => key.tier = tier).toFinset := by
  rw [List.toFinset_filter]
  simp

/-- Where there is room for every reference there is room for the different ones. -/
theorem accommodates (h : d.HasRoom references) (hnone : d.Returned 0) :
    d.Accommodates references.toFinset references.length 0 where
  sized key hkey := h.sized key (List.mem_toFinset.1 hkey)
  fits tier pool hpool := by
    rw [bytesOn, filter_toFinset]
    exact (sum_toFinset_le _ _).trans (h.fits tier pool hpool)
  names tier pool hpool := by
    have hkeys : countOn references.toFinset tier ≤ references.countP fun key => key.tier = tier := by
      rw [countOn, filter_toFinset, List.countP_eq_length_filter]
      exact List.toFinset_card_le _
    have hback := hnone tier pool hpool
    exact (h.names tier pool hpool).mono (by omega) (by omega)

end HasRoom

end Depot

namespace Bench

open Scene

/-- A buffer has been filled for every key of a list, in its order. -/
structure Placed (depot : Depot) (placed : List Key) (buffers : List Buffer) (d : Depot) : Prop where
  sound : d.Sound (buffers : Multiset Buffer)
  buffers : buffers.map (fun b => (b.tier, b.length)) =
    placed.map fun key => (key.tier, key.identity.bytes)
  terms : Depot.Keeps Pool.terms depot d
  tidy : depot.Tidy → d.Tidy
  allocations : d.allocations = depot.allocations + placed.length
  sized : ∀ key ∈ placed, depot.Sized key.tier key.identity.bytes

variable {depot d d' : Depot} {placed : List Key} {buffers buffers' : List Buffer} {config : Config}
  {blocks : List Block} {split : Split Binary64}

theorem placed_nil (hd : depot.Sound 0) : Placed depot [] [] depot where
  sound := hd
  buffers := rfl
  terms := .refl _ depot
  tidy := id
  allocations := rfl
  sized _ hkey := absurd hkey List.not_mem_nil

namespace Placed

/-- One more tensor. -/
theorem snoc (h : Placed depot placed buffers d) {t : Tensor} {key : Key} {b : Buffer} {d₁ : Depot}
    (hkey : key.identity = t.identity)
    (ha : d.allocate key.tier t.bytes.size t.type = (.ok b, d₁))
    (hc : d₁.copyIn key.tier b t.bytes = (.ok (), d')) :
    Placed depot (placed ++ [key]) (buffers ++ [b]) d' := by
  have hbytes : t.bytes.size = key.identity.bytes := by rw [hkey, Tensor.identity]
  rw [hbytes] at ha
  obtain ⟨hs, -, htier, hlength, -⟩ := h.sound.allocate False ha
  have htook := h.sound.tookIn ha hc
  constructor
  case sound =>
    rw [← Multiset.coe_add, Multiset.add_comm]
    exact (hs.copyIn False htier hc).1
  case buffers =>
    rw [List.map_append, List.map_append, h.buffers]
    rw [List.map_singleton, List.map_singleton, htier, hlength]
  case terms => exact h.terms.trans htook.terms
  case tidy => exact fun htidy => htook.steady.tidy (h.tidy htidy)
  case allocations =>
    rw [htook.allocations, h.allocations, List.length_append, List.length_singleton]
    omega
  case sized =>
    intro key hkey
    rcases List.mem_append.1 hkey with hkey | hkey
    · exact h.sized key hkey
    · obtain rfl := List.mem_singleton.1 hkey
      exact h.terms.sites.sized htook.sized

/-- The tensors of a block are placed by its plan, if none is refused. By induction on what is yet to
be placed. -/
theorem ofParameters {plan : Plan} {key : String × Tensor → Key} {rest : List (String × Tensor)}
    (h : Placed depot placed buffers d)
    (hkey : ∀ x ∈ rest, plan.tierOf? x.1 = some (key x).tier ∧ (key x).identity = x.2.identity)
    (hr : placeParameters plan rest buffers d = (.ok (), buffers', d')) :
    Placed depot (placed ++ rest.map key) buffers' d' := by
  induction rest generalizing placed buffers d with
  | nil =>
    cases hr
    rwa [List.map_nil, List.append_nil]
  | cons x rest ih =>
    obtain ⟨htier, hidentity⟩ := hkey x List.mem_cons_self
    rcases ha : d.allocate (key x).tier x.2.bytes.size x.2.type with ⟨e | b, d₁⟩ <;>
      simp only [placeParameters, htier, ha] at hr
    · cases hr
    rcases hc : d₁.copyIn (key x).tier b x.2.bytes with ⟨e | u, d₂⟩ <;> simp only [hc] at hr
    · cases hr
    have hrest := ih (h.snoc hidentity ha hc) (fun y hy => hkey y (List.mem_cons_of_mem _ hy)) hr
    rwa [List.append_assoc, List.singleton_append] at hrest

theorem ofBlocks {brackets : Brackets Binary64} (hbrackets : Brackets.ofSplit split = .ok brackets)
    {blocks : List Block} (h : Placed depot placed buffers d)
    (hr : placeBlocks brackets blocks buffers d = (.ok (), buffers', d')) :
    Placed depot (placed ++ references blocks split) buffers' d' := by
  induction blocks generalizing placed buffers d with
  | nil =>
    cases hr
    rwa [references, List.flatMap_nil, List.append_nil]
  | cons block rest ih =>
    rcases hblock : placeParameters (brackets.assign block.sizes) block.parameters buffers d with
      ⟨e | u, buffers₁, d₁⟩ <;> simp only [placeBlocks, hblock] at hr
    · cases hr
    have hfirst := h.ofParameters (fun x hx => brackets.tierOf?_keyOf block hx) hblock
    rw [← keys_planOf hbrackets] at hfirst
    have hrest := ih hfirst hr
    rwa [List.append_assoc, ← references_singleton, ← references_append] at hrest

theorem usedBytes (h : Placed depot placed buffers d) :
    d.usedBytes = (placed.map fun key => key.identity.bytes).sum := by
  have hlengths := congrArg (List.map Prod.snd) h.buffers
  rw [List.map_map, List.map_map] at hlengths
  rw [h.sound.usedBytes, Multiset.map_coe, Multiset.sum_coe]
  exact congrArg List.sum hlengths

/-- The bytes in use on a tier are those of the references placed there. -/
theorem used_eq (h : Placed depot placed buffers d) {tier : Tier} {pool : Pool}
    (hpool : d.pools.find? tier = some pool) :
    pool.used = ((placed.filter fun key => key.tier = tier).map fun key => key.identity.bytes).sum := by
  have hbuffers : (buffers : Multiset Buffer).map (fun b => (b.tier, b.length)) =
      (placed : Multiset Key).map fun key => (key.tier, key.identity.bytes) := by
    rw [Multiset.map_coe, Multiset.map_coe, h.buffers]
  rw [(h.sound.pools tier pool hpool).2.used, Depot.map_onTier hbuffers tier, Multiset.filter_coe,
    Multiset.map_coe, Multiset.sum_coe]

/-- The buffers that are out on a tier are as many as the references placed there. -/
theorem card_onTier (h : Placed depot placed buffers d) (tier : Tier) :
    (Depot.onTier (buffers : Multiset Buffer) tier).card =
      placed.countP fun key => key.tier = tier := by
  have htiers := congrArg (List.countP fun x => decide (x.1 = tier)) h.buffers
  rw [List.countP_map, List.countP_map] at htiers
  rw [Depot.onTier, Multiset.filter_coe, Multiset.coe_card, ← List.countP_eq_length_filter]
  exact htiers

/-- The pools have had room for every reference, if nothing had been given back before. -/
theorem hasRoom (h : Placed depot placed buffers d) (htidy : depot.Tidy) (hnone : depot.Returned 0) :
    depot.HasRoom placed where
  sized := h.sized
  fits tier pool hpool := by
    obtain ⟨pool', hpool', hsite⟩ := h.terms.sites.find?_after hpool
    rw [← h.used_eq hpool', ← Pool.capacity_of_site hsite]
    exact (h.sound.pools tier pool' hpool').2.within
  names tier pool hpool := by
    obtain ⟨pool', hpool', hterms⟩ := h.terms.find?_after hpool
    have hsite : pool'.site = pool.site := congrArg Prod.fst hterms
    have hreleases : pool'.releases = pool.releases := congrArg Prod.snd hterms
    have hzero : pool.releases = 0 := Nat.le_zero.1 (hnone tier pool hpool)
    have hs := (h.sound.pools tier pool' hpool').2
    rw [← Pool.names_of_site hsite, hzero, Nat.zero_add, ← h.card_onTier]
    cases hspill : pool'.spill with
    | none => exact fun slot _ earlier _ => Pool.named_of_memory hspill slot _
    | some folder =>
      exact ((h.tidy htidy tier pool' hpool').2 (by simp [hspill])).names hs (hreleases.trans hzero)

/-- The next tensor is placed, if there is room for it besides the others. -/
theorem place (h : Placed depot placed buffers d) (htidy : d.Tidy) {t : Tensor} {key : Key}
    (hkey : key.identity = t.identity) (hroom : depot.HasRoom (placed ++ [key])) :
    ∃ b d₁ d', d.allocate key.tier t.bytes.size t.type = (.ok b, d₁) ∧
      d₁.copyIn key.tier b t.bytes = (.ok (), d') ∧ d'.Tidy := by
  have hbytes : key.identity.bytes = t.bytes.size := by rw [hkey, Tensor.identity]
  obtain ⟨pool, hpool, hsized⟩ := hroom.sized key (by simp)
  rw [hbytes] at hsized
  obtain ⟨pool', hpool', hterms⟩ := h.terms.find?_after hpool
  have hsite : pool'.site = pool.site := congrArg Prod.fst hterms
  have hreleases : pool'.releases = pool.releases := congrArg Prod.snd hterms
  have hnames : pool'.Names (pool'.allocations + 1) (pool'.releases + 1) := by
    have hcounted := (h.sound.pools key.tier pool' hpool').2.counted
    rw [h.card_onTier] at hcounted
    have hone : [key].countP (fun k => k.tier = key.tier) = 1 := by simp
    refine (Pool.names_of_site hsite).2 ((hroom.names key.tier pool hpool).mono ?_ ?_)
    · rw [List.countP_append, hone]
      omega
    · omega
  have hfits : pool'.used + t.bytes.size ≤ pool'.capacity := by
    have hlast : [key].filter (fun k => k.tier = key.tier) = [key] := by simp
    have hall := hroom.fits key.tier pool hpool
    rwa [List.filter_append, List.map_append, List.sum_append, ← h.used_eq hpool', hlast,
      List.map_singleton, List.sum_singleton, hbytes, ← Pool.capacity_of_site hsite] at hall
  rcases ha : d.allocate key.tier t.bytes.size t.type with ⟨e | b, d₁⟩
  · have hrefused : d.placeTensor key.tier t id = (.error e, d₁) := by
      simp only [Depot.placeTensor, ha]
    rcases h.sound.placeTensor htidy hrefused with ⟨_, -, hfull⟩ | ⟨_, hok, -⟩
    · exact absurd (hfull pool' hpool' ((Pool.sized_of_site hsite).2 hsized) hnames)
        (Nat.not_lt.2 hfits)
    · cases hok
  · have hwrites := (htidy key.tier pool' hpool').1.writes
    obtain ⟨d', hplace, -, htook⟩ := h.sound.placeTensor_allocated hpool' hwrites ha
    rcases hc : d₁.copyIn key.tier b t.bytes with ⟨e | u, d₂⟩ <;>
      simp only [Depot.placeTensor, ha, id, hc] at hplace
    · split at hplace <;> cases hplace
    · cases hplace
      exact ⟨b, d₁, d', rfl, hc, htook.steady.tidy htidy⟩

/-- The tensors of a block are all placed, if there is room for them besides the others. By induction
on what is yet to be placed. -/
theorem placeParameters {plan : Plan} {key : String × Tensor → Key} {rest : List (String × Tensor)}
    (h : Placed depot placed buffers d) (htidy : d.Tidy)
    (hkey : ∀ x ∈ rest, plan.tierOf? x.1 = some (key x).tier ∧ (key x).identity = x.2.identity)
    (hroom : depot.HasRoom (placed ++ rest.map key)) :
    ∃ buffers' d', Bench.placeParameters plan rest buffers d = (.ok (), buffers', d') ∧ d'.Tidy := by
  induction rest generalizing placed buffers d with
  | nil => exact ⟨buffers, d, rfl, htidy⟩
  | cons x rest ih =>
    obtain ⟨htier, hidentity⟩ := hkey x List.mem_cons_self
    rw [List.map_cons, List.append_cons] at hroom
    obtain ⟨b, d₁, d₂, ha, hc, htidy₂⟩ :=
      h.place htidy hidentity (hroom.mono (List.prefix_append _ _))
    obtain ⟨buffers', d', hrest, htidy'⟩ :=
      ih (h.snoc hidentity ha hc) htidy₂ (fun y hy => hkey y (List.mem_cons_of_mem _ hy)) hroom
    refine ⟨buffers', d', ?_, htidy'⟩
    simp only [Bench.placeParameters, htier, ha, hc, hrest]

/-- All blocks are placed, if there is room for every reference. By induction on the blocks that
remain. -/
theorem placeBlocks {brackets : Brackets Binary64}
    (hbrackets : Brackets.ofSplit split = .ok brackets) {blocks : List Block}
    (h : Placed depot placed buffers d) (htidy : d.Tidy)
    (hroom : depot.HasRoom (placed ++ references blocks split)) :
    ∃ buffers' d', Bench.placeBlocks brackets blocks buffers d = (.ok (), buffers', d') := by
  induction blocks generalizing placed buffers d with
  | nil => exact ⟨buffers, d, rfl⟩
  | cons block rest ih =>
    have hkey := fun x hx => brackets.tierOf?_keyOf block (x := x) hx
    rw [← List.singleton_append, references_append, references_singleton, keys_planOf hbrackets,
      ← List.append_assoc] at hroom
    obtain ⟨buffers₁, d₁, hblock, htidy₁⟩ :=
      h.placeParameters htidy hkey (hroom.mono (List.prefix_append _ _))
    obtain ⟨buffers', d', hrest⟩ := ih (h.ofParameters hkey hblock) htidy₁ hroom
    refine ⟨buffers', d', ?_⟩
    simp only [Bench.placeBlocks, hblock, hrest]

end Placed

/-- A run that is done has placed every reference. -/
theorem runNaive_done {a p : Nat} (hsplit : split.validate = .ok ())
    (hr : runNaive config blocks split d = (.ok (.done a p), d')) :
    ∃ depot d₁ buffers, config.furnish (fresh d) = (.ok (), depot) ∧
      (depot.Sound 0 → Placed depot (references blocks split) buffers d₁) ∧
        a = d₁.allocations ∧ p = d₁.usedBytes := by
  obtain ⟨brackets, hbrackets⟩ := Split.ofSplit_of_validate hsplit
  unfold runNaive at hr
  rcases hfurnish : config.furnish (fresh d) with ⟨e | u, depot⟩ <;> simp only [hfurnish] at hr
  · cases hr
  rcases hplace : placeBlocks brackets blocks [] depot with ⟨result, buffers, d₁⟩
  simp only [hbrackets, hplace] at hr
  rcases hback : giveBack buffers d₁ with ⟨e | u, d₂⟩ <;> simp only [hback] at hr
  · cases hr
  rcases result with e | u <;> simp only at hr
  · unfold RunResult.ofFault at hr
    split_ifs at hr
    all_goals cases hr
  · cases hr
    refine ⟨depot, d₁, buffers, rfl, fun hd => ?_, rfl, rfl⟩
    simpa using (placed_nil hd).ofBlocks hbrackets hplace

end Bench

end TieredWeights
