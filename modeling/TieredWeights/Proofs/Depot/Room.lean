import Mathlib.Algebra.BigOperators.Group.Finset.Piecewise
import TieredWeights.Proofs.Depot.Tidy

/-!
# Room in pools

A tidy depot takes a tensor in, or refuses it because its bytes do not fit into what is left of a
capacity, unless the file system stands in the way. Pools in memory are always tidy, and nothing
stands in their way.
-/
namespace TieredWeights.Depot

/-- What a depot is that has taken `n` bytes in. -/
structure TookIn (d : Depot) (tier : Tier) (n : Nat) (d' : Depot) : Prop where
  steady : Steady d d'
  terms : Keeps Pool.terms d d'
  allocations : d'.allocations = d.allocations + 1
  sized : d.Sized tier n

/-- There is no room for `n` bytes in the pool of a tier, or the file system refuses them. -/
def Full (d : Depot) (tier : Tier) (n : Nat) : Prop := ∀ pool, d.pools.find? tier = some pool →
  pool.Sized n → pool.Names (pool.allocations + 1) (pool.releases + 1) →
    pool.capacity < pool.used + n

variable {d d₁ d' : Depot} {tier : Tier} {out : Multiset Buffer}

/-- The lengths of buffers, summed tier by tier. -/
theorem sum_onTier (out : Multiset Buffer) {tiers : List Tier} (hnodup : tiers.Nodup)
    (hall : ∀ b ∈ out, b.tier ∈ tiers) :
    (tiers.map fun tier => ((onTier out tier).map Buffer.length).sum).sum =
      (out.map Buffer.length).sum := by
  induction out using Multiset.induction with
  | empty => simp [onTier]
  | cons b out ih =>
    have hb := hall b (Multiset.mem_cons_self b out)
    have hone : ∀ tier, ((onTier (b ::ₘ out) tier).map Buffer.length).sum =
        (if b.tier = tier then b.length else 0) + ((onTier out tier).map Buffer.length).sum := by
      intro tier
      by_cases htier : b.tier = tier
      · simp [onTier_cons_self htier, htier]
      · simp [onTier_cons_ne (Ne.symm htier), htier]
    have hself : (tiers.map fun tier => if b.tier = tier then b.length else 0).sum = b.length := by
      rw [← List.sum_toFinset _ hnodup, Finset.sum_ite_eq, if_pos (List.mem_toFinset.2 hb)]
    rw [List.map_congr_left fun tier _ => hone tier, List.sum_map_add, hself,
      ih fun c hc => hall c (Multiset.mem_cons_of_mem hc), Multiset.map_cons, Multiset.sum_cons]

/-- A sound depot counts the bytes of all buffers that are out. -/
theorem Sound.usedBytes (hd : d.Sound out) : d.usedBytes = (out.map Buffer.length).sum := by
  have hused : d.pools.values.map Pool.used =
      d.pools.keys.map fun tier => ((onTier out tier).map Buffer.length).sum := by
    rw [Table.values, Table.keys, List.map_map, List.map_map]
    refine List.map_congr_left fun x hx => ?_
    exact (hd.pools x.1 x.2 (Table.mem_toList.1 hx)).2.used
  rw [Depot.usedBytes, sumOf_eq_sum, hused, sum_onTier out (Table.nodup_keys _)]
  intro b hb
  obtain ⟨pool, hpool⟩ := hd.housed b hb
  exact Table.mem_keys.2 (by rw [hpool]; rfl)

theorem InMemory.tidy (h : d.InMemory) (hd : d.Sound out) : d.Tidy := by
  intro tier pool hpool
  have hmemory := h tier pool hpool
  have hs := (hd.pools tier pool hpool).2
  refine ⟨⟨fun hspill => ?_, fun i g k hi => ?_, fun i g path hpath => ?_⟩, fun hspill => ?_⟩
  · simp [hmemory] at hspill
  · obtain ⟨b, hb, rfl, rfl⟩ := hs.exists_of_backed hi
    obtain ⟨k', hk', hbacks⟩ := hs.backed b hb
    rw [hi] at hk'
    cases hk'
    exact hbacks
  · rw [Pool.spillPath?_eq_none hmemory] at hpath
    cases hpath
  · simp [hmemory] at hspill

/-- What is allocated and then written has been taken in. -/
theorem Sound.tookIn (hd : d.Sound out) {n : Nat} {type : ElementType} {b : Buffer}
    {bytes : ByteArray} {r : Except Fault Unit} (ha : d.allocate tier n type = (.ok b, d₁))
    (hc : d₁.copyIn tier b bytes = (r, d')) : d.TookIn tier n d' := by
  obtain ⟨hs, -, hb, -⟩ := hd.allocate False ha
  obtain ⟨hsteady, hterms, hcount, hsized⟩ := hd.allocated ha
  obtain ⟨hsteady', hterms', hcount'⟩ := hs.written hb hc
  exact ⟨hsteady.trans hsteady', hterms.trans hterms', hcount'.trans hcount, hsized⟩

theorem exists_of_allocate {n : Nat} {type : ElementType} {b : Buffer}
    (ha : d.allocate tier n type = (.ok b, d₁)) : ∃ pool, d.pools.find? tier = some pool := by
  unfold Depot.allocate at ha
  split at ha
  · cases ha
  · exact ⟨_, ‹_›⟩

/-- A tensor that is given a buffer is taken in: what was just allocated can be read, and so it can be
written unless the system refuses. -/
theorem Sound.placeTensor_allocated (hd : d.Sound out) {t : Tensor} {b : Buffer} {pool : Pool}
    (hpool : d.pools.find? tier = some pool) (hwrites : pool.Writes d.files)
    (ha : d.allocate tier t.bytes.size t.type = (.ok b, d₁)) :
    ∃ d', d.placeTensor tier t id = (.ok b, d') ∧ b.length = t.bytes.size ∧
      d.TookIn tier t.bytes.size d' := by
  obtain ⟨hs, -, htier, hlength, pool₁, k, hpool₁, hk, hcontent⟩ := hd.allocate False ha
  have hread : pool₁.read d₁.files b = .ok (Content.zeros t.bytes.size).bytes :=
    Pool.read_eq_ok.2 ⟨k, _, hk, hcontent, rfl⟩
  have hwrites₁ : pool₁.Writes d₁.files := by
    rcases hp : pool.allocate d.files t.bytes.size t.type with ⟨r, pool', files⟩
    simp only [Depot.allocate, hpool, hp] at ha
    cases ha
    rw [Table.find?_insert_self, Option.some.injEq] at hpool₁
    exact hpool₁ ▸ (Pool.touches_allocate hp).writes hwrites
  have hs₁ := (hs.pools tier pool₁ hpool₁).2
  rw [onTier_cons_self htier] at hs₁
  have hwritten := hs₁.copyIn_ok (Multiset.mem_cons_self b _) hwrites₁ hread hlength.symm
  rcases hc : d₁.copyIn tier b t.bytes with ⟨r', d₂⟩
  have hok : r' = .ok () := by
    have hcopy := congrArg Prod.fst hc
    simp only [Depot.copyIn, hpool₁] at hcopy
    exact hcopy.symm.trans hwritten
  subst hok
  refine ⟨d₂, ?_, hlength, hd.tookIn ha hc⟩
  simp only [Depot.placeTensor, ha, id, hc]

/-- A tidy depot takes a tensor in, or there is no room for it, or the file system refuses. -/
theorem Sound.placeTensor (hd : d.Sound out) (htidy : d.Tidy) {t : Tensor}
    {r : Except Fault Buffer} (h : d.placeTensor tier t id = (r, d')) :
    (∃ e, r = .error e ∧ d.Full tier t.bytes.size) ∨
    ∃ b, r = .ok b ∧ b.length = t.bytes.size ∧ d.TookIn tier t.bytes.size d' := by
  rcases ha : d.allocate tier t.bytes.size t.type with ⟨e | b, d₁⟩
  · simp only [Depot.placeTensor, ha] at h
    cases h
    refine .inl ⟨_, rfl, fun pool hpool hsized hnames => ?_⟩
    rcases hp : pool.allocate d.files t.bytes.size t.type with ⟨r', pool', files⟩
    simp only [Depot.allocate, hpool, hp] at ha
    cases ha
    obtain ⟨hfiles, hthrifty⟩ := htidy tier pool hpool
    exact hfiles.full (hd.pools tier pool hpool).2 hthrifty (fun _ => t.size_le) hsized hnames hp
  · obtain ⟨pool, hpool⟩ := exists_of_allocate ha
    obtain ⟨d₂, hplace, htook⟩ := hd.placeTensor_allocated hpool (htidy tier pool hpool).1.writes ha
    rw [h, Prod.mk.injEq] at hplace
    obtain ⟨rfl, rfl⟩ := hplace
    exact .inr ⟨b, rfl, htook⟩

/-- The pool of a tier takes `n` bytes and can be filled with them. -/
def Takes (d : Depot) (tier : Tier) (n : Nat) : Prop :=
  ∃ pool, d.pools.find? tier = some pool ∧ pool.Takes d.files n ∧ pool.Writes d.files

theorem Takes.allocate {n : Nat} (h : d.Takes tier n) (type : ElementType) :
    ∃ b d', d.allocate tier n type = (.ok b, d') := by
  obtain ⟨pool, hpool, htakes, -⟩ := h
  have hok := htakes.allocate type
  rcases ha : pool.allocate d.files n type with ⟨r, pool', files⟩
  rw [ha] at hok
  cases hok
  simp only [Depot.allocate, hpool, ha]
  exact ⟨_, _, rfl⟩

end TieredWeights.Depot
