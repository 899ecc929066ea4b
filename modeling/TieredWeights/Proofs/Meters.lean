import TieredWeights.Proofs.Cache.Steps
import TieredWeights.Proofs.Pool.Refusals
import TieredWeights.Proofs.Tiers

/-!
# The meters of a loader

A loader counts what loads ask for and reuse, its cache how often a key was found and missed, and its
pools how many buffers they handed out. No other operation than a load, a call of the cache or an
allocation moves any of these. A call moves one of the two meters of the cache by one; the allocations
move by one if it places a tensor, and at most by one if it fails.
-/
namespace TieredWeights

/-- What a loader, its cache and its pools count. -/
@[ext]
structure Meters where
  reuse : ReuseStats
  hits : Nat
  misses : Nat
  allocations : Nat

namespace Pool

theorem allocations_of_refused {p p' : Pool} {f f' : Files} {n : Nat} {type : ElementType} {e : Fault}
    (h : p.allocate f n type = (.error e, p', f')) : p'.allocations = p.allocations := by
  rcases allocate_cases h with ⟨_, -, -, rfl | rfl⟩ | ⟨-, -, rfl, -⟩ | ⟨k, hok, -⟩
  · rfl
  · exact p.takeSlot_allocations
  · exact p.takeSlot_allocations
  · cases hok

theorem allocations_release (p : Pool) (f : Files) (b : Buffer) :
    (p.release f b).2.1.allocations = p.allocations := by
  unfold release
  split
  · rfl
  · rfl
  · split <;> rfl

end Pool

namespace Depot

variable {d d' : Depot} {tier : Tier}

/-- A pool put back changes the allocations by its own. -/
theorem allocations_insert {pool : Pool} (hpool : d.pools.find? tier = some pool) (pool' : Pool)
    (files : Files) :
    ({ d with pools := d.pools.insert tier pool', files } : Depot).allocations + pool.allocations =
      d.allocations + pool'.allocations :=
  Table.sumOf_values_insert Pool.allocations hpool pool'

theorem allocations_of_insert {pool pool' : Pool} (hpool : d.pools.find? tier = some pool)
    (hsame : pool'.allocations = pool.allocations) (files : Files) :
    ({ d with pools := d.pools.insert tier pool', files } : Depot).allocations = d.allocations := by
  have hcount := allocations_insert hpool pool' files
  omega

/-- One buffer more if one is allocated. -/
theorem allocations_allocate {n : Nat} {type : ElementType} {r : Except Fault Buffer}
    (h : d.allocate tier n type = (r, d')) :
    d'.allocations = d.allocations + (brought r).card := by
  unfold allocate at h
  cases hpool : d.pools.find? tier with
  | none =>
    simp only [hpool] at h
    cases h
    rfl
  | some pool =>
    rcases ha : pool.allocate d.files n type with ⟨r', pool', files⟩
    simp only [hpool, ha] at h
    cases h
    have hcount := allocations_insert hpool pool' files
    cases r with
    | error e =>
      have hsame := Pool.allocations_of_refused ha
      simp only [brought, Multiset.card_zero]
      omega
    | ok b =>
      have hone := Pool.allocations_of_allocate ha
      simp only [brought, Multiset.card_singleton]
      omega

theorem allocations_copyIn (d : Depot) (tier : Tier) (b : Buffer) (bytes : ByteArray) :
    (d.copyIn tier b bytes).2.allocations = d.allocations := by
  unfold copyIn
  split
  · rfl
  · rename_i pool hpool
    rcases hc : pool.copyIn d.files b bytes with ⟨r, pool', files⟩
    exact allocations_of_insert hpool (Pool.allocations_of_copyIn hc) files

theorem allocations_release (d : Depot) (tier : Tier) (b : Buffer) :
    (d.release tier b).2.allocations = d.allocations := by
  unfold release
  split
  · rfl
  · rename_i pool hpool
    have hsame := pool.allocations_release d.files b
    rcases hr : pool.release d.files b with ⟨e | notices, pool', files⟩ <;> rw [hr] at hsame <;>
      exact allocations_of_insert hpool hsame files

/-- Placing a tensor hands out one buffer, or at most one if it fails. -/
theorem allocations_placeTensor {t : Tensor} {meanwhile : Depot → Depot}
    (hmeanwhile : ∀ d, (meanwhile d).allocations = d.allocations) {r : Except Fault Buffer}
    (h : d.placeTensor tier t meanwhile = (r, d')) :
    d.allocations + (brought r).card ≤ d'.allocations ∧
      ∀ b, r = .ok b → d'.allocations = d.allocations + 1 := by
  unfold placeTensor at h
  rcases ha : d.allocate tier t.bytes.size t.type with ⟨e | b, d₁⟩ <;> simp only [ha] at h <;>
    have hfirst := allocations_allocate ha
  · cases h
    exact ⟨hfirst.ge, nofun⟩
  · have hone : d₁.allocations = d.allocations + 1 := hfirst
    have hcopy := (meanwhile d₁).allocations_copyIn tier b t.bytes
    rw [hmeanwhile, hone] at hcopy
    rcases hc : (meanwhile d₁).copyIn tier b t.bytes with ⟨e | u, d₂⟩ <;> simp only [hc] at h hcopy
    · have hrelease := d₂.allocations_release tier b
      rcases hr : d₂.release tier b with ⟨e' | u, d₃⟩ <;> simp only [hr] at h hrelease <;> cases h <;>
        refine ⟨?_, nofun⟩ <;> simp only [brought, Multiset.card_zero] <;> omega
    · cases h
      exact ⟨hcopy.ge, fun _ _ => hcopy⟩

end Depot

namespace Cache

/-- The meters of a cache over its pools, beside what its loader counts. -/
def meters (c : Cache) (reuse : ReuseStats) : Meters := ⟨reuse, c.hits, c.misses, c.depot.allocations⟩

variable (reuse : ReuseStats)

theorem meters_release (c : Cache) (p : PlacementId) : (c.release p).meters reuse = c.meters reuse := by
  unfold release
  split
  · rfl
  · rename_i q hq
    split_ifs
    · have hrelease := c.depot.allocations_release q.key.tier q.buffer
      rcases hr : c.depot.release q.key.tier q.buffer with ⟨e | u, d⟩ <;> rw [hr] at hrelease <;>
        simp only [free, hr, meters] <;> exact congrArg _ hrelease
    · rfl

theorem meters_releaseAll (c : Cache) (ps : List PlacementId) :
    (c.releaseAll ps).meters reuse = c.meters reuse := by
  induction ps generalizing c with
  | nil => rfl
  | cons p ps ih => exact (ih (c.release p)).trans (c.meters_release reuse p)

theorem meters_forget (c : Cache) (keep : Key → KeySlot → Bool) :
    (c.forget keep).meters reuse = c.meters reuse :=
  meters_releaseAll reuse { c with slots := c.slots.filter keep } _

theorem meters_invalidate (c : Cache) (tier : Tier) :
    (c.invalidate tier).2.meters reuse = c.meters reuse := by
  rw [invalidate_eq]
  exact c.meters_forget reuse _

theorem meters_clear (c : Cache) : c.clear.meters reuse = c.meters reuse := by
  rw [clear_eq]
  exact c.meters_forget reuse _

theorem meters_purge (c : Cache) : c.purge.2.meters reuse = c.meters reuse := by
  obtain ⟨d, he, hpools, -⟩ := purge_eq c
  rw [he, ← c.meters_forget reuse fun _ slot => !c.isIdle slot]
  simp only [meters, Depot.allocations, hpools]

theorem meters_settle (c : Cache) (ticket : Ticket) (brought : Except Fault Buffer) :
    (c.settle ticket brought).2.meters reuse = c.meters reuse := by
  have hleave : (c.leave ticket).meters reuse = c.meters reuse := by
    unfold leave
    split <;> rfl
  unfold settle
  rw [← hleave]
  generalize c.leave ticket = c₁
  cases brought with
  | error e => rfl
  | ok b =>
    simp only
    split
    · rfl
    · split_ifs
      · rfl
      · have hrelease := c₁.depot.allocations_release ticket.key.tier b
        rcases hr : c₁.depot.release ticket.key.tier b with ⟨e | u, d⟩ <;> rw [hr] at hrelease <;>
          exact congrArg (Meters.mk reuse c₁.hits c₁.misses) hrelease
      · rfl

/-- A key is found or missed. -/
inductive Asked (m : Meters) : Except Fault Consulted → Meters → Prop
  | hit (p : PlacementId) : Asked m (.ok (.hit p)) { m with hits := m.hits + 1 }
  | vacant (ticket : Ticket) : Asked m (.ok (.vacant ticket)) { m with misses := m.misses + 1 }
  | refused (e : Fault) : Asked m (.error e) { m with misses := m.misses + 1 }

theorem meters_consult (c : Cache) (key : Key) :
    Asked (c.meters reuse) (c.consult key).1 ((c.consult key).2.meters reuse) := by
  unfold consult slotOf
  cases c.slots.find? key with
  | none =>
    simp only
    split
    · exact .refused _
    · exact .vacant _
  | some slot =>
    simp only
    split
    · exact .hit _
    · split
      · exact .refused _
      · exact .vacant _

/-- What a call does to the meters: it shares a placement that is there, or places with a buffer newly
allocated, or fails. -/
inductive Answered (m : Meters) : Except Fault Resolved → Meters → Prop
  | hit (p : PlacementId) : Answered m (.ok ⟨p, false⟩) { m with hits := m.hits + 1 }
  | placed (p : PlacementId) :
      Answered m (.ok ⟨p, true⟩) { m with misses := m.misses + 1, allocations := m.allocations + 1 }
  | failed (e : Fault) {allocations : Nat} (hle : m.allocations ≤ allocations) :
      Answered m (.error e) { m with misses := m.misses + 1, allocations }

/-- A tensor resolved, while others go on with the depot but allocate nothing. -/
theorem meters_resolveAmid (c : Cache) {meanwhile : Depot → Depot}
    (hmeanwhile : ∀ d, (meanwhile d).allocations = d.allocations) (t : Tensor) (tier : Tier) :
    Answered (c.meters reuse) (c.resolveAmid meanwhile t tier).1
      ((c.resolveAmid meanwhile t tier).2.meters reuse) := by
  have hasked := c.meters_consult reuse ⟨t.identity, tier⟩
  unfold resolveAmid
  rcases hconsult : c.consult ⟨t.identity, tier⟩ with ⟨e | p | ticket, c₁⟩ <;>
    rw [hconsult] at hasked <;> dsimp only at hasked ⊢ <;>
    generalize hm : c₁.meters reuse = m at hasked ⊢ <;> cases hasked
  · exact .failed e le_rfl
  · exact .hit p
  · have hallocations : c₁.depot.allocations = c.depot.allocations := congrArg Meters.allocations hm
    rcases hplace : c₁.depot.placeTensor tier t meanwhile with ⟨brought, d⟩
    obtain ⟨hle, hone⟩ := Depot.allocations_placeTensor hmeanwhile hplace
    have hmeters : ∀ n, d.allocations = n → ({ c₁ with depot := d } : Cache).meters reuse =
        { c.meters reuse with misses := c.misses + 1, allocations := n } := by
      rintro n rfl
      exact congrArg (fun m : Meters => { m with allocations := d.allocations }) hm
    have hsettle := meters_settle reuse { c₁ with depot := d } ticket brought
    dsimp only
    rcases hs : ({ c₁ with depot := d } : Cache).settle ticket brought with ⟨e | p, c₂⟩ <;>
      rw [hs] at hsettle <;> dsimp only at hsettle ⊢ <;> rw [hsettle]
    · rw [hmeters _ rfl]
      exact .failed e (by show c.depot.allocations ≤ _; omega)
    · cases brought with
      | error e => cases hs
      | ok b =>
        rw [hmeters (c.depot.allocations + 1) (by rw [hone b rfl, hallocations])]
        exact .placed p

end Cache

end TieredWeights
