import Mathlib.Tactic.SplitIfs
import TieredWeights.Loader
import TieredWeights.Proofs.Bindings

/-!
# The tiers of a depot

Once a depot is furnished, no operation adds a pool to it or takes one away: each puts a pool back
under the tier that it was found under. So the tiers of a loader are those of its depot when it was
made, whatever is resolved, released or forgotten.
-/
namespace TieredWeights

namespace Depot

variable {tier : Tier}

theorem mem_tiers {d : Depot} : tier ∈ d.tiers ↔ (d.pools.find? tier).isSome := Table.mem_keys

theorem not_mem_tiers {d : Depot} (h : d.pools.find? tier = none) : tier ∉ d.tiers := by
  rw [mem_tiers, h]
  exact Bool.false_ne_true

theorem tiers_allocate (d : Depot) (tier : Tier) (n : Nat) (type : ElementType) :
    (d.allocate tier n type).2.tiers = d.tiers := by
  unfold allocate
  split
  · rfl
  · rename_i pool hpool
    exact Table.keys_insert hpool _

theorem tiers_copyIn (d : Depot) (tier : Tier) (b : Buffer) (bytes : ByteArray) :
    (d.copyIn tier b bytes).2.tiers = d.tiers := by
  unfold copyIn
  split
  · rfl
  · rename_i pool hpool
    exact Table.keys_insert hpool _

theorem tiers_release (d : Depot) (tier : Tier) (b : Buffer) :
    (d.release tier b).2.tiers = d.tiers := by
  unfold release
  split
  · rfl
  · rename_i pool hpool
    rcases pool.release d.files b with ⟨e | notices, pool', files⟩ <;>
      exact Table.keys_insert hpool _

/-- Placing a tensor keeps the tiers, if what goes on meanwhile does. -/
theorem tiers_placeTensor (d : Depot) (tier : Tier) (t : Tensor) {meanwhile : Depot → Depot}
    (hmeanwhile : ∀ d, (meanwhile d).tiers = d.tiers) :
    (d.placeTensor tier t meanwhile).2.tiers = d.tiers := by
  have hallocate := d.tiers_allocate tier t.bytes.size t.type
  unfold placeTensor
  rcases ha : d.allocate tier t.bytes.size t.type with ⟨e | b, d₁⟩ <;> simp only [ha] at hallocate ⊢
  · exact hallocate
  · have hcopy := (meanwhile d₁).tiers_copyIn tier b t.bytes
    rcases hc : (meanwhile d₁).copyIn tier b t.bytes with ⟨e | u, d₂⟩ <;> simp only [hc] at hcopy ⊢
    · have hrelease := d₂.tiers_release tier b
      rw [hcopy, hmeanwhile, hallocate] at hrelease
      rcases hr : d₂.release tier b with ⟨e' | u, d₃⟩ <;> simp only [hr] at hrelease ⊢ <;>
        exact hrelease
    · rw [hcopy, hmeanwhile, hallocate]

end Depot

namespace Cache

theorem consult_depot (c : Cache) (key : Key) : (c.consult key).2.depot = c.depot := by
  unfold consult slotOf
  cases c.slots.find? key with
  | none =>
    simp only
    split <;> rfl
  | some slot =>
    simp only
    split
    · rfl
    · split <;> rfl

theorem leave_depot (c : Cache) (ticket : Ticket) : (c.leave ticket).depot = c.depot := by
  unfold leave
  split <;> rfl

theorem tiers_settle (c : Cache) (ticket : Ticket) (brought : Except Fault Buffer) :
    (c.settle ticket brought).2.depot.tiers = c.depot.tiers := by
  unfold settle
  rw [← c.leave_depot ticket]
  generalize c.leave ticket = c₁
  cases brought with
  | error e => rfl
  | ok b =>
    simp only
    split
    · rfl
    · split_ifs
      · rfl
      · have hrelease := c₁.depot.tiers_release ticket.key.tier b
        rcases hr : c₁.depot.release ticket.key.tier b with ⟨e | u, d⟩ <;>
          simp only [hr] at hrelease ⊢ <;> exact hrelease
      · rfl

theorem tiers_release (c : Cache) (p : PlacementId) :
    (c.release p).depot.tiers = c.depot.tiers := by
  unfold release
  split
  · rfl
  · rename_i q _
    split_ifs
    · have hrelease := c.depot.tiers_release q.key.tier q.buffer
      simp only [free]
      rcases hr : c.depot.release q.key.tier q.buffer with ⟨e | u, d⟩ <;>
        simp only [hr] at hrelease ⊢ <;> exact hrelease
    · rfl

theorem tiers_releaseAll (c : Cache) (ps : List PlacementId) :
    (c.releaseAll ps).depot.tiers = c.depot.tiers := by
  induction ps generalizing c with
  | nil => rfl
  | cons p ps ih => exact (ih (c.release p)).trans (c.tiers_release p)

theorem tiers_purge (c : Cache) : c.purge.2.depot.tiers = c.depot.tiers := by
  have hrelease := tiers_releaseAll { c with slots := c.slots.filter fun _ slot => !c.isIdle slot }
    (registrations (c.slots.filter fun _ slot => c.isIdle slot).toList)
  unfold purge
  simp only
  split_ifs <;> exact hrelease

end Cache

end TieredWeights
