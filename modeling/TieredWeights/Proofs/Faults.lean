import TieredWeights.Proofs.Tiers

/-!
# Faults of storage

Whatever a pool, a depot or the cache refuses, it refuses for a reason of storage: the tier has no
pool, the pool no room, the buffer is not its own or has another length, or the file system refuses.
So a load that fails while it resolves its parameters fails for such a reason, and never for a tier
that the depot has.
-/
namespace TieredWeights

/-- A fault of a pool, of its files, or of a tier that has no pool. -/
def Fault.IsStorage : Fault → Prop
  | .outOfCapacity .. | .unknownTier _ | .invalidHandle _ | .sizeMismatch .. | .io _ => True
  | _ => False

/-- A fault of a pool or of its files. -/
def Fault.IsRefusal : Fault → Prop
  | .outOfCapacity .. | .invalidHandle _ | .sizeMismatch .. | .io _ => True
  | _ => False

theorem Fault.IsRefusal.isStorage {e : Fault} (h : e.IsRefusal) : e.IsStorage := by
  cases e <;> first | exact h | trivial

/-- What is refused is no panic. -/
theorem Fault.IsRefusal.isPanic {e : Fault} (h : e.IsRefusal) : e.isPanic = false := by
  cases e <;> first | rfl | exact h.elim

variable {e : Fault} {n : Nat} {type : ElementType} {b : Buffer} {bytes : ByteArray} {tier : Tier}

namespace Pool

variable {p p' : Pool} {f f' : Files}

theorem allocate_fault (hn : n ≤ memoryLimit) (h : p.allocate f n type = (.error e, p', f')) :
    e.IsRefusal := by
  simp only [allocate, Nat.not_lt.2 hn, if_false] at h
  split_ifs at h
  · cases h
    trivial
  · split at h
    · cases h
    · split at h <;> cases h
      trivial

theorem backing_fault (h : p.backing b = .error e) : e.IsRefusal := by
  unfold backing at h
  split at h
  · cases h
    trivial
  · split at h
    · split at h <;> cases h
      trivial
    · cases h
      trivial

theorem copyIn_fault (h : p.copyIn f b bytes = (.error e, p', f')) : e.IsRefusal := by
  unfold copyIn at h
  split at h
  · cases h
    trivial
  · split at h
    · rename_i hbacking
      cases h
      exact backing_fault hbacking
    · cases h
    · split at h <;> cases h
      trivial

theorem read_fault (h : p.read f b = .error e) : e.IsRefusal := by
  unfold read at h
  split at h
  · rename_i hbacking
    cases h
    exact backing_fault hbacking
  · cases h
  · cases hread : f.read _ <;> rw [hread] at h <;> cases h
    trivial

theorem release_fault (h : p.release f b = (.error e, p', f')) : e.IsRefusal := by
  unfold release at h
  split at h
  · rename_i hbacking
    cases h
    exact backing_fault hbacking
  · cases h
  · split at h <;> cases h

end Pool

namespace Depot

variable {d d' : Depot}

/-- What a depot may refuse a request about a tier for. -/
def Refuses (d : Depot) (tier : Tier) (e : Fault) : Prop :=
  e.IsRefusal ∨ e = .unknownTier tier ∧ tier ∉ d.tiers

theorem Refuses.isStorage (h : d.Refuses tier e) : e.IsStorage := by
  rcases h with h | ⟨rfl, -⟩
  · exact h.isStorage
  · trivial

theorem Refuses.isRefusal (h : d.Refuses tier e) (htier : tier ∈ d.tiers) : e.IsRefusal :=
  h.resolve_right fun hno => hno.2 htier

theorem allocate_fault (hn : n ≤ memoryLimit) (h : d.allocate tier n type = (.error e, d')) :
    d.Refuses tier e := by
  unfold allocate at h
  split at h
  · rename_i hpool
    cases h
    exact .inr ⟨rfl, not_mem_tiers hpool⟩
  · rename_i pool _
    rcases hp : pool.allocate d.files n type with ⟨r, pool', files⟩
    simp only [hp, Prod.mk.injEq] at h
    obtain ⟨rfl, -⟩ := h
    exact .inl (Pool.allocate_fault hn hp)

theorem copyIn_fault (h : d.copyIn tier b bytes = (.error e, d')) : d.Refuses tier e := by
  unfold copyIn at h
  split at h
  · rename_i hpool
    cases h
    exact .inr ⟨rfl, not_mem_tiers hpool⟩
  · rename_i pool _
    rcases hp : pool.copyIn d.files b bytes with ⟨r, pool', files⟩
    simp only [hp, Prod.mk.injEq] at h
    obtain ⟨rfl, -⟩ := h
    exact .inl (Pool.copyIn_fault hp)

theorem release_fault (h : d.release tier b = (.error e, d')) : d.Refuses tier e := by
  unfold release at h
  split at h
  · rename_i hpool
    cases h
    exact .inr ⟨rfl, not_mem_tiers hpool⟩
  · rename_i pool _
    rcases hp : pool.release d.files b with ⟨e' | notices, pool', files⟩ <;> simp only [hp] at h
    · cases h
      exact .inl (Pool.release_fault hp)
    · cases h

theorem placeTensor_fault {t : Tensor} {meanwhile : Depot → Depot}
    (h : d.placeTensor tier t meanwhile = (.error e, d')) :
    e.IsStorage ∧ ((∀ d, (meanwhile d).tiers = d.tiers) → d.Refuses tier e) := by
  have hallocate := d.tiers_allocate tier t.bytes.size t.type
  unfold placeTensor at h
  rcases ha : d.allocate tier t.bytes.size t.type with ⟨e' | b, d₁⟩ <;> simp only [ha] at h hallocate
  · cases h
    have hfault := allocate_fault t.size_le ha
    exact ⟨hfault.isStorage, fun _ => hfault⟩
  · have hcopy := (meanwhile d₁).tiers_copyIn tier b t.bytes
    rcases hc : (meanwhile d₁).copyIn tier b t.bytes with ⟨e' | u, d₂⟩ <;> simp only [hc] at h hcopy
    · rcases hr : d₂.release tier b with ⟨e'' | u, d₃⟩ <;> simp only [hr] at h <;> cases h
      · refine ⟨(release_fault hr).isStorage, fun hmeanwhile => ?_⟩
        have hfault := release_fault hr
        rwa [Refuses, hcopy, hmeanwhile, hallocate] at hfault
      · refine ⟨(copyIn_fault hc).isStorage, fun hmeanwhile => ?_⟩
        have hfault := copyIn_fault hc
        rwa [Refuses, hmeanwhile, hallocate] at hfault
    · cases h

end Depot

namespace Cache

variable {c c' : Cache} {key : Key}

theorem consult_fault (h : c.consult key = (.error e, c')) : c.depot.Refuses key.tier e := by
  have hdepot : (c.slotOf key).2.depot = c.depot := by
    unfold slotOf
    split <;> rfl
  unfold consult at h
  rcases hslot : c.slotOf key with ⟨slot, c₁⟩
  simp only [hslot] at h hdepot
  split at h
  · cases h
  · split at h <;> cases h
    rename_i hpool
    rw [hdepot] at hpool
    exact .inr ⟨rfl, Depot.not_mem_tiers hpool⟩

/-- What is settled fails for what was brought, or for a reason of storage. -/
theorem settle_fault {ticket : Ticket} {brought : Except Fault Buffer}
    (h : c.settle ticket brought = (.error e, c')) :
    brought = .error e ∨ c.depot.Refuses ticket.key.tier e := by
  unfold settle at h
  rw [← c.leave_depot ticket]
  generalize c.leave ticket = c₁ at h
  cases brought with
  | error e' =>
    cases h
    exact .inl rfl
  | ok b =>
    refine .inr ?_
    simp only at h
    split at h
    · rename_i hpool
      cases h
      exact .inr ⟨rfl, Depot.not_mem_tiers hpool⟩
    · split_ifs at h
      · cases h
        exact .inl trivial
      · rcases hr : c₁.depot.release ticket.key.tier b with ⟨e' | u, d⟩ <;> simp only [hr] at h <;>
          cases h
        · exact Depot.release_fault hr
        · exact .inl trivial
      · cases h

/-- The ticket of a slot is for the key that was asked for. -/
theorem key_of_consult {ticket : Ticket} (h : c.consult key = (.ok (.vacant ticket), c')) :
    ticket.key = key := by
  unfold consult at h
  rcases c.slotOf key with ⟨slot, c₁⟩
  simp only at h
  split at h
  · cases h
  · split at h <;> cases h
    rfl

theorem resolveAmid_fault {t : Tensor} {meanwhile : Depot → Depot}
    (h : c.resolveAmid meanwhile t tier = (.error e, c')) :
    e.IsStorage ∧ ((∀ d, (meanwhile d).tiers = d.tiers) → tier ∈ c.depot.tiers → e.IsRefusal) := by
  have hconsult := c.consult_depot ⟨t.identity, tier⟩
  unfold resolveAmid at h
  rcases hc : c.consult ⟨t.identity, tier⟩ with ⟨e' | p | ticket, c₁⟩ <;> simp only [hc] at h hconsult
  · cases h
    exact ⟨(consult_fault hc).isStorage, fun _ htier => (consult_fault hc).isRefusal htier⟩
  · cases h
  · rcases hp : c₁.depot.placeTensor tier t meanwhile with ⟨brought, d⟩
    simp only [hp] at h
    rcases hs : settle { c₁ with depot := d } ticket brought with ⟨e' | p, c₂⟩ <;>
      simp only [hs] at h <;> cases h
    rcases settle_fault hs with rfl | hrefuses
    · obtain ⟨hstorage, hkeeps⟩ := Depot.placeTensor_fault hp
      refine ⟨hstorage, fun hmeanwhile htier => (hkeeps hmeanwhile).isRefusal ?_⟩
      rwa [hconsult]
    · refine ⟨hrefuses.isStorage, fun hmeanwhile htier => hrefuses.isRefusal ?_⟩
      have hplace := c₁.depot.tiers_placeTensor tier t hmeanwhile
      rw [hp, hconsult] at hplace
      rw [key_of_consult hc]
      exact hplace.symm ▸ htier

end Cache

end TieredWeights
