import TieredWeights.Proofs.Conservation
import TieredWeights.Proofs.Depot.OwnFiles
import TieredWeights.Proofs.Scene.Sound
import TieredWeights.Proofs.Tiers

/-!
# Files of placements

All files that a cache makes are those of its placements. Its deeds are work on files of one's own, as
long as tensors are placed by nobody else's makers and with nobody tampering. So is whatever the users
of a loader bring about; and when nothing is held or registered any more, no placement is there, and no
file of one.
-/
namespace TieredWeights

namespace BlockStore

variable {s : BlockStore}

theorem clearEach_held {bindings : List (Nat × MapId)} {block : Nat}
    (h : block ∈ bindings.map Prod.fst ∨ s.held.find? block = none) :
    (s.clearEach bindings).2.held.find? block = none := by
  induction bindings generalizing s with
  | nil => exact h.resolve_left List.not_mem_nil
  | cons b rest ih =>
    obtain ⟨first, m⟩ := b
    have hrest := ih (s := (s.empty first m).2)
    rw [empty_held, Table.find?_erase] at hrest
    rw [List.map_cons, List.mem_cons, or_assoc] at h
    refine hrest ?_
    split_ifs with hfirst
    · exact .inr rfl
    · exact h.resolve_left hfirst

/-- No slot is left that holds a map. -/
theorem clearAll_held (s : BlockStore) : s.clearAll.2.2.held = .empty := by
  refine Table.eq_of_find? fun block => clearEach_held ?_
  rw [← Table.keys, Table.mem_keys, or_iff_not_imp_right]
  exact Option.isSome_iff_ne_none.2

/-- Where nobody holds a map there is none. -/
theorem Sound.references_eq_zero (h : s.Sound 0) (hheld : s.held = .empty) : s.references = 0 := by
  have hnone : s.maps = .empty := Table.eq_of_find? fun m => by
    have hkeys := h.mem_keys m
    rw [hheld, add_zero, Table.mem_keys] at hkeys
    exact Option.not_isSome_iff_eq_none.1 fun hsome => nomatch hkeys.1 hsome
  rw [references, hnone]
  rfl

end BlockStore

namespace Cache

variable {c : Cache} {held : Multiset PlacementId} {loose : Multiset Buffer}

/-- A buffer that does not fit is given back. -/
theorem tended_settle (c : Cache) (ticket : Ticket) (brought : Except Fault Buffer) :
    c.depot.Tended (c.settle ticket brought).2.depot := by
  have hleave := c.leave_depot ticket
  unfold settle
  generalize c.leave ticket = c' at hleave ⊢
  rw [← hleave]
  cases brought with
  | error e => exact .refl _
  | ok b =>
    simp only
    split
    · exact .refl _
    · split_ifs
      · exact .refl _
      · rcases hr : c'.depot.release ticket.key.tier b with ⟨e | u, d⟩ <;>
          exact Depot.tended_release hr
      · exact .refl _

theorem tended_release (c : Cache) (p : PlacementId) : c.depot.Tended (c.release p).depot := by
  unfold Cache.release
  split
  · exact .refl _
  · rename_i q hq
    split_ifs
    · unfold Cache.free
      rcases hr : c.depot.release q.key.tier q.buffer with ⟨e | u, d⟩ <;> simp only [hr]
      · exact (Depot.tended_release hr).trans (.of_pools rfl rfl)
      · exact Depot.tended_release hr
    · exact .refl _

theorem tended_releaseAll (c : Cache) (ps : List PlacementId) :
    c.depot.Tended (c.releaseAll ps).depot := by
  induction ps generalizing c with
  | nil => exact .refl _
  | cons p ps ih => exact (c.tended_release p).trans (ih (c.release p))

theorem tended_forget (c : Cache) (keep : Key → KeySlot → Bool) :
    c.depot.Tended (c.forget keep).depot :=
  tended_releaseAll { c with slots := c.slots.filter keep } _

theorem tended_purge (c : Cache) : c.depot.Tended c.purge.2.depot := by
  obtain ⟨d, he, hpools, hfiles⟩ := purge_eq c
  rw [he]
  exact (c.tended_forget _).trans (.of_pools hpools hfiles)

/-- A call that may place a tensor. -/
theorem Sound.tended_call (hc : c.Sound held loose) (t : Tensor) (key : Key) :
    c.depot.Tended (c.call key (.ofTensor t id key.tier)).2.depot := by
  have hconsulted := c.consult_depot key
  unfold call
  rcases hconsult : c.consult key with ⟨e | p | ticket, c₁⟩ <;> rw [hconsult] at hconsulted <;>
    rw [← hconsulted]
  · exact .refl _
  · exact .refl _
  · have hd := hc.depot
    rw [← hconsulted] at hd
    have hplaced : c₁.depot.Tended (Maker.ofTensor t id key.tier c₁).2.depot :=
      hd.tended_placeTensor (Prod.eta (c₁.depot.placeTensor key.tier t id)).symm
    have hsettled := hplaced.trans (tended_settle _ ticket (Maker.ofTensor t id key.tier c₁).1)
    rcases hsettle : (Maker.ofTensor t id key.tier c₁).2.settle ticket
      (Maker.ofTensor t id key.tier c₁).1 with ⟨e | p, c₂⟩ <;> rw [hsettle] at hsettled <;>
      simp only [hsettle] <;> exact hsettled

theorem clear_slots (c : Cache) : c.clear.slots = .empty := by
  obtain ⟨_, _, he⟩ := releaseAll_eq { c with slots := .empty } (registrations c.slots.toList)
  rw [clear, he]

/-- Without registrations and references there are no placements. -/
theorem Sound.depot_of_empty (hc : c.Sound 0 0) (hslots : c.slots = .empty) : c.depot.Sound 0 := by
  have hnone : ∀ p, c.find? p = none := by
    intro p
    by_contra hp
    obtain ⟨q, hq⟩ := Option.ne_none_iff_exists'.1 hp
    have hcount := hc.counted p
    have hpos := hc.positive p q hq
    rw [references_of_find? hq, hslots, add_zero] at hcount
    have hzero : Multiset.count p (registrationsOf .empty) = 0 := rfl
    omega
  have hempty : c.placements = .empty := Table.eq_of_find? hnone
  have hd := hc.depot
  rw [hempty] at hd
  exact hd

end Cache

/-- Users who place nothing but tensors, and leave alone the files of others. -/
def Permits.careful : Permits where
  makers _ _ := False
  tampers := False

namespace Tally

variable {t t' : Tally} {loose : Multiset Buffer}

theorem Step.tended (h : Step .careful t t') (ht : t.Sound .careful loose) :
    t.cache.depot.Tended t'.cache.depot := by
  cases h with
  | @call _ key make h =>
    rcases h with ⟨hmaker, -⟩ | ⟨tensor, tamper, -, -, htamper, rfl⟩
    · exact hmaker.elim
    · obtain rfl := htamper.resolve_left id
      exact ht.cache.tended_call tensor key
  | retain => exact .refl _
  | release => exact Cache.tended_release _ _
  | purge => exact Cache.tended_purge _
  | invalidate _ tier =>
    rw [Cache.invalidate_eq]
    exact (Cache.tended_forget _ _).trans (.of_pools rfl rfl)
  | clear =>
    rw [Cache.clear_eq]
    exact Cache.tended_forget _ _
  | note n => exact .of_pools rfl rfl
  | tamper h => exact h.elim

end Tally

namespace Scene

variable {w w' : Scene}

/-- What users bring about is work on files of their own. -/
theorem Run.tended (h : Run .careful w w') (hw : w.Sound .careful) :
    w.1.depot.Tended w'.1.depot :=
  h.invariant (I := fun t => w.1.depot.Tended t.cache.depot) hw (.refl _)
    fun _ _ ht htended step => htended.trans (step.tended ht)

/-- To close a loader that nobody uses any more is work on its own files, and leaves nothing handed
out. -/
theorem Sound.close (hw : w.Sound .careful) (hentries : w.2.entries = 0) (hmaps : w.2.maps = 0) :
    w.1.depot.Tended w.1.close ∧ w.1.close.Sound 0 := by
  obtain ⟨l, u⟩ := w
  have hrun : Run .careful (l, u) ({ l.clearBlocks.2 with cache := l.clearBlocks.2.cache.clear }, u) :=
    .andThen .clearBlocks (.clear trivial)
  have hstore : l.store.clearAll.2.2.Sound u.maps := (hrun.sound hw).store
  have hclosed : l.clearBlocks.2.cache.clear.Sound (l.store.clearAll.2.2.references + u.entries) 0 :=
    (hrun.sound hw).tally.cache
  simp only at hentries hmaps
  rw [hmaps] at hstore
  rw [hentries, add_zero, hstore.references_eq_zero l.store.clearAll_held] at hclosed
  refine ⟨hrun.tended hw, ?_⟩
  exact hclosed.depot_of_empty (Cache.clear_slots _)

end Scene

end TieredWeights
