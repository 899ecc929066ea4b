import TieredWeights.Proofs.Cache.Sound

/-!
# References

A reference more or less changes the count of its placement, and the last one less gives the buffer
back to its pool, which always takes it. Slots are forgotten by releasing their registrations, so a
purge, an invalidation and a clearing are one operation with different tests.
-/
namespace TieredWeights.Cache

variable {tampered : Prop} {c c' : Cache} {held held' : Multiset PlacementId}
  {loose rest : Multiset Buffer} {p : PlacementId} {q : Placement}

theorem references_of_find? (h : c.find? p = some q) : c.references p = q.references := by
  rw [references, h]
  rfl

theorem references_of_none (h : c.find? p = none) : c.references p = 0 := by
  rw [references, h]
  rfl

/-- A placement is there as long as it is referenced. -/
theorem Sound.find?_of_mem (h : c.Sound held loose)
    (hp : p ∈ registrationsOf c.slots + held) : ∃ q, c.find? p = some q := by
  cases hq : c.find? p with
  | some q => exact ⟨q, rfl⟩
  | none =>
    have hcount := h.counted p
    rw [references_of_none hq] at hcount
    exact absurd (Multiset.count_pos.2 hp) (by omega)

/-- Placements that stay read what the depot leaves alone. -/
theorem Sound.later (h : c.Sound held loose)
    (hl : Depot.Leaves tampered c.depot c'.depot rest) (hmade : c.placementsMade ≤ c'.placementsMade)
    (hkept : ∀ p q, c.find? p = some q →
      (∃ q', c'.find? p = some q' ∧ q'.key = q.key ∧ q'.buffer = q.buffer ∧ q.buffer ∈ rest) ∨
        c'.find? p = none ∧ c'.depot.Spent q.buffer)
    (hgone : ∀ p, p < c.placementsMade → c.find? p = none → c'.find? p = none) :
    Later tampered c c' where
  made := hmade
  spent := hl.spent
  tiers := hl.tiers
  kept p q hp := by
    rcases hkept p q hp with ⟨q', hp', hkey, hbuffer, -⟩ | ⟨hnone, hspent⟩
    · exact .inl ⟨q', hp', hkey, hbuffer⟩
    · exact .inr ⟨hnone, (h.numbered p q hp).trans_le hmade, hspent⟩
  gone := hgone
  reads ht p bytes hsome hr := by
    obtain ⟨q, hp, hr⟩ := read_eq_ok.1 hr
    rcases hkept p q hp with ⟨q', hp', hkey, hbuffer, hmem⟩ | ⟨hnone, -⟩
    · rw [← (h.fits p q hp).1] at hr
      have hr' := hl.reads ht _ hmem bytes hr
      rw [(h.fits p q hp).1] at hr'
      exact read_eq_ok.2 ⟨q', hp', by rw [hkey, hbuffer, hr']⟩
    · rw [hnone] at hsome
      cases hsome

/-- A cache in which one placement has come, changed or gone. -/
theorem Sound.of_find? (h : c.Sound held loose) {r : Option Placement}
    (hfind : ∀ p', c'.find? p' = if p' = p then r else c.find? p')
    (hr : ∀ q ∈ r, 0 < q.references ∧ p < c'.placementsMade ∧ q.buffer.tier = q.key.tier ∧
      q.buffer.length = q.key.identity.bytes)
    (hmade : c.placementsMade ≤ c'.placementsMade)
    (depot : c'.depot.Sound (buffersOf c'.placements + rest))
    (counted : ∀ p', c'.references p' = (registrationsOf c'.slots + held').count p')
    (keyed : ∀ key p', c'.registered? key = some p' → ∃ q', c'.find? p' = some q' ∧ q'.key = key) :
    c'.Sound held' rest := by
  refine ⟨depot, counted, fun p' q' hp' => ?_, keyed, fun p' q' hp' => ?_, fun p' q' hp' => ?_⟩
  all_goals
    rw [hfind] at hp'
    split_ifs at hp' with he
  · exact (hr q' hp').1
  · exact h.positive p' q' hp'
  · exact he ▸ (hr q' hp').2.1
  · exact (h.numbered p' q' hp').trans_le hmade
  · exact (hr q' hp').2.2
  · exact h.fits p' q' hp'

/-- The cache with a placement that counts its references anew. -/
def recounted (c : Cache) (p : PlacementId) (q : Placement) (n : Nat) : Cache :=
  { c with placements := c.placements.insert p { q with references := n } }

theorem find?_recounted (c : Cache) (p p' : PlacementId) (q : Placement) (n : Nat) :
    (c.recounted p q n).find? p' = if p' = p then some { q with references := n } else c.find? p' :=
  Table.find?_insert _ _ _ _

theorem Sound.recounted (h : c.Sound held loose) (hp : c.find? p = some q) {n : Nat} (hn : 0 < n)
    (hself : n = (registrationsOf c.slots + held').count p)
    (hother : ∀ p', p' ≠ p → held'.count p' = held.count p') :
    (c.recounted p q n).Sound held' loose ∧ Later tampered c (c.recounted p q n) := by
  refine ⟨h.of_find? (find?_recounted c p · q n) ?_ le_rfl ?_ ?_ ?_, ?_⟩
  · rintro q' hq'
    cases hq'
    exact ⟨hn, h.numbered p q hp, h.fits p q hp⟩
  · have hd := h.depot
    have hsame : buffersOf (c.recounted p q n).placements = buffersOf c.placements :=
      buffersOf_insert hp rfl
    rwa [← hsame] at hd
  · intro p'
    by_cases he : p' = p
    · rw [references, find?_recounted, if_pos he, he]
      exact hself
    · rw [references, find?_recounted, if_neg he, Multiset.count_add, hother p' he,
        ← Multiset.count_add]
      exact h.counted p'
  · intro key p' hreg
    obtain ⟨q', hq', hkey⟩ := h.keyed key p' hreg
    by_cases he : p' = p
    · rw [he, hp, Option.some.injEq] at hq'
      exact ⟨_, by rw [find?_recounted, if_pos he], by rw [hq', hkey]⟩
    · exact ⟨q', by rw [find?_recounted, if_neg he, hq'], hkey⟩
  · refine h.later (.refl _ _ (buffersOf c.placements)) le_rfl ?_ ?_
    · intro p' q' hp'
      refine .inl ?_
      by_cases he : p' = p
      · rw [he, hp, Option.some.injEq] at hp'
        subst hp'
        exact ⟨{ q with references := n }, by rw [find?_recounted, if_pos he], rfl, rfl,
          mem_buffersOf hp⟩
      · exact ⟨q', by rw [find?_recounted, if_neg he, hp'], rfl, rfl, mem_buffersOf hp'⟩
    · intro p' _ hnone
      have he : p' ≠ p := fun he => by rw [he, hp] at hnone; cases hnone
      rw [find?_recounted, if_neg he, hnone]

theorem find?_retain (c : Cache) (p p' : PlacementId) : (c.retain p).find? p' =
    if p' = p then (c.find? p).map fun q => { q with references := q.references + 1 }
    else c.find? p' := Table.find?_modify _ _ _ _

theorem retain_eq (hp : c.find? p = some q) : c.retain p = c.recounted p q (q.references + 1) := by
  rw [find?] at hp
  rw [retain, Table.modify, hp, recounted]

/-- One more reference to a placement that is there. -/
theorem Sound.retain (tampered : Prop) (h : c.Sound held loose) (hp : c.find? p = some q) :
    (c.retain p).Sound (p ::ₘ held) loose ∧ Later tampered c (c.retain p) := by
  rw [retain_eq hp]
  refine h.recounted hp (Nat.succ_pos _) ?_ fun p' he => Multiset.count_cons_of_ne he held
  have hcount := h.counted p
  rw [references_of_find? hp] at hcount
  rw [Multiset.add_cons, Multiset.count_cons_self, hcount]

/-- Releasing references changes placements and the depot alone. -/
theorem release_eq (c : Cache) (p : PlacementId) :
    ∃ placements depot, c.release p = { c with placements, depot } := by
  unfold release
  split
  · exact ⟨_, _, rfl⟩
  · rename_i q hq
    split_ifs
    · rcases hr : c.depot.release q.key.tier q.buffer with ⟨e | u, d⟩ <;>
        exact ⟨_, _, by simp only [free, hr]; rfl⟩
    · exact ⟨_, _, rfl⟩

theorem releaseAll_eq (c : Cache) (ps : List PlacementId) :
    ∃ placements depot, c.releaseAll ps = { c with placements, depot } := by
  induction ps generalizing c with
  | nil => exact ⟨_, _, rfl⟩
  | cons p ps ih =>
    obtain ⟨placements, depot, he⟩ := release_eq c p
    obtain ⟨placements', depot', he'⟩ := ih (c.release p)
    exact ⟨placements', depot', he'.trans (by rw [he])⟩

@[simp] theorem release_slots (c : Cache) (p : PlacementId) : (c.release p).slots = c.slots := by
  obtain ⟨_, _, he⟩ := release_eq c p
  rw [he]

/-- A placement that nobody refers to gives its buffer back. -/
theorem Sound.free (h : c.Sound held loose) (hp : c.find? p = some q)
    (hcount : ∀ p', (registrationsOf c.slots + held').count p' =
      if p' = p then 0 else c.references p') :
    (c.free p q).Sound held' loose ∧ Later tampered c (c.free p q) := by
  have hd := h.depot
  rw [buffersOf_erase hp, Multiset.cons_add] at hd
  rcases hr : c.depot.release q.key.tier q.buffer with ⟨r, d⟩
  obtain ⟨rfl, hsound, hleaves, hspent⟩ := hd.release tampered (h.fits p q hp).1 hr
  have hfree : c.free p q = { c with placements := c.placements.erase p, depot := d } := by
    rw [Cache.free]
    simp only [hr]
  have hfind : ∀ p', Cache.find? { c with placements := c.placements.erase p, depot := d } p' =
      if p' = p then none else c.find? p' := fun p' => Table.find?_erase _ _ _
  rw [hfree]
  refine ⟨h.of_find? hfind (fun _ hq => nomatch hq) le_rfl hsound ?_ ?_, ?_⟩
  · intro p'
    rw [hcount, references, hfind]
    split_ifs <;> rfl
  · intro key p' hreg
    obtain ⟨q', hq', hkey⟩ := h.keyed key p' hreg
    have he : p' ≠ p := by
      rintro rfl
      have hzero := hcount p'
      rw [if_pos rfl, Multiset.count_eq_zero, Multiset.mem_add, not_or] at hzero
      refine hzero.1 (mem_registrationsOf.2 ⟨key, ?_⟩)
      exact Option.bind_eq_some_iff.1 hreg
    exact ⟨q', by rw [hfind, if_neg he, hq'], hkey⟩
  · refine h.later hleaves le_rfl ?_ ?_
    · intro p' q' hp'
      by_cases he : p' = p
      · rw [he, hp, Option.some.injEq] at hp'
        subst hp'
        exact .inr ⟨by rw [hfind, if_pos he], hspent⟩
      · refine .inl ⟨q', by rw [hfind, if_neg he, hp'], rfl, rfl, Multiset.mem_add.2 (.inl ?_)⟩
        exact mem_buffersOf (p := p') (by rw [Table.find?_erase_ne _ he]; exact hp')
    · intro p' _ hnone
      rw [hfind, hnone, ite_self]

/-- One reference less of those held. -/
theorem Sound.release (tampered : Prop) (h : c.Sound (p ::ₘ held) loose) :
    (c.release p).Sound held loose ∧ Later tampered c (c.release p) := by
  obtain ⟨q, hp⟩ := h.find?_of_mem (p := p) (by simp)
  have hcount : ∀ p', c.references p' =
      (registrationsOf c.slots + held).count p' + if p' = p then 1 else 0 := fun p' => by
    rw [h.counted, Multiset.add_cons, Multiset.count_cons]
  have hq := hcount p
  rw [references_of_find? hp, if_pos rfl] at hq
  simp only [Cache.release, hp]
  split_ifs with hlast
  · refine h.free hp fun p' => ?_
    have hp' := hcount p'
    split_ifs at hp' ⊢ with he
    · subst he
      omega
    · exact hp'.symm
  · refine h.recounted hp (by omega) (by omega) fun p' he => ?_
    exact (Multiset.count_cons_of_ne he held).symm

theorem Sound.releaseAll (tampered : Prop) {ps : List PlacementId}
    (h : c.Sound (↑ps + held) loose) :
    (c.releaseAll ps).Sound held loose ∧ Later tampered c (c.releaseAll ps) := by
  induction ps generalizing c with
  | nil =>
    rw [Multiset.coe_nil, zero_add] at h
    exact ⟨h, .refl _ _⟩
  | cons p ps ih =>
    rw [← Multiset.cons_coe, Multiset.cons_add] at h
    obtain ⟨hs, hl⟩ := h.release tampered
    obtain ⟨hs', hl'⟩ := ih hs
    exact ⟨hs', hl.trans hl'⟩

/-- The cache without the slots that fail a test; their registrations are released. -/
def forget (c : Cache) (keep : Key → KeySlot → Bool) : Cache :=
  { c with slots := c.slots.filter keep }.releaseAll
    (registrations (c.slots.filter fun k s => !keep k s).toList)

theorem forget_eq (c : Cache) (keep : Key → KeySlot → Bool) : ∃ placements depot,
    c.forget keep = { c with slots := c.slots.filter keep, placements, depot } :=
  releaseAll_eq _ _

theorem slots_forget (c : Cache) (keep : Key → KeySlot → Bool) (key : Key) (slot : KeySlot)
    (h : (c.forget keep).slots.find? key = some slot) : c.slots.find? key = some slot := by
  obtain ⟨_, _, he⟩ := forget_eq c keep
  rw [he, Table.find?_filter, Option.filter_eq_some_iff] at h
  exact h.1

/-- Without the slots that fail a test, their registrations are references that somebody holds. -/
theorem Sound.unregister (h : c.Sound held loose) (keep : Key → KeySlot → Bool) :
    Cache.Sound { c with slots := c.slots.filter keep }
      (↑(registrations (c.slots.filter fun k s => !keep k s).toList) + held) loose := by
  refine { h with counted := ?_, keyed := ?_ }
  · intro p
    have hcount := h.counted p
    rw [registrationsOf_filter c.slots keep, add_comm (registrationsOf _), add_assoc] at hcount
    exact hcount
  · intro key p hreg
    obtain ⟨slot, hslot, hp⟩ := Option.bind_eq_some_iff.1 hreg
    rw [Table.find?_filter, Option.filter_eq_some_iff] at hslot
    exact h.keyed key p (Option.bind_eq_some_iff.2 ⟨slot, hslot.1, hp⟩)

/-- Forgotten slots take their registrations with them. -/
theorem Sound.forget (tampered : Prop) (h : c.Sound held loose) (keep : Key → KeySlot → Bool) :
    (c.forget keep).Sound held loose ∧ Later tampered c (c.forget keep) := by
  obtain ⟨hs, hl⟩ := (h.unregister keep).releaseAll tampered
  exact ⟨hs, ⟨hl.made, hl.spent, hl.tiers, hl.kept, hl.gone, hl.reads⟩⟩

end TieredWeights.Cache
