import TieredWeights.Proofs.Cache.References

/-!
# Makers of buffers

A maker is what a caller of the cache has to bring a buffer while the slot of a key is open. An
honest one works on the tier, keeps nothing but the buffer that it brings, and does no more to the
cache than purge it. `Trimmed` says what that leaves of the slots: those that somebody places into
stay, and so do the registrations of all placements that stay.
-/
namespace TieredWeights

namespace Cache

variable {purged tampered : Prop} {c c' c'' : Cache} {held : Multiset PlacementId}
  {loose own own' : Multiset Buffer} {tier : Tier} {p : PlacementId} {key : Key}

/-- Notices are no matter of soundness, nor are files. -/
theorem Sound.withDepot (h : c.Sound held loose) {d : Depot} (hp : d.pools = c.depot.pools)
    (hf : ¬ tampered → d.files = c.depot.files) :
    Cache.Sound { c with depot := d } held loose ∧ Later tampered c { c with depot := d } := by
  refine ⟨{ h with depot := h.depot.of_pools hp }, ?_⟩
  have hl : Depot.Leaves tampered c.depot d (buffersOf c.placements) := .of_pools hp hf
  refine h.later hl le_rfl (fun p q hq => ?_) fun _ _ hnone => hnone
  exact .inl ⟨q, hq, rfl, rfl, mem_buffersOf hq⟩

/-- What forgets slots keeps a cache sound, whatever notice it gives. -/
theorem Sound.forget_note (h : c.Sound held loose) (keep : Key → KeySlot → Bool) {d : Depot}
    (hp : d.pools = (c.forget keep).depot.pools) (hf : d.files = (c.forget keep).depot.files) :
    Cache.Sound { c.forget keep with depot := d } held loose ∧
      Later tampered c { c.forget keep with depot := d } := by
  obtain ⟨hs, hl⟩ := h.forget tampered keep
  have hf' : ¬ tampered → d.files = (c.forget keep).depot.files := fun _ => hf
  obtain ⟨hs', hl'⟩ := hs.withDepot hp hf'
  exact ⟨hs', hl.trans hl'⟩

theorem purge_eq (c : Cache) : ∃ d : Depot, c.purge.2 =
    { c.forget fun _ slot => !c.isIdle slot with depot := d } ∧
      d.pools = (c.forget fun _ slot => !c.isIdle slot).depot.pools ∧
      d.files = (c.forget fun _ slot => !c.isIdle slot).depot.files := by
  have hforget : c.forget (fun _ slot => !c.isIdle slot) =
      { c with slots := c.slots.filter fun _ slot => !c.isIdle slot }.releaseAll
        (registrations (c.slots.filter fun _ slot => c.isIdle slot).toList) := by
    simp only [forget, Bool.not_not]
  rw [hforget, purge]
  split_ifs
  · exact ⟨_, rfl, rfl, rfl⟩
  · exact ⟨_, rfl, rfl, rfl⟩

theorem purge_slots (c : Cache) :
    c.purge.2.slots = c.slots.filter fun _ slot => !c.isIdle slot := by
  obtain ⟨d, he, -⟩ := purge_eq c
  obtain ⟨placements, depot, hforget⟩ := forget_eq c fun _ slot => !c.isIdle slot
  rw [he, hforget]

/-- Slots may have been forgotten, but none that somebody places into, and none whose placement
stays. -/
structure Trimmed (purged : Prop) (c c' : Cache) : Prop where
  slots : ∀ key slot, c'.slots.find? key = some slot → c.slots.find? key = some slot
  placing : ∀ key slot, c.slots.find? key = some slot → slot.placing ≠ 0 →
    c'.slots.find? key = some slot
  kept : ∀ key p, c.registered? key = some p →
    c'.registered? key = some p ∨ purged ∧ c'.find? p = none
  made : c'.placementsMade = c.placementsMade
  hits : c'.hits = c.hits
  misses : c'.misses = c.misses

namespace Trimmed

/-- Operations that leave the slots alone trim nothing. -/
theorem of_slots (hslots : c'.slots = c.slots) (hmade : c'.placementsMade = c.placementsMade)
    (hhits : c'.hits = c.hits) (hmisses : c'.misses = c.misses) : Trimmed purged c c' where
  slots _ _ h := by rwa [hslots] at h
  placing _ _ h _ := by rwa [hslots]
  kept _ _ h := by rw [registered?, hslots]; exact .inl h
  made := hmade
  hits := hhits
  misses := hmisses

theorem refl (purged : Prop) (c : Cache) : Trimmed purged c c := .of_slots rfl rfl rfl rfl

theorem trans (h : Trimmed purged c c') (h' : Trimmed purged c' c'') (hc : c.Sound held loose)
    (hl : Later tampered c' c'') : Trimmed purged c c'' where
  slots key slot hslot := h.slots key slot (h'.slots key slot hslot)
  placing key slot hslot hp := h'.placing key slot (h.placing key slot hslot hp) hp
  kept key p hp := by
    rcases h.kept key p hp with hp' | ⟨hpurged, hnone⟩
    · exact h'.kept key p hp'
    · obtain ⟨q, hq, -⟩ := hc.keyed key p hp
      refine .inr ⟨hpurged, hl.gone p ?_ hnone⟩
      rw [h.made]
      exact hc.numbered p q hq
  made := h'.made.trans h.made
  hits := h'.hits.trans h.hits
  misses := h'.misses.trans h.misses

/-- No key is registered that was not. -/
theorem registered (h : Trimmed purged c c') (hp : c'.registered? key = some p) :
    c.registered? key = some p := by
  obtain ⟨slot, hslot, hp⟩ := Option.bind_eq_some_iff.1 hp
  exact Option.bind_eq_some_iff.2 ⟨slot, h.slots key slot hslot, hp⟩

theorem registered?_eq (h : Trimmed purged c c') (hno : ¬ purged) (key : Key) :
    c'.registered? key = c.registered? key :=
  Option.ext fun p =>
    ⟨h.registered, fun hp => (h.kept key p hp).resolve_right fun hgone => hno hgone.1⟩

end Trimmed

/-- A placement whose only reference is a registration goes with its slot. -/
theorem Sound.find?_forget (h : c.Sound held loose) {keep : Key → KeySlot → Bool} {slot : KeySlot}
    (hslot : c.slots.find? key = some slot) (hkeep : keep key slot = false)
    (hp : slot.registered = some p) (hone : c.references p = 1) :
    (c.forget keep).find? p = none := by
  have hs := (h.forget True keep).1
  have hgone : p ∈ registrationsOf (c.slots.filter fun k s => !keep k s) := by
    refine mem_registrationsOf.2 ⟨key, slot, ?_, hp⟩
    rw [Table.find?_filter, hslot]
    simp [hkeep]
  cases hq : (c.forget keep).find? p with
  | none => rfl
  | some q =>
    have hcount := h.counted p
    have hcount' := hs.counted p
    obtain ⟨_, _, he⟩ := forget_eq c keep
    have hslots : (c.forget keep).slots = c.slots.filter keep := by rw [he]
    rw [registrationsOf_filter c.slots keep, Multiset.count_add, Multiset.count_add, hone] at hcount
    rw [references_of_find? hq, hslots, Multiset.count_add] at hcount'
    have hpos := hs.positive p q hq
    have hgone' := Multiset.count_pos.2 hgone
    omega

/-- A purge forgets only slots that nobody places into and whose placements nobody uses. -/
theorem Sound.purge_trimmed (h : c.Sound held loose) : Trimmed True c c.purge.2 := by
  obtain ⟨d, he, -⟩ := purge_eq c
  obtain ⟨placements, depot, hforget⟩ := forget_eq c fun _ slot => !c.isIdle slot
  refine ⟨fun key slot hslot => ?_, fun key slot hslot hp => ?_, fun key p hp => ?_, ?_, ?_, ?_⟩
  · rw [purge_slots, Table.find?_filter, Option.filter_eq_some_iff] at hslot
    exact hslot.1
  · rw [purge_slots, Table.find?_filter, hslot]
    simp [isIdle, hp]
  · obtain ⟨slot, hslot, hp⟩ := Option.bind_eq_some_iff.1 hp
    cases hidle : c.isIdle slot with
    | false =>
      refine .inl (Option.bind_eq_some_iff.2 ⟨slot, ?_, hp⟩)
      rw [purge_slots, Table.find?_filter, hslot]
      simp [hidle]
    | true =>
      refine .inr ⟨trivial, ?_⟩
      have hone : c.references p = 1 := by
        simp only [isIdle, hp, Bool.and_eq_true, decide_eq_true_eq] at hidle
        exact hidle.2
      rw [he]
      exact h.find?_forget hslot (by rw [hidle]; rfl) hp hone
  all_goals rw [he, hforget]

/-- One deed of someone who has a slot open: work on the tier with buffers of his own, or a
purge. -/
inductive Deed (purged tampered : Prop) (tier : Tier) :
    Cache × Multiset Buffer → Cache × Multiset Buffer → Prop
  | work {c : Cache} {own : Multiset Buffer} {d : Depot} {own' : Multiset Buffer}
      (h : Depot.Step tampered tier (c.depot, own) (d, own')) :
      Deed purged tampered tier (c, own) ({ c with depot := d }, own')
  | purge {c : Cache} {own : Multiset Buffer} (h : purged) :
      Deed purged tampered tier (c, own) (c.purge.2, own)

/-- A run of deeds. -/
def Deeds (purged tampered : Prop) (tier : Tier) (c : Cache) (own : Multiset Buffer) (c' : Cache)
    (own' : Multiset Buffer) : Prop :=
  Relation.ReflTransGen (Deed purged tampered tier) (c, own) (c', own')

theorem Deed.sound (h : Deed purged tampered tier (c, own) (c', own'))
    (hc : c.Sound held (own + loose)) (hown : ∀ b ∈ own, b.tier = tier) :
    (c'.Sound held (own' + loose) ∧ ∀ b ∈ own', b.tier = tier) ∧ Later tampered c c' ∧
      Trimmed purged c c' := by
  cases h with
  | @work _ _ d _ h =>
    have hd := hc.depot
    rw [add_left_comm] at hd
    obtain ⟨hd', hown', hl⟩ := h.sound hd hown
    rw [add_left_comm] at hd'
    refine ⟨⟨{ hc with depot := hd' }, hown'⟩, ?_, .of_slots rfl rfl rfl rfl⟩
    refine hc.later hl le_rfl (fun p q hq => ?_) fun _ _ hnone => hnone
    exact .inl ⟨q, hq, rfl, rfl, Multiset.mem_add.2 (.inl (mem_buffersOf hq))⟩
  | purge hpurged =>
    obtain ⟨d, he, hp, hf⟩ := purge_eq c
    have htrimmed := hc.purge_trimmed
    have hforget : _ ∧ Later tampered c _ := hc.forget_note _ hp hf
    rw [← he] at hforget
    obtain ⟨hs, hl⟩ := hforget
    refine ⟨⟨hs, hown⟩, hl, { htrimmed with kept := fun key p hkey => ?_ }⟩
    exact (htrimmed.kept key p hkey).imp_right fun hnone => ⟨hpurged, hnone.2⟩

theorem Deeds.sound (h : Deeds purged tampered tier c own c' own')
    (hc : c.Sound held (own + loose)) (hown : ∀ b ∈ own, b.tier = tier) :
    (c'.Sound held (own' + loose) ∧ ∀ b ∈ own', b.tier = tier) ∧ Later tampered c c' ∧
      Trimmed purged c c' := by
  unfold Deeds at h
  generalize hx : (c, own) = x at h
  generalize hy : (c', own') = y at h
  induction h generalizing c' own' with
  | refl =>
    rw [← hx, Prod.mk.injEq] at hy
    obtain ⟨rfl, rfl⟩ := hy
    exact ⟨⟨hc, hown⟩, .refl _ _, .refl _ _⟩
  | @tail y z _ hdeed ih =>
    obtain ⟨c₁, own₁⟩ := y
    subst hy
    obtain ⟨⟨hs₁, hown₁⟩, hl₁, ht₁⟩ := ih rfl
    obtain ⟨hs, hl, ht⟩ := hdeed.sound hs₁ hown₁
    exact ⟨hs, hl₁.trans hl, ht₁.trans ht hc hl⟩

/-- Work on the depot of a cache. -/
theorem Deeds.ofWork {d : Depot} (h : Depot.Work tampered tier c.depot own d own') :
    Deeds purged tampered tier c own { c with depot := d } own' :=
  Relation.ReflTransGen.lift (p := Deed purged tampered tier)
    (fun x : Depot × Multiset Buffer => ({ c with depot := x.1 }, x.2))
    (fun _ _ hstep => .work hstep) _ _ h

end Cache

/-- What brings a buffer from a cache, or fails. -/
abbrev Maker := Cache → Except Fault Buffer × Cache

namespace Maker

/-- The maker works on the tier and may purge, and what it keeps is the buffer that it brings. -/
def Honest (make : Maker) (purged tampered : Prop) (tier : Tier) : Prop :=
  ∀ c, Cache.Deeds purged tampered tier c 0 (make c).2 (Depot.brought (make c).1)

/-- What the maker brings from a sound cache holds the bytes. -/
def Fills (make : Maker) (tier : Tier) (bytes : ByteArray) : Prop :=
  ∀ c held loose b c', Cache.Sound c held loose → make c = (.ok b, c') →
    c'.depot.read tier b = .ok bytes

/-- The maker that places a tensor. Others may tamper with the files before the buffer is filled. -/
def ofTensor (t : Tensor) (tamper : Files → Files) (tier : Tier) : Maker := fun c =>
  let (r, depot) := c.depot.placeTensor tier t fun d => { d with files := tamper d.files }
  (r, { c with depot })

theorem ofTensor_honest (purged : Prop) {tampered : Prop} (t : Tensor) {tamper : Files → Files}
    (tier : Tier) (h : tampered ∨ tamper = id) :
    (ofTensor t tamper tier).Honest purged tampered tier :=
  fun c => .ofWork (Depot.placeTensor_work c.depot tier t h rfl)

theorem ofTensor_fills (t : Tensor) (tier : Tier) : (ofTensor t id tier).Fills tier t.bytes := by
  intro c held loose b c' hc h
  rw [ofTensor, Prod.mk.injEq] at h
  obtain ⟨hb, rfl⟩ := h
  exact hc.depot.read_placeTensor (Prod.ext hb rfl)

end Maker

end TieredWeights
