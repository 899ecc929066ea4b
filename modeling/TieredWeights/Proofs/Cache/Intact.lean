import TieredWeights.Proofs.Cache.Call
import TieredWeights.Proofs.Cache.Steps
import TieredWeights.Proofs.Depot.Errands

/-!
# Intact caches

A cache is intact if it is sound and nobody is placing, and all buffers that are out can be read in
full: those of its placements, and the stray ones that somebody has who allocated them himself. It
stays so whatever users do with references, keys and stray buffers of their own, and when a stray
buffer becomes a placement's. `settle_opened` tells what becomes of any other buffer that is brought.
-/
namespace TieredWeights.Cache

/-- A sound cache at rest, over buffers that can be read in full. -/
structure Intact (c : Cache) (held : Multiset PlacementId) (stray : Multiset Buffer) : Prop where
  sound : c.Sound held stray
  quiet : c.Quiet
  whole : c.depot.Whole (buffersOf c.placements + stray)

variable {c c' : Cache} {held : Multiset PlacementId} {stray stray' : Multiset Buffer}
  {p : PlacementId} {q : Placement} {key : Key} {slot : KeySlot} {d : Depot} {b : Buffer}

namespace Intact

theorem ofDepot (hd : d.Sound 0) : (Cache.ofDepot d).Intact 0 0 where
  sound := sound_ofDepot hd
  quiet _ _ h := nomatch h
  whole b hb := absurd hb (Multiset.notMem_zero b)

/-- Notices are no matter. -/
theorem noted (h : c.Intact held stray) (hpools : d.pools = c.depot.pools)
    (hfiles : d.files = c.depot.files) : Cache.Intact { c with depot := d } held stray := by
  have hfiles' : ¬ False → d.files = c.depot.files := fun _ => hfiles
  exact ⟨(h.sound.withDepot hpools hfiles').1, h.quiet,
    (Depot.Leaves.of_pools hpools hfiles').whole h.whole⟩

theorem retain (h : c.Intact held stray) (hp : p ∈ registrationsOf c.slots + held) :
    (c.retain p).Intact (p ::ₘ held) stray := by
  obtain ⟨q, hq⟩ := h.sound.find?_of_mem hp
  have hbuffers : buffersOf (c.retain p).placements = buffersOf c.placements := by
    rw [retain_eq hq]
    exact buffersOf_insert hq rfl
  exact ⟨(h.sound.retain False hq).1, h.quiet, hbuffers ▸ h.whole⟩

theorem release (h : c.Intact (p ::ₘ held) stray) : (c.release p).Intact held stray := by
  have hslots := release_slots c p
  refine ⟨(h.sound.release False).1, fun key slot hslot => h.quiet key slot (hslots ▸ hslot), ?_⟩
  obtain ⟨q, hq⟩ := h.sound.find?_of_mem (p := p) (by simp)
  have hd := h.sound.depot
  have hw := h.whole
  simp only [Cache.release, hq]
  split_ifs with hlast
  · rw [buffersOf_erase hq, Multiset.cons_add] at hd hw
    rcases hr : c.depot.release q.key.tier q.buffer with ⟨r, d⟩
    obtain ⟨rfl, -, hleaves, -⟩ := hd.release False (h.sound.fits p q hq).1 hr
    simp only [free, hr]
    exact hleaves.whole (Depot.whole_cons.1 hw).2
  · have hsame : buffersOf (c.placements.insert p { q with references := q.references - 1 }) =
        buffersOf c.placements := buffersOf_insert hq rfl
    rwa [← hsame] at hw

theorem releaseAll {ps : List PlacementId} (h : c.Intact (↑ps + held) stray) :
    (c.releaseAll ps).Intact held stray := by
  induction ps generalizing c with
  | nil => rwa [Multiset.coe_nil, zero_add] at h
  | cons p ps ih =>
    rw [← Multiset.cons_coe, Multiset.cons_add] at h
    exact ih h.release

theorem forget (h : c.Intact held stray) (keep : Key → KeySlot → Bool) :
    (c.forget keep).Intact held stray := by
  have hregistered : Cache.Intact { c with slots := c.slots.filter keep }
      (↑(registrations (c.slots.filter fun k s => !keep k s).toList) + held) stray := by
    refine ⟨h.sound.unregister keep, fun key slot hslot => h.quiet key slot ?_, h.whole⟩
    rw [Table.find?_filter, Option.filter_eq_some_iff] at hslot
    exact hslot.1
  exact hregistered.releaseAll

theorem purge (h : c.Intact held stray) : c.purge.2.Intact held stray := by
  obtain ⟨d, he, hpools, hfiles⟩ := purge_eq c
  rw [he]
  exact (h.forget _).noted hpools hfiles

theorem invalidate (h : c.Intact held stray) (tier : Tier) :
    (c.invalidate tier).2.Intact held stray := by
  rw [invalidate_eq]
  exact (h.forget _).noted rfl rfl

theorem clear (h : c.Intact held stray) : c.clear.Intact held stray := by
  rw [clear_eq]
  exact h.forget _

/-- What has become of the depot, as long as the buffers of placements are still out. -/
theorem withDepot (h : c.Intact held stray) (hd : d.Sound (buffersOf c.placements + stray'))
    (hw : d.Whole (buffersOf c.placements + stray')) :
    Cache.Intact { c with depot := d } held stray' :=
  ⟨{ h.sound with depot := hd }, h.quiet, hw⟩

theorem errands (h : c.Intact held stray) (he : Depot.Errands c.depot stray d stray') :
    Cache.Intact { c with depot := d } held stray' := by
  have hd := h.sound.depot
  have hw := h.whole
  rw [add_comm] at hd hw
  obtain ⟨hd', hw', -⟩ := he.sound hd hw
  rw [add_comm] at hd' hw'
  exact h.withDepot hd' hw'

/-- A slot for a key without a placement. -/
theorem opened (h : c.Intact held stray) (hvacant : c.registered? key = none)
    (hslot : slot.registered = none) (hplacing : slot.placing = 0) (slotsMade : Nat) :
    (c.opened key slot slotsMade).Intact held stray := by
  refine ⟨(h.sound.withSlot False hvacant hslot slotsMade (c.misses + 1)).1, ?_, h.whole⟩
  exact .insert rfl hplacing fun k s _ hs => h.quiet k s hs

/-- A key that is asked for is shared. -/
theorem hit (h : c.Intact held stray) (hhit : c.consult key = (.ok (.hit p), c')) :
    c'.Intact (p ::ₘ held) stray := by
  cases hkey : c.registered? key with
  | some p' =>
    rw [consult_hit hkey] at hhit
    cases hhit
    obtain ⟨q, hq, -⟩ := h.sound.keyed key p hkey
    have hmem : p ∈ registrationsOf c.slots := by
      obtain ⟨slot, hslot, hp⟩ := Option.bind_eq_some_iff.1 hkey
      exact mem_registrationsOf.2 ⟨key, slot, hslot, hp⟩
    have hretained := h.retain (Multiset.mem_add.2 (.inl hmem))
    exact ⟨{ hretained.sound with }, hretained.quiet, hretained.whole⟩
  | none =>
    obtain ⟨slot, n, -, -, hconsult⟩ := h.quiet.consult_vacant hkey
    rw [hhit] at hconsult
    cases hpool : c.depot.pools.find? key.tier <;> simp [hpool] at hconsult

/-- A key whose tier is not there is refused. -/
theorem refused (h : c.Intact held stray) {e : Fault} (hrefused : c.consult key = (.error e, c')) :
    c'.Intact held stray := by
  cases hkey : c.registered? key with
  | some p =>
    rw [consult_hit hkey] at hrefused
    cases hrefused
  | none =>
    obtain ⟨slot, n, hslot, hplacing, hconsult⟩ := h.quiet.consult_vacant hkey
    rw [hrefused] at hconsult
    cases hpool : c.depot.pools.find? key.tier with
    | none =>
      simp only [hpool, Prod.mk.injEq] at hconsult
      rw [hconsult.2]
      exact h.opened hkey hslot hplacing n
    | some pool => simp [hpool] at hconsult

end Intact

/-- The cache put onto another depot. -/
def onto (c : Cache) (d : Depot) : Cache := { c with depot := d }

/-- A cache with a new placement in a buffer, which its slot and a caller refer to. -/
def entered (c : Cache) (key : Key) (slot : KeySlot) (slotsMade : Nat) (b : Buffer) : Cache :=
  { c.opened key { slot with registered := some c.placementsMade } slotsMade with
    placements := c.placements.insert c.placementsMade ⟨key, b, 2⟩
    placementsMade := c.placementsMade + 1 }

section

variable (key : Key) (slot : KeySlot) (slotsMade : Nat) (b : Buffer)

theorem find?_entered (c : Cache) :
    (c.entered key slot slotsMade b).find? c.placementsMade = some ⟨key, b, 2⟩ :=
  Table.find?_insert_self _ _ _

theorem registered?_entered (c : Cache) :
    (c.entered key slot slotsMade b).registered? key = some c.placementsMade := by
  rw [registered?_insert (c := c) rfl, if_pos rfl]

/-- The other placements stay. -/
theorem Sound.find?_entered_of_find? (h : c.Sound held stray) (hq : c.find? p = some q) :
    (c.entered key slot slotsMade b).find? p = some q :=
  (Table.find?_insert_ne _ _ (h.numbered p q hq).ne).trans hq

end

/-- How a call ends that found no placement and was brought a buffer or a fault. -/
theorem settle_opened (c : Cache) (hplacing : slot.placing = 0) (slotsMade : Nat) {pool : Pool}
    (hpool : d.pools.find? key.tier = some pool) (brought : Except Fault Buffer) :
    ((c.onto d).opened key { slot with placing := 1 } slotsMade).settle ⟨key, slot.id⟩ brought =
      match brought with
      | .error e => (.error e, (c.onto d).opened key slot slotsMade)
      | .ok b =>
        if pool.owns b then
          if b.length = key.identity.bytes then
            (.ok c.placementsMade, (c.onto d).entered key slot slotsMade b)
          else
            match d.release key.tier b with
            | (.error e, d') => (.error e, (c.onto d').opened key slot slotsMade)
            | (.ok (), d') => (.error (.sizeMismatch key.identity.bytes b.length),
                (c.onto d').opened key slot slotsMade)
        else (.error (.invalidHandle b.tier), (c.onto d).opened key slot slotsMade) := by
  have hclosed : ({ slot with placing := 1 - 1 } : KeySlot) = slot := by
    obtain ⟨_, _, placing⟩ := slot
    cases hplacing
    rfl
  have hself : ((c.onto d).opened key { slot with placing := 1 } slotsMade).slots.find? key =
      some { slot with placing := 1 } := Table.find?_insert_self _ _ _
  have hleave : ((c.onto d).opened key { slot with placing := 1 } slotsMade).leave ⟨key, slot.id⟩ =
      (c.onto d).opened key slot slotsMade := by
    refine (leave_eq hself).trans ?_
    rw [hclosed]
    simp only [Cache.opened, Table.insert_insert]
  have hpool' : ((c.onto d).opened key slot slotsMade).depot.pools.find? key.tier = some pool := hpool
  unfold settle
  rw [hleave]
  cases brought with
  | error e => rfl
  | ok b =>
    simp only [hpool']
    by_cases howns : pool.owns b
    · by_cases hlength : b.length = key.identity.bytes
      · have hslot : ((c.onto d).opened key slot slotsMade).slots.find? key = some slot :=
          Table.find?_insert_self _ _ _
        simp only [howns, hlength, register_eq slot hslot, Bool.not_true, Bool.false_eq_true, ne_eq,
          not_true_eq_false, if_false, if_true]
        simp only [Cache.opened, entered, Table.insert_insert]
        rfl
      · have hdepot : ((c.onto d).opened key slot slotsMade).depot = d := rfl
        simp only [howns, hlength, hdepot, Bool.not_true, Bool.false_eq_true, ne_eq,
          not_false_eq_true, if_false, if_true]
        rcases d.release key.tier b with ⟨e | u, d'⟩ <;> rfl
    · simp only [howns, Bool.not_false, if_true, if_false, Bool.false_eq_true]

/-- A stray buffer becomes a placement's. -/
theorem Intact.entered (h : c.Intact held (b ::ₘ stray)) (hvacant : c.registered? key = none)
    (hplacing : slot.placing = 0) (slotsMade : Nat) (htier : b.tier = key.tier)
    (hlength : b.length = key.identity.bytes) :
    (c.entered key slot slotsMade b).Intact (c.placementsMade ::ₘ held) stray := by
  have hfresh : c.placements.find? c.placementsMade = none := by
    cases hq : c.placements.find? c.placementsMade with
    | none => rfl
    | some q => exact absurd (h.sound.numbered _ q hq) (Nat.lt_irrefl _)
  have hsound : (c.entered key slot slotsMade b).Sound (c.placementsMade ::ₘ held) stray :=
    And.left (h.sound.placed False hvacant rfl rfl rfl rfl rfl htier hlength)
  refine ⟨hsound, ?_, ?_⟩
  · exact .insert rfl hplacing fun k s _ hs => h.quiet k s hs
  · have hw := h.whole
    rw [Multiset.add_cons] at hw
    show c.depot.Whole (buffersOf (c.placements.insert c.placementsMade ⟨key, b, 2⟩) + stray)
    rwa [buffersOf_insert_new hfresh, Multiset.cons_add]

end TieredWeights.Cache
