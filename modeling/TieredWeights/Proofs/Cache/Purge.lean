import TieredWeights.Proofs.Conservation

/-!
# Purges

A purge tells by the count of references which placements are held: one that is not held has its
registration alone. As the references are all accounted for, a purge forgets the slots of just these
placements, and the placements go with them; what is held stays as it is, so there is nothing left
to a second purge. Slots that somebody places into stay too, and empty ones go without being
counted.
-/
namespace TieredWeights.Cache

variable {c : Cache} {held : Multiset PlacementId} {loose : Multiset Buffer} {key : Key}
  {slot : KeySlot} {p : PlacementId} {q : Placement}

/-- A slot that somebody places into has no registration yet. -/
def OpensVacant (c : Cache) : Prop :=
  ∀ key slot, c.slots.find? key = some slot → slot.placing ≠ 0 → slot.registered = none

theorem Quiet.opensVacant (h : c.Quiet) : c.OpensVacant :=
  fun key slot hslot hplacing => absurd (h key slot hslot) hplacing

theorem OpensVacant.placing_eq_zero (h : c.OpensVacant) (hslot : c.slots.find? key = some slot)
    (hp : slot.registered = some p) : slot.placing = 0 := by
  by_contra hplacing
  have hnone := h key slot hslot hplacing
  rw [hp] at hnone
  cases hnone

/-- A placement that is not held is registered, and has no other reference. -/
theorem Sound.references_of_notMem (hs : c.Sound held loose) (hq : c.find? p = some q)
    (hp : p ∉ held) : c.registered? q.key = some p ∧ c.references p = 1 := by
  have hcount := hs.counted p
  have hpos := hs.references_pos hq
  rw [Multiset.count_add, hs.count_registrationsOf, Multiset.count_eq_zero.2 hp, registrationCount,
    hq] at hcount
  by_cases hregistered : c.registered? q.key = some p
  · simp only [hregistered, if_true] at hcount
    exact ⟨hregistered, by omega⟩
  · simp only [hregistered, if_false] at hcount
    omega

/-- A registered placement has more references than the registration if it is held. -/
theorem Sound.references_eq_one (hs : c.Sound held loose) (hp : c.registered? key = some p) :
    c.references p = 1 ↔ p ∉ held := by
  have hregistered := Multiset.count_pos.2 (mem_registrationsOf_iff.2 ⟨key, hp⟩)
  have hcount := hs.counted p
  rw [Multiset.count_add] at hcount
  constructor
  · intro hone hheld
    have hpos := Multiset.count_pos.2 hheld
    omega
  · intro hheld
    obtain ⟨q, hq, -⟩ := hs.keyed key p hp
    exact (hs.references_of_notMem hq hheld).2

theorem Sound.purge (tampered : Prop) (hs : c.Sound held loose) :
    c.purge.2.Sound held loose ∧ Later tampered c c.purge.2 := by
  obtain ⟨d, he, hp, hf⟩ := purge_eq c
  rw [he]
  exact hs.forget_note _ hp hf

/-- A slot with a registration is idle if nobody holds the placement. -/
theorem Sound.isIdle_iff (hs : c.Sound held loose) (hopen : c.OpensVacant)
    (hslot : c.slots.find? key = some slot) (hp : slot.registered = some p) :
    c.isIdle slot = true ↔ p ∉ held := by
  have hplacing := hopen.placing_eq_zero hslot hp
  rw [← hs.references_eq_one (Option.bind_eq_some_iff.2 ⟨slot, hslot, hp⟩)]
  simp [isIdle, hplacing, hp]

/-- A purge leaves the registrations of placements that are held. -/
theorem Sound.registered?_purge (hs : c.Sound held loose) (hopen : c.OpensVacant) (key : Key) :
    c.purge.2.registered? key = (c.registered? key).filter fun p => p ∈ held := by
  rw [registered?, purge_slots, Table.find?_filter, registered?]
  cases hslot : c.slots.find? key with
  | none => rfl
  | some slot =>
    cases hp : slot.registered with
    | none => cases hidle : c.isIdle slot <;> simp [Option.filter_some, hidle, hp]
    | some p =>
      have hidle := hs.isIdle_iff hopen hslot hp
      by_cases hheld : p ∈ held
      · have hbusy : c.isIdle slot = false := by simpa [hheld] using hidle
        simp [Option.filter_some, hbusy, hp, hheld]
      · simp [Option.filter_some, hidle.2 hheld, hp, hheld]

/-- A purge leaves the placements that are held as they are, and no others. -/
theorem Sound.find?_purge (hs : c.Sound held loose) (hopen : c.OpensVacant) (p : PlacementId) :
    c.purge.2.find? p = if p ∈ held then c.find? p else none := by
  obtain ⟨hs', hlater⟩ := hs.purge False
  split_ifs with hheld
  · obtain ⟨q', hq'⟩ := hs'.find?_of_mem (Multiset.mem_add.2 (.inr hheld))
    obtain ⟨q, hq⟩ := hs.find?_of_mem (Multiset.mem_add.2 (.inr hheld))
    obtain ⟨q₀, hq₀, hkey, hbuffer⟩ := hlater.find?_old hq' (hs.numbered p q hq)
    rw [hq, Option.some.injEq] at hq₀
    subst hq₀
    -- The registration of the placement is there as before, so it counts as many references.
    have hregistered : c.purge.2.registered? q.key = some p ↔ c.registered? q.key = some p := by
      rw [hs.registered?_purge hopen, Option.filter_eq_some_iff]
      simp [hheld]
    have hcount : c.purge.2.references p = c.references p := by
      rw [hs'.counted, hs.counted, Multiset.count_add, Multiset.count_add,
        hs'.count_registrationsOf, hs.count_registrationsOf]
      simp only [registrationCount, hq', hq, hkey, hregistered]
    rw [references_of_find? hq', references_of_find? hq] at hcount
    rw [hq', hq]
    obtain ⟨key, buffer, n⟩ := q
    obtain ⟨key', buffer', n'⟩ := q'
    simp only at hkey hbuffer hcount
    rw [hkey, hbuffer, hcount]
  · by_contra hsome
    obtain ⟨q, hq⟩ := Option.ne_none_iff_exists'.1 hsome
    have hregistered := (hs'.references_of_notMem hq hheld).1
    rw [hs.registered?_purge hopen, Option.filter_eq_some_iff] at hregistered
    exact hheld (of_decide_eq_true hregistered.2)

/-- If no slot is idle, there is nothing to purge. -/
theorem purge_of_busy (h : ∀ key slot, c.slots.find? key = some slot → c.isIdle slot = false) :
    c.purge = (0, c) := by
  have hbusy : ∀ b ∈ c.slots.toList, c.isIdle b.2 = false :=
    fun b hb => h b.1 b.2 (Table.mem_toList.1 hb)
  have hkept : (c.slots.filter fun _ slot => !c.isIdle slot) = c.slots :=
    Table.eq_of_toList (List.filter_eq_self.2 fun b hb => by simp [hbusy b hb])
  have hgone : (c.slots.filter fun _ slot => c.isIdle slot) = .empty :=
    Table.eq_of_toList (List.filter_eq_nil_iff.2 fun b hb => by simp [hbusy b hb])
  rw [Cache.purge, hkept, hgone]
  rfl

/-- A purge leaves no slot that another one would forget. -/
theorem Sound.isIdle_purge (hs : c.Sound held loose) (hopen : c.OpensVacant)
    (hslot : c.purge.2.slots.find? key = some slot) : c.purge.2.isIdle slot = false := by
  rw [purge_slots, Table.find?_filter, Option.filter_eq_some_iff] at hslot
  obtain ⟨hslot, hkept⟩ := hslot
  cases hp : slot.registered with
  | none => simpa [isIdle, hp] using hkept
  | some p =>
    have hheld : p ∈ held := by
      by_contra hheld
      simp [(hs.isIdle_iff hopen hslot hp).2 hheld] at hkept
    have hsame : c.purge.2.references p = c.references p := by
      rw [references, hs.find?_purge hopen, if_pos hheld, references]
    have hidle : c.purge.2.isIdle slot = c.isIdle slot := by simp only [isIdle, hp, hsame]
    rw [hidle, ← Bool.not_eq_true', hkept]

theorem Sound.purge_purge (hs : c.Sound held loose) (hopen : c.OpensVacant) :
    c.purge.2.purge = (0, c.purge.2) :=
  purge_of_busy fun _ _ hslot => hs.isIdle_purge hopen hslot

/-- The keys whose placements pass a test. -/
def keysWhere (c : Cache) (test : PlacementId → Bool) : Finset Key :=
  c.slots.keys.toFinset.filter fun key => (c.registered? key).any test

theorem mem_keysWhere {test : PlacementId → Bool} :
    key ∈ c.keysWhere test ↔ ∃ p, c.registered? key = some p ∧ test p = true := by
  rw [keysWhere, Finset.mem_filter, List.mem_toFinset, Table.mem_keys, Option.any_eq_true,
    and_iff_right_iff_imp]
  rintro ⟨p, hp, -⟩
  obtain ⟨slot, hslot, -⟩ := Option.bind_eq_some_iff.1 hp
  simp [hslot]

/-- A purge counts the registered placements that nobody holds. -/
theorem Sound.purge_count (hs : c.Sound held loose) (hopen : c.OpensVacant) :
    c.purge.1 = (c.keysWhere fun p => p ∉ held).card := by
  have hidle : ∀ b ∈ c.slots.toList, ((c.registered? b.1).any fun p => p ∉ held) =
      (c.isIdle b.2 && b.2.registered.isSome) := by
    rintro ⟨key, slot⟩ hb
    have hslot : c.slots.find? key = some slot := Table.mem_toList.1 hb
    cases hp : slot.registered with
    | none => simp [registered?, hslot, hp]
    | some p =>
      rw [registered?, hslot, Option.bind_some, hp, Option.any_some, Option.isSome_some,
        Bool.and_true, Bool.eq_iff_iff, hs.isIdle_iff hopen hslot hp, decide_eq_true_iff]
  calc c.purge.1
      = ((c.slots.toList.filter fun b => c.isIdle b.2).filter
          fun b => b.2.registered.isSome).length := by
        rw [Cache.purge, registrations, List.length_filterMap_eq_countP, List.countP_eq_length_filter]
        rfl
    _ = (c.slots.toList.filter fun b => (c.registered? b.1).any fun p => p ∉ held).length := by
        rw [List.filter_filter, List.filter_congr hidle]
        simp only [Bool.and_comm]
    _ = (c.slots.keys.filter fun key => (c.registered? key).any fun p => p ∉ held).length := by
        rw [Table.keys, List.filter_map, List.length_map]
        rfl
    _ = (c.keysWhere fun p => p ∉ held).card := by
        rw [keysWhere, ← List.toFinset_card_of_nodup ((Table.nodup_keys _).filter _),
          List.toFinset_filter]

/-- Placements that are registered each under its key have buffers of the tiers and lengths of just
these keys. -/
theorem Sound.map_buffersOf (hs : c.Sound held loose) {placements : Table PlacementId Placement}
    {keys : Finset Key}
    (hplaced : ∀ p q, placements.find? p = some q →
      c.find? p = some q ∧ c.registered? q.key = some p)
    (hkeys : ∀ key, key ∈ keys ↔ ∃ p q, placements.find? p = some q ∧ q.key = key) :
    (buffersOf placements).map (fun b => (b.tier, b.length)) =
      keys.val.map fun key => (key.tier, key.identity.bytes) := by
  have hnodup : (placements.toList.map fun b => b.2.key).Nodup := by
    refine List.Nodup.map_on ?_ (Table.nodup_toList _)
    rintro ⟨p, q⟩ hq ⟨p', q'⟩ hq' hkey
    rw [Table.mem_toList] at hq hq'
    have hp := (hplaced p q hq).2
    have hp' := (hplaced p' q' hq').2
    have hsame : q.key = q'.key := hkey
    rw [hsame, hp', Option.some.injEq] at hp
    subst hp
    rw [hq, Option.some.injEq] at hq'
    rw [hq']
  have hvalues : (placements.values : Multiset Placement).map Placement.key = keys.val := by
    have hlist : (placements.values : Multiset Placement).map Placement.key =
        (placements.toList.map fun b => b.2.key : List Key) := by
      rw [Multiset.map_coe, Table.values, List.map_map]
      rfl
    rw [hlist]
    refine (Multiset.Nodup.ext (Multiset.coe_nodup.2 hnodup) keys.nodup).2 fun key => ?_
    rw [Multiset.mem_coe, List.mem_map, Finset.mem_val, hkeys]
    simp only [Prod.exists, Table.mem_toList]
  rw [buffersOf, ← hvalues, Multiset.map_map, Multiset.map_map]
  refine Multiset.map_congr rfl fun q hq => ?_
  obtain ⟨p, hp⟩ := Table.mem_values.1 (Multiset.mem_coe.1 hq)
  obtain ⟨htier, hlength⟩ := hs.fits p q (hplaced p q hp).1
  exact Prod.ext htier hlength

/-- A test parts the buffers of placements in two. -/
theorem buffersOf_filter (placements : Table PlacementId Placement)
    (keep : PlacementId → Placement → Bool) :
    buffersOf placements = buffersOf (placements.filter fun p q => !keep p q) +
      buffersOf (placements.filter keep) := by
  have hperm := (List.filter_append_perm (fun b => keep b.1 b.2) placements.toList).map
    fun b => b.2.buffer
  rw [List.map_append, ← Multiset.coe_eq_coe, ← Multiset.coe_add] at hperm
  simp only [buffersOf, Table.values, Multiset.map_coe, List.map_map]
  exact hperm.symm.trans (add_comm _ _)

/-- The buffers that a purge gives back are those of the keys that it forgets. -/
theorem Sound.buffersOf_purge (hs : c.Sound held loose) (hopen : c.OpensVacant) :
    ∃ gone : Multiset Buffer, buffersOf c.placements = gone + buffersOf c.purge.2.placements ∧
      gone.map (fun b => (b.tier, b.length)) =
        (c.keysWhere fun p => p ∉ held).val.map fun key => (key.tier, key.identity.bytes) := by
  have hkept : c.purge.2.placements = c.placements.filter fun p _ => p ∈ held := by
    apply Table.eq_of_find?
    intro p
    have hfind : c.purge.2.placements.find? p = if p ∈ held then c.placements.find? p else none :=
      hs.find?_purge hopen p
    rw [Table.find?_filter, hfind]
    cases c.placements.find? p <;> simp [Option.filter_some]
  have hgone : ∀ p q, (c.placements.filter fun p _ => !decide (p ∈ held)).find? p = some q ↔
      c.find? p = some q ∧ p ∉ held := by
    intro p q
    rw [Table.find?_filter, Option.filter_eq_some_iff, Bool.not_eq_true', decide_eq_false_iff_not]
    rfl
  refine ⟨_, by rw [hkept]; exact buffersOf_filter c.placements fun p _ => p ∈ held, ?_⟩
  refine hs.map_buffersOf (fun p q hq => ?_) fun key => ?_
  · obtain ⟨hq, hheld⟩ := (hgone p q).1 hq
    exact ⟨hq, (hs.references_of_notMem hq hheld).1⟩
  · simp only [mem_keysWhere, hgone, decide_eq_true_iff]
    constructor
    · rintro ⟨p, hp, hheld⟩
      obtain ⟨q, hq, hkey⟩ := hs.keyed key p hp
      exact ⟨p, q, ⟨hq, hheld⟩, hkey⟩
    · rintro ⟨p, q, ⟨hq, hheld⟩, rfl⟩
      exact ⟨p, (hs.references_of_notMem hq hheld).1, hheld⟩

end TieredWeights.Cache
