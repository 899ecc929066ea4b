import TieredWeights.Cache
import TieredWeights.Proofs.Depot.Work

/-!
# Sound caches

A cache is sound for the references that callers hold and for the buffers of its depot that are no
placement's: every placement counts its registrations and the references held, has a buffer of its
own of the right tier and length, and is registered under its own key only. `Later` says what
becomes of placements over time: they keep their key and buffer, and what they read, until the last
reference goes; then they never come back and their buffer is spent.
-/
namespace TieredWeights

namespace Cache

/-- The buffers of placements. -/
def buffersOf (placements : Table PlacementId Placement) : Multiset Buffer :=
  (placements.values : Multiset Placement).map Placement.buffer

/-- The registered placements of slots, each as often as it is registered. -/
def registrationsOf (slots : Table Key KeySlot) : Multiset PlacementId :=
  registrations slots.toList

section

variable {placements : Table PlacementId Placement} {p : PlacementId} {q q' : Placement}

theorem buffersOf_insert_new (h : placements.find? p = none) (q : Placement) :
    buffersOf (placements.insert p q) = q.buffer ::ₘ buffersOf placements := by
  rw [buffersOf, Table.values_insert_new h, Multiset.map_cons, buffersOf]

theorem buffersOf_erase (h : placements.find? p = some q) :
    buffersOf placements = q.buffer ::ₘ buffersOf (placements.erase p) := by
  rw [buffersOf, Table.values_of_find? h, Multiset.map_cons, buffersOf]

/-- A placement changed in its count alone keeps its buffer. -/
theorem buffersOf_insert (h : placements.find? p = some q) (hq : q'.buffer = q.buffer) :
    buffersOf (placements.insert p q') = buffersOf placements := by
  rw [buffersOf, Table.values_insert, Multiset.map_cons, hq, buffersOf_erase h, buffersOf]

theorem mem_buffersOf (h : placements.find? p = some q) : q.buffer ∈ buffersOf placements := by
  rw [buffersOf_erase h]
  exact Multiset.mem_cons_self _ _

end

section

variable {slots : Table Key KeySlot} {key : Key} {slot slot' : KeySlot}

theorem registrations_cons (b : Key × KeySlot) (l : List (Key × KeySlot)) :
    registrations (b :: l) = b.2.registered.toList ++ registrations l := by
  rw [registrations, List.filterMap_cons]
  cases b.2.registered <;> rfl

theorem registrationsOf_insert (slots : Table Key KeySlot) (key : Key) (slot : KeySlot) :
    registrationsOf (slots.insert key slot) =
      slot.registered.toList + registrationsOf (slots.erase key) := by
  have hperm : (registrations (slots.insert key slot).toList).Perm
      (registrations ((key, slot) :: (slots.erase key).toList)) :=
    (Table.toList_insert_perm slots key slot).filterMap _
  rw [registrationsOf, Multiset.coe_eq_coe.2 hperm, registrations_cons, ← Multiset.coe_add,
    registrationsOf]

theorem registrationsOf_eq (slots : Table Key KeySlot) (key : Key) :
    registrationsOf slots =
      ((slots.find? key).bind KeySlot.registered).toList + registrationsOf (slots.erase key) := by
  cases h : slots.find? key with
  | none =>
    rw [Table.erase_eq_self h]
    exact (Multiset.zero_add _).symm
  | some slot =>
    conv_lhs => rw [← Table.insert_eq_self h]
    exact registrationsOf_insert slots key slot

theorem mem_registrationsOf {p : PlacementId} :
    p ∈ registrationsOf slots ↔ ∃ key slot, slots.find? key = some slot ∧
      slot.registered = some p := by
  simp only [registrationsOf, registrations, Multiset.mem_coe, List.mem_filterMap, Prod.exists,
    Table.mem_toList]

/-- A test parts the registrations in two. -/
theorem registrationsOf_filter (slots : Table Key KeySlot) (keep : Key → KeySlot → Bool) :
    registrationsOf slots = registrationsOf (slots.filter fun k s => !keep k s) +
      registrationsOf (slots.filter keep) := by
  have hperm := (List.filter_append_perm (fun b => keep b.1 b.2) slots.toList).filterMap
    fun b => b.2.registered
  rw [List.filterMap_append, ← Multiset.coe_eq_coe, ← Multiset.coe_add] at hperm
  exact hperm.symm.trans (add_comm _ _)

end

/-- Every placement is referenced by its registration and by the references held, and has a buffer
of its own that fits its key. -/
structure Sound (c : Cache) (held : Multiset PlacementId) (loose : Multiset Buffer) : Prop where
  depot : c.depot.Sound (buffersOf c.placements + loose)
  counted : ∀ p, c.references p = (registrationsOf c.slots + held).count p
  positive : ∀ p q, c.find? p = some q → 0 < q.references
  keyed : ∀ key p, c.registered? key = some p → ∃ q, c.find? p = some q ∧ q.key = key
  numbered : ∀ p q, c.find? p = some q → p < c.placementsMade
  fits : ∀ p q, c.find? p = some q →
    q.buffer.tier = q.key.tier ∧ q.buffer.length = q.key.identity.bytes

theorem sound_ofDepot {depot : Depot} (hd : depot.Sound 0) : Sound (.ofDepot depot) 0 0 := by
  refine ⟨hd, ?_, ?_, ?_, ?_, ?_⟩
  · exact fun _ => rfl
  · exact fun _ _ h => nomatch h
  · exact fun _ _ h => nomatch h
  · exact fun _ _ h => nomatch h
  · exact fun _ _ h => nomatch h

/-- Nobody is placing. -/
def Quiet (c : Cache) : Prop := ∀ key slot, c.slots.find? key = some slot → slot.placing = 0

/-- What becomes of the placements of a cache. If nobody tampers with the files, those that stay
read what they read before. -/
structure Later (tampered : Prop) (c c' : Cache) : Prop where
  made : c.placementsMade ≤ c'.placementsMade
  spent : ∀ b, c.depot.Spent b → c'.depot.Spent b
  tiers : ∀ t, (c'.depot.pools.find? t).isSome = (c.depot.pools.find? t).isSome
  kept : ∀ p q, c.find? p = some q →
    (∃ q', c'.find? p = some q' ∧ q'.key = q.key ∧ q'.buffer = q.buffer) ∨
      c'.find? p = none ∧ p < c'.placementsMade ∧ c'.depot.Spent q.buffer
  gone : ∀ p, p < c.placementsMade → c.find? p = none → c'.find? p = none
  reads : ¬ tampered → ∀ p bytes, (c'.find? p).isSome → c.read p = .ok bytes →
    c'.read p = .ok bytes

theorem read_eq_ok {c : Cache} {p : PlacementId} {bytes : ByteArray} : c.read p = .ok bytes ↔
    ∃ q, c.find? p = some q ∧ c.depot.read q.key.tier q.buffer = .ok bytes := by
  unfold read
  cases c.find? p <;> simp

namespace Later

variable {tampered : Prop} {c c' c'' : Cache}

theorem refl (tampered : Prop) (c : Cache) : Later tampered c c where
  made := le_rfl
  spent _ h := h
  tiers _ := rfl
  kept _ q h := .inl ⟨q, h, rfl, rfl⟩
  gone _ _ h := h
  reads _ _ _ _ h := h

theorem trans (h : Later tampered c c') (h' : Later tampered c' c'') : Later tampered c c'' where
  made := h.made.trans h'.made
  spent b hb := h'.spent b (h.spent b hb)
  tiers t := (h'.tiers t).trans (h.tiers t)
  kept p q hp := by
    rcases h.kept p q hp with ⟨q', hp', hkey, hbuffer⟩ | ⟨hnone, hlt, hspent⟩
    · rcases h'.kept p q' hp' with ⟨q'', hp'', hkey', hbuffer'⟩ | ⟨hnone, hlt, hspent⟩
      · exact .inl ⟨q'', hp'', hkey'.trans hkey, hbuffer'.trans hbuffer⟩
      · exact .inr ⟨hnone, hlt, hbuffer ▸ hspent⟩
    · exact .inr ⟨h'.gone p hlt hnone, hlt.trans_le h'.made, h'.spent _ hspent⟩
  gone p hlt hp := h'.gone p (hlt.trans_le h.made) (h.gone p hlt hp)
  reads ht p bytes hsome hr := by
    have hsome' : (c'.find? p).isSome := by
      obtain ⟨q, hp, -⟩ := read_eq_ok.1 hr
      rcases h.kept p q hp with ⟨q', hp', -⟩ | ⟨hnone, hlt, -⟩
      · rw [hp']
        rfl
      · rw [h'.gone p hlt hnone] at hsome
        cases hsome
    exact h'.reads ht p bytes hsome (h.reads ht p bytes hsome' hr)

/-- A placement that was numbered before was there before. -/
theorem find?_old (h : Later tampered c c') {p : PlacementId} {q : Placement}
    (hq : c'.find? p = some q) (hp : p < c.placementsMade) :
    ∃ q₀, c.find? p = some q₀ ∧ q.key = q₀.key ∧ q.buffer = q₀.buffer := by
  cases hq₀ : c.find? p with
  | some q₀ =>
    rcases h.kept p q₀ hq₀ with ⟨q', hq', hkey, hbuffer⟩ | ⟨hnone, -⟩
    · rw [hq, Option.some.injEq] at hq'
      subst hq'
      exact ⟨q₀, rfl, hkey, hbuffer⟩
    · rw [hq] at hnone
      cases hnone
  | none =>
    rw [h.gone p hp hq₀] at hq
    cases hq

end Later

end Cache

end TieredWeights
