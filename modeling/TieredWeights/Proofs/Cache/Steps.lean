import TieredWeights.Proofs.Cache.Call

/-!
# Steps of a cache and its callers

A `Tally` is a cache beside what its callers have of it: the references that they hold, and the
calls that they made, as a record of the past. A `Step` is one deed of a caller, such as a call, a
reference more or less, or a purge; `Path` is a run of steps. Along every path the tally stays
sound, so all references are accounted for, and every placement of a recorded call is still there
as it was, or is gone for good with its buffer spent.
-/
namespace TieredWeights

/-- A call made in the past, with the cache before and after it. -/
structure Call where
  before : Cache
  key : Key
  answer : Except Fault Resolved
  after : Cache

namespace Call

def make (c : Cache) (key : Key) (make : Maker) : Call :=
  ⟨c, key, (c.call key make).1, (c.call key make).2⟩

/-- The call did what such a call can do. -/
def Genuine (purged : Prop) (call : Call) : Prop :=
  ∃ make, Cache.Called purged call.before call.key make call.answer call.after

/-- A call that succeeded gave a placement of its key. -/
theorem Genuine.found {purged : Prop} {call : Call} {r : Resolved}
    (h : call.Genuine purged) (hr : call.answer = .ok r) :
    ∃ q, call.after.find? r.placement = some q ∧ q.key = call.key := by
  obtain ⟨make, hc⟩ := h
  rw [hr] at hc
  exact hc.found

end Call

/-- What callers may do besides taking and releasing references. -/
structure Permits where
  /-- The tensors that may be placed. -/
  tensors : Tensor → Prop := fun _ => True
  /-- The makers that may be used for a key. -/
  makers : Key → Maker → Prop := fun _ _ => True
  /-- Whether placements may be forgotten that somebody uses. -/
  forgets : Prop := True
  /-- Whether placements may be forgotten that nobody uses. -/
  purges : Prop := True
  /-- Whether others may tamper with the files. -/
  tampers : Prop := True

/-- A key may be resolved with a maker that is honest and permitted, or with a tensor. -/
def Permits.Allows (permits : Permits) (key : Key) (make : Maker) : Prop :=
  permits.makers key make ∧ make.Honest permits.purges permits.tampers key.tier ∨
    ∃ t tamper, permits.tensors t ∧ key.identity = t.identity ∧
      (permits.tampers ∨ tamper = id) ∧ make = .ofTensor t tamper key.tier

theorem Permits.Allows.honest {permits : Permits} {key : Key} {make : Maker}
    (h : permits.Allows key make) : make.Honest permits.purges permits.tampers key.tier := by
  rcases h with ⟨-, h⟩ | ⟨t, tamper, -, -, ht, rfl⟩
  · exact h
  · exact Maker.ofTensor_honest _ t key.tier ht

structure Tally where
  cache : Cache
  held : Multiset PlacementId
  calls : Multiset Call

namespace Tally

/-- One deed of a caller. -/
inductive Step (permits : Permits) : Tally → Tally → Prop
  | call {t : Tally} {key : Key} {make : Maker} (h : permits.Allows key make) :
      Step permits t ⟨(t.cache.call key make).2, Cache.given (t.cache.call key make).1 + t.held,
        Call.make t.cache key make ::ₘ t.calls⟩
  | retain {t : Tally} {p : PlacementId} (h : p ∈ Cache.registrationsOf t.cache.slots + t.held) :
      Step permits t ⟨t.cache.retain p, p ::ₘ t.held, t.calls⟩
  | release {c : Cache} {p : PlacementId} {held : Multiset PlacementId} {calls : Multiset Call} :
      Step permits ⟨c, p ::ₘ held, calls⟩ ⟨c.release p, held, calls⟩
  | purge {t : Tally} (h : permits.purges) : Step permits t { t with cache := t.cache.purge.2 }
  | invalidate {t : Tally} (h : permits.forgets) (tier : Tier) :
      Step permits t { t with cache := (t.cache.invalidate tier).2 }
  | clear {t : Tally} (h : permits.forgets) : Step permits t { t with cache := t.cache.clear }
  | note {t : Tally} (n : Notice) : Step permits t { t with cache := t.cache.note n }
  | tamper {t : Tally} (h : permits.tampers) (files : Files) :
      Step permits t { t with cache := { t.cache with depot := { t.cache.depot with files } } }

/-- A run of deeds. -/
def Path (permits : Permits) : Tally → Tally → Prop := Relation.ReflTransGen (Step permits)

/-- All references are accounted for, nobody is placing, and the calls are genuine and past. -/
structure Sound (permits : Permits) (t : Tally) (loose : Multiset Buffer) : Prop where
  cache : t.cache.Sound t.held loose
  quiet : t.cache.Quiet
  calls : ∀ call ∈ t.calls, call.Genuine permits.purges ∧
    Cache.Later permits.tampers call.after t.cache

end Tally

namespace Cache

variable {tampered : Prop} {c : Cache} {held : Multiset PlacementId} {loose : Multiset Buffer}

theorem invalidate_eq (c : Cache) (tier : Tier) : (c.invalidate tier).2 =
    (c.forget fun k _ => k.tier ≠ tier).note
      (.invalidated tier (c.slots.filter fun k _ => k.tier = tier).size) := by
  have hgone : (c.slots.filter fun k _ => !decide (k.tier ≠ tier)) =
      c.slots.filter fun k _ => k.tier = tier := by simp
  rw [forget, hgone]
  rfl

theorem clear_eq (c : Cache) : c.clear = c.forget fun _ _ => false := by
  have hkept : c.slots.filter (fun _ _ => false) = .empty :=
    Table.eq_of_toList (by simp [Table.filter, Table.empty])
  have hgone : c.slots.filter (fun _ _ => !false) = c.slots :=
    Table.eq_of_toList (by simp [Table.filter])
  rw [forget, hkept, hgone, clear]

end Cache

namespace Tally

variable {permits : Permits} {t t' : Tally} {loose : Multiset Buffer}

theorem Sound.of_cache (h : t.Sound permits loose) {c : Cache} {held : Multiset PlacementId}
    (hc : c.Sound held loose ∧ Cache.Later permits.tampers t.cache c)
    (hslots : ∀ key slot, c.slots.find? key = some slot → t.cache.slots.find? key = some slot) :
    Sound permits ⟨c, held, t.calls⟩ loose ∧ Cache.Later permits.tampers t.cache c := by
  refine ⟨⟨hc.1, fun key slot hslot => h.quiet key slot (hslots key slot hslot), ?_⟩, hc.2⟩
  exact fun call hmem => ⟨(h.calls call hmem).1, (h.calls call hmem).2.trans hc.2⟩

/-- Every deed keeps a tally sound. -/
theorem Step.sound (h : Step permits t t') (ht : t.Sound permits loose) :
    t'.Sound permits loose ∧ Cache.Later permits.tampers t.cache t'.cache := by
  cases h with
  | @call _ key make h =>
    obtain ⟨hcalled, hs, hq, hl⟩ := ht.cache.called ht.quiet h.honest
    refine ⟨⟨hs, hq, fun call hmem => ?_⟩, hl⟩
    rcases Multiset.mem_cons.1 hmem with rfl | hmem
    · exact ⟨⟨make, hcalled⟩, .refl _ _⟩
    · exact ⟨(ht.calls call hmem).1, (ht.calls call hmem).2.trans hl⟩
  | @retain _ p h =>
    obtain ⟨q, hq⟩ := ht.cache.find?_of_mem h
    exact ht.of_cache (ht.cache.retain _ hq) fun _ _ hslot => hslot
  | @release c p =>
    refine ht.of_cache (ht.cache.release _) fun key slot hslot => ?_
    rwa [Cache.release_slots] at hslot
  | purge =>
    obtain ⟨d, he, hp, hf⟩ := Cache.purge_eq t.cache
    have hslots := ht.cache.purge_trimmed.slots
    rw [he] at hslots ⊢
    exact ht.of_cache (ht.cache.forget_note _ hp hf) hslots
  | invalidate _ tier =>
    rw [Cache.invalidate_eq]
    exact ht.of_cache (ht.cache.forget_note _ rfl rfl) (Cache.slots_forget _ _)
  | clear =>
    rw [Cache.clear_eq]
    exact ht.of_cache (ht.cache.forget _ _) (Cache.slots_forget _ _)
  | note n => exact ht.of_cache (ht.cache.withDepot rfl fun _ => rfl) fun _ _ hslot => hslot
  | tamper h files =>
    exact ht.of_cache (ht.cache.withDepot rfl fun hno => absurd h hno) fun _ _ hslot => hslot

theorem Path.sound (h : Path permits t t') (ht : t.Sound permits loose) :
    t'.Sound permits loose ∧ Cache.Later permits.tampers t.cache t'.cache := by
  induction h with
  | refl => exact ⟨ht, .refl _ _⟩
  | tail _ step ih =>
    obtain ⟨hs, hl⟩ := ih
    obtain ⟨hs', hl'⟩ := step.sound hs
    exact ⟨hs', hl.trans hl'⟩

/-- Only calls make placements. -/
theorem Step.placementsMade (h : Step permits t t') :
    t'.cache.placementsMade = t.cache.placementsMade ∨ ∃ key make, permits.Allows key make ∧
      t'.cache = (t.cache.call key make).2 := by
  cases h with
  | @call _ key make h => exact .inr ⟨key, make, h, rfl⟩
  | retain => exact .inl rfl
  | @release c p =>
    obtain ⟨_, _, he⟩ := Cache.release_eq c p
    rw [he]
    exact .inl rfl
  | purge =>
    obtain ⟨d, he, -⟩ := Cache.purge_eq t.cache
    obtain ⟨_, _, he'⟩ := Cache.forget_eq t.cache fun _ slot => !t.cache.isIdle slot
    rw [he, he']
    exact .inl rfl
  | invalidate _ tier =>
    obtain ⟨_, _, he⟩ := Cache.forget_eq t.cache fun k _ => k.tier ≠ tier
    rw [Cache.invalidate_eq, he]
    exact .inl rfl
  | clear =>
    obtain ⟨_, _, he⟩ := Cache.forget_eq t.cache fun _ _ => false
    rw [Cache.clear_eq, he]
    exact .inl rfl
  | note n => exact .inl rfl
  | tamper h files => exact .inl rfl

/-- A placement that is there after a step was there before, or a call has just made it. -/
theorem Step.find? (h : Step permits t t') (ht : t.Sound permits loose)
    {p : PlacementId} {q : Placement} (hq : t'.cache.find? p = some q) :
    (∃ q₀, t.cache.find? p = some q₀ ∧ q.key = q₀.key ∧ q.buffer = q₀.buffer) ∨
      ∃ key make, permits.Allows key make ∧ t'.cache = (t.cache.call key make).2 ∧
        p = t.cache.placementsMade := by
  obtain ⟨ht', hl⟩ := h.sound ht
  by_cases hp : p < t.cache.placementsMade
  · exact .inl (hl.find?_old hq hp)
  · have hle : t.cache.placementsMade ≤ p := Nat.le_of_not_lt hp
    have hlt := ht'.cache.numbered p q hq
    rcases h.placementsMade with hmade | ⟨key, make, hallows, hcall⟩
    · rw [hmade] at hlt
      exact absurd hlt hp
    · refine .inr ⟨key, make, hallows, hcall, Nat.le_antisymm ?_ hle⟩
      rw [hcall] at hlt
      have hmade := (ht.cache.called ht.quiet hallows.honest).1.placementsMade_le
      exact Nat.le_of_lt_succ (hlt.trans_le hmade)

/-- What every step keeps, a path keeps. -/
theorem Path.invariant {I : Tally → Prop} (h : Path permits t t')
    (ht : t.Sound permits loose) (hI : I t)
    (hstep : ∀ s s', s.Sound permits loose → I s → Step permits s s' → I s') : I t' := by
  induction h with
  | refl => exact hI
  | tail path step ih => exact hstep _ _ (Path.sound path ht).1 ih step

theorem Path.releaseAll (c : Cache) (held : Multiset PlacementId) (calls : Multiset Call)
    (ps : List PlacementId) :
    Path permits ⟨c, ↑ps + held, calls⟩ ⟨c.releaseAll ps, held, calls⟩ := by
  induction ps generalizing c with
  | nil =>
    rw [Multiset.coe_nil, zero_add]
    exact .refl
  | cons p ps ih =>
    rw [← Multiset.cons_coe, Multiset.cons_add]
    exact .head .release (ih _)

end Tally

end TieredWeights
