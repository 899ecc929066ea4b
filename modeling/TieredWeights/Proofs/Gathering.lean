import Mathlib.Data.Finset.Card
import TieredWeights.Proofs.Cache.Call
import TieredWeights.Proofs.Faults
import TieredWeights.Proofs.Loader

/-!
# Gathering

A load that nobody disturbs resolves the parameters of its block one after another. It fails for a
reason of storage only; otherwise each name is bound to a placement of its own key, and as many
placements are new as there are different keys that were not registered before.
-/
namespace TieredWeights

/-- The keys among some that have no placement registered. -/
def Cache.unregistered (c : Cache) (keys : List Key) : Finset Key :=
  (keys.filter fun key => (c.registered? key).isNone).toFinset

namespace Cache

variable {c c' : Cache} {key : Key} {make : Maker} {r : Resolved}

theorem mem_unregistered {keys : List Key} :
    key ∈ c.unregistered keys ↔ key ∈ keys ∧ c.registered? key = none := by
  rw [unregistered, List.mem_toFinset, List.mem_filter, Option.isNone_iff_eq_none]

theorem unregistered_congr {keys : List Key} (h : ∀ k, c'.registered? k = c.registered? k) :
    c'.unregistered keys = c.unregistered keys := by
  ext k
  rw [mem_unregistered, mem_unregistered, h]

/-- A call that places takes its key from those that are not registered. -/
theorem Called.card_unregistered (h : Called False c key make (.ok r) c') (keys : List Key) :
    (c.unregistered (key :: keys)).card =
      (if r.placed then 1 else 0) + (c'.unregistered keys).card := by
  cases h with
  | @hit p q registered found own =>
    have hsame : c.unregistered (key :: keys) = c.unregistered keys := by
      ext k
      rw [mem_unregistered, mem_unregistered, List.mem_cons]
      refine and_congr_left fun hk => or_iff_right fun he => ?_
      rw [he, registered] at hk
      cases hk
    rw [hsame, if_neg Bool.false_ne_true, zero_add]
    exact congrArg Finset.card (unregistered_congr fun _ => rfl).symm
  | placed missed made found brought =>
    have hnew : key ∉ c'.unregistered keys := fun hmem => by
      rw [mem_unregistered, missed.self] at hmem
      cases hmem.2
    have hinsert : c.unregistered (key :: keys) = insert key (c'.unregistered keys) := by
      ext k
      rw [Finset.mem_insert, mem_unregistered, mem_unregistered, List.mem_cons]
      by_cases hk : k = key
      · simp [hk, missed.vacant]
      · rw [missed.registered?_eq id hk]
        simp [hk]
    rw [hinsert, Finset.card_insert_of_notMem hnew, if_pos rfl, add_comm]

end Cache

namespace Loader

variable {plan : Plan} {key : String × Tensor → Key} {held : Multiset PlacementId}

/-- One parameter of a load that nobody disturbs. -/
theorem gather_alone_cons {x : String × Tensor} {tier : Tier} (htier : plan.tierOf? x.1 = some tier)
    (before : Nat) (rest : List (String × Tensor)) (g : Gathered) (l : Loader) :
    gather .alone plan before (x :: rest) g (l, ()) =
      match l.cache.resolve x.2 tier with
      | (.error e, cache) => (.error e, (Loader.releaseAll { l with cache } g.parameters.values, ()))
      | (.ok r, cache) =>
        gather .alone plan (before + 1) rest (g.add x.1 r) ({ l with cache }, ()) := by
  rcases hr : l.cache.resolve x.2 tier with ⟨e | r, c⟩ <;>
    simp only [gather, alone_cancelled, alone_act, Bool.false_eq_true, if_false, htier, hr]

/-- What a load has done that gathered `rest` on top of `g`. -/
structure Gathers (held : Multiset PlacementId) (key : String × Tensor → Key) (l : Loader)
    (rest : List (String × Tensor)) (g g' : Gathered) (l' : Loader) : Prop where
  cacheOnly : l' = { l with cache := l'.cache }
  sound : l'.cache.Sound (↑g'.parameters.values + held) 0
  later : Cache.Later False l.cache l'.cache
  bound : ∀ x ∈ rest, ∃ p q, g'.parameters.find? x.1 = some p ∧ l'.cache.find? p = some q ∧
    q.key = key x
  others : ∀ name, name ∉ rest.map Prod.fst → g'.parameters.find? name = g.parameters.find? name
  counted : g'.placed + g'.reused = g.placed + g.reused + rest.length
  placed : g'.placed = g.placed + (l.cache.unregistered (rest.map key)).card

/-- A parameter gathered before the rest. -/
theorem Gathers.cons {l l' : Loader} {c : Cache} {x : String × Tensor}
    {rest : List (String × Tensor)} {g g' : Gathered} {make : Maker} {r : Resolved}
    (h : Gathers held key { l with cache := c } rest (g.add x.1 r) g' l')
    (hcalled : Cache.Called False l.cache (key x) make (.ok r) c)
    (hlater : Cache.Later False l.cache c) (hname : x.1 ∉ rest.map Prod.fst) :
    Gathers held key l (x :: rest) g g' l' where
  cacheOnly := h.cacheOnly
  sound := h.sound
  later := hlater.trans h.later
  bound y hy := by
    rcases List.mem_cons.1 hy with rfl | hy
    · obtain ⟨q, hq, hkey⟩ := hcalled.found
      have hself : g'.parameters.find? y.1 = some r.placement := by
        rw [h.others y.1 hname, Gathered.add, Table.find?_insert_self]
      -- The reference that the name is bound to keeps the placement.
      have hheld : r.placement ∈ Cache.registrationsOf l'.cache.slots +
          (↑g'.parameters.values + held) :=
        Multiset.mem_add.2 (.inr (Multiset.mem_add.2 (.inl (Table.mem_values.2 ⟨_, hself⟩))))
      obtain ⟨q', hq'⟩ := h.sound.find?_of_mem hheld
      rcases h.later.kept r.placement q hq with ⟨q'', hq'', hkey', -⟩ | ⟨hnone, -⟩
      · exact ⟨_, q'', hself, hq'', hkey'.trans hkey⟩
      · rw [hq'] at hnone
        cases hnone
    · exact h.bound y hy
  others name hother := by
    rw [List.map_cons, List.mem_cons, not_or] at hother
    rw [h.others name hother.2, Gathered.add, Table.find?_insert_ne _ _ hother.1]
  counted := by
    have hcounted := h.counted
    simp only [Gathered.add] at hcounted
    rw [List.length_cons]
    split_ifs at hcounted <;> omega
  placed := by
    have hplaced := h.placed
    simp only [Gathered.add] at hplaced
    rw [List.map_cons, hcalled.card_unregistered]
    split_ifs at hplaced ⊢ <;> omega

/-- A load that nobody disturbs fails for a reason of storage, or gathers all. -/
theorem gather_alone (before : Nat) {l : Loader} {rest : List (String × Tensor)} {g : Gathered}
    (hs : l.cache.Sound (↑g.parameters.values + held) 0) (hq : l.cache.Quiet)
    (hnames : (rest.map Prod.fst).Nodup) (hnew : ∀ x ∈ rest, g.parameters.find? x.1 = none)
    (hkey : ∀ x ∈ rest, plan.tierOf? x.1 = some (key x).tier ∧ (key x).identity = x.2.identity) :
    (∃ e w, gather .alone plan before rest g (l, ()) = (.error e, w) ∧ e.IsStorage) ∨
      ∃ g' l', gather .alone plan before rest g (l, ()) = (.ok g', (l', ())) ∧
        Gathers held key l rest g g' l' := by
  induction rest generalizing before g l with
  | nil =>
    exact .inr ⟨g, l, rfl, rfl, hs, .refl _ _, fun x hx => absurd hx List.not_mem_nil,
      fun _ _ => rfl, rfl, rfl⟩
  | cons x rest ih =>
    obtain ⟨hname, hnames⟩ := List.nodup_cons.1 hnames
    obtain ⟨htier, hidentity⟩ := hkey x List.mem_cons_self
    have hself : (⟨x.2.identity, (key x).tier⟩ : Key) = key x := by rw [← hidentity]
    have honest : (Maker.ofTensor x.2 id (key x).tier).Honest False False (key x).tier :=
      Maker.ofTensor_honest _ x.2 (key x).tier (.inr rfl)
    obtain ⟨hcalled, hready⟩ := hs.called hq honest
    rw [gather_alone_cons htier]
    rcases hr : l.cache.resolve x.2 (key x).tier with ⟨e | r, c⟩
    · exact .inl ⟨e, _, rfl, (Cache.resolveAmid_fault hr).1⟩
    · rw [Cache.resolve_eq_call, hself] at hr
      rw [hr] at hcalled hready
      have hs' : c.Sound (↑(g.add x.1 r).parameters.values + held) 0 := by
        have hsound := hready.sound
        rwa [Cache.given, Multiset.singleton_add, ← Multiset.cons_add,
          ← Gathered.values_add (hnew x List.mem_cons_self)] at hsound
      have hnew' := Gathered.new_add hname (fun y hy => hnew y (List.mem_cons_of_mem _ hy)) r
      rcases ih (before + 1) (l := { l with cache := c }) hs' hready.quiet hnames hnew'
        fun y hy => hkey y (List.mem_cons_of_mem _ hy) with herror | ⟨g', l', hg, hgathers⟩
      · exact .inl herror
      · exact .inr ⟨g', l', hg, hgathers.cons hcalled hready.later hname⟩

end Loader

end TieredWeights
