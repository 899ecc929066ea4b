import Mathlib.Data.Finset.Card
import TieredWeights.Proofs.Scene.Sound

/-!
# One placement for each key

As long as nobody forgets placements that are in use, every placement is the registered one of its
key: a purge takes a registration only together with its placement. So a key has one placement at
most, which every reference to the key shares, and a maker runs only if there is none. Without
purges a registration stays for good, and each key that was ever resolved was placed once.
-/
namespace TieredWeights

/-- Every placement is the registered one of its key. -/
def Cache.Unique (c : Cache) : Prop := ∀ p q, c.find? p = some q → c.registered? q.key = some p

namespace Call

/-- The call made a placement. -/
def placed (call : Call) : Bool :=
  match call.answer with
  | .ok r => r.placed
  | .error _ => false

/-- The call gave a placement. -/
def succeeded (call : Call) : Bool :=
  match call.answer with
  | .ok _ => true
  | .error _ => false

theorem succeeded_of_placed {call : Call} (h : call.placed) : call.succeeded := by
  unfold placed at h
  unfold succeeded
  split at h
  · rfl
  · cases h

end Call

namespace Tally

variable {permits : Permits} {t t' : Tally}

/-- Every step is a call, or trims the cache at most. -/
theorem Step.trimmed (h : Step permits t t') (ht : t.Sound permits 0) (hf : ¬ permits.forgets) :
    (∃ key make, permits.Allows key make ∧ t' = ⟨(t.cache.call key make).2,
      Cache.given (t.cache.call key make).1 + t.held, Call.make t.cache key make ::ₘ t.calls⟩) ∨
      t'.calls = t.calls ∧ Cache.Trimmed permits.purges t.cache t'.cache := by
  cases h with
  | @call _ key make h => exact .inl ⟨key, make, h, rfl⟩
  | retain => exact .inr ⟨rfl, .of_slots rfl rfl rfl rfl⟩
  | @release c p =>
    obtain ⟨_, _, he⟩ := Cache.release_eq c p
    refine .inr ⟨rfl, ?_⟩
    rw [he]
    exact .of_slots rfl rfl rfl rfl
  | purge hp =>
    have htrimmed := ht.cache.purge_trimmed
    refine .inr ⟨rfl, { htrimmed with kept := fun key p hkey => ?_ }⟩
    exact (htrimmed.kept key p hkey).imp_right fun hgone => ⟨hp, hgone.2⟩
  | invalidate h => exact absurd h hf
  | clear h => exact absurd h hf
  | note n => exact .inr ⟨rfl, .of_slots rfl rfl rfl rfl⟩
  | tamper h files => exact .inr ⟨rfl, .of_slots rfl rfl rfl rfl⟩

/-- A registration stays as long as its placement. -/
theorem Step.kept (h : Step permits t t') (ht : t.Sound permits 0) (hf : ¬ permits.forgets)
    {key : Key} {p : PlacementId} (hp : t.cache.registered? key = some p) :
    t'.cache.registered? key = some p ∨ permits.purges ∧ t'.cache.find? p = none := by
  rcases h.trimmed ht hf with ⟨key', make, hallows, rfl⟩ | ⟨-, htrimmed⟩
  · exact (ht.cache.called ht.quiet hallows.honest).1.kept hp
  · exact htrimmed.kept key p hp

/-- No step parts a placement from its registration. -/
theorem Step.unique (h : Step permits t t') (ht : t.Sound permits 0) (hf : ¬ permits.forgets)
    (hu : t.cache.Unique) : t'.cache.Unique := by
  intro p q hq
  rcases h.find? ht hq with ⟨q₀, hq₀, hkey, -⟩ | ⟨key, make, hallows, hcall, rfl⟩
  · rw [hkey]
    refine (h.kept ht hf (hu p q₀ hq₀)).resolve_right fun hgone => ?_
    rw [hgone.2] at hq
    cases hq
  · have hmade := (h.sound ht).1.cache.numbered _ q hq
    rw [hcall] at hq hmade ⊢
    obtain ⟨b, hfound, hregistered, -⟩ := (ht.cache.called ht.quiet hallows.honest).1.new hmade
    rw [hq, Option.some.injEq] at hfound
    rw [hfound]
    exact hregistered

/-- The caches that calls were made on had one placement for each key. -/
structure Unique (t : Tally) : Prop where
  cache : t.cache.Unique
  calls : ∀ call ∈ t.calls, call.before.Unique

theorem Unique.step (h : t.Unique) (hstep : Step permits t t') (ht : t.Sound permits 0)
    (hf : ¬ permits.forgets) : t'.Unique := by
  refine ⟨hstep.unique ht hf h.cache, fun call hcall => ?_⟩
  rcases hstep.trimmed ht hf with ⟨key, make, -, rfl⟩ | ⟨hcalls, -⟩
  · rcases Multiset.mem_cons.1 hcall with rfl | hcall
    · exact h.cache
    · exact h.calls call hcall
  · rw [hcalls] at hcall
    exact h.calls call hcall

/-- Keys that were resolved stay registered, and each was placed once. -/
structure Kept (t : Tally) : Prop where
  resolved : ∀ call ∈ t.calls, call.succeeded → (t.cache.registered? call.key).isSome
  placed : ∀ key, (t.cache.registered? key).isSome → ∃ call ∈ t.calls, call.placed ∧ call.key = key
  once : ((t.calls.filter fun call => call.placed).map Call.key).Nodup

theorem Kept.call (h : t.Kept) {key : Key} {make : Maker} {r : Except Fault Resolved} {c : Cache}
    (hc : Cache.Called False t.cache key make r c) (held : Multiset PlacementId) :
    Kept ⟨c, held, ⟨t.cache, key, r, c⟩ ::ₘ t.calls⟩ := by
  have hkept : ∀ k, (t.cache.registered? k).isSome → (c.registered? k).isSome := fun k hk => by
    obtain ⟨p, hp⟩ := Option.isSome_iff_exists.1 hk
    rw [(hc.kept hp).resolve_right And.left]
    rfl
  have hresolved : ∀ call ∈ t.calls, call.succeeded → (c.registered? call.key).isSome :=
    fun call hcall hok => hkept _ (h.resolved call hcall hok)
  have hmem : ∀ k, (t.cache.registered? k).isSome →
      ∃ call ∈ (⟨t.cache, key, r, c⟩ : Call) ::ₘ t.calls, call.placed ∧ call.key = k := fun k hk => by
    obtain ⟨call, hcall, hplaced⟩ := h.placed k hk
    exact ⟨call, Multiset.mem_cons_of_mem hcall, hplaced⟩
  cases hc with
  | hit registered found own =>
    refine ⟨fun call hcall hok => ?_, hmem, ?_⟩
    · rcases Multiset.mem_cons.1 hcall with rfl | hcall
      · rw [Option.isSome_iff_exists]
        exact ⟨_, registered⟩
      · exact hresolved call hcall hok
    · rw [Multiset.filter_cons_of_neg _ (by simp [Call.placed])]
      exact h.once
  | failed missed made =>
    refine ⟨fun call hcall hok => ?_, fun k hk => hmem k ?_, ?_⟩
    · rcases Multiset.mem_cons.1 hcall with rfl | hcall
      · cases hok
      · exact hresolved call hcall hok
    · obtain ⟨p, hp⟩ := Option.isSome_iff_exists.1 hk
      have hne : k ≠ key := fun he => by rw [he, missed.self] at hp; cases hp
      rw [missed.other k p hne hp]
      rfl
    · rw [Multiset.filter_cons_of_neg _ (by simp [Call.placed])]
      exact h.once
  | placed missed made found brought =>
    refine ⟨fun call hcall hok => ?_, fun k hk => ?_, ?_⟩
    · rcases Multiset.mem_cons.1 hcall with rfl | hcall
      · rw [missed.self]
        rfl
      · exact hresolved call hcall hok
    · by_cases hkey : k = key
      · exact ⟨_, Multiset.mem_cons_self _ _, rfl, hkey.symm⟩
      · obtain ⟨p, hp⟩ := Option.isSome_iff_exists.1 hk
        refine hmem k ?_
        rw [missed.other k p hkey hp]
        rfl
    · rw [Multiset.filter_cons_of_pos _ (by rfl), Multiset.map_cons, Multiset.nodup_cons]
      refine ⟨fun hother => ?_, h.once⟩
      -- A call that placed the key before would have left it registered.
      obtain ⟨call, hcall, hkey⟩ := Multiset.mem_map.1 hother
      obtain ⟨hcall, hplaced⟩ := Multiset.mem_filter.1 hcall
      have hsome := h.resolved call hcall (Call.succeeded_of_placed hplaced)
      rw [hkey, missed.vacant] at hsome
      cases hsome

theorem Kept.step (h : t.Kept) (hstep : Step permits t t') (ht : t.Sound permits 0)
    (hf : ¬ permits.forgets) (hp : ¬ permits.purges) : t'.Kept := by
  rcases hstep.trimmed ht hf with ⟨key, make, hallows, rfl⟩ | ⟨hcalls, htrimmed⟩
  · obtain ⟨hcalled, -⟩ := ht.cache.called ht.quiet hallows.honest
    rw [eq_false hp] at hcalled
    exact h.call hcalled _
  · have hregistered := htrimmed.registered?_eq hp
    refine ⟨fun call hcall hok => ?_, fun key hkey => ?_, by rw [hcalls]; exact h.once⟩
    · rw [hregistered]
      exact h.resolved call (hcalls ▸ hcall) hok
    · rw [hregistered] at hkey
      rw [hcalls]
      exact h.placed key hkey

/-- As many placements were made on a tier as keys of the tier were resolved. -/
theorem Kept.card_placed (h : t.Kept) (tier : Tier) :
    (t.calls.filter fun call => call.placed ∧ call.key.tier = tier).card =
      ((t.calls.filter fun call => call.succeeded ∧ call.key.tier = tier).map
        Call.key).toFinset.card := by
  have honce : ((t.calls.filter fun call => call.placed ∧ call.key.tier = tier).map
      Call.key).Nodup := by
    refine Multiset.nodup_of_le (Multiset.map_le_map ?_) h.once
    exact Multiset.monotone_filter_right _ fun call hcall => hcall.1
  have hsame : ((t.calls.filter fun call => call.placed ∧ call.key.tier = tier).map
      Call.key).toFinset = ((t.calls.filter fun call => call.succeeded ∧ call.key.tier = tier).map
        Call.key).toFinset := by
    ext key
    simp only [Multiset.mem_toFinset, Multiset.mem_map, Multiset.mem_filter]
    constructor
    · rintro ⟨call, ⟨hcall, hplaced, htier⟩, hkey⟩
      exact ⟨call, ⟨hcall, Call.succeeded_of_placed hplaced, htier⟩, hkey⟩
    · rintro ⟨call, ⟨hcall, hok, htier⟩, rfl⟩
      obtain ⟨call', hcall', hplaced, hkey⟩ := h.placed _ (h.resolved call hcall hok)
      exact ⟨call', ⟨hcall', hplaced, by rw [hkey, htier]⟩, hkey⟩
  rw [← hsame, Multiset.toFinset_card_of_nodup honce, Multiset.card_map]

end Tally

variable {permits : Permits} {depot : Depot} {blocks : Nat} {split : Split Binary64} {w : Scene}

theorem Scene.Run.unique (h : Scene.Run permits (.start depot blocks split) w)
    (hd : depot.Sound 0) (hf : ¬ permits.forgets) : w.tally.Unique := by
  refine h.invariant (Scene.start_sound hd _ _) ?_ fun _ _ ht hu step => hu.step step ht hf
  exact ⟨fun _ _ hq => (nomatch hq), fun call hcall => absurd hcall (Multiset.notMem_zero call)⟩

theorem Scene.Run.kept (h : Scene.Run permits (.start depot blocks split) w)
    (hd : depot.Sound 0) (hf : ¬ permits.forgets) (hp : ¬ permits.purges) : w.tally.Kept := by
  refine h.invariant (Scene.start_sound hd _ _) ?_ fun _ _ ht hk step => hk.step step ht hf hp
  exact ⟨fun call hcall => absurd hcall (Multiset.notMem_zero call), fun _ hkey => (nomatch hkey),
    Multiset.nodup_zero⟩

/-- If nobody forgets placements in use, a key has one placement at most: every entry and every
parameter of a map in use has a placement, which is what `get` gives for its key; of all the buffers
ever placed for a key one at most is live; and a maker runs only where its key has no placement. If
nobody purges either, there were as many placements on a tier as keys resolved on it. -/
theorem placements_unique (h : Scene.Run permits (.start depot blocks split) w)
    (hd : depot.Sound 0) (hf : ¬ permits.forgets) :
    (∀ p ∈ w.1.store.references + w.2.entries, ∃ q, w.1.cache.find? p = some q) ∧
    (∀ p q, w.1.cache.find? p = some q → (w.1.cache.get q.key).1 = some p ∧
      ∀ p' q', w.1.cache.find? p' = some q' → q'.key = q.key → p' = p) ∧
    (∀ call ∈ w.2.calls, ∀ call' ∈ w.2.calls, call.key = call'.key → ∀ r r', call.answer = .ok r →
      call'.answer = .ok r' → ∀ q q', call.after.find? r.placement = some q →
      call'.after.find? r'.placement = some q' → w.1.depot.IsLive q.buffer →
      w.1.depot.IsLive q'.buffer → r.placement = r'.placement ∧ q.buffer = q'.buffer) ∧
    (∀ call ∈ w.2.calls, ∀ ticket c, call.before.consult call.key = (.ok (.vacant ticket), c) →
      ∀ p q, c.find? p = some q → q.key ≠ call.key) ∧
    (¬ permits.purges → ∀ tier,
      (w.2.calls.filter fun call => call.placed ∧ call.key.tier = tier).card =
        ((w.2.calls.filter fun call => call.succeeded ∧ call.key.tier = tier).map
          Call.key).toFinset.card) := by
  have hw := h.sound_start hd
  have hc : w.1.cache.Sound (w.1.store.references + w.2.entries) 0 := hw.tally.cache
  have hu := h.unique hd hf
  have hcache : w.1.cache.Unique := hu.cache
  have hsame : ∀ {p q p' q'}, w.1.cache.find? p = some q → w.1.cache.find? p' = some q' →
      q'.key = q.key → p' = p := fun {p q p' q'} hq hq' hkey => by
    have hp' := hcache p' q' hq'
    rw [hkey, hcache p q hq, Option.some.injEq] at hp'
    exact hp'.symm
  refine ⟨fun p hp => ?_, fun p q hq => ⟨?_, fun p' q' => hsame hq⟩, ?_, ?_, fun hp tier => ?_⟩
  · exact hc.find?_of_mem (Multiset.mem_add.2 (.inr hp))
  · rw [Cache.get, hcache p q hq]
  · intro call hcall call' hcall' hkey r r' hr hr' q q' hq hq' hlive hlive'
    obtain ⟨q₁, hq₁, hkey₁, hbuffer₁⟩ := hw.find?_of_isLive hcall hr hq hlive
    obtain ⟨q₁', hq₁', hkey₁', hbuffer₁'⟩ := hw.find?_of_isLive hcall' hr' hq' hlive'
    have he := hsame hq₁' hq₁ (by rw [hkey₁, hkey₁', hkey])
    rw [he, hq₁', Option.some.injEq] at hq₁
    exact ⟨he, by rw [← hbuffer₁, ← hbuffer₁', hq₁]⟩
  · intro call hcall ticket c hconsult p q hq hkey
    obtain ⟨hvacant, hplacements⟩ := Cache.vacant_of_consult hconsult
    rw [Cache.find?, hplacements] at hq
    rw [← hkey, hu.calls call hcall p q hq] at hvacant
    cases hvacant
  · exact (h.kept hd hf hp).card_placed tier

open Scene in
/-- The two parameters of the sample, tied to one tensor, were resolved through one placement. -/
theorem placements_unique_sample :
    (sampleScene.2.calls.filter fun call => call.succeeded ∧ call.key.tier = .host).card = 2 ∧
    (sampleScene.2.calls.filter fun call => call.placed ∧ call.key.tier = .host).card = 1 ∧
    ((sampleScene.2.calls.filter fun call => call.succeeded ∧ call.key.tier = .host).map
      Call.key).toFinset.card = 1 := by
  have hrun : Run { forgets := False, purges := False } (.start sampleDepot 1 sampleSplit)
    sampleScene := sample_run trivial
  have hcount := (placements_unique hrun sampleDepot_sound id).2.2.2.2 id .host
  have hplaced : (sampleScene.2.calls.filter fun call =>
    call.placed ∧ call.key.tier = .host).card = 1 := by decide +kernel
  exact ⟨by decide +kernel, hplaced, hcount ▸ hplaced⟩

end TieredWeights
