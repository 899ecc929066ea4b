import TieredWeights.Proofs.Readings
import TieredWeights.Proofs.Scene.Sound

/-!
# Contents of placements

Sharing never serves wrong bytes. As long as buffers are filled with the bytes of the tensors they
are placed for and nobody tampers with the files, every placement reads the bytes of the tensor that
has its identity, from the moment it is made until its last reference goes. No step of the cache
comes between, for each leaves the placements that stay as they are.
-/
namespace TieredWeights

/-- Only known tensors are placed, makers fill in the bytes of the tensor resolved, and nobody
tampers with the files. -/
def Permits.faithful (tensors : List Tensor) : Permits where
  tensors t := t ∈ tensors
  makers key make := ∃ t ∈ tensors, t.identity = key.identity ∧ make.Fills key.tier t.bytes
  tampers := False

/-- Every placement reads the bytes of a known tensor of its identity. -/
def Cache.Holds (c : Cache) (tensors : List Tensor) : Prop :=
  ∀ p q, c.find? p = some q →
    ∃ t ∈ tensors, t.identity = q.key.identity ∧ c.read p = .ok t.bytes

/-- Readings of tensors and runs of a loader that uses them, in any order. -/
inductive History (depot : Depot) (blocks : Nat) (split : Split Binary64) :
    Readings → Scene → Prop
  | start : History depot blocks split {} (.start depot blocks split)
  | read {s s' : Readings} {w : Scene} (h : History depot blocks split s w)
      (hs : Readings.Step s s') : History depot blocks split s' w
  | run {s : Readings} {w w' : Scene} (h : History depot blocks split s w)
      (hr : Scene.Run (.faithful s.tensors) w w') : History depot blocks split s w'

/-- A permitted maker fills in the bytes of a known tensor. -/
theorem Permits.Allows.fills {tensors : List Tensor} {key : Key} {make : Maker}
    (h : (faithful tensors).Allows key make) :
    ∃ t ∈ tensors, t.identity = key.identity ∧ make.Fills key.tier t.bytes := by
  rcases h with ⟨hmake, -⟩ | ⟨t, tamper, ht, hkey, hid, rfl⟩
  · exact hmake
  · obtain rfl : tamper = id := hid.resolve_left id
    exact ⟨t, ht, hkey.symm, Maker.ofTensor_fills t key.tier⟩

/-- No step makes a placement read anything else. -/
theorem Tally.Step.holds {tensors : List Tensor} {t t' : Tally}
    (h : Step (.faithful tensors) t t') (ht : t.Sound (.faithful tensors) 0) (hc : t.cache.Holds tensors) :
    t'.cache.Holds tensors := by
  obtain ⟨ht', hlater⟩ := h.sound ht
  intro p q hq
  rcases h.find? ht hq with ⟨q₀, hq₀, hkey, -⟩ | ⟨key, make, hallows, hcall, rfl⟩
  · obtain ⟨x, hx, hidentity, hread⟩ := hc p q₀ hq₀
    refine ⟨x, hx, by rw [hkey, hidentity], hlater.reads id p x.bytes ?_ hread⟩
    rw [hq]
    rfl
  · obtain ⟨x, hx, hidentity, hfills⟩ := hallows.fills
    obtain ⟨hcalled, -⟩ := ht.cache.called ht.quiet hallows.honest
    have hmade := ht'.cache.numbered _ q hq
    rw [hcall] at hq hmade ⊢
    obtain ⟨b, hfound, -, c₁, held, loose, c₂, hc₁, hmake, hdepot⟩ := hcalled.new hmade
    rw [hq, Option.some.injEq] at hfound
    subst hfound
    refine ⟨x, hx, hidentity, Cache.read_eq_ok.2 ⟨_, hq, ?_⟩⟩
    rw [hdepot]
    exact hfills c₁ held loose b c₂ hc₁ hmake

variable {depot : Depot} {blocks : Nat} {split : Split Binary64} {s : Readings} {w : Scene}

theorem History.sound (h : History depot blocks split s w) (hd : depot.Sound 0) :
    s.Sound ∧ w.Sound (.faithful s.tensors) ∧ w.1.cache.Holds s.tensors := by
  induction h with
  | start => exact ⟨Readings.sound_empty, Scene.start_sound hd _ _, fun _ _ hq => nomatch hq⟩
  | read _ step ih =>
    obtain ⟨hs, hw, hholds⟩ := ih
    refine ⟨step.sound hs, ⟨hw.store, { hw.tally with }⟩, fun p q hq => ?_⟩
    obtain ⟨t, ht, hidentity, hread⟩ := hholds p q hq
    exact ⟨t, step.subset ht, hidentity, hread⟩
  | @run s w w' _ run ih =>
    obtain ⟨hs, hw, hholds⟩ := ih
    refine ⟨hs, run.sound hw, ?_⟩
    exact run.invariant (I := fun t => t.cache.Holds s.tensors) hw hholds
      fun _ _ ht hc step => step.holds ht hc

/-- Every placement, and so every entry and every parameter of a map in use, reads the bytes of
each tensor of its identity, whichever reading or tie that tensor came by; tensors read separately
have different identities, and placements of different identities never share a buffer. -/
theorem placements_read_tensor (h : History depot blocks split s w) (hd : depot.Sound 0) :
    (∀ p q, w.1.cache.find? p = some q → ∀ t ∈ s.tensors, t.identity = q.key.identity →
      w.1.cache.read p = .ok t.bytes) ∧
    (∀ p ∈ w.1.store.references + w.2.entries, ∃ q, w.1.cache.find? p = some q ∧
      ∃ t ∈ s.tensors, t.identity = q.key.identity) ∧
    (s.tensors.Pairwise fun t t' => t.identity ≠ t'.identity) ∧
    ∀ p q p' q', w.1.cache.find? p = some q → w.1.cache.find? p' = some q' →
      q.key.identity ≠ q'.key.identity → q.buffer.tier = q'.buffer.tier →
        q.buffer.slot ≠ q'.buffer.slot := by
  obtain ⟨hs, hw, hholds⟩ := h.sound hd
  have hc : w.1.cache.Sound (w.1.store.references + w.2.entries) 0 := hw.tally.cache
  refine ⟨fun p q hq t ht he => ?_, fun p hp => ?_, hs.identities, fun p q p' q' hq hq' hne => ?_⟩
  · obtain ⟨t', ht', hidentity, hread⟩ := hholds p q hq
    rwa [hs.eq_of_identity ht ht' (he.trans hidentity.symm)]
  · obtain ⟨q, hq⟩ := hc.find?_of_mem (Multiset.mem_add.2 (.inr hp))
    obtain ⟨t, ht, hidentity, -⟩ := hholds p q hq
    exact ⟨q, hq, t, ht, hidentity⟩
  · refine hc.slot_ne hq hq' fun he => hne ?_
    rw [he, hq', Option.some.injEq] at hq
    rw [hq]

open Scene in
/-- The placement of the sample reads the bytes of the sample's tensor. -/
theorem placements_read_sample : sampleScene.1.cache.read 0 = .ok ⟨#[0, 0, 128, 63]⟩ := by
  have hreading : Readings.Step {} ⟨⟨1⟩, [sampleTensor], fun _ => .empty⟩ :=
    .ofBytes {} .f32 [1] ⟨⟨#[0, 0, 128, 63]⟩, by decide⟩
  have hhistory : History sampleDepot 1 sampleSplit ⟨⟨1⟩, [sampleTensor], fun _ => .empty⟩
      sampleScene := (History.start.read hreading).run (sample_run List.mem_cons_self)
  have hq : sampleScene.1.cache.find? 0 =
      some ⟨⟨sampleTensor.identity, .host⟩, ⟨.host, 1, 0, 1, 4, .f32⟩, 3⟩ := by decide +kernel
  exact (placements_read_tensor hhistory sampleDepot_sound).1 0 _ hq sampleTensor
    List.mem_cons_self rfl

end TieredWeights
