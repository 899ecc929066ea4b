import Mathlib.Data.List.Nodup
import TieredWeights.Checkpoint

/-!
# Readings of tensors

What brings tensors into being: readings, under the ids of one issuer, and the checkpoints that bind
them to names. A tensor that is bound or tied again is the same tensor, so the list of tensors read
has every tensor there is, once; no two of them have one source id, hence no two one identity.
-/
namespace TieredWeights

/-- The tensors read so far, the latest first, beside the issuer and any number of checkpoints. -/
structure Readings where
  ids : Issuer := {}
  tensors : List Tensor := []
  checkpoints : Nat → Checkpoint := fun _ => .empty

namespace Readings

/-- The readings after one more, which may have failed. -/
def add (s : Readings) : Except Fault Tensor × Issuer → Readings
  | (.ok t, ids) => { s with ids, tensors := t :: s.tensors }
  | (.error _, ids) => { s with ids }

inductive Step : Readings → Readings → Prop
  | ofBytes (s : Readings) (type : ElementType) (shape : List Nat) (bytes : Bytes) :
      Step s (s.add (s.ids.ofBytes type shape bytes))
  | ofSingles (s : Readings) (shape : List Nat) (values : List Binary64) :
      Step s (s.add (s.ids.ofSingles shape values))
  | zeros (s : Readings) (type : ElementType) (shape : List Nat) :
      Step s (s.add (s.ids.zeros type shape))
  | register {s : Readings} (k : Nat) (name : String) (type : ElementType) (shape : List Nat)
      (bytes : Bytes) {r : Except Fault Tensor} {c : Checkpoint} {ids : Issuer}
      (h : (s.checkpoints k).register s.ids name type shape bytes = (r, c, ids)) :
      Step s ({ s with checkpoints := Function.update s.checkpoints k c }.add (r, ids))
  | insert {s : Readings} (k : Nat) (name : String) {t : Tensor} (ht : t ∈ s.tensors)
      {c : Checkpoint} (h : (s.checkpoints k).insert name t = .ok c) :
      Step s { s with checkpoints := Function.update s.checkpoints k c }
  | tie {s : Readings} (k : Nat) (name target : String) {c : Checkpoint}
      (h : (s.checkpoints k).tie name target = .ok c) :
      Step s { s with checkpoints := Function.update s.checkpoints k c }

/-- Ids are issued once, and checkpoints bind tensors that were read. -/
structure Sound (s : Readings) : Prop where
  issued : ∀ t ∈ s.tensors, t.source ≤ s.ids.issued
  apart : (s.tensors.map Tensor.source).Nodup
  bound : ∀ k name t, (s.checkpoints k).get? name = some t → t ∈ s.tensors

/-- A reading takes an id that was not issued before, if it takes one. -/
def Fresh (ids : Issuer) (result : Except Fault Tensor × Issuer) : Prop :=
  ids.issued ≤ result.2.issued ∧
    ∀ t, result.1 = .ok t → ids.issued < t.source ∧ t.source ≤ result.2.issued

theorem fresh_ofBytes (ids : Issuer) (type : ElementType) (shape : List Nat) (bytes : Bytes) :
    Fresh ids (ids.ofBytes type shape bytes) := by
  have hrefused : ∀ e, Fresh ids (.error e, ids) := fun e => ⟨Nat.le_refl _, fun t ht => nomatch ht⟩
  unfold Issuer.ofBytes
  split
  · exact hrefused _
  · split
    · exact hrefused _
    · refine ⟨Nat.le_succ _, fun t ht => ?_⟩
      cases ht
      exact ⟨Nat.lt_succ_self _, Nat.le_refl _⟩

theorem fresh_zeros (ids : Issuer) (type : ElementType) (shape : List Nat) :
    Fresh ids (ids.zeros type shape) := by
  unfold Issuer.zeros
  split
  · exact ⟨Nat.le_refl _, fun t ht => nomatch ht⟩
  · split
    · refine ⟨Nat.le_succ _, fun t ht => ?_⟩
      cases ht
      exact ⟨Nat.lt_succ_self _, Nat.le_refl _⟩
    · exact ⟨Nat.le_succ _, fun t ht => nomatch ht⟩

theorem fresh_ofSingles (ids : Issuer) (shape : List Nat) (values : List Binary64) :
    Fresh ids (ids.ofSingles shape values) := by
  simp only [Issuer.ofSingles]
  split
  · exact fresh_ofBytes _ _ _ _
  · exact ⟨Nat.le_refl _, fun t ht => nomatch ht⟩

variable {s s' : Readings}

theorem Sound.add (h : s.Sound) {result : Except Fault Tensor × Issuer}
    (hr : Fresh s.ids result) : (s.add result).Sound := by
  obtain ⟨hle, hnew⟩ := hr
  obtain ⟨e | t, ids⟩ := result
  · exact { h with issued := fun t ht => Nat.le_trans (h.issued t ht) hle }
  · obtain ⟨hlt, hle'⟩ := hnew t rfl
    refine ⟨fun t' ht' => ?_, ?_, fun k name t' ht' => List.mem_cons_of_mem _ (h.bound k name t' ht')⟩
    · rcases List.mem_cons.1 ht' with rfl | ht'
      · exact hle'
      · exact Nat.le_trans (h.issued t' ht') hle
    · refine List.nodup_cons.2 ⟨fun hmem => ?_, h.apart⟩
      obtain ⟨t', ht', he⟩ := List.mem_map.1 hmem
      have hle := h.issued t' ht'
      omega

/-- A name is bound to a tensor that was read. -/
theorem Sound.bind (h : s.Sound) (k : Nat) {name : String} {t : Tensor} (ht : t ∈ s.tensors)
    {c : Checkpoint} (hc : (s.checkpoints k).insert name t = .ok c) :
    Readings.Sound { s with checkpoints := Function.update s.checkpoints k c } := by
  refine { h with bound := fun j name' t' ht' => ?_ }
  by_cases hj : j = k
  · unfold Checkpoint.insert at hc
    split at hc
    · cases hc
    · cases hc
      simp only [hj, Function.update_self, Checkpoint.get?, Table.find?_insert] at ht'
      split_ifs at ht' with hname
      · cases ht'
        exact ht
      · exact h.bound k name' t' ht'
  · simp only [Function.update_of_ne hj] at ht'
    exact h.bound j name' t' ht'

theorem Sound.register (h : s.Sound) {k : Nat} {name : String} {type : ElementType}
    {shape : List Nat} {bytes : Bytes} {r : Except Fault Tensor} {c : Checkpoint}
    {ids : Issuer} (hr : (s.checkpoints k).register s.ids name type shape bytes = (r, c, ids)) :
    Readings.Sound ({ s with checkpoints := Function.update s.checkpoints k c }.add (r, ids)) := by
  have hfresh := fresh_ofBytes s.ids type shape bytes
  unfold Checkpoint.register at hr
  rcases hread : s.ids.ofBytes type shape bytes with ⟨e | t, ids'⟩ <;>
    simp only [hread] at hr hfresh
  · cases hr
    rw [Function.update_eq_self]
    exact h.add hfresh
  · cases hinsert : (s.checkpoints k).insert name t with
    | error e =>
      simp only [hinsert] at hr
      cases hr
      rw [Function.update_eq_self]
      exact h.add ⟨hfresh.1, fun t ht => nomatch ht⟩
    | ok c' =>
      simp only [hinsert] at hr
      cases hr
      exact (h.add hfresh).bind k List.mem_cons_self hinsert

theorem Step.sound (h : Step s s') (hs : s.Sound) : s'.Sound := by
  cases h with
  | ofBytes type shape bytes => exact hs.add (fresh_ofBytes _ _ _ _)
  | ofSingles shape values => exact hs.add (fresh_ofSingles _ _ _)
  | zeros type shape => exact hs.add (fresh_zeros _ _ _)
  | register k name type shape bytes h => exact hs.register h
  | insert k name ht h => exact hs.bind k ht h
  | tie k name target h =>
    unfold Checkpoint.tie at h
    split at h
    · cases h
    · rename_i t ht
      exact hs.bind k (hs.bound k target t ht) h

/-- Tensors are never lost. -/
theorem Step.subset (h : Step s s') : s.tensors ⊆ s'.tensors := by
  have hadd : ∀ (s : Readings) result, s.tensors ⊆ (s.add result).tensors := fun s result => by
    obtain ⟨e | t, ids⟩ := result
    · exact List.Subset.refl _
    · exact List.subset_cons_self _ _
  cases h with
  | ofBytes type shape bytes => exact hadd _ _
  | ofSingles shape values => exact hadd _ _
  | zeros type shape => exact hadd _ _
  | @register k name type shape bytes r c ids h =>
    exact hadd { s with checkpoints := Function.update s.checkpoints k c } (r, ids)
  | insert k name ht h => exact List.Subset.refl _
  | tie k name target h => exact List.Subset.refl _

theorem sound_empty : Sound {} where
  issued _ ht := absurd ht List.not_mem_nil
  apart := .nil
  bound _ _ _ ht := nomatch ht

/-- Tensors read separately have different identities. -/
theorem Sound.identities (h : s.Sound) :
    s.tensors.Pairwise fun t t' => t.identity ≠ t'.identity :=
  (List.pairwise_map.1 h.apart).imp fun hne he => hne (congrArg Identity.source he)

/-- An identity belongs to one tensor. -/
theorem Sound.eq_of_identity (h : s.Sound) {t t' : Tensor} (ht : t ∈ s.tensors)
    (ht' : t' ∈ s.tensors) (he : t.identity = t'.identity) : t = t' :=
  List.inj_on_of_nodup_map h.apart ht ht' (congrArg Identity.source he)

end Readings

end TieredWeights
