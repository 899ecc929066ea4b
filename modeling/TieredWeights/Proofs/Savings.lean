import Mathlib.Algebra.BigOperators.Group.Finset.Basic
import Mathlib.Algebra.GroupWithZero.Nat
import Mathlib.Algebra.Group.Action.Defs
import Mathlib.Algebra.Order.BigOperators.Group.Finset
import Mathlib.Data.List.Forall2
import TieredWeights.Report

/-!
# What sharing saves

The savings of a model compare the bytes of all its tensors, one for every parameter, with the bytes
of their different identities. Neither number depends on the order in which tensors are counted, and
for two models together the bytes of the identities that they have in common are shared once more.
-/
namespace TieredWeights

/-- The tensors of some blocks, one for every parameter. -/
def tensorsOf (blocks : List Block) : List Tensor :=
  blocks.flatMap fun block => block.parameters.map (·.2)

namespace Savings

/-- More tensors counted, after some identities have been. By induction on the tensors. -/
theorem foldl_count (tensors : List Tensor) (acc : Savings × List Identity)
    (h : acc.1.shared = ∑ i ∈ acc.2.toFinset, i.bytes) :
    (tensors.foldl count acc).1.naive =
        acc.1.naive + (tensors.map fun t => t.identity.bytes).sum ∧
      (tensors.foldl count acc).1.shared =
        ∑ i ∈ acc.2.toFinset ∪ (tensors.map Tensor.identity).toFinset, i.bytes := by
  induction tensors generalizing acc with
  | nil => simp [h]
  | cons t rest ih =>
    obtain ⟨s, seen⟩ := acc
    have hunion : seen.toFinset ∪ ((t :: rest).map Tensor.identity).toFinset =
        insert t.identity seen.toFinset ∪ (rest.map Tensor.identity).toFinset := by
      rw [List.map_cons, List.toFinset_cons, Finset.union_insert, Finset.insert_union]
    have hbytes : t.identity.bytes = t.bytes.size := rfl
    rw [List.foldl_cons, hunion, List.map_cons, List.sum_cons, ← Nat.add_assoc, hbytes]
    by_cases hseen : t.identity ∈ seen
    · have hcount : count (s, seen) t = ({ s with naive := s.naive + t.bytes.size }, seen) := by
        simp only [count, hseen, if_true]
      rw [hcount, Finset.insert_eq_self.2 (List.mem_toFinset.2 hseen)]
      exact ih _ h
    · have hcount : count (s, seen) t =
          (⟨s.naive + t.bytes.size, s.shared + t.bytes.size⟩, t.identity :: seen) := by
        simp only [count, hseen, if_false]
      rw [hcount, ← List.toFinset_cons]
      refine ih _ ?_
      rw [List.toFinset_cons, Finset.sum_insert (by simpa using hseen), ← h, hbytes]
      exact Nat.add_comm _ _

theorem naive_ofBlocks (blocks : List Block) :
    (ofBlocks blocks).naive = ((tensorsOf blocks).map fun t => t.identity.bytes).sum := by
  have hnaive := (foldl_count (tensorsOf blocks) ({}, []) rfl).1
  rwa [Nat.zero_add] at hnaive

theorem shared_ofBlocks (blocks : List Block) : (ofBlocks blocks).shared =
    ∑ i ∈ ((tensorsOf blocks).map Tensor.identity).toFinset, i.bytes := by
  have hshared := (foldl_count (tensorsOf blocks) ({}, []) rfl).2
  rwa [List.toFinset_nil, Finset.empty_union] at hshared

/-- The different identities of the tensors of some blocks. -/
def identitiesOf (blocks : List Block) : Finset Identity :=
  ((tensorsOf blocks).map Tensor.identity).toFinset

/-- Every identity is counted among the tensors that have it, so what is shared is no more than what
is not. -/
theorem shared_le_naive (blocks : List Block) :
    (ofBlocks blocks).shared ≤ (ofBlocks blocks).naive := by
  have hnaive : (ofBlocks blocks).naive =
      (((tensorsOf blocks).map Tensor.identity).map Identity.bytes).sum := by
    rw [naive_ofBlocks, List.map_map]
    rfl
  rw [hnaive, shared_ofBlocks, Finset.sum_list_map_count]
  refine Finset.sum_le_sum fun i hi => ?_
  rw [smul_eq_mul]
  exact Nat.le_mul_of_pos_left _ (List.count_pos_iff.2 (List.mem_toFinset.1 hi))

/-- Only the tensors count, and not their order. -/
theorem ofBlocks_congr {blocks other : List Block} (h : (tensorsOf blocks).Perm (tensorsOf other)) :
    ofBlocks blocks = ofBlocks other := by
  have hnaive : (ofBlocks blocks).naive = (ofBlocks other).naive := by
    rw [naive_ofBlocks, naive_ofBlocks]
    exact (h.map _).sum_eq
  have hshared : (ofBlocks blocks).shared = (ofBlocks other).shared := by
    rw [shared_ofBlocks, shared_ofBlocks, List.toFinset_eq_of_perm _ _ (h.map _)]
  cases hb : ofBlocks blocks
  cases ho : ofBlocks other
  simp_all

/-- The same blocks in another order, each with its parameters in another order. -/
def Shuffled (blocks other : List Block) : Prop :=
  ∃ between, blocks.Perm between ∧
    List.Forall₂ (fun b b' : Block => b.parameters.Perm b'.parameters) between other

theorem Shuffled.tensorsOf {blocks other : List Block} (h : Shuffled blocks other) :
    (tensorsOf blocks).Perm (tensorsOf other) := by
  obtain ⟨between, hperm, hblocks⟩ := h
  refine (hperm.flatMap_right _).trans ?_
  clear hperm
  induction hblocks with
  | nil => exact .refl _
  | cons hb _ ih => exact (hb.map _).append ih

theorem tensorsOf_append (blocks more : List Block) :
    tensorsOf (blocks ++ more) = tensorsOf blocks ++ tensorsOf more := List.flatMap_append

theorem naive_append (blocks more : List Block) :
    (ofBlocks (blocks ++ more)).naive = (ofBlocks blocks).naive + (ofBlocks more).naive := by
  simp only [naive_ofBlocks, tensorsOf_append, List.map_append, List.sum_append]

theorem identitiesOf_append (blocks more : List Block) :
    identitiesOf (blocks ++ more) = identitiesOf blocks ∪ identitiesOf more := by
  simp only [identitiesOf, tensorsOf_append, List.map_append, List.toFinset_append]

/-- What two models share together: the bytes of identities in both are counted once. -/
theorem shared_append (blocks more : List Block) :
    (ofBlocks (blocks ++ more)).shared +
        ∑ i ∈ identitiesOf blocks ∩ identitiesOf more, i.bytes =
      (ofBlocks blocks).shared + (ofBlocks more).shared := by
  have hshared (blocks : List Block) :
      (ofBlocks blocks).shared = ∑ i ∈ identitiesOf blocks, i.bytes := shared_ofBlocks blocks
  rw [hshared, hshared, hshared, identitiesOf_append, Finset.sum_union_inter]

/-- A block that is there already brings no identity. -/
theorem shared_repeat {front back : List Block} {b : Block} (h : b ∈ front ++ back) :
    (ofBlocks (front ++ b :: back)).shared = (ofBlocks (front ++ back)).shared := by
  have hperm : (tensorsOf (front ++ b :: back)).Perm (tensorsOf ([b] ++ (front ++ back))) :=
    List.perm_middle.flatMap_right _
  have hincluded : identitiesOf [b] ⊆ identitiesOf (front ++ back) := by
    intro i hi
    rw [identitiesOf, List.mem_toFinset, List.mem_map] at hi ⊢
    obtain ⟨t, ht, rfl⟩ := hi
    refine ⟨t, List.mem_flatMap.2 ⟨b, h, ?_⟩, rfl⟩
    simpa [tensorsOf] using ht
  have happend := shared_append [b] (front ++ back)
  rw [Finset.inter_eq_left.2 hincluded] at happend
  have hone : (ofBlocks [b]).shared = ∑ i ∈ identitiesOf [b], i.bytes := shared_ofBlocks [b]
  rw [ofBlocks_congr hperm]
  omega

/-- The laws of an estimate. Without sharing a model takes the bytes of all its tensors, with it
those of their different identities, which are no more: what is saved is the difference. Neither the
order of the blocks nor that of the parameters in a block matters, a block given once more shares
all its bytes, and of two models together the bytes without sharing add up, while of those with
sharing the identities that both have are counted once. -/
theorem savings_laws (blocks : List Block) :
    (ofBlocks blocks).naive = ((tensorsOf blocks).map fun t => t.bytes.size).sum ∧
      (ofBlocks blocks).shared = ∑ i ∈ identitiesOf blocks, i.bytes ∧
      (ofBlocks blocks).shared ≤ (ofBlocks blocks).naive ∧
      (ofBlocks blocks).saved + (ofBlocks blocks).shared = (ofBlocks blocks).naive ∧
      (∀ other, Shuffled blocks other → ofBlocks other = ofBlocks blocks) ∧
      (∀ front back b, blocks = front ++ back → b ∈ blocks →
        (ofBlocks (front ++ b :: back)).shared = (ofBlocks blocks).shared) ∧
      ∀ more, (ofBlocks (blocks ++ more)).naive = (ofBlocks blocks).naive + (ofBlocks more).naive ∧
        (ofBlocks (blocks ++ more)).shared =
          (ofBlocks blocks).shared + (ofBlocks more).shared -
            ∑ i ∈ identitiesOf blocks ∩ identitiesOf more, i.bytes ∧
        ∑ i ∈ identitiesOf blocks ∩ identitiesOf more, i.bytes ≤
          (ofBlocks blocks).shared + (ofBlocks more).shared := by
  have hle := shared_le_naive blocks
  refine ⟨naive_ofBlocks blocks, shared_ofBlocks blocks, hle, Nat.sub_add_cancel hle,
    fun other h => (ofBlocks_congr h.tensorsOf).symm, ?_, fun more => ?_⟩
  · rintro front back b rfl hb
    exact shared_repeat hb
  · have happend := shared_append blocks more
    exact ⟨naive_append blocks more, by omega, by omega⟩

end Savings

end TieredWeights
