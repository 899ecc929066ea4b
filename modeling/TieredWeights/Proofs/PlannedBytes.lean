import Mathlib.Data.List.Basic
import TieredWeights.Plan
import TieredWeights.Proofs.Bindings

/-!
# Planned bytes

A plan keeps its parameters, their order and their sizes, and only adds tiers. So its bytes are those
of the block, however the tiers share them: the bytes per tier are a tally of the plan, in which every
parameter is counted once.
-/
namespace TieredWeights

namespace Brackets

variable {α : Type} [ShareArithmetic α]

/-- A plan lists every parameter once, in order and with its own size. -/
theorem assignFrom_sizes (b : Brackets α) (total reached : Nat) (parameters : List (String × Nat)) :
    (b.assignFrom total reached parameters).map (fun q => (q.name, q.size)) = parameters := by
  induction parameters generalizing reached with
  | nil => rfl
  | cons x rest ih => rw [assignFrom, List.map_cons, ih]

end Brackets

namespace Plan

/-- The bytes of those parameters of a list that are on one of some tiers. -/
def bytesAmong (tiers : List Tier) (parameters : List PlannedParameter) : Nat :=
  sumOf ((parameters.filter fun q => decide (q.tier ∈ tiers)).map (·.size))

/-- Bytes planned for some tiers together. -/
def bytesOn (p : Plan) (tiers : List Tier) : Nat := bytesAmong tiers p.parameters

@[simp] theorem bytesAmong_nil (tiers : List Tier) : bytesAmong tiers [] = 0 := rfl

theorem bytesAmong_cons (tiers : List Tier) (q : PlannedParameter) (rest : List PlannedParameter) :
    bytesAmong tiers (q :: rest) =
      (if q.tier ∈ tiers then q.size else 0) + bytesAmong tiers rest := by
  by_cases h : q.tier ∈ tiers
  · simp [bytesAmong, h, sumOf]
  · simp [bytesAmong, h]

theorem bytesAmong_eq_zero {tiers : List Tier} {parameters : List PlannedParameter}
    (h : ∀ q ∈ parameters, q.tier ∉ tiers) : bytesAmong tiers parameters = 0 := by
  have hnone : parameters.filter (fun q => decide (q.tier ∈ tiers)) = [] := by
    simpa [List.filter_eq_nil_iff] using h
  rw [bytesAmong, hnone]
  rfl

theorem bytesAmong_eq_sum {tiers : List Tier} {parameters : List PlannedParameter}
    (h : ∀ q ∈ parameters, q.tier ∈ tiers) :
    bytesAmong tiers parameters = sumOf (parameters.map (·.size)) := by
  have hall : parameters.filter (fun q => decide (q.tier ∈ tiers)) = parameters := by
    simpa [List.filter_eq_self] using h
  rw [bytesAmong, hall]

/-- The bytes of different tiers add up. -/
theorem bytesAmong_append {tiers : List Tier} {tier : Tier} (h : tier ∉ tiers)
    (parameters : List PlannedParameter) : bytesAmong (tiers ++ [tier]) parameters =
      bytesAmong tiers parameters + bytesAmong [tier] parameters := by
  induction parameters with
  | nil => rfl
  | cons q rest ih =>
    simp only [bytesAmong_cons, ih, List.mem_append, List.mem_singleton]
    by_cases hq : q.tier = tier
    · simp only [hq, h, or_true, if_true, if_false]
      omega
    · simp only [hq, or_false, if_false]
      omega

/-- One more parameter in a tally of bytes. -/
def count (t : Table Tier Nat) (q : PlannedParameter) : Table Tier Nat :=
  t.insert q.tier ((t.find? q.tier).getD 0 + q.size)

theorem bytesPerTier_eq (p : Plan) : p.bytesPerTier = p.parameters.foldl count .empty := rfl

theorem find?_count (parameters : List PlannedParameter) (t : Table Tier Nat) (tier : Tier) :
    ((parameters.foldl count t).find? tier).getD 0 =
      (t.find? tier).getD 0 + bytesAmong [tier] parameters := by
  induction parameters generalizing t with
  | nil => rfl
  | cons q rest ih =>
    rw [List.foldl_cons, ih, count, Table.find?_insert]
    simp only [bytesAmong_cons, List.mem_singleton]
    by_cases hq : q.tier = tier
    · rw [if_pos hq.symm, if_pos hq, hq, Option.getD_some]
      omega
    · rw [if_neg (Ne.symm hq), if_neg hq, Nat.zero_add]

theorem sumOf_values_count (t : Table Tier Nat) (q : PlannedParameter) :
    sumOf (count t q).values = sumOf t.values + q.size := by
  cases hfind : t.find? q.tier with
  | none =>
    have hvalues := congrArg Multiset.sum (Table.values_insert_new hfind (0 + q.size))
    rw [Multiset.sum_cons, Multiset.sum_coe, Multiset.sum_coe, ← sumOf_eq_sum, ← sumOf_eq_sum]
      at hvalues
    rw [count, hfind, Option.getD_none, hvalues]
    omega
  | some n =>
    have hvalues := Table.sumOf_values_insert id hfind (n + q.size)
    rw [List.map_id, List.map_id, id, id] at hvalues
    rw [count, hfind, Option.getD_some]
    omega

/-- The entry of a tier is the bytes planned for it. -/
theorem find?_bytesPerTier (p : Plan) (tier : Tier) :
    (p.bytesPerTier.find? tier).getD 0 = p.bytesOn [tier] := by
  rw [bytesPerTier_eq, find?_count]
  exact Nat.zero_add _

/-- The entries of all tiers are the bytes of the plan. -/
theorem sumOf_bytesPerTier (p : Plan) : sumOf p.bytesPerTier.values = p.totalBytes := by
  have hcount : ∀ (parameters : List PlannedParameter) (t : Table Tier Nat),
      sumOf (parameters.foldl count t).values = sumOf t.values + sumOf (parameters.map (·.size)) := by
    intro parameters
    induction parameters with
    | nil => exact fun t => rfl
    | cons q rest ih =>
      intro t
      rw [List.foldl_cons, ih, sumOf_values_count, List.map_cons, sumOf]
      omega
  rw [bytesPerTier_eq, hcount]
  exact Nat.zero_add _

end Plan

end TieredWeights
