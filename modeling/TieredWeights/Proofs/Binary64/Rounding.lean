import Mathlib.Algebra.Order.Ring.Nat
import Mathlib.Tactic.Linarith
import TieredWeights.Binary64

/-!
# Bounds of rounding

A rounded quotient has the magnitude of a whole number of steps of its scale, so it is at least half
of the exact quotient and a rounded whole number is at most twice the exact one. Rounding to nearest
is tighter than that; these bounds are what keeps a quotient of numbers of one size from vanishing.
-/
namespace TieredWeights

theorem le_nearestEven (n d : Nat) : n / d ≤ nearestEven n d := by
  simp only [nearestEven]
  split_ifs <;> omega

theorem nearestEven_le (n d : Nat) : nearestEven n d ≤ n / d + 1 := by
  simp only [nearestEven]
  split_ifs <;> omega

@[simp] theorem nearestEven_one (n : Nat) : nearestEven n 1 = n := by
  simp [nearestEven, Nat.mod_one]

theorem twoTo_pos (n : Nat) : 0 < twoTo n := Nat.two_pow_pos n

theorem rankUnits_zero : rankUnits 0 = 0 := by simp [rankUnits, rankSignificand]

theorem rankSignificand_le (r : Nat) : rankSignificand r ≤ 2 * twoTo fractionBits := by
  have hpos : 0 < twoTo fractionBits := twoTo_pos _
  have hmod := Nat.div_add_mod r (twoTo fractionBits)
  have hlt := Nat.mod_lt r hpos
  rw [rankSignificand, rankScale, Nat.sub_mul, Nat.mul_comm (r / _)]
  omega

theorem rankUnits_pos {r : Nat} (h : 0 < r) : 0 < rankUnits r := by
  apply Nat.mul_pos _ (twoTo_pos _)
  have hpos := twoTo_pos fractionBits
  have hmod := Nat.div_add_mod r (twoTo fractionBits)
  rw [rankSignificand, rankScale, Nat.sub_mul, Nat.mul_comm (r / _)]
  omega

/-- A rank given by a scale and a significand that has its leading one, or by no scale at all. -/
theorem rankUnits_of_scale {s k : Nat} (hk : k ≤ 2 * twoTo fractionBits)
    (hlead : s = 0 ∨ twoTo fractionBits ≤ k) :
    rankUnits (s * twoTo fractionBits + k) = k * twoTo s := by
  have hpos : 0 < twoTo fractionBits := twoTo_pos _
  have hdiv : (s * twoTo fractionBits + k) / twoTo fractionBits = s + k / twoTo fractionBits := by
    rw [Nat.add_comm, Nat.add_mul_div_right _ _ hpos, Nat.add_comm]
  rw [rankUnits, rankSignificand, rankScale, hdiv]
  generalize twoTo fractionBits = step at *
  rcases hk.lt_or_eq with hlt | rfl
  · have hle : k / step < 2 := Nat.div_lt_of_lt_mul (by omega)
    have hscale : s + k / step - 1 = s := by
      rcases hlead with rfl | hlead
      · omega
      · have hone : 1 ≤ k / step := (Nat.one_le_div_iff hpos).2 hlead
        omega
    rw [hscale, Nat.add_sub_cancel_left]
  · -- The significand has carried into the next scale.
    have htwo : 2 * step / step = 2 := Nat.mul_div_cancel _ hpos
    have hscale : s + 2 - 1 = s + 1 := by omega
    have hsignificand : s * step + 2 * step - (s + 1) * step = step := by
      rw [Nat.add_mul]
      omega
    have hpow : twoTo (s + 1) = 2 * twoTo s := Nat.pow_succ'
    rw [htwo, hscale, hsignificand, hpow]
    exact Nat.mul_left_comm _ _ _ |>.trans (Nat.mul_assoc _ _ _).symm

/-- How many bits of `n / d` rounding drops. -/
def droppedBits (n d : Nat) : Nat := (n / d).log2 - fractionBits

theorem div_lt_of_droppedBits (n d : Nat) :
    n / (d * twoTo (droppedBits n d)) < 2 * twoTo fractionBits := by
  rw [← Nat.div_div_eq_div_mul]
  apply Nat.div_lt_of_lt_mul
  have hlt : n / d < 2 ^ ((n / d).log2 + 1) := Nat.lt_log2_self
  have hle : 2 ^ ((n / d).log2 + 1) ≤ 2 ^ (droppedBits n d + (fractionBits + 1)) :=
    Nat.pow_le_pow_right (by omega) (by unfold droppedBits; omega)
  have hpow : 2 ^ (droppedBits n d + (fractionBits + 1)) =
      twoTo (droppedBits n d) * (2 * twoTo fractionBits) := by
    rw [Nat.pow_add, Nat.pow_succ']
    rfl
  omega

theorem le_div_of_droppedBits {n d : Nat} (h : droppedBits n d ≠ 0) :
    twoTo fractionBits ≤ n / (d * twoTo (droppedBits n d)) := by
  rw [← Nat.div_div_eq_div_mul]
  apply (Nat.le_div_iff_mul_le (twoTo_pos _)).2
  have hlog : fractionBits + droppedBits n d = (n / d).log2 := by
    unfold droppedBits at *
    omega
  have hpow : twoTo fractionBits * twoTo (droppedBits n d) = 2 ^ (n / d).log2 := by
    rw [← hlog]
    exact (Nat.pow_add 2 _ _).symm
  apply hpow.trans_le
  apply Nat.log2_self_le
  intro hzero
  apply h
  simp [droppedBits, hzero]

/-- The magnitude of a rounded quotient: a whole number of steps of its scale. -/
theorem rankUnits_roundedRank (n d : Nat) :
    rankUnits (roundedRank fractionBits n d) =
      nearestEven n (d * twoTo (droppedBits n d)) * twoTo (droppedBits n d) := by
  have hupper := nearestEven_le n (d * twoTo (droppedBits n d))
  have hlower := le_nearestEven n (d * twoTo (droppedBits n d))
  have hlt := div_lt_of_droppedBits n d
  apply rankUnits_of_scale
  · unfold droppedBits at *
    omega
  · by_cases hscale : droppedBits n d = 0
    · exact .inl hscale
    · have hle := le_div_of_droppedBits hscale
      exact .inr (hle.trans hlower)

/-- A rounded quotient is at least half of the exact one. -/
theorem le_two_mul_rankUnits (n d : Nat) :
    n / d ≤ 2 * rankUnits (roundedRank fractionBits n d) := by
  have hlower := le_nearestEven n (d * twoTo (droppedBits n d))
  rw [rankUnits_roundedRank]
  by_cases hscale : droppedBits n d = 0
  · rw [hscale] at hlower ⊢
    simp only [twoTo, Nat.pow_eq, pow_zero, Nat.mul_one] at hlower ⊢
    omega
  · have hle := le_div_of_droppedBits hscale
    have hstep : 0 < twoTo fractionBits := twoTo_pos _
    have hlt : n / d < twoTo (droppedBits n d) * (n / (d * twoTo (droppedBits n d)) + 1) := by
      rw [← Nat.div_div_eq_div_mul]
      exact Nat.lt_mul_div_succ _ (twoTo_pos _)
    nlinarith

/-- A rounded whole number is at most twice the exact one. -/
theorem rankUnits_le_two_mul (n : Nat) :
    rankUnits (roundedRank fractionBits n 1) ≤ 2 * n := by
  have hupper := nearestEven_le n (1 * twoTo (droppedBits n 1))
  rw [rankUnits_roundedRank]
  by_cases hscale : droppedBits n 1 = 0
  · rw [hscale]
    simp only [twoTo, Nat.pow_eq, pow_zero, Nat.mul_one, nearestEven_one]
    omega
  · have hle := le_div_of_droppedBits hscale
    have hstep : 0 < twoTo fractionBits := twoTo_pos _
    have hdiv : n / (1 * twoTo (droppedBits n 1)) * twoTo (droppedBits n 1) ≤ n := by
      rw [Nat.one_mul]
      exact Nat.div_mul_le_self _ _
    nlinarith

/-- A quotient that is one unit at least is not rounded to zero. -/
theorem roundedRank_pos {n d : Nat} (h : 0 < n / d) : 0 < roundedRank fractionBits n d := by
  have hle := le_two_mul_rankUnits n d
  apply Nat.pos_of_ne_zero
  intro hzero
  rw [hzero, rankUnits_zero] at hle
  omega

theorem rankUnits_le_twoTo (r : Nat) : rankUnits r ≤ twoTo (1 + fractionBits + rankScale r) := by
  have hpow : twoTo (1 + fractionBits + rankScale r) =
      2 * twoTo fractionBits * twoTo (rankScale r) := by
    simp only [twoTo, Nat.pow_eq, Nat.pow_add, Nat.pow_one]
  rw [hpow]
  exact Nat.mul_le_mul_right _ (rankSignificand_le r)

theorem twoTo_le_mul {m n : Nat} (h : m ≤ n + n) : twoTo m ≤ twoTo n * twoTo n := by
  apply (Nat.pow_le_pow_right (by omega) h).trans_eq
  exact Nat.pow_add 2 n n

theorem unitsPerOne_pos : 0 < unitsPerOne := by
  unfold unitsPerOne
  exact twoTo_pos 1074

/-- The square of the units of one exceeds every finite magnitude. -/
theorem rankUnits_le {r : Nat} (h : r < infinityRank) :
    rankUnits r ≤ unitsPerOne * unitsPerOne := by
  rw [infinityRank, Nat.mul_comm] at h
  have hdiv : r / twoTo fractionBits < 2047 := Nat.div_lt_of_lt_mul h
  have hscale : 1 + fractionBits + rankScale r ≤ 1074 + 1074 := by
    unfold rankScale fractionBits at *
    omega
  apply (rankUnits_le_twoTo r).trans
  unfold unitsPerOne
  exact twoTo_le_mul hscale

end TieredWeights
