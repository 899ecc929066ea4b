import Mathlib.Tactic.Ring
import TieredWeights.Proofs.Binary64.Rounding

/-!
# Rounding keeps order

A larger quotient is never rounded to a smaller rank: quotients of one scale are rounded alike, and
between two scales lies a power of two, which neither side is rounded across. So products and
quotients of numbers that are not negative keep the order of the exact ones. A whole number of no
more bits than a significand has is not rounded at all, and neither is such a number scaled by a
power of two.
-/
namespace TieredWeights

theorem div_le_div_of_mul_le {n d n' d' : Nat} (hd : 0 < d) (hd' : 0 < d') (h : n * d' ≤ n' * d) :
    n / d ≤ n' / d' := by
  rw [Nat.le_div_iff_mul_le hd']
  have hle : n / d * d' * d ≤ n' * d := by
    calc n / d * d' * d = n / d * d * d' := Nat.mul_right_comm _ _ _
      _ ≤ n * d' := Nat.mul_le_mul_right _ (Nat.div_mul_le_self n d)
      _ ≤ n' * d := h
  exact Nat.le_of_mul_le_mul_right hle hd

/-- Rounding to the nearest whole number keeps the order of quotients. -/
theorem nearestEven_mono {n d n' d' : Nat} (hd : 0 < d) (hd' : 0 < d') (h : n * d' ≤ n' * d) :
    nearestEven n d ≤ nearestEven n' d' := by
  rcases (div_le_div_of_mul_le hd hd' h).lt_or_eq with hlt | heq
  · have hupper := nearestEven_le n d
    have hlower := le_nearestEven n' d'
    omega
  · -- The whole parts agree, so the order is that of the remainders.
    have hrest : n % d * d' ≤ n' % d' * d := by
      have hn := Nat.div_add_mod n d
      have hn' := Nat.div_add_mod n' d'
      rw [← heq] at hn'
      generalize n / d = q at *
      nlinarith
    have hbelow : 2 * (n' % d') < d' → 2 * (n % d) < d := by
      intro hlt
      by_contra hge
      nlinarith
    have hhalf : 2 * (n' % d') = d' → 2 * (n % d) ≤ d := by
      intro he
      by_contra hgt
      nlinarith
    simp only [nearestEven, heq]
    split_ifs <;> omega

/-- No more bits are dropped from a smaller quotient. -/
theorem droppedBits_mono {n d n' d' : Nat} (h : n / d ≤ n' / d') :
    droppedBits n d ≤ droppedBits n' d' := by
  have hlog : (n / d).log2 ≤ (n' / d').log2 := by
    by_cases hzero : n / d = 0
    · simp [hzero]
    · have hne : n' / d' ≠ 0 := Nat.ne_of_gt (Nat.lt_of_lt_of_le (Nat.pos_of_ne_zero hzero) h)
      apply (Nat.le_log2 hne).2
      exact (Nat.log2_self_le hzero).trans h
  unfold droppedBits
  omega

/-- The rank nearest to a larger quotient is no smaller. -/
theorem roundedRank_mono {n d n' d' : Nat} (hd : 0 < d) (hd' : 0 < d') (h : n * d' ≤ n' * d) :
    roundedRank fractionBits n d ≤ roundedRank fractionBits n' d' := by
  have hscale := droppedBits_mono (div_le_div_of_mul_le hd hd' h)
  change droppedBits n d * _ + nearestEven n (d * twoTo (droppedBits n d)) ≤
    droppedBits n' d' * _ + nearestEven n' (d' * twoTo (droppedBits n' d'))
  rcases hscale.lt_or_eq with hlt | heq
  · have hupper := nearestEven_le n (d * twoTo (droppedBits n d))
    have hbelow := div_lt_of_droppedBits n d
    have hlower := le_nearestEven n' (d' * twoTo (droppedBits n' d'))
    have habove := le_div_of_droppedBits (n := n') (d := d') (by omega)
    generalize twoTo fractionBits = step at *
    nlinarith
  · rw [heq]
    apply Nat.add_le_add_left
    have hpos : 0 < twoTo (droppedBits n' d') := twoTo_pos _
    apply nearestEven_mono (Nat.mul_pos hd hpos) (Nat.mul_pos hd' hpos)
    calc n * (d' * twoTo (droppedBits n' d')) = n * d' * twoTo (droppedBits n' d') := by ring
      _ ≤ n' * d * twoTo (droppedBits n' d') := Nat.mul_le_mul_right _ h
      _ = n' * (d * twoTo (droppedBits n' d')) := by ring

/-- A magnitude that is scaled has its leading one. -/
theorem le_rankSignificand {r : Nat} (h : 0 < rankScale r) :
    twoTo fractionBits ≤ rankSignificand r := by
  have hmod := Nat.div_add_mod r (twoTo fractionBits)
  have hscale : r / twoTo fractionBits = rankScale r + 1 := by
    unfold rankScale at *
    omega
  rw [hscale, Nat.mul_succ, Nat.mul_comm] at hmod
  unfold rankSignificand
  omega

theorem rankUnits_mono {r r' : Nat} (h : r ≤ r') : rankUnits r ≤ rankUnits r' := by
  have hscale : rankScale r ≤ rankScale r' :=
    Nat.sub_le_sub_right (Nat.div_le_div_right h) 1
  rcases hscale.lt_or_eq with hlt | heq
  · have hpow : 2 * twoTo (rankScale r) ≤ twoTo (rankScale r') := by
      calc 2 * twoTo (rankScale r) = twoTo (rankScale r + 1) := Nat.pow_succ'.symm
        _ ≤ twoTo (rankScale r') := Nat.pow_le_pow_right (by omega) hlt
    calc rankUnits r ≤ 2 * twoTo fractionBits * twoTo (rankScale r) :=
          Nat.mul_le_mul_right _ (rankSignificand_le r)
      _ = twoTo fractionBits * (2 * twoTo (rankScale r)) := by ring
      _ ≤ rankSignificand r' * twoTo (rankScale r') :=
          Nat.mul_le_mul (le_rankSignificand (by omega)) hpow
  · unfold rankUnits rankSignificand
    rw [heq]
    exact Nat.mul_le_mul_right _ (Nat.sub_le_sub_right h _)

/-- A whole number of no more bits than a significand has, scaled, is not rounded. -/
theorem rankUnits_roundedRank_exact {m k d : Nat} (hd : 0 < d) (hm : m ≤ 2 * twoTo fractionBits) :
    rankUnits (roundedRank fractionBits (m * twoTo k * d) d) = m * twoTo k := by
  have hdiv : m * twoTo k * d / d = m * twoTo k := Nat.mul_div_cancel _ hd
  have hdvd : twoTo (droppedBits (m * twoTo k * d) d) ∣ m * twoTo k := by
    rcases Nat.eq_zero_or_pos m with rfl | hpos
    · simp
    rcases hm.lt_or_eq with hlt | rfl
    · -- All bits that are dropped come from the scale.
      apply Dvd.dvd.mul_left
      apply Nat.pow_dvd_pow
      have hne : m * twoTo k ≠ 0 := Nat.mul_ne_zero hpos.ne' (twoTo_pos k).ne'
      have hlog : (m * twoTo k).log2 < fractionBits + 1 + k := by
        apply (Nat.log2_lt hne).2
        calc m * twoTo k < 2 * twoTo fractionBits * twoTo k :=
              Nat.mul_lt_mul_of_pos_right hlt (twoTo_pos k)
          _ = 2 ^ (fractionBits + 1 + k) := by
              rw [Nat.pow_add, Nat.pow_succ']
              rfl
      rw [droppedBits, hdiv]
      omega
    · have hpow : 2 * twoTo fractionBits * twoTo k = 2 ^ (fractionBits + 1 + k) := by
        rw [Nat.pow_add, Nat.pow_succ']
        rfl
      rw [droppedBits, hdiv, hpow, Nat.log2_two_pow]
      apply Nat.pow_dvd_pow
      omega
  obtain ⟨q, hq⟩ := hdvd
  have hpos : 0 < d * twoTo (droppedBits (m * twoTo k * d) d) := Nat.mul_pos hd (twoTo_pos _)
  have hnearest : nearestEven (m * twoTo k * d) (d * twoTo (droppedBits (m * twoTo k * d) d)) = q := by
    have hn : m * twoTo k * d = d * twoTo (droppedBits (m * twoTo k * d) d) * q := by
      conv_lhs => rw [hq]
      ring
    have hquot : m * twoTo k * d / (d * twoTo (droppedBits (m * twoTo k * d) d)) = q :=
      Nat.div_eq_of_eq_mul_right hpos hn
    have hrest : m * twoTo k * d % (d * twoTo (droppedBits (m * twoTo k * d) d)) = 0 :=
      Nat.mod_eq_zero_of_dvd ⟨q, hn⟩
    simp only [nearestEven, hquot, hrest]
    exact if_pos (.inl (by omega))
  rw [rankUnits_roundedRank, hnearest, Nat.mul_comm, ← hq]

namespace Binary64

/-- Numbers that are not negative, in ascending order. -/
def Below (x y : Binary64) : Prop := ∃ r r', x = .signed false r ∧ y = .signed false r' ∧ r ≤ r'

theorem Below.le {x y : Binary64} (h : Below x y) : x ≤ y := by
  obtain ⟨r, r', rfl, rfl, hr⟩ := h
  have hle : r.val ≤ r'.val := hr
  change Binary64.le _ _ = true
  simp [Binary64.le, key?, hle]

theorem le_trans_of_le {x y z : Binary64} (h : x ≤ y) (h' : y ≤ z) : x ≤ z := by
  change le _ _ = true at *
  unfold le at *
  cases hx : x.key? <;> cases hy : y.key? <;> cases hz : z.key? <;> simp_all
  omega

theorem below_ofUnits {n d n' d' : Nat} (hd : 0 < d) (hd' : 0 < d') (h : n * d' ≤ n' * d) :
    Below (ofUnits false n d) (ofUnits false n' d') := by
  refine ⟨_, _, rfl, rfl, ?_⟩
  exact min_le_min_left _ (roundedRank_mono hd hd' h)

theorem below_infinity (r : Fin (infinityRank + 1)) : Below (.signed false r) (infinity false) :=
  ⟨r, _, rfl, rfl, Nat.le_of_lt_succ r.isLt⟩

variable {x y : Binary64} {t : Fin (infinityRank + 1)}

theorem div_positive (r : Fin (infinityRank + 1)) (hpos : 0 < t.val) (hfinite : t.val < infinityRank) :
    (.signed false r / .signed false t : Binary64) = if r.val = infinityRank then infinity false
      else ofUnits false (rankUnits r * unitsPerOne) (rankUnits t) := by
  change Binary64.div _ _ = _
  simp only [div, hfinite.ne, hpos.ne', if_false, bne_self_eq_false]

theorem mul_positive (r : Fin (infinityRank + 1)) (hpos : 0 < t.val) (hfinite : t.val < infinityRank) :
    (.signed false r * .signed false t : Binary64) = if r.val = infinityRank then infinity false
      else ofUnits false (rankUnits r * rankUnits t) unitsPerOne := by
  change Binary64.mul _ _ = _
  by_cases hinfinite : r.val = infinityRank
  · have hzero : infinityRank ≠ 0 := by omega
    simp only [mul, hinfinite, hzero, hpos.ne', true_or, or_self, if_true, if_false,
      bne_self_eq_false]
  · simp only [mul, hinfinite, hfinite.ne, or_self, if_false, bne_self_eq_false]

/-- What is infinite is the last in order. -/
theorem below_ite {r r' : Fin (infinityRank + 1)} {n n' d : Nat} (hd : 0 < d) (hr : r ≤ r')
    (h : n ≤ n') : Below (if r.val = infinityRank then infinity false else ofUnits false n d)
      (if r'.val = infinityRank then infinity false else ofUnits false n' d) := by
  have hle : r.val ≤ r'.val := hr
  split_ifs with hinfinite hinfinite'
  · exact below_infinity _
  · have hlast := Nat.le_of_lt_succ r'.isLt
    omega
  · exact below_infinity _
  · exact below_ofUnits hd hd (Nat.mul_le_mul_right _ h)

theorem Below.div (h : Below x y) (hpos : 0 < t.val) (hfinite : t.val < infinityRank) :
    Below (x / .signed false t) (y / .signed false t) := by
  obtain ⟨r, r', rfl, rfl, hr⟩ := h
  rw [div_positive r hpos hfinite, div_positive r' hpos hfinite]
  apply below_ite (rankUnits_pos hpos) hr
  exact Nat.mul_le_mul_right _ (rankUnits_mono hr)

theorem Below.mul (h : Below x y) (hpos : 0 < t.val) (hfinite : t.val < infinityRank) :
    Below (x * .signed false t) (y * .signed false t) := by
  obtain ⟨r, r', rfl, rfl, hr⟩ := h
  rw [mul_positive r hpos hfinite, mul_positive r' hpos hfinite]
  apply below_ite unitsPerOne_pos hr
  exact Nat.mul_le_mul_right _ (rankUnits_mono hr)

theorem twoTo_succ (n : Nat) : twoTo (n + 1) = 2 * twoTo n := Nat.pow_succ'

theorem exists_half {n : Nat} (h : 0 < n) : ∃ k, twoTo n = 2 * twoTo k := by
  obtain ⟨k, rfl⟩ := Nat.exists_eq_succ_of_ne_zero h.ne'
  exact ⟨k, twoTo_succ k⟩

/-- One is an even number of units, and they are a power of two. -/
theorem exists_unitsPerOne : ∃ k, unitsPerOne = 2 * twoTo k := by
  unfold unitsPerOne
  exact exists_half (by decide)

/-- What is at most some four times what a significand counts is far from overflow. -/
theorem roundedRank_lt {n d : Nat} (hd : 0 < d) (h : n ≤ 4 * twoTo fractionBits * unitsPerOne * d) :
    roundedRank fractionBits n d < infinityRank := by
  have hlast : roundedRank fractionBits (4 * twoTo fractionBits * unitsPerOne) 1 < infinityRank := by
    decide +kernel
  refine (roundedRank_mono hd Nat.one_pos ?_).trans_lt hlast
  exact (Nat.mul_one n).le.trans h

/-- A quotient that comes to few bits, scaled, is held as it is. -/
theorem ofUnits_exact {m k d : Nat} (hd : 0 < d) (hm : m ≤ 2 * twoTo fractionBits)
    (hk : twoTo k ≤ unitsPerOne) : ∃ r : Fin (infinityRank + 1),
      ofUnits false (m * twoTo k * d) d = .signed false r ∧ r.val < infinityRank ∧
        rankUnits r = m * twoTo k := by
  have hlt : roundedRank fractionBits (m * twoTo k * d) d < infinityRank := by
    apply roundedRank_lt hd
    exact Nat.mul_le_mul_right _ (Nat.mul_le_mul (by omega) hk)
  have hmin : min infinityRank (roundedRank fractionBits (m * twoTo k * d) d) =
      roundedRank fractionBits (m * twoTo k * d) d := by omega
  refine ⟨_, rfl, ?_, ?_⟩
  · dsimp only
    rwa [hmin]
  · dsimp only
    rw [hmin]
    exact rankUnits_roundedRank_exact hd hm

/-- A whole number of no more bits than a significand has is held as it is. -/
theorem ofNat_exact {n : Nat} (hn : n ≤ 2 * twoTo fractionBits) : ∃ r : Fin (infinityRank + 1),
    ofNat n = .signed false r ∧ r.val < infinityRank ∧ rankUnits r = n * unitsPerOne := by
  obtain ⟨k, hk⟩ := exists_unitsPerOne
  have hone : twoTo (k + 1) = unitsPerOne := (twoTo_succ k).trans hk.symm
  have hexact := ofUnits_exact (k := k + 1) Nat.one_pos hn hone.le
  rwa [hone, Nat.mul_one] at hexact

/-- Such a number is positive in the format if it is positive. -/
theorem ofNat_positive {n : Nat} (hpos : 0 < n) (hn : n ≤ 2 * twoTo fractionBits) :
    ∃ r : Fin (infinityRank + 1), ofNat n = .signed false r ∧ r.val < infinityRank ∧ 0 < r.val := by
  obtain ⟨r, hr, hfinite, hunits⟩ := ofNat_exact hn
  refine ⟨r, hr, hfinite, Nat.pos_of_ne_zero fun hzero => ?_⟩
  rw [hzero, rankUnits_zero] at hunits
  exact (Nat.mul_pos hpos unitsPerOne_pos).ne hunits

/-- Half of such a number is held as it is, too. -/
theorem ofNat_half_exact {n k : Nat} (hn : n ≤ 2 * twoTo fractionBits)
    (hk : unitsPerOne = 2 * twoTo k) : ∃ r : Fin (infinityRank + 1),
      ofNat n / ofNat 2 = .signed false r ∧ r.val < infinityRank ∧ rankUnits r = n * twoTo k := by
  have htwo : 2 ≤ 2 * twoTo fractionBits := Nat.le_mul_of_pos_right 2 (twoTo_pos _)
  obtain ⟨r, hr, hfinite, hunits⟩ := ofNat_exact hn
  obtain ⟨t, ht, hfinite', hunits'⟩ := ofNat_exact htwo
  have hpos : 0 < 2 * unitsPerOne := Nat.mul_pos Nat.two_pos unitsPerOne_pos
  have htpos : 0 < t.val := by
    apply Nat.pos_of_ne_zero
    intro hzero
    rw [hzero, rankUnits_zero] at hunits'
    omega
  rw [hr, ht, div_positive r htpos hfinite', if_neg hfinite.ne, hunits, hunits']
  have hquotient : n * unitsPerOne * unitsPerOne = n * twoTo k * (2 * unitsPerOne) := by
    calc n * unitsPerOne * unitsPerOne = n * (2 * twoTo k) * unitsPerOne := by rw [← hk]
      _ = n * twoTo k * (2 * unitsPerOne) := by ring
  rw [hquotient]
  exact ofUnits_exact hpos hn (by omega)

end Binary64

end TieredWeights
