import TieredWeights.Proofs.Accepted
import TieredWeights.Proofs.Binary64.Rounding

/-!
# Tiers with a positive share

Percentages are rounded: the shares are added, a hundred is divided by their sum and each share is
multiplied by the quotient. If the sum is finite, the largest share is a tenth of it at least, and so
its percentage is positive even among numbers that are hardly larger than zero. Then there is a
bracket, and the host is no resort. If the sum is not finite, a hundred divided by it is zero: no tier
has a bracket and the host receives everything, whatever its share.
-/
namespace TieredWeights

namespace Binary64

/-- The units of a number without its sign. -/
def magnitude : Binary64 → Nat
  | .nan _ => 0
  | .signed _ r => rankUnits r

/-- A number that is not below zero is negative only as a zero. -/
theorem units_of_nonneg {negative : Bool} {r : Fin (infinityRank + 1)}
    (h : ¬ (.signed negative r : Binary64) < 0) : units negative r = rankUnits r := by
  cases negative with
  | false => rfl
  | true =>
    have hzero : r.val = 0 := by
      by_contra hr
      exact h (neg_iff.2 ⟨r, rfl, Nat.pos_of_ne_zero hr⟩)
    rw [units, hzero, rankUnits_zero]
    rfl

theorem isFinite_signed {negative : Bool} {r : Fin (infinityRank + 1)} :
    (.signed negative r : Binary64).isFinite = true ↔ r.val < infinityRank :=
  decide_eq_true_iff

theorem not_neg_signed_false (r : Fin (infinityRank + 1)) : ¬ (.signed false r : Binary64) < 0 := by
  rw [neg_iff]
  rintro ⟨_, h, -⟩
  cases h

theorem isShare_signedZero (negative : Bool) : IsShare (signedZero negative) := by
  refine ⟨isFinite_signed.2 infinityRank_pos, fun h => ?_⟩
  obtain ⟨r, hr, hpos⟩ := neg_iff.1 h
  cases hr
  exact Nat.lt_irrefl 0 hpos

/-- A magnitude that stays finite has its own rank. -/
theorem magnitude_ofUnits {negative : Bool} {n d : Nat} (h : (ofUnits negative n d).isFinite = true) :
    (ofUnits negative n d).magnitude = rankUnits (roundedRank fractionBits n d) := by
  have hlt := isFinite_signed.1 h
  have hmin : min infinityRank (roundedRank fractionBits n d) = roundedRank fractionBits n d := by
    dsimp only at hlt
    omega
  exact congrArg rankUnits hmin

/-- A sum is finite only if its first summand is. -/
theorem isFinite_left_of_add {x y : Binary64} (h : (x + y).isFinite = true) : x.isFinite = true := by
  change (x.add y).isFinite = true at h
  rcases x with negative | ⟨negative, r⟩
  · cases y <;> cases h
  · rw [isFinite_signed]
    by_contra hr
    have hinfinite : r.val = infinityRank := by
      have hle := r.isLt
      omega
    rcases y with negative' | ⟨negative', r'⟩
    · cases h
    · rw [add, if_pos hinfinite] at h
      split_ifs at h
      · cases h
      · exact hr (isFinite_signed.1 h)

/-- A sum of shares is a share unless it overflows, and it is at most twice the exact sum. -/
theorem IsShare.add {x y : Binary64} (hx : IsShare x) (hy : IsShare y)
    (h : (x + y).isFinite = true) :
    IsShare (x + y) ∧ magnitude (x + y) ≤ 2 * (magnitude x + magnitude y) := by
  rcases x with negative | ⟨negative, r⟩
  · cases hx.finite
  rcases y with negative' | ⟨negative', r'⟩
  · cases hy.finite
  have hr : r.val ≠ infinityRank := (isFinite_signed.1 hx.finite).ne
  have hr' : r'.val ≠ infinityRank := (isFinite_signed.1 hy.finite).ne
  have hadd : (.signed negative r + .signed negative' r' : Binary64) =
      if rankUnits r + rankUnits r' = 0 then signedZero (negative && negative')
      else ofUnits false (rankUnits r + rankUnits r') 1 := by
    change Binary64.add _ _ = _
    rw [Binary64.add, if_neg hr, if_neg hr', units_of_nonneg hx.nonneg, units_of_nonneg hy.nonneg]
    dsimp only
    have hsign : decide ((rankUnits r : Int) + rankUnits r' < 0) = false :=
      decide_eq_false (by omega)
    have habs : ((rankUnits r : Int) + rankUnits r').natAbs = rankUnits r + rankUnits r' := by omega
    rw [hsign, habs]
    refine if_congr ?_ rfl rfl
    omega
  rw [hadd] at h ⊢
  split_ifs at h ⊢
  · refine ⟨isShare_signedZero _, ?_⟩
    rw [signedZero, magnitude, rankUnits_zero]
    exact Nat.zero_le _
  · refine ⟨⟨h, not_neg_signed_false _⟩, ?_⟩
    rw [magnitude_ofUnits h]
    exact rankUnits_le_two_mul _

/-- In units: a share of a tenth of the sum has at least one unit of a percent. -/
theorem unitsPerOne_le_mul {hundred sum share scale : Nat} (hhundred : 50 * unitsPerOne ≤ hundred)
    (hsum : 0 < sum) (hshare : sum ≤ 10 * share) (hfinite : share ≤ unitsPerOne * unitsPerOne)
    (hscale : hundred * unitsPerOne / sum ≤ 2 * scale) : unitsPerOne ≤ share * scale := by
  have hsquare : unitsPerOne ≤ unitsPerOne * unitsPerOne :=
    Nat.le_mul_of_pos_left _ unitsPerOne_pos
  have hlt : hundred * unitsPerOne < sum * (hundred * unitsPerOne / sum + 1) :=
    Nat.lt_mul_div_succ _ hsum
  have hle : sum * (hundred * unitsPerOne / sum + 1) ≤ 10 * share * (2 * scale + 1) :=
    Nat.mul_le_mul hshare (by omega)
  have hlarge : 50 * unitsPerOne * unitsPerOne ≤ hundred * unitsPerOne :=
    Nat.mul_le_mul_right _ hhundred
  generalize unitsPerOne = one at *
  nlinarith

theorem pos_ofUnits {n d : Nat} (h : 0 < n / d) : 0 < ofUnits false n d :=
  pos_iff.2 ⟨_, rfl, Nat.lt_min.2 ⟨infinityRank_pos, roundedRank_pos h⟩⟩

/-- A product with a rounded number is positive if it is one unit at least, also where the number
overflows. -/
theorem pos_mul_ofUnits {r : Fin (infinityRank + 1)} (hpos : 0 < r.val) (hfinite : r.val < infinityRank)
    {n d : Nat} (h : unitsPerOne ≤ rankUnits r * rankUnits (roundedRank fractionBits n d)) :
    0 < .signed false r * ofUnits false n d := by
  change 0 < Binary64.mul _ _
  by_cases hlt : roundedRank fractionBits n d < infinityRank
  · have hmin : min infinityRank (roundedRank fractionBits n d) = roundedRank fractionBits n d := by
      omega
    have hmul : (Binary64.signed false r).mul (ofUnits false n d) =
        ofUnits false (rankUnits r * rankUnits (roundedRank fractionBits n d)) unitsPerOne := by
      simp only [mul, ofUnits, hmin, hfinite.ne, hlt.ne, or_self, if_false, bne_self_eq_false]
    rw [hmul]
    exact pos_ofUnits (Nat.div_pos h unitsPerOne_pos)
  · have hmin : min infinityRank (roundedRank fractionBits n d) = infinityRank := by omega
    have hmul : (Binary64.signed false r).mul (ofUnits false n d) = infinity false := by
      simp only [mul, ofUnits, hmin, hpos.ne', infinityRank_pos.ne', or_true, or_self, if_true,
        if_false, bne_self_eq_false]
    rw [hmul]
    exact pos_iff.2 ⟨_, rfl, infinityRank_pos⟩

/-- A hundred divided by a positive number. -/
theorem hundred_div {r : Fin (infinityRank + 1)} (hpos : 0 < r.val) (hfinite : r.val < infinityRank) :
    ∃ hundred, 50 * unitsPerOne ≤ hundred ∧
      (100 / .signed false r : Binary64) = ofUnits false (hundred * unitsPerOne) (rankUnits r) := by
  have hlt : roundedRank fractionBits (100 * unitsPerOne) 1 < infinityRank := by decide +kernel
  have hle := le_two_mul_rankUnits (100 * unitsPerOne) 1
  rw [Nat.div_one] at hle
  have hmin : min infinityRank (roundedRank fractionBits (100 * unitsPerOne) 1) =
      roundedRank fractionBits (100 * unitsPerOne) 1 := by omega
  refine ⟨rankUnits (roundedRank fractionBits (100 * unitsPerOne) 1), by omega, ?_⟩
  change (ofNat 100).div _ = _
  simp only [ofNat, div, ofUnits, hmin, hlt.ne, hfinite.ne, hpos.ne', if_false, bne_self_eq_false]

/-- The percentage of a share that is a tenth of the sum is positive. -/
theorem pos_percentage {share sum : Binary64} (hshare : IsShare share) (hfinite : sum.isFinite = true)
    (hpos : 0 < sum) (hle : magnitude sum ≤ 10 * magnitude share) :
    0 < share * (100 / sum) := by
  obtain ⟨t, rfl, ht⟩ := pos_iff.1 hpos
  rcases share with negative | ⟨negative, r⟩
  · cases hshare.finite
  have htFinite := isFinite_signed.1 hfinite
  have hrFinite := isFinite_signed.1 hshare.finite
  have hsum := rankUnits_pos ht
  have hr : 0 < r.val := by
    apply Nat.pos_of_ne_zero
    intro hzero
    rw [magnitude, magnitude, hzero, rankUnits_zero] at hle
    omega
  have hsign : negative = false := by
    cases negative with
    | false => rfl
    | true => exact absurd (neg_iff.2 ⟨r, rfl, hr⟩) hshare.nonneg
  obtain ⟨hundred, hhundred, hscale⟩ := hundred_div ht htFinite
  rw [hsign, hscale]
  apply pos_mul_ofUnits hr hrFinite
  exact unitsPerOne_le_mul hhundred hsum hle (rankUnits_le hrFinite) (le_two_mul_rankUnits _ _)

theorem mul_swap (x y : Binary64) : x * y = y * x := by
  change x.mul y = y.mul x
  rcases x with _ | ⟨s, r⟩ <;> rcases y with _ | ⟨s', r'⟩
  · rfl
  · rfl
  · rfl
  · have hsign : (s != s') = (s' != s) := bne_comm
    simp only [mul, or_comm, Nat.mul_comm, hsign]

/-- A hundred divided by what is not finite is zero or no number, and so is every product with it. -/
theorem not_pos_of_overflow (share : Binary64) {sum : Binary64} (hsum : ¬ sum.isFinite = true) :
    ¬ 0 < share * (100 / sum) := by
  have hscale : 100 / sum = noResult ∨ ∃ negative, 100 / sum = signedZero negative := by
    rcases sum with negative | ⟨negative, r⟩
    · exact .inl rfl
    · have hr : r.val = infinityRank := by
        rw [isFinite_signed] at hsum
        omega
      change Binary64.div (ofNat 100) _ = _ ∨ ∃ _, Binary64.div (ofNat 100) _ = _
      simp only [ofNat, ofUnits, div, hr, if_true]
      split_ifs
      · exact .inl rfl
      · exact .inr ⟨_, rfl⟩
  rcases hscale with hscale | ⟨negative, hscale⟩ <;> rw [hscale]
  · rw [pos_iff]
    rintro ⟨r, hr, -⟩
    cases share <;> cases hr
  · rw [mul_swap]
    exact not_pos_zero_mul negative share

theorem nonneg_add {x y : Binary64} (hx : ∃ r, x = .signed false r) (hy : ∃ r, y = .signed false r) :
    ∃ r, x + y = .signed false r := by
  obtain ⟨r, rfl⟩ := hx
  obtain ⟨r', rfl⟩ := hy
  change ∃ _, Binary64.add _ _ = _
  have hsign : decide ((rankUnits r : Int) + rankUnits r' < 0) = false := decide_eq_false (by omega)
  simp only [add, units, Bool.false_eq_true, if_false, hsign]
  split_ifs with _ hopposite
  · exact absurd rfl hopposite.2
  all_goals exact ⟨_, rfl⟩

theorem zero_le_signed (r : Fin (infinityRank + 1)) : 0 ≤ (.signed false r : Binary64) := by
  change Binary64.le 0 _ = true
  rw [zero_eq]
  simp [le, key?, signedZero]

theorem IsShare.pos {x : Binary64} (hx : IsShare x) (h : ¬ x ≤ 0) : 0 < x := by
  rcases x with negative | ⟨negative, r⟩
  · cases hx.finite
  · by_contra hpos
    apply h
    change Binary64.le _ 0 = true
    rw [zero_eq]
    cases negative with
    | true => simp [le, key?, signedZero]
    | false =>
      have hr : r.val = 0 := by
        by_contra hr
        exact hpos (pos_iff.2 ⟨r, rfl, Nat.pos_of_ne_zero hr⟩)
      simp [le, key?, signedZero, hr]

end Binary64

namespace Split

variable {split : Split Binary64}

/-- The sum of the shares is positive, and one of them is a tenth of it, unless it overflows. -/
theorem exists_tenth (h : split.check = .ok ()) (hfinite : split.total.isFinite = true) :
    0 < split.total ∧ ∃ tier share, (tier, share) ∈ split.shares ∧
      split.total.magnitude ≤ 10 * share.magnitude := by
  have hdisk : split.disk.IsShare := isShare_of_check h (.head _)
  have hhost : split.host.IsShare := isShare_of_check h (.tail _ (.head _))
  have haccel : split.accel.IsShare := isShare_of_check h (.tail _ (.tail _ (.head _)))
  obtain ⟨hfirst, hle⟩ := hdisk.add hhost (Binary64.isFinite_left_of_add hfinite)
  obtain ⟨htotal, hle'⟩ := hfirst.add haccel hfinite
  constructor
  · apply htotal.pos
    unfold check at h
    split_ifs at h with _ hzero
    exact hzero
  · change split.total.magnitude ≤ _ at hle'
    by_cases hd : split.total.magnitude ≤ 10 * split.disk.magnitude
    · exact ⟨_, _, .head _, hd⟩
    by_cases hh : split.total.magnitude ≤ 10 * split.host.magnitude
    · exact ⟨_, _, .tail _ (.head _), hh⟩
    · exact ⟨_, _, .tail _ (.tail _ (.head _)), by omega⟩

/-- Unless the sum of the shares overflows, some percentage is positive. -/
theorem exists_pos_percentage (h : split.check = .ok ()) :
    (∃ x ∈ split.percentages, 0 < x.2) ↔ split.total.isFinite = true := by
  constructor
  · rintro ⟨x, hx, hpos⟩
    obtain ⟨⟨tier, share⟩, -, rfl⟩ := List.mem_map.1 hx
    by_contra hinfinite
    exact Binary64.not_pos_of_overflow share hinfinite hpos
  · intro hfinite
    obtain ⟨hpos, tier, share, hshare, hle⟩ := exists_tenth h hfinite
    refine ⟨_, List.mem_map_of_mem hshare, ?_⟩
    exact Binary64.pos_percentage (isShare_of_check h hshare) hfinite hpos hle

end Split

namespace Brackets

variable {split : Split Binary64} {b : Brackets Binary64}

/-- There are brackets unless the sum of the shares overflows. -/
theorem bounds_ne_nil (hb : ofSplit split = .ok b) :
    b.bounds ≠ [] ↔ split.total.isFinite = true := by
  obtain ⟨hcheck, hbounds⟩ := ofSplit_eq_ok.1 hb
  rw [← Split.exists_pos_percentage hcheck, Ne, ← List.head?_eq_none_iff, hbounds, head?_stack,
    Option.map_eq_none_iff, List.find?_eq_none]
  push Not
  exact exists_congr fun x => and_congr_right fun _ => decide_eq_true_iff

/-- Zero lies in the first bracket. -/
theorem tierOf_zero (hb : ofSplit split = .ok b) (hfinite : split.total.isFinite = true) :
    ∃ percentage, split.percentages.find? (fun x => decide (0 < x.2)) =
      some (b.tierOf 0, percentage) := by
  obtain ⟨hcheck, hbounds⟩ := ofSplit_eq_ok.1 hb
  have hhead := head?_stack (ShareArithmetic.ofNat 0) split.percentages
  rw [← hbounds] at hhead
  cases hfind : split.percentages.find? fun x => decide (ShareArithmetic.ofNat 0 < x.2) with
  | none =>
    rw [hfind, Option.map_none, List.head?_eq_none_iff] at hhead
    exact absurd hhead ((bounds_ne_nil hb).2 hfinite)
  | some x =>
    obtain ⟨tier, percentage⟩ := x
    rw [hfind, Option.map_some] at hhead
    have hfound := List.find?_some hfind
    have hpos : 0 < percentage := of_decide_eq_true hfound
    have hreached : (0 : Binary64) ≤ 0 + percentage + ShareArithmetic.tolerance := by
      have hzero : ∃ r, (0 : Binary64) = .signed false r := ⟨_, Binary64.zero_eq⟩
      have hpercentage : ∃ r, percentage = .signed false r := (Binary64.pos_iff.1 hpos).imp fun _ h => h.1
      have htolerance : ∃ r, (ShareArithmetic.tolerance : Binary64) = .signed false r := ⟨_, rfl⟩
      obtain ⟨r, hr⟩ := Binary64.nonneg_add (Binary64.nonneg_add hzero hpercentage) htolerance
      rw [hr]
      exact Binary64.zero_le_signed r
    rw [tierOf_of_head? hhead hreached]
    exact ⟨percentage, rfl⟩

end Brackets

/-- A split that is accepted has brackets for the tiers with a positive percentage. If the sum of the
shares is finite there is one, and every parameter goes to a tier with a positive share: to the host
only if its share is, and, if there are no bytes, to the first tier whose percentage is positive. If
the sum overflows there is no bracket, and every parameter goes to the host. -/
theorem assign_follows_positive_shares {split : Split Binary64} (h : split.validate = .ok ()) :
    ∃ b, Brackets.ofSplit split = .ok b ∧
      (split.total.isFinite = true → b.bounds ≠ [] ∧ ∀ parameters,
        ∀ planned ∈ (b.assign parameters).parameters,
          (∃ share, (planned.tier, share) ∈ split.shares ∧ 0 < share) ∧
          (¬ 0 < split.host → planned.tier ≠ .host) ∧
          (sumOf (parameters.map (·.2)) = 0 → ∃ percentage,
            split.percentages.find? (fun x => decide (0 < x.2)) =
              some (planned.tier, percentage))) ∧
      (split.total.isFinite = false → b.bounds = [] ∧ ∀ parameters,
        ∀ planned ∈ (b.assign parameters).parameters, planned.tier = .host) := by
  obtain ⟨b, hb⟩ := Split.ofSplit_of_validate h
  refine ⟨b, hb, fun hfinite => ?_, fun hinfinite => ?_⟩
  · have hne := (Brackets.bounds_ne_nil hb).2 hfinite
    refine ⟨hne, fun parameters planned hplanned => ?_⟩
    obtain ⟨reached, size, htier⟩ := Brackets.tier_of_mem_assignFrom hplanned
    have hshare : ∃ share, (planned.tier, share) ∈ split.shares ∧ 0 < share := by
      rw [htier]
      rcases b.tierOf_mem (Brackets.midpoint _ reached size) with ⟨hnil, -⟩ | ⟨bound, hbound⟩
      · exact absurd hnil hne
      · exact Brackets.exists_share hb hbound
    refine ⟨hshare, fun hhost htier' => ?_, fun hsum => ?_⟩
    · obtain ⟨share, hmem, hpos⟩ := hshare
      rw [htier'] at hmem
      simp only [Split.shares, List.mem_cons, Prod.mk.injEq, reduceCtorEq, false_and, true_and,
        false_or, List.not_mem_nil, or_false] at hmem
      rw [hmem] at hpos
      exact hhost hpos
    · rw [htier, hsum]
      exact Brackets.tierOf_zero hb hfinite
  · have hnil : b.bounds = [] := by
      by_contra hne
      rw [(Brackets.bounds_ne_nil hb).1 hne] at hinfinite
      cases hinfinite
    refine ⟨hnil, fun parameters planned hplanned => ?_⟩
    obtain ⟨reached, size, htier⟩ := Brackets.tier_of_mem_assignFrom hplanned
    rw [htier, Brackets.tierOf, hnil]
    rfl

/-- One and three of the smallest positive number. -/
def tinyShares : Split Binary64 := ⟨.ofBits 1, 0, .ofBits 3, 0⟩

theorem assign_follows_tiny_shares : tinyShares.validate = .ok () ∧
    ∃ b, Brackets.ofSplit tinyShares = .ok b ∧ b.bounds ≠ [] ∧
      ∀ planned ∈ (b.assign [("scale", 0), ("shift", 0)]).parameters, planned.tier = .disk := by
  have hvalid : tinyShares.validate = .ok () := by decide +kernel
  have hfinite : tinyShares.total.isFinite = true := by decide +kernel
  obtain ⟨b, hb, hfollows, -⟩ := assign_follows_positive_shares hvalid
  refine ⟨hvalid, b, hb, (hfollows hfinite).1, fun planned hplanned => ?_⟩
  obtain ⟨percentage, hfind⟩ := ((hfollows hfinite).2 _ planned hplanned).2.2 rfl
  have hdisk : (tinyShares.percentages.find? fun x => decide (0 < x.2)).map Prod.fst = some .disk := by
    decide +kernel
  rw [hfind] at hdisk
  exact Option.some.inj hdisk

/-- Two shares whose sum overflows, and none for the host. -/
def hugeShares : Split Binary64 := ⟨.ofNat (tenTo 308), 0, .ofNat (tenTo 308), 0⟩

/-- They are accepted, have no bracket, and give the host what no share gives it. -/
theorem hugeShares_favour_the_host : hugeShares.validate = .ok () ∧ ¬ 0 < hugeShares.host ∧
    (Brackets.ofSplit hugeShares).map (fun b =>
      (b.bounds, (b.assign [("scale", 1), ("shift", 1)]).parameters.map (·.tier))) =
        .ok ([], [.host, .host]) := by
  decide +kernel

end TieredWeights
