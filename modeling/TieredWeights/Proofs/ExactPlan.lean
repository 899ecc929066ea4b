import Mathlib.Algebra.Order.Field.Rat
import Mathlib.Algebra.Order.BigOperators.Group.List
import Mathlib.Tactic.Linarith
import Mathlib.Tactic.Ring
import TieredWeights.Proofs.Brackets
import TieredWeights.Proofs.PlannedBytes

/-!
# Plans in exact arithmetic

Without rounding the brackets are stacked up to a hundred, and the bound of a bracket is the sum of the
percentages so far. The midpoints of a block ascend, so the tiers up to a bracket receive the parameters
at the front of the block whose midpoints it reaches: all bytes up to its bound, but for one parameter
that lies across it with half of its bytes at most on the wrong side.
-/
namespace TieredWeights

/-- Exact arithmetic: what a split and a plan mean before rounding. -/
instance : ShareArithmetic Rat where
  ofNat n := n
  isFinite _ := true
  tolerance := 1 / 10 ^ 9

/-- The sum of the percentages of some tiers. -/
def sumOfShares (shares : List (Tier × Rat)) : Rat := (shares.map (·.2)).sum

theorem sumOfShares_cons (tier : Tier) (share : Rat) (rest : List (Tier × Rat)) :
    sumOfShares ((tier, share) :: rest) = share + sumOfShares rest := by
  simp [sumOfShares]

theorem sumOfShares_append (before after : List (Tier × Rat)) :
    sumOfShares (before ++ after) = sumOfShares before + sumOfShares after := by
  rw [sumOfShares, List.map_append, List.sum_append]
  rfl

theorem sumOfShares_nonneg {shares : List (Tier × Rat)} (h : ∀ x ∈ shares, 0 ≤ x.2) :
    0 ≤ sumOfShares shares := by
  apply List.sum_nonneg
  intro share hshare
  obtain ⟨x, hx, rfl⟩ := List.mem_map.1 hshare
  exact h x hx

namespace Brackets

theorem ofNat_rat (n : Nat) : (ShareArithmetic.ofNat n : Rat) = n := rfl

theorem eq_zero_of_not_pos {share : Rat} (h : 0 ≤ share) (hpos : ¬ ShareArithmetic.ofNat 0 < share) :
    share = 0 := by
  rw [ofNat_rat, Nat.cast_zero] at hpos
  exact le_antisymm (not_lt.1 hpos) h

theorem stack_append {before : List (Tier × Rat)} (hnonneg : ∀ x ∈ before, 0 ≤ x.2) (upper : Rat)
    (after : List (Tier × Rat)) :
    stack upper (before ++ after) =
      stack upper before ++ stack (upper + sumOfShares before) after := by
  induction before generalizing upper with
  | nil => simp [stack, sumOfShares]
  | cons x rest ih =>
    obtain ⟨tier, share⟩ := x
    obtain ⟨hshare, hrest⟩ := List.forall_mem_cons.1 hnonneg
    rw [List.cons_append, sumOfShares_cons, ← add_assoc]
    by_cases hpos : ShareArithmetic.ofNat 0 < share
    · rw [stack_of_pos hpos, stack_of_pos hpos, ih hrest]
      rfl
    · have hzero : share = 0 := eq_zero_of_not_pos hshare hpos
      rw [stack_of_not_pos hpos, stack_of_not_pos hpos, ih hrest, hzero, add_zero]

/-- The highest bracket ends where the shares end; there is none only if they are all zero. -/
theorem stack_top {shares : List (Tier × Rat)} (hnonneg : ∀ x ∈ shares, 0 ≤ x.2) (upper : Rat) :
    (stack upper shares = [] ∧ sumOfShares shares = 0) ∨
      ∃ tier, (tier, upper + sumOfShares shares) ∈ stack upper shares := by
  induction shares generalizing upper with
  | nil => exact .inl ⟨rfl, rfl⟩
  | cons x rest ih =>
    obtain ⟨tier, share⟩ := x
    obtain ⟨hshare, hrest⟩ := List.forall_mem_cons.1 hnonneg
    by_cases hpos : ShareArithmetic.ofNat 0 < share
    · right
      rw [stack_of_pos hpos, sumOfShares_cons, ← add_assoc]
      rcases ih hrest (upper + share) with ⟨-, hzero⟩ | ⟨tier', htop⟩
      · exact ⟨tier, by simp [hzero]⟩
      · exact ⟨tier', List.mem_cons_of_mem _ htop⟩
    · have hzero : share = 0 := eq_zero_of_not_pos hshare hpos
      rw [stack_of_not_pos hpos, sumOfShares_cons, hzero, zero_add]
      exact ih hrest upper

/-- No bracket ends above the shares. -/
theorem le_of_mem_stack {shares : List (Tier × Rat)} (hnonneg : ∀ x ∈ shares, 0 ≤ x.2) {upper : Rat}
    {x : Tier × Rat} (h : x ∈ stack upper shares) : x.2 ≤ upper + sumOfShares shares := by
  induction shares generalizing upper with
  | nil => cases h
  | cons y rest ih =>
    obtain ⟨tier, share⟩ := y
    obtain ⟨hshare, hrest⟩ := List.forall_mem_cons.1 hnonneg
    have hsum : 0 ≤ sumOfShares rest := sumOfShares_nonneg hrest
    rw [sumOfShares_cons]
    by_cases hpos : ShareArithmetic.ofNat 0 < share
    · rw [stack_of_pos hpos] at h
      rcases List.mem_cons.1 h with rfl | h
      · linarith
      · have hle := ih hrest h
        linarith
    · rw [stack_of_not_pos hpos] at h
      have hle := ih hrest h
      linarith

/-- A midpoint belongs to the tiers of the first brackets if the highest of these reaches it. -/
theorem tierOf_mem_iff {b : Brackets Rat} {first rest : List (Tier × Rat)}
    (hbounds : b.bounds = first ++ rest) (hrest : rest ≠ []) {upper : Rat}
    (htop : ∃ tier, (tier, upper) ∈ first) (hle : ∀ x ∈ first, x.2 ≤ upper) {tiers : List Tier}
    (hmem : ∀ x ∈ first, x.1 ∈ tiers) (hout : ∀ x ∈ rest, x.1 ∉ tiers) (midpoint : Rat) :
    b.tierOf midpoint ∈ tiers ↔ midpoint ≤ upper + ShareArithmetic.tolerance := by
  rw [tierOf, hbounds, List.find?_append]
  cases hfind : first.find? fun x => decide (midpoint ≤ x.2 + ShareArithmetic.tolerance) with
  | some x =>
    have hfound := List.find?_some hfind
    have hreached : midpoint ≤ x.2 + ShareArithmetic.tolerance := of_decide_eq_true hfound
    have hx := List.mem_of_find?_eq_some hfind
    exact iff_of_true (hmem x hx) (hreached.trans (by simpa using hle x hx))
  | none =>
    have hbeyond : ¬ midpoint ≤ upper + ShareArithmetic.tolerance := by
      obtain ⟨tier, htop⟩ := htop
      simpa using List.find?_eq_none.1 hfind _ htop
    refine iff_of_false ?_ hbeyond
    rw [Option.none_or]
    cases hfind' : rest.find? fun x => decide (midpoint ≤ x.2 + ShareArithmetic.tolerance) with
    | some x => exact hout x (List.mem_of_find?_eq_some hfind')
    | none =>
      obtain ⟨x, hx⟩ : ∃ x, rest.getLast? = some x :=
        Option.isSome_iff_exists.1 (List.getLast?_isSome.2 hrest)
      rw [List.getLast?_append, hx]
      exact hout x (List.mem_of_getLast? hx)

/-- A midpoint in bytes. -/
theorem midpoint_le_iff {total : Nat} (htotal : 0 < total) (reached size : Nat) (percent : Rat) :
    midpoint total (reached + size) size ≤ percent ↔
      (reached : Rat) + size / 2 ≤ percent * total / 100 := by
  have hmidpoint : (midpoint total (reached + size) size : Rat) =
      (reached + size / 2) * 100 / total := by
    rw [midpoint, if_neg htotal.ne']
    simp only [ofNat_rat]
    push_cast
    ring
  have hpos : (0 : Rat) < total := Nat.cast_pos.2 htotal
  rw [hmidpoint, div_le_iff₀ hpos, le_div_iff₀ (by norm_num)]

section

variable {b : Brackets Rat} {tiers : List Tier} {percent : Rat} {total : Nat}

/-- No parameter behind a limit goes to the tiers below it. -/
theorem bytesAmong_beyond (htotal : 0 < total)
    (hmem : ∀ midpoint, b.tierOf midpoint ∈ tiers ↔ midpoint ≤ percent) {reached : Nat}
    (hreached : percent * total / 100 < reached) (parameters : List (String × Nat)) :
    Plan.bytesAmong tiers (b.assignFrom total reached parameters) = 0 := by
  induction parameters generalizing reached with
  | nil => rfl
  | cons x rest ih =>
    obtain ⟨name, size⟩ := x
    have hsize : (0 : Rat) ≤ size := size.cast_nonneg
    have hout : b.tierOf (midpoint total (reached + size) size) ∉ tiers := by
      rw [hmem, midpoint_le_iff htotal]
      linarith
    have hrest : percent * total / 100 < (reached + size : Nat) := by
      push_cast
      linarith
    rw [assignFrom, Plan.bytesAmong_cons, if_neg hout, ih hrest]

/-- The bytes below a limit end within half of a parameter of it, or there are none above. -/
theorem bytesAmong_bounds (htotal : 0 < total)
    (hmem : ∀ midpoint, b.tierOf midpoint ∈ tiers ↔ midpoint ≤ percent) {largest reached : Nat}
    {parameters : List (String × Nat)} (hlargest : ∀ x ∈ parameters, x.2 ≤ largest)
    (hreached : (reached : Rat) ≤ percent * total / 100 + largest / 2) :
    (reached : Rat) + Plan.bytesAmong tiers (b.assignFrom total reached parameters) ≤
        percent * total / 100 + largest / 2 ∧
      (percent * total / 100 - largest / 2 ≤
          reached + Plan.bytesAmong tiers (b.assignFrom total reached parameters) ∨
        Plan.bytesAmong tiers (b.assignFrom total reached parameters) =
          sumOf (parameters.map (·.2))) := by
  induction parameters generalizing reached with
  | nil =>
    refine ⟨?_, .inr rfl⟩
    simpa [assignFrom] using hreached
  | cons x rest ih =>
    obtain ⟨name, size⟩ := x
    obtain ⟨hsize, hrest⟩ := List.forall_mem_cons.1 hlargest
    have hhalf : (size : Rat) ≤ largest := Nat.cast_le.2 hsize
    rw [assignFrom, Plan.bytesAmong_cons]
    by_cases hin : b.tierOf (midpoint total (reached + size) size) ∈ tiers
    · have hmid := (midpoint_le_iff htotal reached size percent).1 ((hmem _).1 hin)
      have hnext : ((reached + size : Nat) : Rat) ≤ percent * total / 100 + largest / 2 := by
        push_cast
        linarith
      obtain ⟨hupper, hlower⟩ := ih hrest hnext
      rw [if_pos hin]
      push_cast at hupper hlower ⊢
      refine ⟨by linarith, hlower.imp (fun h => by linarith) fun h => ?_⟩
      rw [h]
      rfl
    · have hmid := mt (midpoint_le_iff htotal reached size percent).2 (mt (hmem _).2 hin)
      have hbeyond : percent * total / 100 < ((reached + size : Nat) : Rat) := by
        push_cast
        linarith [(size.cast_nonneg : (0 : Rat) ≤ size)]
      rw [if_neg hin, bytesAmong_beyond htotal hmem hbeyond rest, Nat.add_zero, Nat.cast_zero, add_zero]
      exact ⟨hreached, .inl (by linarith)⟩

end

end Brackets

namespace Split

variable {split : Split Rat}

theorem nonneg_of_check (h : split.check = .ok ()) :
    (∀ x ∈ split.shares, 0 ≤ x.2) ∧ 0 < split.total := by
  unfold check at h
  split_ifs at h with hany hzero
  refine ⟨fun x hx => ?_, not_le.1 hzero⟩
  have hshare := List.any_eq_false.1 (Bool.eq_false_iff.2 hany) x hx
  rw [Bool.or_eq_true, not_or, decide_eq_true_iff] at hshare
  exact not_lt.1 hshare.2

theorem sumOfShares_scale (shares : List (Tier × Rat)) (scale : Rat) :
    sumOfShares (shares.map fun x => (x.1, x.2 * scale)) = sumOfShares shares * scale := by
  induction shares with
  | nil => exact (zero_mul scale).symm
  | cons x rest ih =>
    obtain ⟨tier, share⟩ := x
    rw [List.map_cons, sumOfShares_cons, sumOfShares_cons, ih, add_mul]

/-- Percentages are not negative and sum to a hundred. -/
theorem percentages_spec (h : split.check = .ok ()) :
    (∀ x ∈ split.percentages, 0 ≤ x.2) ∧ sumOfShares split.percentages = 100 := by
  obtain ⟨hnonneg, hpos⟩ := nonneg_of_check h
  have hpercentages : split.percentages =
      split.shares.map fun x => (x.1, x.2 * (100 / split.total)) := rfl
  rw [hpercentages]
  constructor
  · intro x hx
    obtain ⟨y, hy, rfl⟩ := List.mem_map.1 hx
    exact mul_nonneg (hnonneg y hy) (div_nonneg (by norm_num) hpos.le)
  · have htotal : sumOfShares split.shares = split.total := by
      simp only [shares, sumOfShares, List.map_cons, List.map_nil, List.sum_cons, List.sum_nil, total]
      ring
    rw [sumOfShares_scale, htotal, mul_div_cancel₀ _ hpos.ne']

theorem nodup_percentages (split : Split Rat) : (split.percentages.map (·.1)).Nodup := by
  simp [percentages, shares]

end Split

namespace Brackets

variable {split : Split Rat} {b : Brackets Rat}

/-- A midpoint belongs to the tiers up to one of them if their percentages together reach it; if these
are nothing or a hundred, all midpoints belong to the others or to them. -/
theorem tierOf_mem_iff_of_ofSplit (h : ofSplit split = .ok b) {before after : List (Tier × Rat)}
    (hsplit : split.percentages = before ++ after) :
    (sumOfShares before = 0 ∧ ∀ midpoint, b.tierOf midpoint ∉ before.map (·.1)) ∨
      (sumOfShares before = 100 ∧ ∀ midpoint, b.tierOf midpoint ∈ before.map (·.1)) ∨
      ∀ midpoint, b.tierOf midpoint ∈ before.map (·.1) ↔
        midpoint ≤ sumOfShares before + ShareArithmetic.tolerance := by
  obtain ⟨hcheck, hbounds⟩ := ofSplit_eq_ok.1 h
  obtain ⟨hnonneg, hhundred⟩ := Split.percentages_spec hcheck
  have hnodup := split.nodup_percentages
  rw [hsplit, List.map_append] at hnodup
  rw [hsplit] at hnonneg hbounds hhundred
  obtain ⟨hbefore, hafter⟩ := List.forall_mem_append.1 hnonneg
  rw [stack_append hbefore, ofNat_rat, Nat.cast_zero, zero_add] at hbounds
  rw [sumOfShares_append] at hhundred
  have hrest : ∀ x ∈ stack (sumOfShares before) after, x.1 ∉ before.map (·.1) := by
    intro x hx hmem
    exact List.disjoint_of_nodup_append hnodup hmem (tier_mem_of_mem_stack hx)
  have hne : b.bounds ≠ [] := by
    intro hnil
    rw [hbounds, List.append_eq_nil_iff] at hnil
    rcases stack_top hbefore 0 with ⟨-, hzero⟩ | ⟨tier, htop⟩
    · rcases stack_top hafter (sumOfShares before) with ⟨-, hzero'⟩ | ⟨tier, htop⟩
      · rw [hzero, hzero'] at hhundred
        norm_num at hhundred
      · exact List.ne_nil_of_mem htop hnil.2
    · exact List.ne_nil_of_mem htop hnil.1
  have hbracket : ∀ midpoint, ∃ bound, (b.tierOf midpoint, bound) ∈ b.bounds := by
    intro midpoint
    exact (b.tierOf_mem midpoint).resolve_left fun hnil => hne hnil.1
  rcases stack_top hbefore 0 with ⟨hnil, hzero⟩ | htop
  · refine .inl ⟨hzero, fun midpoint => ?_⟩
    obtain ⟨bound, hbound⟩ := hbracket midpoint
    rw [hbounds, hnil, List.nil_append] at hbound
    exact hrest _ hbound
  rcases stack_top hafter (sumOfShares before) with ⟨hnil, hzero⟩ | ⟨tier, htop'⟩
  · refine .inr (.inl ⟨by linarith, fun midpoint => ?_⟩)
    obtain ⟨bound, hbound⟩ := hbracket midpoint
    rw [hbounds, hnil, List.append_nil] at hbound
    exact tier_mem_of_mem_stack hbound
  · rw [zero_add] at htop
    refine .inr (.inr fun midpoint => ?_)
    refine tierOf_mem_iff hbounds (List.ne_nil_of_mem htop') htop (fun x hx => ?_)
      (fun x hx => tier_mem_of_mem_stack hx) hrest midpoint
    have hle := le_of_mem_stack hbefore hx
    rwa [zero_add] at hle

variable {parameters : List (String × Nat)}

theorem totalBytes_assign (b : Brackets Rat) (parameters : List (String × Nat)) :
    (b.assign parameters).totalBytes = sumOf (parameters.map (·.2)) := by
  have hsizes := congrArg (List.map Prod.snd)
    (b.assignFrom_sizes (sumOf (parameters.map (·.2))) 0 parameters)
  rw [List.map_map] at hsizes
  exact congrArg sumOf hsizes

/-- The tiers up to one of them receive their percentages, but for half of a parameter. -/
theorem abs_bytesOn_sub_le (h : ofSplit split = .ok b) {before after : List (Tier × Rat)}
    (hsplit : split.percentages = before ++ after) {largest : Nat}
    (hlargest : ∀ x ∈ parameters, x.2 ≤ largest) (htotal : 0 < sumOf (parameters.map (·.2))) :
    |((b.assign parameters).bytesOn (before.map (·.1)) : Rat) -
        sumOfShares before / 100 * sumOf (parameters.map (·.2))| ≤
      largest / 2 + 1 / 10 ^ 9 * sumOf (parameters.map (·.2)) / 100 := by
  have hlarge : (0 : Rat) ≤ largest := largest.cast_nonneg
  have hwhole : (0 : Rat) < sumOf (parameters.map (·.2)) := Nat.cast_pos.2 htotal
  have htiers : ∀ q ∈ (b.assign parameters).parameters, ∃ midpoint, q.tier = b.tierOf midpoint := by
    intro q hq
    obtain ⟨reached, size, htier⟩ := tier_of_mem_assignFrom hq
    exact ⟨_, htier⟩
  rw [abs_sub_le_iff]
  rcases tierOf_mem_iff_of_ofSplit h hsplit with ⟨hzero, hout⟩ | ⟨hhundred, hin⟩ | hmem
  · have hnone : (b.assign parameters).bytesOn (before.map (·.1)) = 0 := by
      apply Plan.bytesAmong_eq_zero
      intro q hq
      obtain ⟨midpoint, htier⟩ := htiers q hq
      rw [htier]
      exact hout midpoint
    rw [hnone, hzero, Nat.cast_zero]
    constructor <;> linarith
  · have hall : (b.assign parameters).bytesOn (before.map (·.1)) = sumOf (parameters.map (·.2)) := by
      rw [← b.totalBytes_assign]
      apply Plan.bytesAmong_eq_sum
      intro q hq
      obtain ⟨midpoint, htier⟩ := htiers q hq
      rw [htier]
      exact hin midpoint
    rw [hall, hhundred]
    constructor <;> linarith
  · obtain ⟨hnonneg, hhundred⟩ := Split.percentages_spec (ofSplit_eq_ok.1 h).1
    rw [hsplit] at hnonneg hhundred
    rw [sumOfShares_append] at hhundred
    obtain ⟨hbefore, hafter⟩ := List.forall_mem_append.1 hnonneg
    have hlower := mul_nonneg (sumOfShares_nonneg hbefore) hwhole.le
    have hupper := mul_nonneg (sumOfShares_nonneg hafter) hwhole.le
    have hsum : sumOfShares before * sumOf (parameters.map (·.2)) +
        sumOfShares after * sumOf (parameters.map (·.2)) = 100 * sumOf (parameters.map (·.2)) := by
      rw [← add_mul, hhundred]
    have hlimit : (sumOfShares before + ShareArithmetic.tolerance) * sumOf (parameters.map (·.2)) / 100 =
        sumOfShares before / 100 * sumOf (parameters.map (·.2)) +
          1 / 10 ^ 9 * sumOf (parameters.map (·.2)) / 100 := by
      have htolerance : (ShareArithmetic.tolerance : Rat) = 1 / 10 ^ 9 := rfl
      rw [htolerance]
      ring
    have hstart : ((0 : Nat) : Rat) ≤
        (sumOfShares before + ShareArithmetic.tolerance) * sumOf (parameters.map (·.2)) / 100 +
          largest / 2 := by
      rw [hlimit, Nat.cast_zero]
      linarith
    obtain ⟨hle, hge⟩ := bytesAmong_bounds htotal hmem hlargest hstart
    rw [hlimit, Nat.cast_zero, zero_add] at hle hge
    simp only [Plan.bytesOn, assign]
    refine ⟨by linarith, ?_⟩
    rcases hge with hge | hall
    · linarith
    · rw [hall]
      linarith

/-- A tier receives its percentage, but for half of a parameter on either side. -/
theorem abs_bytesPerTier_sub_le (h : ofSplit split = .ok b) {x : Tier × Rat}
    (hx : x ∈ split.percentages) {largest : Nat} (hlargest : ∀ x ∈ parameters, x.2 ≤ largest)
    (htotal : 0 < sumOf (parameters.map (·.2))) :
    |(((b.assign parameters).bytesPerTier.find? x.1).getD 0 : Rat) -
        x.2 / 100 * sumOf (parameters.map (·.2))| ≤
      largest + 2 * (1 / 10 ^ 9) * sumOf (parameters.map (·.2)) / 100 := by
  obtain ⟨before, after, hsplit⟩ := List.append_of_mem hx
  have hsplit' : split.percentages = (before ++ [x]) ++ after := by
    rw [hsplit, List.append_assoc, List.singleton_append]
  have hout : x.1 ∉ before.map (·.1) := by
    have hnodup := split.nodup_percentages
    rw [hsplit, List.map_append, List.map_cons] at hnodup
    exact fun hmem => List.disjoint_of_nodup_append hnodup hmem List.mem_cons_self
  have hbytes : (b.assign parameters).bytesOn ((before ++ [x]).map (·.1)) =
      (b.assign parameters).bytesOn (before.map (·.1)) + (b.assign parameters).bytesOn [x.1] := by
    rw [List.map_append]
    exact Plan.bytesAmong_append hout _
  have hsum : sumOfShares (before ++ [x]) / 100 * sumOf (parameters.map (·.2)) =
      sumOfShares before / 100 * sumOf (parameters.map (·.2)) +
        x.2 / 100 * sumOf (parameters.map (·.2)) := by
    have hone : sumOfShares [x] = x.2 := by simp [sumOfShares]
    rw [sumOfShares_append, hone]
    ring
  have hbefore := abs_bytesOn_sub_le h hsplit hlargest htotal
  have hthrough := abs_bytesOn_sub_le h hsplit' hlargest htotal
  rw [hbytes, hsum, Nat.cast_add] at hthrough
  rw [abs_sub_le_iff] at hbefore hthrough
  rw [Plan.find?_bytesPerTier, abs_sub_le_iff]
  constructor <;> linarith

end Brackets

/-- Without rounding, a plan follows its split. The tiers up to one of them together receive the bytes
of their percentages, up to half of the largest parameter and the tolerance, so each tier alone its
own up to twice as much; the bytes of all tiers are those of the block, every parameter of which is
planned once, in order and with its own size. -/
theorem plan_follows_split {split : Split Rat} (h : split.check = .ok ()) :
    ∃ b, Brackets.ofSplit split = .ok b ∧ ∀ (parameters : List (String × Nat)) (largest : Nat),
      0 < sumOf (parameters.map (·.2)) → (∀ x ∈ parameters, x.2 ≤ largest) →
        (∀ before after, split.percentages = before ++ after →
          |((b.assign parameters).bytesOn (before.map (·.1)) : Rat) -
              sumOfShares before / 100 * sumOf (parameters.map (·.2))| ≤
            largest / 2 + 1 / 10 ^ 9 * sumOf (parameters.map (·.2)) / 100) ∧
        (∀ x ∈ split.percentages,
          |(((b.assign parameters).bytesPerTier.find? x.1).getD 0 : Rat) -
              x.2 / 100 * sumOf (parameters.map (·.2))| ≤
            largest + 2 * (1 / 10 ^ 9) * sumOf (parameters.map (·.2)) / 100) ∧
        sumOf (b.assign parameters).bytesPerTier.values = sumOf (parameters.map (·.2)) ∧
        (b.assign parameters).parameters.map (fun q => (q.name, q.size)) = parameters := by
  have hok : Brackets.ofSplit split = .ok ⟨Brackets.stack (ShareArithmetic.ofNat 0) split.percentages⟩ :=
    Brackets.ofSplit_eq_ok.2 ⟨h, rfl⟩
  refine ⟨_, hok, fun parameters largest htotal hlargest => ⟨?_, ?_, ?_, ?_⟩⟩
  · intro before after hsplit
    exact Brackets.abs_bytesOn_sub_le hok hsplit hlargest htotal
  · intro x hx
    exact Brackets.abs_bytesPerTier_sub_le hok hx hlargest htotal
  · rw [Plan.sumOf_bytesPerTier, Brackets.totalBytes_assign]
  · exact Brackets.assignFrom_sizes _ _ _ _

/-- A third for the disk and the rest for an accelerator. -/
def thirdOnDisk : Split Rat := ⟨1, 0, 2, 0⟩

theorem plan_follows_thirdOnDisk : thirdOnDisk.check = .ok () ∧
    ∃ b, Brackets.ofSplit thirdOnDisk = .ok b ∧
      |(((b.assign [("wide", 4), ("flat", 3), ("bias", 2)]).bytesPerTier.find? .disk).getD 0 : Rat) -
          100 / 3 / 100 * 9| ≤ 4 + 2 * (1 / 10 ^ 9) * 9 / 100 := by
  have hcheck : thirdOnDisk.check = .ok () := by decide +kernel
  have hthird : (Tier.disk, (100 / 3 : Rat)) ∈ thirdOnDisk.percentages := by decide +kernel
  obtain ⟨b, hb, hfollows⟩ := plan_follows_split hcheck
  obtain ⟨-, htiers, -, -⟩ := hfollows [("wide", 4), ("flat", 3), ("bias", 2)] 4 (by decide) (by decide)
  have hbound := htiers _ hthird
  have hsum : sumOf ([("wide", 4), ("flat", 3), ("bias", 2)].map (·.2)) = 9 := by decide
  rw [hsum, Nat.cast_ofNat, Nat.cast_ofNat] at hbound
  exact ⟨hcheck, b, hb, hbound⟩

end TieredWeights
