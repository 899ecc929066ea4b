import TieredWeights.Proofs.Accepted
import TieredWeights.Proofs.Binary64.Order

/-!
# Tiers in runs

Read in block order, the tiers of a plan never go back in canonical order. The middle of a parameter's
bytes lies before the middle of every later parameter's, and every step of the reckoning keeps that
order; what is subtracted is not rounded, as long as the bytes of the block are counted exactly. A
bracket that reaches the later midpoint reaches the earlier one as well, whatever the bounds are, so
the first bracket found for the earlier one stands no later in the list.
-/
namespace TieredWeights

namespace Binary64

/-- The difference of numbers that are not negative, the first being the larger. -/
theorem sub_of_le {r s : Fin (infinityRank + 1)} (hr : r.val < infinityRank) (hs : s.val < infinityRank)
    (h : rankUnits s ≤ rankUnits r) :
    (.signed false r - .signed false s : Binary64) = ofUnits false (rankUnits r - rankUnits s) 1 := by
  change (Binary64.signed false r).add (neg (.signed false s)) = _
  have hsign : decide ((rankUnits r : Int) + -(rankUnits s : Int) < 0) = false :=
    decide_eq_false (by omega)
  have habs : ((rankUnits r : Int) + -(rankUnits s : Int)).natAbs = rankUnits r - rankUnits s := by
    omega
  simp only [neg, Bool.not_false, add, hr.ne, hs.ne, if_false, units, Bool.false_eq_true, if_true,
    hsign, habs]
  split_ifs with hzero
  · have he : rankUnits r - rankUnits s = 0 := by omega
    rw [he, ofUnits_zero]
    rfl
  · rfl

/-- A whole number less half of another, each of no more bits than a significand has, is rounded
once. -/
theorem sub_half {reached size k : Nat} (hreached : reached ≤ 2 * twoTo fractionBits)
    (hsize : size ≤ reached) (hk : unitsPerOne = 2 * twoTo k) :
    ofNat reached - ofNat size / ofNat 2 = ofUnits false ((2 * reached - size) * twoTo k) 1 := by
  obtain ⟨r, hr, hfinite, hunits⟩ := ofNat_exact hreached
  obtain ⟨s, hs, hfinite', hunits'⟩ := ofNat_half_exact (hsize.trans hreached) hk
  have hr' : rankUnits r = 2 * reached * twoTo k := by
    rw [hunits, hk]
    ring
  have hle : rankUnits s ≤ rankUnits r := by
    rw [hunits', hr']
    exact Nat.mul_le_mul_right _ (by omega)
  rw [hr, hs, sub_of_le hfinite hfinite' hle, hunits', hr', ← Nat.sub_mul]

end Binary64

namespace Brackets

section

variable {α : Type} [ShareArithmetic α]

/-- Tiers with a bracket stand in the order of the shares. -/
theorem stack_sublist (upper : α) (shares : List (Tier × α)) :
    ((stack upper shares).map Prod.fst).Sublist (shares.map Prod.fst) := by
  induction shares generalizing upper with
  | nil => exact .slnil
  | cons x rest ih =>
    obtain ⟨tier, share⟩ := x
    by_cases hpos : ShareArithmetic.ofNat 0 < share
    · rw [stack_of_pos hpos]
      exact (ih _).cons_cons tier
    · rw [stack_of_not_pos hpos]
      exact (ih _).cons tier

/-- Tiers with a bracket stand in canonical order. -/
theorem pairwise_bounds {split : Split α} {b : Brackets α} (hb : ofSplit split = .ok b) :
    (b.bounds.map Prod.fst).Pairwise fun s t => compare s t = .lt := by
  obtain ⟨-, hbounds⟩ := ofSplit_eq_ok.1 hb
  have htiers : split.percentages.map Prod.fst =
      [.disk, .host, .accelerator split.accelerator] := rfl
  rw [hbounds]
  refine List.Pairwise.sublist (stack_sublist _ _) ?_
  rw [htiers]
  refine .cons ?_ (.cons ?_ (.cons ?_ .nil))
  · simp only [List.mem_cons, List.not_mem_nil, or_false]
    rintro t (rfl | rfl) <;> rfl
  · simp only [List.mem_cons, List.not_mem_nil, or_false]
    rintro t rfl
    rfl
  · simp

/-- The last bracket takes what no bracket reaches. -/
theorem tierOf_cons (x : Tier × α) (rest : List (Tier × α)) (m : α) :
    tierOf ⟨x :: rest⟩ m =
      if m ≤ x.2 + ShareArithmetic.tolerance ∨ rest = [] then x.1 else tierOf ⟨rest⟩ m := by
  by_cases hreached : m ≤ x.2 + ShareArithmetic.tolerance
  · simp [tierOf, hreached]
  · cases rest with
    | nil => simp [tierOf, hreached]
    | cons y rest =>
      simp only [tierOf, List.find?_cons, hreached, decide_false, List.getLast?_cons_cons]
      simp

/-- A midpoint that no bound reaches before the other belongs to no later tier. -/
theorem tierOf_mono {m m' : α} (h : ∀ bound, m' ≤ bound → m ≤ bound) {bounds : List (Tier × α)}
    (hsorted : (bounds.map Prod.fst).Pairwise fun s t => compare s t = .lt) :
    (compare (tierOf ⟨bounds⟩ m) (tierOf ⟨bounds⟩ m')).isLE := by
  induction bounds with
  | nil => rfl
  | cons x rest ih =>
    obtain ⟨hfirst, hrest⟩ := List.pairwise_cons.1 hsorted
    rw [tierOf_cons, tierOf_cons]
    by_cases hm' : m' ≤ x.2 + ShareArithmetic.tolerance ∨ rest = []
    · rw [if_pos hm', if_pos (hm'.imp_left (h _))]
      simp
    · rw [if_neg hm']
      have hne : rest ≠ [] := fun hnil => hm' (.inr hnil)
      by_cases hm : m ≤ x.2 + ShareArithmetic.tolerance
      · rw [if_pos (.inl hm)]
        rcases (⟨rest⟩ : Brackets α).tierOf_mem m' with ⟨hnil, -⟩ | ⟨bound, hbound⟩
        · exact absurd hnil hne
        · rw [hfirst _ (List.mem_map_of_mem hbound)]
          rfl
      · rw [if_neg (not_or.2 ⟨hm, hne⟩)]
        exact ih hrest

end

/-- Where a parameter of a block begins, in bytes. -/
def startOf (parameters : List (String × Nat)) (k : Nat) : Nat :=
  sumOf ((parameters.take k).map (·.2))

/-- Twice the middle of a parameter's bytes, which is a whole number. -/
def twiceMiddle (parameters : List (String × Nat)) (k : Nat) : Nat :=
  startOf parameters k + startOf parameters (k + 1)

/-- The midpoint that a plan reckons for a parameter. -/
def midpointOf (parameters : List (String × Nat)) (k : Nat) : Binary64 :=
  midpoint (sumOf (parameters.map (·.2))) (startOf parameters (k + 1))
    ((parameters[k]?.map (·.2)).getD 0)

theorem startOf_succ {parameters : List (String × Nat)} {k : Nat} {x : String × Nat}
    (hx : parameters[k]? = some x) : startOf parameters (k + 1) = startOf parameters k + x.2 := by
  rw [startOf, List.take_add_one, hx, List.map_append, sumOf_append]
  rfl

theorem startOf_mono (parameters : List (String × Nat)) {i j : Nat} (h : i ≤ j) :
    startOf parameters i ≤ startOf parameters j := by
  have hsplit : parameters.take j = parameters.take i ++ (parameters.drop i).take (j - i) := by
    rw [← List.take_add, Nat.add_sub_cancel' h]
  rw [startOf, startOf, hsplit, List.map_append, sumOf_append]
  exact Nat.le_add_right _ _

theorem startOf_le (parameters : List (String × Nat)) (k : Nat) :
    startOf parameters k ≤ sumOf (parameters.map (·.2)) := by
  have hall : startOf parameters (max k parameters.length) = sumOf (parameters.map (·.2)) := by
    rw [startOf, List.take_of_length_le (Nat.le_max_right _ _)]
  exact (startOf_mono parameters (Nat.le_max_left _ _)).trans_eq hall

/-- The midpoint of what begins and ends later is no smaller. -/
theorem midpoint_mono {total reached size reached' size' : Nat}
    (htotal : total ≤ 2 * twoTo fractionBits) (hsize : size ≤ reached) (hsize' : size' ≤ reached')
    (hreached : reached ≤ total) (hreached' : reached' ≤ total)
    (h : 2 * reached - size ≤ 2 * reached' - size') :
    Binary64.Below (midpoint total reached size) (midpoint total reached' size') := by
  unfold midpoint
  split_ifs with hzero
  · exact ⟨_, _, Binary64.zero_eq, Binary64.zero_eq, Nat.le_refl _⟩
  · obtain ⟨k, hk⟩ := Binary64.exists_unitsPerOne
    obtain ⟨t, ht, htfinite, htpos⟩ := Binary64.ofNat_positive (Nat.pos_of_ne_zero hzero) htotal
    obtain ⟨c, hc, hcfinite, hcpos⟩ := Binary64.ofNat_positive (n := 100) (by decide) (by decide)
    have hnumerators : Binary64.Below (.ofNat reached - .ofNat size / .ofNat 2)
        (.ofNat reached' - .ofNat size' / .ofNat 2) := by
      rw [Binary64.sub_half (hreached.trans htotal) hsize hk,
        Binary64.sub_half (hreached'.trans htotal) hsize' hk]
      apply Binary64.below_ofUnits Nat.one_pos Nat.one_pos
      exact Nat.mul_le_mul_right _ (Nat.mul_le_mul_right _ h)
    change Binary64.Below
      ((Binary64.ofNat reached - Binary64.ofNat size / Binary64.ofNat 2) / Binary64.ofNat total *
        Binary64.ofNat 100)
      ((Binary64.ofNat reached' - Binary64.ofNat size' / Binary64.ofNat 2) / Binary64.ofNat total *
        Binary64.ofNat 100)
    rw [ht, hc]
    exact (hnumerators.div htpos htfinite).mul hcpos hcfinite

section

variable {parameters : List (String × Nat)}

theorem twiceMiddle_mono (parameters : List (String × Nat)) {i j : Nat} (h : i ≤ j) :
    twiceMiddle parameters i ≤ twiceMiddle parameters j :=
  Nat.add_le_add (startOf_mono parameters h) (startOf_mono parameters (Nat.succ_le_succ h))

theorem midpointOf_eq {k : Nat} {x : String × Nat} (hx : parameters[k]? = some x) :
    midpointOf parameters k =
      midpoint (sumOf (parameters.map (·.2))) (startOf parameters (k + 1)) x.2 := by
  rw [midpointOf, hx]
  rfl

/-- Midpoints keep the order of the exact middles. -/
theorem midpointOf_mono (hbytes : sumOf (parameters.map (·.2)) ≤ twoTo 53) {i j : Nat}
    {x y : String × Nat} (hx : parameters[i]? = some x) (hy : parameters[j]? = some y)
    (h : twiceMiddle parameters i ≤ twiceMiddle parameters j) :
    Binary64.Below (midpointOf parameters i) (midpointOf parameters j) := by
  have htotal : sumOf (parameters.map (·.2)) ≤ 2 * twoTo fractionBits :=
    hbytes.trans_eq (Binary64.twoTo_succ fractionBits)
  have hi := startOf_succ hx
  have hj := startOf_succ hy
  rw [midpointOf_eq hx, midpointOf_eq hy]
  apply midpoint_mono htotal
  · omega
  · omega
  · exact startOf_le parameters (i + 1)
  · exact startOf_le parameters (j + 1)
  · unfold twiceMiddle at h
    omega

/-- A parameter is planned by its own midpoint. -/
theorem assignFrom_getElem? (b : Brackets Binary64) (total reached : Nat)
    (parameters : List (String × Nat)) (k : Nat) :
    (b.assignFrom total reached parameters)[k]? = parameters[k]?.map fun x =>
      ⟨x.1, x.2, b.tierOf (midpoint total (reached + startOf parameters (k + 1)) x.2)⟩ := by
  induction parameters generalizing reached k with
  | nil => simp [assignFrom]
  | cons x rest ih =>
    have hstart : ∀ k, startOf (x :: rest) (k + 1) = x.2 + startOf rest k := by
      simp [startOf, sumOf]
    rw [assignFrom, hstart]
    cases k with
    | zero =>
      have hnone : startOf rest 0 = 0 := by simp [startOf, sumOf]
      simp only [List.getElem?_cons_zero, Option.map_some, hnone, Nat.add_zero]
    | succ k =>
      rw [List.getElem?_cons_succ, List.getElem?_cons_succ, ← Nat.add_assoc]
      exact ih (reached + x.2) k

theorem assign_getElem? (b : Brackets Binary64) (parameters : List (String × Nat)) (k : Nat) :
    (b.assign parameters).parameters[k]? = parameters[k]?.map fun x =>
      ⟨x.1, x.2, b.tierOf (midpointOf parameters k)⟩ := by
  rw [assign, assignFrom_getElem?]
  cases hx : parameters[k]? with
  | none => simp only [Option.map_none]
  | some x => simp only [Option.map_some, midpointOf_eq hx, Nat.zero_add]

/-- What begins and ends later is planned onto no earlier tier. -/
theorem tier_mono {split : Split Binary64} {b : Brackets Binary64} (hb : ofSplit split = .ok b)
    (hbytes : sumOf (parameters.map (·.2)) ≤ twoTo 53) {i j : Nat} {p q : PlannedParameter}
    (hp : (b.assign parameters).parameters[i]? = some p)
    (hq : (b.assign parameters).parameters[j]? = some q)
    (h : twiceMiddle parameters i ≤ twiceMiddle parameters j) : (compare p.tier q.tier).isLE := by
  rw [assign_getElem?, Option.map_eq_some_iff] at hp hq
  obtain ⟨x, hx, rfl⟩ := hp
  obtain ⟨y, hy, rfl⟩ := hq
  apply tierOf_mono
  · intro bound hbound
    exact Binary64.le_trans_of_le (midpointOf_mono hbytes hx hy h).le hbound
  · exact pairwise_bounds hb

end

end Brackets

/-- Read in the order of the block, the tiers of a plan never go back. Parameters of equal midpoints
have equal tiers, be the midpoints the ones that were reckoned or the exact ones. -/
theorem tiers_never_go_back {split : Split Binary64} {b : Brackets Binary64}
    (hb : Brackets.ofSplit split = .ok b) {parameters : List (String × Nat)}
    (hbytes : sumOf (parameters.map (·.2)) ≤ twoTo 53) :
    ((b.assign parameters).parameters.map fun p => (p.name, p.size)) = parameters ∧
      ((b.assign parameters).parameters.map (·.tier)).Pairwise
        (fun s t => (compare s t).isLE) ∧
      ∀ i j p q, (b.assign parameters).parameters[i]? = some p →
        (b.assign parameters).parameters[j]? = some q →
        (Brackets.midpointOf parameters i = Brackets.midpointOf parameters j ∨
          Brackets.twiceMiddle parameters i = Brackets.twiceMiddle parameters j) →
        p.tier = q.tier := by
  refine ⟨?_, ?_, ?_⟩
  · apply List.ext_getElem?
    intro k
    rw [List.getElem?_map, Brackets.assign_getElem?, Option.map_map]
    exact congrFun Option.map_id parameters[k]?
  · rw [List.pairwise_map, List.pairwise_iff_getElem]
    intro i j hi hj hij
    apply Brackets.tier_mono hb hbytes (List.getElem?_eq_getElem hi) (List.getElem?_eq_getElem hj)
    exact Brackets.twiceMiddle_mono parameters hij.le
  · rintro i j p q hp hq (hreckoned | hmiddle)
    · rw [Brackets.assign_getElem?, Option.map_eq_some_iff] at hp hq
      obtain ⟨x, -, rfl⟩ := hp
      obtain ⟨y, -, rfl⟩ := hq
      exact congrArg b.tierOf hreckoned
    · have hle := Brackets.tier_mono hb hbytes hp hq hmiddle.le
      have hge := Brackets.tier_mono hb hbytes hq hp hmiddle.ge
      exact Std.LawfulEqOrd.eq_of_compare (Std.OrientedCmp.isLE_antisymm hle hge)

/-- Half on the disk, half on the host. -/
def halves : Split Binary64 := ⟨50, 50, 0, 0⟩

/-- Two parameters without bytes stand where one half ends. -/
def emptyMiddle : List (String × Nat) := [("a", 1), ("b", 0), ("c", 0), ("d", 1)]

theorem tiers_never_go_back_halves : ∃ b,
    Brackets.ofSplit halves = .ok b ∧ sumOf (emptyMiddle.map (·.2)) ≤ twoTo 53 ∧
      ((b.assign emptyMiddle).parameters.map (·.tier)).Pairwise (fun s t => (compare s t).isLE) ∧
      (b.assign emptyMiddle).parameters.map (·.tier) = [.disk, .disk, .disk, .host] := by
  have hb : Brackets.ofSplit halves = .ok ⟨[(.disk, 50), (.host, 100)]⟩ := by decide +kernel
  have hbytes : sumOf (emptyMiddle.map (·.2)) ≤ twoTo 53 := by decide
  exact ⟨_, hb, hbytes, (tiers_never_go_back hb hbytes).2.1, by decide +kernel⟩

end TieredWeights
