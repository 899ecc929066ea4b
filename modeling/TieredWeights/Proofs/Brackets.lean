import TieredWeights.Plan

/-!
# Brackets

Brackets are stacked in the order of the shares, one for each positive share. So a tier that has a
bracket has a positive share, the first bracket is that of the first positive share, and a parameter
goes to a tier that has a bracket if there is one at all.
-/
namespace TieredWeights.Brackets

variable {α : Type} [ShareArithmetic α]

theorem stack_of_pos {share : α} (h : ShareArithmetic.ofNat 0 < share) (upper : α) (tier : Tier)
    (rest : List (Tier × α)) :
    stack upper ((tier, share) :: rest) = (tier, upper + share) :: stack (upper + share) rest :=
  if_pos h

theorem stack_of_not_pos {share : α} (h : ¬ ShareArithmetic.ofNat 0 < share) (upper : α) (tier : Tier)
    (rest : List (Tier × α)) : stack upper ((tier, share) :: rest) = stack upper rest :=
  if_neg h

/-- Only a positive share has a bracket. -/
theorem mem_stack {upper bound : α} {shares : List (Tier × α)} {tier : Tier}
    (h : (tier, bound) ∈ stack upper shares) :
    ∃ share, (tier, share) ∈ shares ∧ ShareArithmetic.ofNat 0 < share := by
  induction shares generalizing upper with
  | nil => cases h
  | cons x rest ih =>
    obtain ⟨tier', share⟩ := x
    by_cases hpos : ShareArithmetic.ofNat 0 < share
    · rw [stack_of_pos hpos] at h
      rcases List.mem_cons.1 h with he | h
      · cases he
        exact ⟨share, List.mem_cons_self, hpos⟩
      · obtain ⟨share', hmem, hpos'⟩ := ih h
        exact ⟨share', List.mem_cons_of_mem _ hmem, hpos'⟩
    · rw [stack_of_not_pos hpos] at h
      obtain ⟨share', hmem, hpos'⟩ := ih h
      exact ⟨share', List.mem_cons_of_mem _ hmem, hpos'⟩

theorem tier_mem_of_mem_stack {upper : α} {shares : List (Tier × α)} {x : Tier × α}
    (h : x ∈ stack upper shares) : x.1 ∈ shares.map (·.1) := by
  obtain ⟨share, hshare, -⟩ := mem_stack h
  exact List.mem_map.2 ⟨_, hshare, rfl⟩

/-- The first bracket is that of the first positive share. -/
theorem head?_stack (upper : α) (shares : List (Tier × α)) : (stack upper shares).head? =
    (shares.find? fun x => decide (ShareArithmetic.ofNat 0 < x.2)).map fun x => (x.1, upper + x.2) := by
  induction shares with
  | nil => rfl
  | cons x rest ih =>
    obtain ⟨tier, share⟩ := x
    by_cases hpos : ShareArithmetic.ofNat 0 < share
    · rw [stack_of_pos hpos]
      simp only [List.find?_cons, decide_eq_true hpos, List.head?_cons, Option.map_some]
    · rw [stack_of_not_pos hpos, ih]
      simp only [List.find?_cons, decide_eq_false hpos]

/-- A split whose shares pass the check has the brackets of its percentages. -/
theorem ofSplit_eq_ok {split : Split α} {b : Brackets α} : ofSplit split = .ok b ↔
    split.check = .ok () ∧ b.bounds = stack (ShareArithmetic.ofNat 0) split.percentages := by
  obtain ⟨bounds⟩ := b
  unfold ofSplit Split.normalized
  rcases hcheck : split.check with e | u
  · exact ⟨nofun, fun h => nomatch h.1⟩
  · constructor
    · intro h
      cases h
      exact ⟨rfl, rfl⟩
    · rintro ⟨-, rfl⟩
      rfl

/-- A midpoint belongs to a tier that has a bracket, or to the host if none has one. -/
theorem tierOf_mem (b : Brackets α) (midpoint : α) : b.bounds = [] ∧ b.tierOf midpoint = .host ∨
    ∃ bound, (b.tierOf midpoint, bound) ∈ b.bounds := by
  unfold tierOf
  split
  · rename_i tier bound hfind
    exact .inr ⟨bound, List.mem_of_find?_eq_some hfind⟩
  · cases hlast : b.bounds.getLast? with
    | none => exact .inl ⟨List.getLast?_eq_none_iff.1 hlast, rfl⟩
    | some x => exact .inr ⟨x.2, List.mem_of_getLast? hlast⟩

/-- A midpoint that the first bracket reaches belongs to its tier. -/
theorem tierOf_of_head? {b : Brackets α} {tier : Tier} {bound midpoint : α}
    (h : b.bounds.head? = some (tier, bound))
    (hle : midpoint ≤ bound + ShareArithmetic.tolerance) : b.tierOf midpoint = tier := by
  obtain ⟨rest, hrest⟩ := List.head?_eq_some_iff.1 h
  simp only [tierOf, hrest, List.find?_cons, decide_eq_true hle]

theorem tier_of_mem_assignFrom {b : Brackets α} {total reached : Nat}
    {parameters : List (String × Nat)} {planned : PlannedParameter}
    (h : planned ∈ b.assignFrom total reached parameters) :
    ∃ reached size, planned.tier = b.tierOf (midpoint total reached size) := by
  induction parameters generalizing reached with
  | nil => cases h
  | cons x rest ih =>
    obtain ⟨name, size⟩ := x
    rcases List.mem_cons.1 h with rfl | h
    · exact ⟨_, _, rfl⟩
    · exact ih h

end TieredWeights.Brackets
