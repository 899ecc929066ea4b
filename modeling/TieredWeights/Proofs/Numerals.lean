import TieredWeights.Text.Numeral

/-!
# Decimal digits

Digits read from the left give the number that they write, as long as it is a machine word: a
number never shrinks when digits are appended to it, so one that is too large stays so. What is read
as a word are the numerals of words. The digits of a number are read back as that number, and only
zero begins with the digit zero.
-/
namespace TieredWeights.Text

theorem le_ofDigitChars (n : Nat) (ds : List Char) : n ≤ Nat.ofDigitChars 10 ds n := by
  induction ds generalizing n with
  | nil => simp
  | cons c ds ih =>
    calc
      n ≤ 10 * n + (c.toNat - '0'.toNat) := by omega
      _ ≤ Nat.ofDigitChars 10 (c :: ds) n := by
        rw [Nat.ofDigitChars_cons]
        exact ih _

/-- Appending digits succeeds on digits alone, and while the number stays a machine word. -/
theorem appendDigits_eq_ok_iff {n m : Nat} {ds : List Char} (hn : n ≤ wordMax) :
    appendDigits n ds = .ok m ↔
      (∀ c ∈ ds, c.isDigit) ∧ Nat.ofDigitChars 10 ds n = m ∧ m ≤ wordMax := by
  induction ds generalizing n with
  | nil =>
    simp only [appendDigits, Except.ok.injEq, Nat.ofDigitChars_nil, List.not_mem_nil,
      false_implies, implies_true, true_and]
    exact ⟨fun h => ⟨h, h ▸ hn⟩, And.left⟩
  | cons c ds ih =>
    have hvalue : Nat.ofDigitChars 10 (c :: ds) n =
        Nat.ofDigitChars 10 ds (10 * n + digitValue c) := Nat.ofDigitChars_cons
    rw [appendDigits, hvalue, List.forall_mem_cons]
    by_cases hc : c.isDigit
    · rw [if_pos hc]
      by_cases hle : 10 * n + digitValue c ≤ wordMax
      · rw [if_pos hle, ih hle]
        simp only [hc, true_and]
      · have hlarge := le_ofDigitChars (10 * n + digitValue c) ds
        rw [if_neg hle]
        constructor
        · intro h
          cases h
        · rintro ⟨-, rfl, hm⟩
          exact absurd (Nat.le_trans hlarge hm) hle
    · rw [if_neg hc]
      constructor
      · intro h
        cases h
      · exact fun h => absurd h.1.1 hc

/-- A numeral of a number: one or more digits that write it, perhaps behind a plus sign. -/
def IsNumeral (s : List Char) (n : Nat) : Prop :=
  ∃ ds, (s = ds ∨ s = '+' :: ds) ∧ ds ≠ [] ∧ (∀ c ∈ ds, c.isDigit) ∧ Nat.ofDigitChars 10 ds 0 = n

theorem isNumeral_toDigits (n : Nat) : IsNumeral (Nat.toDigits 10 n) n :=
  ⟨_, .inl rfl, Nat.toDigits_ne_nil, fun _ => Nat.isDigit_of_mem_toDigits (by decide) (by decide),
    Nat.ofDigitChars_toDigits (by decide) (by decide)⟩

theorem readWord_plus {ds : List Char} (h : ds ≠ []) :
    readWord ('+' :: ds) = appendDigits 0 ds := by
  obtain ⟨c, ds, rfl⟩ := List.exists_cons_of_ne_nil h
  rfl

theorem readWord_of_digits {ds : List Char} (h : ds ≠ []) (hdigits : ∀ c ∈ ds, c.isDigit) :
    readWord ds = appendDigits 0 ds := by
  unfold readWord
  split
  · exact absurd rfl h
  · exact absurd (hdigits '+' (by simp)) (by decide)
  · exact absurd (hdigits '+' (by simp)) (by decide)
  · rfl

/-- Words are read from their numerals and from nothing else. -/
theorem readWord_eq_ok_iff {s : List Char} {n : Nat} :
    readWord s = .ok n ↔ IsNumeral s n ∧ n ≤ wordMax := by
  constructor
  · intro h
    have hnumeral {ds : List Char} (hds : ds ≠ []) (hs : s = ds ∨ s = '+' :: ds)
        (h : appendDigits 0 ds = .ok n) : IsNumeral s n ∧ n ≤ wordMax := by
      obtain ⟨hdigits, hvalue, hn⟩ := (appendDigits_eq_ok_iff (Nat.zero_le _)).1 h
      exact ⟨⟨ds, hs, hds, hdigits, hvalue⟩, hn⟩
    unfold readWord at h
    split at h
    · cases h
    · cases h
    · rename_i ds hne
      refine hnumeral (fun hds => ?_) (.inr rfl) h
      exact hne (by rw [hds])
    · rename_i ds hne _ _
      exact hnumeral hne (.inl rfl) h
  · rintro ⟨⟨ds, hs, hds, hdigits, hvalue⟩, hn⟩
    have hread : appendDigits 0 ds = .ok n :=
      (appendDigits_eq_ok_iff (Nat.zero_le _)).2 ⟨hdigits, hvalue, hn⟩
    rcases hs with rfl | rfl
    · rw [readWord_of_digits hds hdigits, hread]
    · rw [readWord_plus hds, hread]

/-- The digits of a machine word are read back. -/
theorem appendDigits_toDigits {n : Nat} (hn : n ≤ wordMax) :
    appendDigits 0 (Nat.toDigits 10 n) = .ok n :=
  (appendDigits_eq_ok_iff (Nat.zero_le _)).2
    ⟨fun _ => Nat.isDigit_of_mem_toDigits (by decide) (by decide),
      Nat.ofDigitChars_toDigits (by decide) (by decide), hn⟩

/-- Only zero begins with the digit zero. -/
theorem head?_toDigits_eq_zero_iff {n : Nat} :
    (Nat.toDigits 10 n).head? = some '0' ↔ n = 0 := by
  induction n using Nat.strongRecOn with
  | ind n ih =>
    by_cases hn : n < 10
    · simp [Nat.toDigits_of_lt_base hn]
    · have hhead : (Nat.toDigits 10 n).head? = (Nat.toDigits 10 (n / 10)).head? := by
        rw [Nat.toDigits_of_base_le (by decide) (Nat.le_of_not_lt hn), List.head?_append,
          Option.or_of_isSome]
        exact List.isSome_head?.2 Nat.toDigits_ne_nil
      rw [hhead, ih (n / 10) (by omega)]
      omega

end TieredWeights.Text
