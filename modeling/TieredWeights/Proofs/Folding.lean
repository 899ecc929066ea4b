import Mathlib.Data.List.Forall2
import Mathlib.Data.List.TakeWhile
import TieredWeights.Text.Pieces

/-!
# Blanks and case put aside

Folding a text takes the blanks from its ends and makes its ASCII capitals small. So the texts that
fold to a folded word are the word itself between any blanks and with its letters in any case, and
nothing else.
-/
namespace TieredWeights.Text

variable {c d : Char} {s word : List Char}

/-- A character, or the same letter in the other case. -/
def Recased (c d : Char) : Prop := d = c ∨ d = c.toLower ∨ d = c.toUpper

/-- A word between blanks, the case of its ASCII letters changed at will. -/
def Variant (word s : List Char) : Prop :=
  ∃ before cased after, s = before ++ cased ++ after ∧ (∀ c ∈ before ++ after, isBlank c) ∧
    List.Forall₂ Recased word cased

/-- A character that folding keeps wherever it stands. -/
def IsPlain (c : Char) : Prop := isBlank c = false ∧ c.toLower = c

section Characters

theorem toNat_toLower (c : Char) :
    c.toLower.toNat = if 65 ≤ c.toNat ∧ c.toNat ≤ 90 then c.toNat + 32 else c.toNat := by
  have hcapital : c.val ≥ 'A'.val ∧ c.val ≤ 'Z'.val ↔ 65 ≤ c.toNat ∧ c.toNat ≤ 90 :=
    and_congr UInt32.le_iff_toNat_le UInt32.le_iff_toNat_le
  have hoffset : ('a'.val - 'A'.val).toNat = 32 := rfl
  have hval : c.val.toNat = c.toNat := rfl
  by_cases h : 65 ≤ c.toNat ∧ c.toNat ≤ 90
  · delta Char.toLower
    rw [if_pos h, dif_pos (hcapital.2 h), Char.toNat, UInt32.toNat_add, hoffset]
    omega
  · delta Char.toLower
    rw [if_neg h, dif_neg fun hc => h (hcapital.1 hc)]

/-- What is added to a small letter is a capital's distance to it, from below. -/
theorem toNat_toUpper (c : Char) :
    c.toUpper.toNat = if 97 ≤ c.toNat ∧ c.toNat ≤ 122 then c.toNat - 32 else c.toNat := by
  have hsmall : 'a'.val ≤ c.val ∧ c.val ≤ 'z'.val ↔ 97 ≤ c.toNat ∧ c.toNat ≤ 122 :=
    and_congr UInt32.le_iff_toNat_le UInt32.le_iff_toNat_le
  have hoffset : ('A'.val - 'a'.val).toNat = 2 ^ 32 - 32 := rfl
  have hval : c.val.toNat = c.toNat := rfl
  by_cases h : 97 ≤ c.toNat ∧ c.toNat ≤ 122
  · delta Char.toUpper
    rw [if_pos h, dif_pos (hsmall.2 h), Char.toNat, UInt32.toNat_add, hoffset]
    omega
  · delta Char.toUpper
    rw [if_neg h, dif_neg fun hc => h (hsmall.1 hc)]

theorem Recased.toLower_eq (h : Recased c d) : d.toLower = c.toLower := by
  refine Char.toNat_inj.1 ?_
  rcases h with rfl | rfl | rfl <;> simp only [toNat_toLower, toNat_toUpper] <;> split_ifs <;> omega

theorem recased_toLower (c : Char) : Recased c.toLower c := by
  by_cases hc : 65 ≤ c.toNat ∧ c.toNat ≤ 90
  · refine .inr (.inr (Char.toNat_inj.1 ?_))
    rw [toNat_toUpper, toNat_toLower, if_pos hc, if_pos (by omega)]
    omega
  · exact .inl (Char.toNat_inj.1 (by rw [toNat_toLower, if_neg hc]))

theorem isBlank_of_graphic (h : 0x21 ≤ c.toNat ∧ c.toNat ≤ 0x7E) : isBlank c = false := by
  simp only [isBlank, inRanges, blankRanges, List.any_cons, List.any_nil, Bool.or_eq_false_iff,
    Bool.and_eq_false_iff, decide_eq_false_iff_not, and_true]
  omega

/-- No letter is blank, so its case does not matter to what is blank. -/
theorem isBlank_toLower (c : Char) : isBlank c.toLower = isBlank c := by
  have hlower := toNat_toLower c
  split_ifs at hlower with hc
  · rw [isBlank_of_graphic (by omega), isBlank_of_graphic (by omega)]
  · rw [Char.toNat_inj.1 hlower]

theorem isPlain_of_graphic (h : 0x21 ≤ c.toNat ∧ c.toNat ≤ 0x7E)
    (hcapital : ¬ (65 ≤ c.toNat ∧ c.toNat ≤ 90)) : IsPlain c :=
  ⟨isBlank_of_graphic h, Char.toNat_inj.1 (by rw [toNat_toLower, if_neg hcapital])⟩

theorem isPlain_of_isDigit (h : c.isDigit) : IsPlain c := by
  have hrange : 48 ≤ c.toNat ∧ c.toNat ≤ 57 := Char.isDigit_iff_toNat.1 h
  exact isPlain_of_graphic (by omega) (by omega)

theorem lower_eq_of_recased {cased : List Char} (h : List.Forall₂ Recased word cased) :
    lower cased = lower word := by
  induction h with
  | nil => rfl
  | cons hc _ ih =>
    simp only [lower, List.map_cons, hc.toLower_eq] at ih ⊢
    rw [ih]

theorem recased_lower (s : List Char) : List.Forall₂ Recased (lower s) s :=
  List.forall₂_map_left_iff.2 (List.forall₂_same.2 fun c _ => recased_toLower c)

end Characters

section Blanks

theorem trimLeft_append {before : List Char} (h : ∀ c ∈ before, isBlank c) (s : List Char) :
    trimLeft (before ++ s) = trimLeft s := List.dropWhile_append_of_pos h

theorem trimRight_append {after : List Char} (h : ∀ c ∈ after, isBlank c) (s : List Char) :
    trimRight (s ++ after) = trimRight s := by
  rw [trimRight, List.reverse_append,
    List.dropWhile_append_of_pos fun c hc => h c (List.mem_reverse.1 hc), trimRight]

theorem trim_append {before after : List Char} (hbefore : ∀ c ∈ before, isBlank c)
    (hafter : ∀ c ∈ after, isBlank c) (s : List Char) :
    trim (before ++ s ++ after) = trim s := by
  have hnil : after.dropWhile isBlank = [] := List.dropWhile_eq_nil_iff.2 hafter
  rw [trim, List.append_assoc, trimLeft_append hbefore, trim, trimLeft, trimLeft,
    List.dropWhile_append]
  -- blanks alone leave nothing at all, whichever end they are taken from
  split_ifs with hs
  · rw [hnil, List.isEmpty_iff.1 hs]
  · exact trimRight_append hafter _

/-- Only blanks are taken away. -/
theorem exists_eq_trim (s : List Char) :
    ∃ before after, s = before ++ trim s ++ after ∧ ∀ c ∈ before ++ after, isBlank c := by
  have hleft : s.takeWhile isBlank ++ trimLeft s = s := List.takeWhile_append_dropWhile
  have hright : trim s ++ ((trimLeft s).reverse.takeWhile isBlank).reverse = trimLeft s := by
    rw [trim, trimRight, ← List.reverse_append, List.takeWhile_append_dropWhile,
      List.reverse_reverse]
  refine ⟨s.takeWhile isBlank, ((trimLeft s).reverse.takeWhile isBlank).reverse, ?_, ?_⟩
  · rw [List.append_assoc, hright, hleft]
  · intro c hc
    rcases List.mem_append.1 hc with hc | hc
    · exact List.mem_takeWhile_imp hc
    · exact List.mem_takeWhile_imp (List.mem_reverse.1 hc)

theorem trim_eq_self (h : ∀ c ∈ s, isBlank c = false) : trim s = s := by
  have hkept {l : List Char} (hl : ∀ c ∈ l, isBlank c = false) : l.dropWhile isBlank = l :=
    List.dropWhile_eq_self_iff.2 fun hpos => by simp [hl _ (List.getElem_mem hpos)]
  rw [trim, trimLeft, hkept h, trimRight, hkept fun c hc => h c (List.mem_reverse.1 hc),
    List.reverse_reverse]

theorem lower_trim (s : List Char) : lower (trim s) = trim (lower s) := by
  have hblank : isBlank ∘ Char.toLower = isBlank := funext isBlank_toLower
  simp only [trim, trimLeft, trimRight, lower, ← List.map_reverse, List.dropWhile_map, hblank]

end Blanks

/-- Variants of one word fold alike. -/
theorem Variant.fold_eq (h : Variant word s) : fold s = fold word := by
  obtain ⟨before, cased, after, rfl, hblank, hcased⟩ := h
  obtain ⟨hbefore, hafter⟩ := List.forall_mem_append.1 hblank
  calc
    fold (before ++ cased ++ after) = lower (trim cased) := by
      rw [fold, trim_append hbefore hafter]
    _ = trim (lower word) := by rw [lower_trim, lower_eq_of_recased hcased]
    _ = fold word := (lower_trim word).symm

theorem variant_fold (s : List Char) : Variant (fold s) s := by
  obtain ⟨before, after, hs, hblank⟩ := exists_eq_trim s
  exact ⟨before, trim s, after, hs, hblank, recased_lower _⟩

theorem fold_eq_self (h : ∀ c ∈ s, IsPlain c) : fold s = s := by
  rw [fold, trim_eq_self fun c hc => (h c hc).1]
  exact (List.map_congr_left fun c hc => (h c hc).2).trans (List.map_id' s)

/-- What folds to a plain word is the word between blanks and in any case. -/
theorem fold_eq_iff_variant (h : ∀ c ∈ word, IsPlain c) : fold s = word ↔ Variant word s := by
  constructor
  · rintro rfl
    exact variant_fold s
  · intro hs
    rw [hs.fold_eq, fold_eq_self h]

end TieredWeights.Text
