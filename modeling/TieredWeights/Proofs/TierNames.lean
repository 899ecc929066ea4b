import TieredWeights.Fault
import TieredWeights.Proofs.Folding
import TieredWeights.Proofs.Numerals

/-!
# Names of tiers

A tier is read from its names, between any blanks and in any case, and from no other text: an index
that is no machine word, an index of a tier that has none and a second colon are all refused. The
displayed name of a tier is one of its names, so it stands for every text that the tier is read
from.
-/
namespace TieredWeights

theorem Text.IsNumeral.isPlain {s : List Char} {n : Nat} (h : Text.IsNumeral s n) :
    ∀ c ∈ s, Text.IsPlain c := by
  have hplus : Text.IsPlain '+' := Text.isPlain_of_graphic (by simp) (by simp)
  obtain ⟨ds, rfl | rfl, -, hdigits, -⟩ := h
  · exact fun c hc => Text.isPlain_of_isDigit (hdigits c hc)
  · exact List.forall_mem_cons.2 ⟨hplus, fun c hc => Text.isPlain_of_isDigit (hdigits c hc)⟩

namespace Tier

variable {t : Tier} {name : List Char} {text : String}

def hostNames : List String := ["host", "cpu"]

def acceleratorNames : List String := ["accel", "cuda", "gpu"]

/-- The names of a tier: a word, and for an accelerator perhaps a colon and a numeral of its index.
Without one the index is zero. -/
inductive Names : List Char → Tier → Prop where
  | disk : Names "disk".toList disk
  | host {word : String} : word ∈ hostNames → Names word.toList host
  | bare {word : String} : word ∈ acceleratorNames → Names word.toList (accelerator 0)
  | indexed {word : String} {index : List Char} {i : Nat} :
    word ∈ acceleratorNames → Text.IsNumeral index i → i ≤ wordMax →
      Names (word.toList ++ ':' :: index) (accelerator i)

theorem Names.index_le (h : Names name t) : ∀ i ∈ t.acceleratorIndex?, i ≤ wordMax := by
  cases h with
  | disk => exact nofun
  | host => exact nofun
  | bare => simp [acceleratorIndex?]
  | indexed _ _ hi => simpa [acceleratorIndex?] using hi

section Words

variable {word : String}

/-- The words of all names. -/
def words : List String := "disk" :: hostNames ++ acceleratorNames

theorem disk_mem_words : "disk" ∈ words := List.mem_cons_self

theorem mem_words_of_host (h : word ∈ hostNames) : word ∈ words :=
  List.mem_append_left _ (List.mem_cons_of_mem _ h)

theorem mem_words_of_accelerator (h : word ∈ acceleratorNames) : word ∈ words :=
  List.mem_append_right _ h

/-- No word has a colon, so the first colon of a name stands before its index. -/
theorem colon_notMem (h : word ∈ words) : ':' ∉ word.toList := by
  revert word
  decide

theorem isPlain_of_mem_words (h : word ∈ words) : ∀ c ∈ word.toList, Text.IsPlain c := by
  have hgraphic : ∀ word ∈ words, ∀ c ∈ word.toList,
      (0x21 ≤ c.toNat ∧ c.toNat ≤ 0x7E) ∧ ¬ (65 ≤ c.toNat ∧ c.toNat ≤ 90) := by
    simp [words, hostNames, acceleratorNames]
  exact fun c hc => Text.isPlain_of_graphic (hgraphic word h c hc).1 (hgraphic word h c hc).2

theorem Names.isPlain (h : Names name t) : ∀ c ∈ name, Text.IsPlain c := by
  have hcolon : Text.IsPlain ':' := Text.isPlain_of_graphic (by simp) (by simp)
  cases h with
  | disk => exact isPlain_of_mem_words disk_mem_words
  | host hword => exact isPlain_of_mem_words (mem_words_of_host hword)
  | bare hword => exact isPlain_of_mem_words (mem_words_of_accelerator hword)
  | indexed hword hindex =>
    have hplain := isPlain_of_mem_words (mem_words_of_accelerator hword)
    exact List.forall_mem_append.2 ⟨hplain, List.forall_mem_cons.2 ⟨hcolon, hindex.isPlain⟩⟩

end Words

section Kinds

variable {kind : List Char} {index : Option Nat} {word : String}

theorem ofKind_hostNames (h : word ∈ hostNames) : ofKind word.toList none = .ok host := by
  simp only [hostNames, List.mem_cons, List.not_mem_nil, or_false] at h
  rcases h with rfl | rfl <;> rfl

theorem ofKind_acceleratorNames (h : word ∈ acceleratorNames) (index : Option Nat) :
    ofKind word.toList index = .ok (accelerator (index.getD 0)) := by
  simp only [acceleratorNames, List.mem_cons, List.not_mem_nil, or_false] at h
  rcases h with rfl | rfl | rfl <;> rfl

/-- All that a kind can stand for: an accelerator, or without an index another tier. -/
theorem ofKind_cases (h : ofKind kind index = .ok t) :
    (∃ word ∈ acceleratorNames, kind = word.toList ∧ t = accelerator (index.getD 0)) ∨
      index = none ∧ Names kind t := by
  unfold ofKind at h
  split_ifs at h with haccel hindex hdisk hhost
  · obtain rfl := Except.ok.inj h
    rcases haccel with rfl | rfl | rfl <;> exact .inl ⟨_, by decide, rfl, rfl⟩
  · obtain rfl := Except.ok.inj h
    exact .inr ⟨by simpa using hindex, hdisk ▸ .disk⟩
  · obtain rfl := Except.ok.inj h
    refine .inr ⟨by simpa using hindex, ?_⟩
    rcases hhost with rfl | rfl <;> exact .host (by decide)

end Kinds

section Folded

variable {s kind index : List Char}

theorem ofName_of_notMem (h : ':' ∉ Text.fold s) : ofName s = ofKind (Text.fold s) none := by
  simp only [ofName, Text.cut_eq_none_iff.2 h]

theorem ofName_of_word {i : Nat} (h : Text.fold s = kind ++ ':' :: index) (hkind : ':' ∉ kind)
    (hindex : Text.readWord index = .ok i) : ofName s = ofKind kind (some i) := by
  simp only [ofName, h, Text.cut_append hkind, hindex]

theorem ofName_of_noWord {e : Text.NumeralFault} (h : Text.fold s = kind ++ ':' :: index)
    (hkind : ':' ∉ kind) (hindex : Text.readWord index = .error e) :
    ofName s = .error .badIndex := by
  simp only [ofName, h, Text.cut_append hkind, hindex]

theorem names_of_ofName (h : ofName s = .ok t) : Names (Text.fold s) t := by
  by_cases hcolon : ':' ∈ Text.fold s
  · obtain ⟨kind, index, hfold, hkind⟩ := List.eq_append_cons_of_mem hcolon
    cases hindex : Text.readWord index with
    | error e =>
      rw [ofName_of_noWord hfold hkind hindex] at h
      cases h
    | ok i =>
      rw [ofName_of_word hfold hkind hindex] at h
      obtain ⟨hnumeral, hi⟩ := Text.readWord_eq_ok_iff.1 hindex
      rcases ofKind_cases h with ⟨word, hword, rfl, rfl⟩ | ⟨hnone, -⟩
      · exact hfold ▸ .indexed hword hnumeral hi
      · cases hnone
  · rw [ofName_of_notMem hcolon] at h
    rcases ofKind_cases h with ⟨word, hword, hfold, rfl⟩ | ⟨-, hname⟩
    · exact hfold ▸ .bare hword
    · exact hname

theorem ofName_of_names (h : Names (Text.fold s) t) : ofName s = .ok t := by
  have hword {word : String} (hfold : Text.fold s = word.toList) (h : word ∈ words) :
      ofName s = ofKind word.toList none := by
    rw [ofName_of_notMem (hfold ▸ colon_notMem h), hfold]
  generalize hfold : Text.fold s = name at h
  cases h with
  | disk => exact (hword hfold disk_mem_words).trans rfl
  | host h => exact (hword hfold (mem_words_of_host h)).trans (ofKind_hostNames h)
  | bare h =>
    exact (hword hfold (mem_words_of_accelerator h)).trans (ofKind_acceleratorNames h none)
  | @indexed word index i h hnumeral hi =>
    have hindex : Text.readWord index = .ok i := Text.readWord_eq_ok_iff.2 ⟨hnumeral, hi⟩
    rw [ofName_of_word hfold (colon_notMem (mem_words_of_accelerator h)) hindex]
    exact ofKind_acceleratorNames h (some i)

/-- A tier is read from the texts that fold to its names. -/
theorem ofName_eq_ok_iff : ofName s = .ok t ↔ Names (Text.fold s) t :=
  ⟨names_of_ofName, ofName_of_names⟩

-- an index where none belongs, an index that is empty, too large or followed by another
example : ofName "disk:0".toList = .error .unknownName ∧
    ["accel:", "gpu:18446744073709551616", "cuda:1:2"].map (fun name => ofName name.toList) =
      List.replicate 3 (.error .badIndex) := by decide +kernel

end Folded

theorem read_eq_ok_iff : read text = .ok t ↔ Names (Text.fold text.toList) t := by
  rw [← ofName_eq_ok_iff, read]
  cases ofName text.toList <;> simp [Except.mapError]

/-- A text names a tier exactly if it is one of its names between blanks and in any case. -/
theorem read_eq_ok_iff_exists :
    read text = .ok t ↔ ∃ name, Names name t ∧ Text.Variant name text.toList := by
  rw [read_eq_ok_iff]
  constructor
  · intro h
    exact ⟨_, h, Text.variant_fold _⟩
  · rintro ⟨name, hname, hvariant⟩
    rwa [(Text.fold_eq_iff_variant hname.isPlain).2 hvariant]

theorem names_display (h : ∀ i ∈ t.acceleratorIndex?, i ≤ wordMax) :
    Names t.display.toList t := by
  cases t with
  | disk => exact .disk
  | host => exact .host (by decide)
  | accelerator i =>
    have hdisplay : (accelerator i).display.toList =
        "accel".toList ++ ':' :: Nat.toDigits 10 i := by
      rw [display, String.toList_append, Nat.toString_eq_ofList_toDigits, String.toList_ofList]
      rfl
    rw [hdisplay]
    exact .indexed (by decide) (Text.isNumeral_toDigits i) (h i rfl)

/-- What is read is displayed by a text that is read as the same tier. -/
theorem read_display (h : read text = .ok t) : read t.display = .ok t := by
  have hname : Names t.display.toList t := names_display (read_eq_ok_iff.1 h).index_le
  rwa [read_eq_ok_iff, Text.fold_eq_self hname.isPlain]

/-- Tiers are read from their names alone. Every tier is read from its displayed name, with any
blanks around it and in any case. A text is read as a tier exactly if it is a name of that tier once
the blanks around it are gone and its letters are small. Two texts that are read at all are read
alike exactly if their tiers are displayed alike, and the displayed name is itself read as the tier:
it is the canonical one. -/
theorem names_read_exactly :
    (∀ t : Tier, (∀ i ∈ t.acceleratorIndex?, i ≤ wordMax) →
        ∀ text : String, Text.Variant t.display.toList text.toList → read text = .ok t) ∧
      (∀ (text : String) (t : Tier), read text = .ok t ↔ Names (Text.fold text.toList) t) ∧
      (∀ (text text' : String) (t t' : Tier), read text = .ok t → read text' = .ok t' →
        (read text = read text' ↔ t.display = t'.display)) ∧
      ∀ (text : String) (t : Tier), read text = .ok t → read t.display = .ok t := by
  refine ⟨fun t ht text hvariant => ?_, fun _ _ => read_eq_ok_iff, ?_, fun _ _ => read_display⟩
  · exact read_eq_ok_iff_exists.2 ⟨_, names_display ht, hvariant⟩
  · intro text text' t t' h h'
    constructor
    · intro hread
      rw [h, h'] at hread
      rw [Except.ok.inj hread]
    · intro hdisplay
      rw [h, h', ← read_display h, hdisplay, read_display h']

/-- One accelerator by its displayed name in capitals, by another name with a sign and zeros, and by
its canonical name. -/
theorem names_read_shouted :
    Text.Variant (accelerator 7).display.toList "\tACCEL:7 ".toList ∧
      read "\tACCEL:7 " = .ok (accelerator 7) ∧ read " Gpu:+007" = .ok (accelerator 7) ∧
      read "\tACCEL:7 " = read " Gpu:+007" ∧
      read (accelerator 7).display = .ok (accelerator 7) := by
  have hvariant : Text.Variant (accelerator 7).display.toList "\tACCEL:7 ".toList := by
    have hfold : Text.fold "\tACCEL:7 ".toList = (accelerator 7).display.toList := by decide
    exact hfold ▸ Text.variant_fold _
  have hname : Names (Text.fold " Gpu:+007".toList) (accelerator 7) := by
    have hfold : Text.fold " Gpu:+007".toList = "gpu".toList ++ ':' :: "+007".toList := by decide
    rw [hfold]
    exact .indexed (by decide) ⟨"007".toList, .inr rfl, by decide, by simp, rfl⟩ (by decide)
  have hshouted := names_read_exactly.1 (accelerator 7) (by decide) _ hvariant
  have hgpu := (names_read_exactly.2.1 _ _).2 hname
  exact ⟨hvariant, hshouted, hgpu, (names_read_exactly.2.2.1 _ _ _ _ hshouted hgpu).2 rfl,
    names_read_exactly.2.2.2 _ _ hgpu⟩

end Tier

end TieredWeights
