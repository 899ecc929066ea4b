import Mathlib.Data.List.Forall2
import Mathlib.Data.List.TakeWhile
import TieredWeights.Config.Json
import TieredWeights.Proofs.Json.Reading
import TieredWeights.Proofs.Numerals

/-!
# Written text is read back

A text reads as `x` by a rule when the value it holds gives `x` by that rule. Written words,
strings, nullable values and lists read as what they were written from; an object reads as its
fields, whose texts are read each for itself.
-/
namespace TieredWeights.Json

variable {α : Type} {rule : Value → Option α} {write : α → String}

/-- A text reads as `x` when the value that it holds gives `x` by a rule. -/
def Reads (rule : Value → Option α) (text : String) (x : α) : Prop :=
  (read text.toList).bind rule = some x

theorem Reads.exists_read {text : String} {x : α} (h : Reads rule text x) :
    ∃ v, read text.toList = some v := by
  obtain ⟨v, hread, -⟩ := Option.bind_eq_some_iff.1 h
  exact ⟨v, hread⟩

section Strings

variable {fuel : Nat} {s r : List Char} {ps : List Piece} {c : Char}

theorem hexDigit?_digitChar {n : Nat} (hn : n < 16) : Text.hexDigit? n.digitChar = some n := by
  revert n
  decide

theorem readHex_of_lt {n : Nat} (hn : n < 0x20) (s : List Char) :
    readHex ('0' :: '0' :: (n / 16).digitChar :: (n % 16).digitChar :: s) = some (n, s) := by
  have hzero : Text.hexDigit? '0' = some 0 := rfl
  have hvalue : ((0 * 16 + 0) * 16 + n / 16) * 16 + n % 16 = n := by omega
  simp only [readHex, hzero, hexDigit?_digitChar (show n / 16 < 16 by omega),
    hexDigit?_digitChar (show n % 16 < 16 by omega), Option.bind_eq_bind, Option.bind_some, hvalue]

theorem textOf_unit {n : Nat} (hn : n < 0xD800) (ps : List Piece) :
    textOf (.unit n :: ps) = (textOf ps).map (Char.ofNat n :: ·) := by
  rw [textOf.eq_def]
  dsimp only
  rw [if_neg (by omega), if_neg (by omega)]

/-- What is written for a character is one piece, which stands for it. -/
theorem readPieces_escapeChar (h : readPieces fuel s = some (ps, r)) :
    ∃ p, readPieces (fuel + 1) (escapeChar c ++ s) = some (p :: ps, r) ∧
      textOf (p :: ps) = (textOf ps).map (c :: ·) := by
  unfold escapeChar
  split_ifs with hquote hslash hb hf hn hr ht hcontrol
  case pos | pos | pos | pos | pos | pos | pos =>
    subst_vars
    refine ⟨.char _, ?_, rfl⟩
    simp [readPieces, readEscape, h]
  case pos =>
    refine ⟨.unit c.toNat, ?_, ?_⟩
    · simp [readPieces, readEscape, readHex_of_lt hcontrol, h]
    · rw [textOf_unit (by omega), Char.ofNat_toNat]
  case neg =>
    refine ⟨.char c, ?_, rfl⟩
    rw [List.singleton_append, readPieces_of_plain hquote hslash, if_neg hcontrol, h,
      Option.map_some]

/-- A written string is read up to its closing quote, as itself. -/
theorem readPieces_flatMap_escapeChar (s rest : List Char) (fuel : Nat) (hfuel : s.length < fuel) :
    ∃ ps, readPieces fuel (s.flatMap escapeChar ++ '"' :: rest) = some (ps, rest) ∧
      textOf ps = some s := by
  obtain ⟨fuel, rfl⟩ : ∃ n, fuel = n + 1 := ⟨fuel - 1, by omega⟩
  induction s generalizing fuel with
  | nil => exact ⟨[], rfl, rfl⟩
  | cons c s ih =>
    obtain ⟨fuel, rfl⟩ : ∃ n, fuel = n + 1 := ⟨fuel - 1, by simp at hfuel; omega⟩
    obtain ⟨ps, hread, htext⟩ := ih fuel (by simpa using hfuel)
    obtain ⟨p, hp, htextp⟩ := readPieces_escapeChar (c := c) hread
    refine ⟨p :: ps, ?_, ?_⟩
    · rw [List.flatMap_cons, List.append_assoc, hp]
    · rw [htextp, htext, Option.map_some]

theorem readString_flatMap_escapeChar (s rest : List Char) :
    readString (s.flatMap escapeChar ++ '"' :: rest) = some (some (String.ofList s), rest) := by
  have hlength : s.length ≤ (s.flatMap escapeChar).length := by
    induction s with
    | nil => simp
    | cons c s ih =>
      have hc : 0 < (escapeChar c).length := by
        unfold escapeChar
        split_ifs <;> simp
      rw [List.flatMap_cons, List.length_append, List.length_cons]
      omega
  obtain ⟨ps, hread, htext⟩ := readPieces_flatMap_escapeChar s rest
    ((s.flatMap escapeChar ++ '"' :: rest).length + 1) (by rw [List.length_append]; omega)
  rw [readString, hread]
  simp only [Option.bind_eq_bind, Option.bind_some, htext, Option.map_some]

/-- The characters of a written string. -/
theorem toList_writeString (s : String) :
    (writeString s).toList = '"' :: (s.toList.flatMap escapeChar ++ ['"']) := by
  simp [writeString]

/-- A written string reads as itself. -/
theorem reads_writeString (s : String) : Reads text? (writeString s) s := by
  have hread : readString (s.toList.flatMap escapeChar ++ ['"']) = some (some s, []) := by
    rw [readString_flatMap_escapeChar, String.ofList_toList]
  rw [Reads, read, toList_writeString, readValue, skipSpace_cons (by decide)]
  simp only [hread, Option.map_some]
  rfl

end Strings

section Numbers

variable {c : Char}

theorem not_isSpace_of_isDigit (hc : c.isDigit) : isSpace c = false := by
  simp only [isSpace, Bool.or_eq_false_iff, decide_eq_false_iff_not]
  refine ⟨⟨⟨?_, ?_⟩, ?_⟩, ?_⟩ <;> rintro rfl <;> cases hc

theorem readNumeral_of_digits {ds : List Char} (hne : ds ≠ []) (hdigits : ∀ c ∈ ds, c.isDigit)
    (hzero : ds.head? = some '0' → ds.length ≤ 1) (negative : Bool) :
    readNumeral negative ds = some (⟨negative, ds, none, none⟩, []) := by
  have htake : takeDigits ds = (ds, []) := by
    simp only [takeDigits, List.takeWhile_eq_self_iff.2 hdigits,
      List.dropWhile_eq_nil_iff.2 hdigits]
  have hwhole : ¬ (ds = [] ∨ (ds.head? = some '0' ∧ 1 < ds.length)) := by
    rintro (h | ⟨h, hlength⟩)
    · exact hne h
    · exact absurd (hzero h) (Nat.not_le_of_lt hlength)
  simp only [readNumeral, htake, if_neg hwhole]
  rfl

/-- A number without a sign is read by its first digit. -/
theorem read_of_digits {ds : List Char} (hne : ds ≠ []) (hdigits : ∀ c ∈ ds, c.isDigit)
    (hzero : ds.head? = some '0' → ds.length ≤ 1) :
    read ds = some (.number ⟨false, ds, none, none⟩) := by
  obtain ⟨c, ds, rfl⟩ := List.exists_cons_of_ne_nil hne
  have hc : c.isDigit := hdigits c List.mem_cons_self
  have hplain : ∀ c' : Char, c'.isDigit = false → c ≠ c' := by
    rintro _ hc' rfl
    rw [hc] at hc'
    cases hc'
  rw [read, readValue_of_plain (skipSpace_cons (not_isSpace_of_isDigit hc) ds) (hplain _ rfl)
    (hplain _ rfl) (hplain _ rfl) (hplain _ rfl), if_pos hc,
    readNumeral_of_digits hne hdigits hzero]
  rfl

/-- A written machine word reads as itself. -/
theorem reads_toString {n : Nat} (hn : n ≤ wordMax) : Reads word? (toString n) n := by
  have hzero : (Nat.toDigits 10 n).head? = some '0' → (Nat.toDigits 10 n).length ≤ 1 := by
    rw [Text.head?_toDigits_eq_zero_iff]
    rintro rfl
    decide
  have hdigits : ∀ c ∈ Nat.toDigits 10 n, c.isDigit := fun _ =>
    Nat.isDigit_of_mem_toDigits (by decide) (by decide)
  rw [Reads, Nat.toString_eq_ofList_toDigits, String.toList_ofList,
    read_of_digits Nat.toDigits_ne_nil hdigits hzero]
  simp [word?, Numeral.toWord?, Text.appendDigits_toDigits hn, Except.toOption]

end Numbers

/-- A nullable value reads as itself by a rule that does not take `null` for a value. -/
theorem reads_writeNullable {o : Option α} (hnull : rule .null = none)
    (h : ∀ x ∈ o, Reads rule (write x) x) : Reads (nullable rule) (writeNullable write o) o := by
  cases o with
  | none =>
    have hread : read "null".toList = some .null := rfl
    rw [Reads, writeNullable, hread]
    rfl
  | some x =>
    obtain ⟨v, hread, hrule⟩ := Option.bind_eq_some_iff.1 (h x rfl)
    have hv : nullable rule v = (rule v).map some := by
      cases v
      case null =>
        rw [hnull] at hrule
        cases hrule
      all_goals rfl
    rw [Reads, writeNullable, hread, Option.bind_some, hv, hrule, Option.map_some]

section Joined

/-- A text that reads as a value does so in front of whatever does not go on with a number. -/
theorem readValue_of_read {t rest : List Char} {v : Value} {fuel : Nat} (h : read t = some v)
    (hfuel : 2 * t.length + 2 ≤ fuel) (hrest : Ends rest) :
    ∃ blank, skipSpace blank = [] ∧ readValue fuel (t ++ rest) = some (v, blank ++ rest) := by
  unfold read at h
  split at h
  case h_1 v' blank hvalue =>
    split at h
    case isTrue hblank =>
      cases h
      exact ⟨blank, hblank, readValue_append hvalue hfuel hrest⟩
    case isFalse => cases h
  case h_2 => cases h

/-- After the first item comes a comma with more items, or the closing bracket. -/
theorem readItems_of_read {t rest : List Char} {v : Value} {fuel : Nat} (h : read t = some v)
    (hfuel : 2 * t.length + 2 ≤ fuel) (hrest : Ends rest) :
    readItems (fuel + 1) (t ++ rest) =
      match skipSpace rest with
      | ',' :: rest => (readItems fuel rest).map fun p => (v :: p.1, p.2)
      | ']' :: rest => some ([v], rest)
      | _ => none := by
  obtain ⟨blank, hblank, hread⟩ := readValue_of_read h hfuel hrest
  rewrite [readItems, hread, ← skipSpace_append_of_eq_nil hblank rest]
  rfl

/-- Joined texts are read as items up to the closing bracket, each as by itself. -/
theorem readItems_intercalate {t : List Char} {ts : List (List Char)} {vs : List Value}
    (h : List.Forall₂ (fun t v => read t = some v) (t :: ts) vs) {fuel : Nat}
    (hfuel : 2 * ([','].intercalate (t :: ts)).length + 3 ≤ fuel) (rest : List Char) :
    readItems fuel ([','].intercalate (t :: ts) ++ ']' :: rest) = some (vs, rest) := by
  induction ts generalizing t vs fuel with
  | nil =>
    obtain ⟨v, _, hv, hvs, rfl⟩ := List.forall₂_cons_left_iff.1 h
    cases hvs
    rw [List.intercalate_singleton] at hfuel ⊢
    obtain ⟨fuel, rfl⟩ : ∃ n, fuel = n + 1 := ⟨fuel - 1, by omega⟩
    rw [readItems_of_read hv (by omega) (ends_cons.2 (by decide)), skipSpace_cons (by decide)]
    rfl
  | cons t' ts ih =>
    obtain ⟨v, vs, hv, hvs, rfl⟩ := List.forall₂_cons_left_iff.1 h
    rw [List.intercalate_cons_cons] at hfuel ⊢
    simp only [List.length_append, List.length_singleton] at hfuel
    obtain ⟨fuel, rfl⟩ : ∃ n, fuel = n + 1 := ⟨fuel - 1, by omega⟩
    rw [List.append_assoc, List.append_assoc, List.singleton_append,
      readItems_of_read hv (by omega) (ends_cons.2 (by decide)), skipSpace_cons (by decide)]
    simp only [ih hvs (show _ ≤ fuel by omega), Option.map_some]

/-- A written list is read item by item. -/
theorem read_writeList {ts : List String} {vs : List Value}
    (h : List.Forall₂ (fun t v => read t.toList = some v) ts vs) :
    read (writeList ts).toList = some (.array vs) := by
  have htext : (writeList ts).toList =
      '[' :: ([','].intercalate (ts.map String.toList) ++ [']']) := by
    simp [writeList, String.toList_intercalate]
  rw [read, htext]
  cases ts with
  | nil =>
    cases h
    rfl
  | cons t ts =>
    rw [List.map_cons]
    have htexts : List.Forall₂ (fun t v => read t = some v) (t.toList :: ts.map String.toList) vs :=
      List.forall₂_map_left_iff (l := t :: ts).2 h
    have hitems := readItems_intercalate htexts
      (show _ ≤ 2 * ('[' :: ([','].intercalate (t.toList :: ts.map String.toList) ++
        [']'])).length + 1 by simp; omega) []
    rw [readValue_of_items (skipSpace_cons (by decide) _) hitems]
    rfl

/-- A written list reads as itself if its items do. -/
theorem reads_writeList {xs : List α} (h : ∀ x ∈ xs, Reads rule (write x) x) :
    Reads (list? rule) (writeList (xs.map write)) xs := by
  obtain ⟨vs, hread, hrule⟩ : ∃ vs,
      List.Forall₂ (fun t v => read t.toList = some v) (xs.map write) vs ∧
        vs.mapM rule = some xs := by
    induction xs with
    | nil => exact ⟨[], .nil, rfl⟩
    | cons x xs ih =>
      obtain ⟨hx, hxs⟩ := List.forall_mem_cons.1 h
      obtain ⟨v, hread, hrule⟩ := Option.bind_eq_some_iff.1 hx
      obtain ⟨vs, hreads, hrules⟩ := ih hxs
      exact ⟨v :: vs, .cons hread hreads, by simp [hrule, hrules]⟩
  rw [Reads, read_writeList hread, Option.bind_some, list?, hrule]

/-- A field with the value that its text holds. -/
def FieldReads (f : String × String) (v : String × Value) : Prop :=
  v.1 = f.1 ∧ read f.2.toList = some v.2

/-- The characters of a written field. -/
def fieldText (f : String × String) : List Char :=
  '"' :: (f.1.toList.flatMap escapeChar ++ '"' :: ':' :: f.2.toList)

/-- After the first field comes a comma with more fields, or the closing brace. -/
theorem readFields_of_read {f : String × String} {rest : List Char} {v : Value} {fuel : Nat}
    (h : read f.2.toList = some v) (hfuel : 2 * f.2.toList.length + 2 ≤ fuel) (hrest : Ends rest) :
    readFields (fuel + 1) (fieldText f ++ rest) =
      match skipSpace rest with
      | ',' :: rest => (readFields fuel rest).map fun p => ((some f.1, v) :: p.1, p.2)
      | '\x7d' :: rest => some ([(some f.1, v)], rest)
      | _ => none := by
  have htext : fieldText f ++ rest =
      '"' :: (f.1.toList.flatMap escapeChar ++ '"' :: ':' :: (f.2.toList ++ rest)) := by
    simp [fieldText]
  obtain ⟨blank, hblank, hread⟩ := readValue_of_read h hfuel hrest
  rw [htext, readFields, skipSpace_cons (by decide)]
  simp only [readString_flatMap_escapeChar, String.ofList_toList,
    skipSpace_cons (show isSpace ':' = false by decide), hread]
  rewrite [skipSpace_append_of_eq_nil hblank]
  rfl

/-- Joined fields are read up to the closing brace, the value of each as by itself. -/
theorem readFields_intercalate {f : String × String} {fs : List (String × String)}
    {vs : List (String × Value)}
    (h : List.Forall₂ FieldReads (f :: fs) vs) {fuel : Nat}
    (hfuel : 2 * ([','].intercalate ((f :: fs).map fieldText)).length + 3 ≤ fuel)
    (rest : List Char) :
    readFields fuel ([','].intercalate ((f :: fs).map fieldText) ++ '\x7d' :: rest) =
      some (vs.map fun v => (some v.1, v.2), rest) := by
  have hlength : ∀ f : String × String, f.2.toList.length ≤ (fieldText f).length := fun f => by
    simp only [fieldText, List.length_cons, List.length_append]
    omega
  have hf := hlength f
  induction fs generalizing f vs fuel with
  | nil =>
    obtain ⟨v, _, ⟨hname, hv⟩, hvs, rfl⟩ := List.forall₂_cons_left_iff.1 h
    cases hvs
    rw [List.map_singleton, List.intercalate_singleton] at hfuel ⊢
    obtain ⟨fuel, rfl⟩ : ∃ n, fuel = n + 1 := ⟨fuel - 1, by omega⟩
    rw [readFields_of_read hv (by omega) (ends_cons.2 (by decide)), skipSpace_cons (by decide)]
    simp only [hname, List.map_singleton]
  | cons f' fs ih =>
    obtain ⟨v, vs, ⟨hname, hv⟩, hvs, rfl⟩ := List.forall₂_cons_left_iff.1 h
    rw [List.map_cons, List.map_cons, List.intercalate_cons_cons, ← List.map_cons] at hfuel ⊢
    simp only [List.length_append, List.length_singleton] at hfuel
    obtain ⟨fuel, rfl⟩ : ∃ n, fuel = n + 1 := ⟨fuel - 1, by omega⟩
    rw [List.append_assoc, List.append_assoc, List.singleton_append,
      readFields_of_read hv (by omega) (ends_cons.2 (by decide)), skipSpace_cons (by decide)]
    simp only [ih hvs (show _ ≤ fuel by omega) (hlength f'), Option.map_some]
    rw [List.map_cons, hname]

/-- A written object is read field by field. -/
theorem read_writeObject {fs : List (String × String)} {vs : List (String × Value)}
    (h : List.Forall₂ FieldReads fs vs) :
    read (writeObject fs).toList = some (.object (vs.map fun v => (some v.1, v.2))) := by
  have htext : (writeObject fs).toList =
      '\x7b' :: ([','].intercalate (fs.map fieldText) ++ ['\x7d']) := by
    have hfield : String.toList ∘ (fun f : String × String => writeString f.1 ++ ":" ++ f.2) =
        fieldText := by
      funext f
      simp [fieldText, toList_writeString]
    simp [writeObject, String.toList_intercalate, hfield]
  rw [read, htext]
  cases fs with
  | nil =>
    cases h
    rfl
  | cons f fs =>
    have hfields := readFields_intercalate h
      (show _ ≤ 2 * ('\x7b' :: ([','].intercalate ((f :: fs).map fieldText) ++
        ['\x7d'])).length + 1 by simp; omega) []
    rw [readValue_of_fields (skipSpace_cons (by decide) _) hfields]
    rfl

end Joined

end TieredWeights.Json
