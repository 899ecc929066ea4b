import Mathlib.Data.List.Basic
import TieredWeights.Binary64.Decimal
import TieredWeights.Json

/-!
# Reading in any surroundings

What a text reads as does not depend on what follows it, nor on how much fuel there is, as long as
there is enough: a value is cut off where it ends. Only a number has no mark at its end, so what
follows it must not go on with it. The proof follows the reading, from digits and escapes up to
values, items and fields.
-/
namespace TieredWeights.Json

/-- A text that goes on with no number before it. -/
def Ends (rest : List Char) : Prop :=
  ∀ c ∈ rest.head?, c.isDigit = false ∧ c ≠ '.' ∧ c ≠ 'e' ∧ c ≠ 'E'

theorem ends_cons {c : Char} {rest : List Char} :
    Ends (c :: rest) ↔ c.isDigit = false ∧ c ≠ '.' ∧ c ≠ 'e' ∧ c ≠ 'E' := by
  simp [Ends]

section Blanks

theorem skipSpace_cons {c : Char} (hc : isSpace c = false) (s : List Char) :
    skipSpace (c :: s) = c :: s := by
  simp [skipSpace, hc]

theorem skipSpace_append_of_eq_cons {s tail : List Char} {c : Char} (h : skipSpace s = c :: tail)
    (rest : List Char) : skipSpace (s ++ rest) = c :: (tail ++ rest) := by
  rw [skipSpace] at h ⊢
  rw [List.dropWhile_append, h]
  rfl

theorem skipSpace_append_of_eq_nil {s : List Char} (h : skipSpace s = []) (rest : List Char) :
    skipSpace (s ++ rest) = skipSpace rest := by
  rw [skipSpace] at h ⊢
  rw [List.dropWhile_append, h]
  rfl

theorem isSpace_of_skipSpace {s tail : List Char} {c : Char} (h : skipSpace s = c :: tail) :
    isSpace c = false := by
  have hhead := List.head?_dropWhile_not isSpace s
  rw [← skipSpace, h] at hhead
  simpa using hhead

theorem skipSpace_skipSpace (s : List Char) : skipSpace (skipSpace s) = skipSpace s := by
  cases h : skipSpace s with
  | nil => rfl
  | cons c tail => exact skipSpace_cons (isSpace_of_skipSpace h) tail

end Blanks

variable {s r rest : List Char}

section Numbers

theorem takeDigits_append (hrest : Ends rest) :
    takeDigits (s ++ rest) = ((takeDigits s).1, (takeDigits s).2 ++ rest) := by
  induction s with
  | nil =>
    cases rest with
    | nil => rfl
    | cons c rest => simp [takeDigits, (ends_cons.1 hrest).1]
  | cons c s ih =>
    simp only [takeDigits, Prod.mk.injEq] at ih
    by_cases hc : c.isDigit <;> simp [takeDigits, hc, ih.1, ih.2]

theorem readPlaces_of_ne {c : Char} (hc : c ≠ '.') (s : List Char) :
    readPlaces (c :: s) = some (none, c :: s) := by
  simp [readPlaces, hc]

theorem readPlaces_append {places : Option (List Char)} (h : readPlaces s = some (places, r))
    (hrest : Ends rest) : readPlaces (s ++ rest) = some (places, r ++ rest) := by
  cases s with
  | nil =>
    cases h
    cases rest with
    | nil => rfl
    | cons c rest => exact readPlaces_of_ne (ends_cons.1 hrest).2.1 rest
  | cons c s =>
    by_cases hc : c = '.'
    · subst hc
      simp only [List.cons_append, readPlaces, takeDigits_append hrest] at h ⊢
      rcases htake : takeDigits s with ⟨_ | ⟨d, digits⟩, tail⟩ <;> rw [htake] at h
      · cases h
      · cases h
        rfl
    · rw [readPlaces_of_ne hc] at h
      cases h
      exact readPlaces_of_ne hc (s ++ rest)

theorem takeSign_append (hs : s ≠ []) (rest : List Char) : Binary64.takeSign (s ++ rest) =
    ((Binary64.takeSign s).1, (Binary64.takeSign s).2 ++ rest) := by
  cases s with
  | nil => contradiction
  | cons c s =>
    rw [List.cons_append]
    unfold Binary64.takeSign
    split <;> simp_all

theorem readPower_of_mark {c : Char} (hc : c = 'e' ∨ c = 'E') (s : List Char) :
    readPower (c :: s) =
      match takeDigits (Binary64.takeSign s).2 with
      | ([], _) => none
      | (digits, rest) => some (some ((Binary64.takeSign s).1, digits), rest) := if_pos hc

theorem readPower_of_ne {c : Char} (hc : ¬ (c = 'e' ∨ c = 'E')) (s : List Char) :
    readPower (c :: s) = some (none, c :: s) := if_neg hc

theorem readPower_append {power : Option (Bool × List Char)} (h : readPower s = some (power, r))
    (hrest : Ends rest) : readPower (s ++ rest) = some (power, r ++ rest) := by
  cases s with
  | nil =>
    cases h
    cases rest with
    | nil => rfl
    | cons c rest => exact readPower_of_ne (not_or.2 (ends_cons.1 hrest).2.2) rest
  | cons c s =>
    rw [List.cons_append]
    by_cases hc : c = 'e' ∨ c = 'E'
    · rw [readPower_of_mark hc] at h ⊢
      -- the digits of the power keep what follows away from its sign
      have hs : s ≠ [] := by
        rintro rfl
        cases h
      rw [takeSign_append hs, takeDigits_append hrest]
      rcases htake : takeDigits (Binary64.takeSign s).2 with ⟨_ | ⟨d, digits⟩, tail⟩ <;>
        rw [htake] at h <;> cases h
      rfl
    · rw [readPower_of_ne hc] at h ⊢
      cases h
      rfl

theorem readNumeral_append {negative : Bool} {n : Numeral}
    (h : readNumeral negative s = some (n, r))
    (hrest : Ends rest) : readNumeral negative (s ++ rest) = some (n, r ++ rest) := by
  simp only [readNumeral, takeDigits_append hrest] at h ⊢
  split at h
  case isTrue => cases h
  case isFalse hwhole =>
    rw [if_neg hwhole]
    obtain ⟨⟨places, r₁⟩, hplaces, h⟩ := Option.bind_eq_some_iff.1 h
    obtain ⟨⟨power, r₂⟩, hpower, h⟩ := Option.bind_eq_some_iff.1 h
    cases h
    simp only [readPlaces_append hplaces hrest, readPower_append hpower hrest, Option.bind_eq_bind,
      Option.bind_some]

end Numbers

section Strings

theorem readHex_append {n : Nat} (h : readHex s = some (n, r)) (rest : List Char) :
    readHex (s ++ rest) = some (n, r ++ rest) := by
  unfold readHex at h
  split at h
  case h_1 a b c d tail =>
    obtain ⟨a', ha, h⟩ := Option.bind_eq_some_iff.1 h
    obtain ⟨b', hb, h⟩ := Option.bind_eq_some_iff.1 h
    obtain ⟨c', hc, h⟩ := Option.bind_eq_some_iff.1 h
    obtain ⟨d', hd, h⟩ := Option.bind_eq_some_iff.1 h
    cases h
    simp [readHex, ha, hb, hc, hd]
  case h_2 => cases h

theorem readEscape_append {p : Piece} (h : readEscape s = some (p, r)) (rest : List Char) :
    readEscape (s ++ rest) = some (p, r ++ rest) := by
  unfold readEscape at h
  split at h
  case h_9 tail =>
    obtain ⟨⟨n, tail'⟩, hhex, h⟩ := Option.map_eq_some_iff.1 h
    cases h
    simp [readEscape, readHex_append hhex]
  case h_10 => cases h
  all_goals
    cases h
    rfl

/-- A character that is no mark stands for itself, unless it is a control. -/
theorem readPieces_of_plain {fuel : Nat} {c : Char} (hquote : c ≠ '"') (hslash : c ≠ '\\')
    (s : List Char) :
    readPieces (fuel + 1) (c :: s) =
      if c.toNat < 0x20 then none
      else (readPieces fuel s).map fun p => (.char c :: p.1, p.2) := by
  rw [readPieces]
  · cases readPieces fuel s <;> rfl
  · exact hquote
  · exact hslash

theorem readPieces_append {fuel fuel' : Nat} {ps : List Piece}
    (h : readPieces fuel s = some (ps, r)) (hfuel : fuel ≤ fuel') (rest : List Char) :
    readPieces fuel' (s ++ rest) = some (ps, r ++ rest) := by
  induction fuel, s using readPieces.induct generalizing fuel' ps with
  | case1 => cases h
  | case2 => cases h
  | case3 fuel s =>
    obtain ⟨fuel', rfl⟩ : ∃ n, fuel' = n + 1 := ⟨fuel' - 1, by omega⟩
    cases h
    rfl
  | case4 fuel s ih =>
    obtain ⟨fuel', rfl⟩ : ∃ n, fuel' = n + 1 := ⟨fuel' - 1, by omega⟩
    rw [readPieces] at h
    obtain ⟨⟨p, r₁⟩, hescape, h⟩ := Option.bind_eq_some_iff.1 h
    obtain ⟨⟨ps', r₂⟩, hpieces, h⟩ := Option.bind_eq_some_iff.1 h
    cases h
    simp only [List.cons_append, readPieces, readEscape_append hescape,
      ih r₁ hpieces (Nat.le_of_succ_le_succ hfuel), Option.bind_eq_bind, Option.bind_some]
  | case5 fuel c s hquote hslash hc =>
    rw [readPieces_of_plain hquote hslash, if_pos hc] at h
    cases h
  | case6 fuel c s hquote hslash hc ih =>
    obtain ⟨fuel', rfl⟩ : ∃ n, fuel' = n + 1 := ⟨fuel' - 1, by omega⟩
    rw [readPieces_of_plain hquote hslash, if_neg hc] at h
    obtain ⟨⟨ps', r₁⟩, hpieces, h⟩ := Option.map_eq_some_iff.1 h
    cases h
    rw [List.cons_append, readPieces_of_plain hquote hslash, if_neg hc,
      ih hpieces (Nat.le_of_succ_le_succ hfuel), Option.map_some]

theorem readString_append {text : Option String} (h : readString s = some (text, r))
    (rest : List Char) : readString (s ++ rest) = some (text, r ++ rest) := by
  obtain ⟨⟨pieces, r'⟩, hpieces, h⟩ := Option.bind_eq_some_iff.1 h
  cases h
  have hlength : s.length + 1 ≤ (s ++ rest).length + 1 := by simp
  simp only [readString, readPieces_append hpieces hlength rest, Option.bind_eq_bind,
    Option.bind_some]

end Strings

theorem readWord_append {word : String} {v v' : Value} (h : readWord word v s = some (v', r))
    (rest : List Char) : readWord word v (s ++ rest) = some (v', r ++ rest) := by
  unfold readWord at h ⊢
  split at h
  case isFalse => cases h
  case isTrue hprefix =>
    obtain ⟨tail, rfl⟩ := List.isPrefixOf_iff_prefix.1 hprefix
    cases h
    rw [if_pos (List.isPrefixOf_iff_prefix.2 ?_)]
    · simp
    · rw [List.append_assoc]
      exact List.prefix_append _ _

section Marks

theorem readValue_skipSpace (fuel : Nat) (s : List Char) :
    readValue fuel (skipSpace s) = readValue fuel s := by
  cases fuel with
  | zero => rfl
  | succ fuel => rw [readValue, readValue, skipSpace_skipSpace]

theorem readItems_skipSpace (fuel : Nat) (s : List Char) :
    readItems fuel (skipSpace s) = readItems fuel s := by
  cases fuel with
  | zero => rfl
  | succ fuel => rw [readItems, readItems, readValue_skipSpace]

theorem readFields_skipSpace (fuel : Nat) (s : List Char) :
    readFields fuel (skipSpace s) = readFields fuel s := by
  cases fuel with
  | zero => rfl
  | succ fuel => rw [readFields, readFields, skipSpace_skipSpace]

/-- No item begins with a closing bracket. -/
theorem readItems_of_closing {fuel : Nat} {tail : List Char} (hs : skipSpace s = ']' :: tail) :
    readItems fuel s = none := by
  cases fuel with
  | zero => rfl
  | succ fuel =>
    have hvalue : readValue fuel s = none := by
      cases fuel with
      | zero => rfl
      | succ fuel =>
        rw [readValue, hs]
        rfl
    rw [readItems, hvalue]

/-- No field begins with a closing brace. -/
theorem readFields_of_closing {fuel : Nat} {tail : List Char} (hs : skipSpace s = '\x7d' :: tail) :
    readFields fuel s = none := by
  cases fuel with
  | zero => rfl
  | succ fuel =>
    rw [readFields, hs]
    rfl

/-- What is read after an opening bracket. -/
theorem readValue_of_bracket {fuel : Nat} {tail : List Char} (hs : skipSpace s = '[' :: tail) :
    readValue (fuel + 1) s =
      match skipSpace tail with
      | ']' :: rest => some (.array [], rest)
      | rest => (readItems fuel rest).map fun p => (.array p.1, p.2) := by
  rw [readValue, hs]
  rfl

/-- An array with items. -/
theorem readValue_of_items {fuel : Nat} {tail : List Char} {vs : List Value}
    (hs : skipSpace s = '[' :: tail) (h : readItems fuel tail = some (vs, r)) :
    readValue (fuel + 1) s = some (.array vs, r) := by
  rw [readValue_of_bracket hs]
  split
  case h_1 tail' hs' =>
    rw [readItems_of_closing hs'] at h
    cases h
  case h_2 =>
    rw [readItems_skipSpace, h]
    rfl

/-- What is read after an opening brace. -/
theorem readValue_of_brace {fuel : Nat} {tail : List Char} (hs : skipSpace s = '\x7b' :: tail) :
    readValue (fuel + 1) s =
      match skipSpace tail with
      | '\x7d' :: rest => some (.object [], rest)
      | rest => (readFields fuel rest).map fun p => (.object p.1, p.2) := by
  rw [readValue, hs]
  rfl

/-- An object with fields. -/
theorem readValue_of_fields {fuel : Nat} {tail : List Char}
    {fields : List (Option String × Value)} (hs : skipSpace s = '\x7b' :: tail)
    (h : readFields fuel tail = some (fields, r)) :
    readValue (fuel + 1) s = some (.object fields, r) := by
  rw [readValue_of_brace hs]
  split
  case h_1 tail' hs' =>
    rw [readFields_of_closing hs'] at h
    cases h
  case h_2 =>
    rw [readFields_skipSpace, h]
    rfl

/-- A number without a sign, or a word. -/
theorem readValue_of_plain {fuel : Nat} {c : Char} {tail : List Char} (hs : skipSpace s = c :: tail)
    (hquote : c ≠ '"') (hbracket : c ≠ '[') (hbrace : c ≠ '\x7b') (hminus : c ≠ '-') :
    readValue (fuel + 1) s =
      if c.isDigit then (readNumeral false (c :: tail)).map fun p => (.number p.1, p.2)
      else if c = 'n' then readWord "null" .null (c :: tail)
      else if c = 't' then readWord "true" (.bool true) (c :: tail)
      else if c = 'f' then readWord "false" (.bool false) (c :: tail)
      else none := by
  rw [readValue, hs]
  split <;> simp_all

end Marks

mutual

theorem readValue_append {fuel fuel' : Nat} {s r : List Char} {v : Value}
    (h : readValue fuel s = some (v, r)) (hfuel : fuel ≤ fuel') {rest : List Char}
    (hrest : Ends rest) : readValue fuel' (s ++ rest) = some (v, r ++ rest) := by
  cases fuel with
  | zero => cases h
  | succ fuel =>
  obtain ⟨fuel', rfl⟩ : ∃ n, fuel' = n + 1 := ⟨fuel' - 1, by omega⟩
  have hfuel : fuel ≤ fuel' := by omega
  unfold readValue at h
  split at h
  case h_1 => cases h
  case h_2 tail hs =>
    obtain ⟨⟨text, r₁⟩, hstring, h⟩ := Option.map_eq_some_iff.1 h
    cases h
    rw [readValue, skipSpace_append_of_eq_cons hs]
    simp only [readString_append hstring, Option.map_some]
  case h_3 tail hs =>
    have hs := skipSpace_append_of_eq_cons hs rest
    split at h
    case h_1 tail' hs' =>
      cases h
      rw [readValue_of_bracket hs, skipSpace_append_of_eq_cons hs']
      rfl
    case h_2 =>
      obtain ⟨⟨vs, r₁⟩, hitems, h⟩ := Option.map_eq_some_iff.1 h
      cases h
      rw [readItems_skipSpace] at hitems
      exact readValue_of_items hs (readItems_append hitems hfuel hrest)
  case h_4 tail hs =>
    have hs := skipSpace_append_of_eq_cons hs rest
    split at h
    case h_1 tail' hs' =>
      cases h
      rw [readValue_of_brace hs, skipSpace_append_of_eq_cons hs']
      rfl
    case h_2 =>
      obtain ⟨⟨fields, r₁⟩, hfields, h⟩ := Option.map_eq_some_iff.1 h
      cases h
      rw [readFields_skipSpace] at hfields
      exact readValue_of_fields hs (readFields_append hfields hfuel hrest)
  case h_5 tail hs =>
    obtain ⟨⟨n, r₁⟩, hnumeral, h⟩ := Option.map_eq_some_iff.1 h
    cases h
    rw [readValue, skipSpace_append_of_eq_cons hs]
    simp only [readNumeral_append hnumeral hrest, Option.map_some]
  case h_6 c tail hquote hbracket hbrace hminus hs =>
    rw [readValue_of_plain (skipSpace_append_of_eq_cons hs rest) hquote hbracket hbrace hminus]
    split at h
    case isTrue hdigit =>
      obtain ⟨⟨n, r₁⟩, hnumeral, h⟩ := Option.map_eq_some_iff.1 h
      cases h
      have happend := readNumeral_append hnumeral hrest
      rw [List.cons_append] at happend
      rw [if_pos hdigit, happend]
      rfl
    case isFalse hdigit =>
      rw [if_neg hdigit]
      rw [← List.cons_append]
      split at h
      case isTrue hc => rw [if_pos hc, readWord_append h]
      case isFalse hc =>
        rw [if_neg hc]
        split at h
        case isTrue hc => rw [if_pos hc, readWord_append h]
        case isFalse hc =>
          rw [if_neg hc]
          split at h
          case isTrue hc => rw [if_pos hc, readWord_append h]
          case isFalse hc => cases h

theorem readItems_append {fuel fuel' : Nat} {s r : List Char} {vs : List Value}
    (h : readItems fuel s = some (vs, r)) (hfuel : fuel ≤ fuel') {rest : List Char}
    (hrest : Ends rest) : readItems fuel' (s ++ rest) = some (vs, r ++ rest) := by
  cases fuel with
  | zero => cases h
  | succ fuel =>
  obtain ⟨fuel', rfl⟩ : ∃ n, fuel' = n + 1 := ⟨fuel' - 1, by omega⟩
  have hfuel : fuel ≤ fuel' := by omega
  unfold readItems at h
  split at h
  case h_1 => cases h
  case h_2 v r₁ hvalue =>
    rw [readItems, readValue_append hvalue hfuel hrest]
    split at h
    case h_1 tail hs =>
      obtain ⟨⟨vs', r₂⟩, hitems, h⟩ := Option.map_eq_some_iff.1 h
      cases h
      simp only [skipSpace_append_of_eq_cons hs, readItems_append hitems hfuel hrest,
        Option.map_some]
    case h_2 tail hs =>
      cases h
      simp only [skipSpace_append_of_eq_cons hs]
    case h_3 => cases h

theorem readFields_append {fuel fuel' : Nat} {s r : List Char}
    {fields : List (Option String × Value)} (h : readFields fuel s = some (fields, r))
    (hfuel : fuel ≤ fuel') {rest : List Char} (hrest : Ends rest) :
    readFields fuel' (s ++ rest) = some (fields, r ++ rest) := by
  cases fuel with
  | zero => cases h
  | succ fuel =>
  obtain ⟨fuel', rfl⟩ : ∃ n, fuel' = n + 1 := ⟨fuel' - 1, by omega⟩
  have hfuel : fuel ≤ fuel' := by omega
  unfold readFields at h
  split at h
  case h_2 => cases h
  case h_1 tail hs =>
    rw [readFields, skipSpace_append_of_eq_cons hs]
    split at h
    case h_1 => cases h
    case h_2 name r₁ hname =>
      split at h
      case h_2 => cases h
      case h_1 tail₁ hs₁ =>
        split at h
        case h_1 => cases h
        case h_2 v r₂ hvalue =>
          simp only [readString_append hname, skipSpace_append_of_eq_cons hs₁,
            readValue_append hvalue hfuel hrest]
          split at h
          case h_1 tail₂ hs₂ =>
            obtain ⟨⟨fields', r₃⟩, hfields, h⟩ := Option.map_eq_some_iff.1 h
            cases h
            simp only [skipSpace_append_of_eq_cons hs₂, readFields_append hfields hfuel hrest,
              Option.map_some]
          case h_2 tail₂ hs₂ =>
            cases h
            simp only [skipSpace_append_of_eq_cons hs₂]
          case h_3 => cases h

end

end TieredWeights.Json
