import Mathlib.Data.String.Basic
import TieredWeights.Checkpoint
import TieredWeights.Proofs.Bindings

/-!
# Blocks cut out of a checkpoint

The names that begin with one text stand together in the order of names, and that stretch begins at
the text itself. So a scan that starts there and stops at the first other name misses none of them:
a block has all parameters under its stem and nothing else, in the order of their full names. That
order is the one of the bytes that encode them.
-/
namespace TieredWeights

section Bytes

/-- A later character is encoded by later bytes, whatever follows. -/
theorem utf8EncodeChar_append_lt {c d : Char} (h : c < d) (x y : List UInt8) :
    String.utf8EncodeChar c ++ x < String.utf8EncodeChar d ++ y := by
  have hlt : c.val.toNat < d.val.toNat := h
  have hd : d.val.toNat < 0x110000 := by
    rcases d.valid with h | h <;> omega
  -- every byte after the first carries six bits, so the quotients are taken step by step
  have hthird (n : Nat) : n / 4096 = n / 64 / 64 := (Nat.div_div_eq_div_mul n 64 64).symm
  have hfourth (n : Nat) : n / 262144 = n / 64 / 64 / 64 := by
    rw [Nat.div_div_eq_div_mul, Nat.div_div_eq_div_mul]
  unfold String.utf8EncodeChar
  simp only [hthird, hfourth]
  split_ifs <;>
    simp only [List.cons_append, List.nil_append, List.cons_lt_cons_iff, UInt8.lt_iff_toNat_lt,
      ← UInt8.toNat_inj, UInt8.toNat_ofNat'] <;>
    omega

theorem flatMap_utf8EncodeChar_lt {l m : List Char} (h : l < m) :
    l.flatMap String.utf8EncodeChar < m.flatMap String.utf8EncodeChar := by
  induction l generalizing m with
  | nil =>
    cases m with
    | nil => exact absurd h (List.not_lt_nil [])
    | cons d m =>
      have hd : String.utf8EncodeChar d ≠ [] := by
        rw [← List.length_pos_iff, String.length_utf8EncodeChar]
        exact d.utf8Size_pos
      obtain ⟨b, bs, hbs⟩ := List.exists_cons_of_ne_nil hd
      rw [List.flatMap_cons, hbs]
      exact List.nil_lt_cons _ _
  | cons c l ih =>
    cases m with
    | nil => exact absurd h (List.not_lt_nil _)
    | cons d m =>
      rw [List.flatMap_cons, List.flatMap_cons]
      rcases List.cons_lt_cons_iff.1 h with hcd | ⟨rfl, hlm⟩
      · exact utf8EncodeChar_append_lt hcd _ _
      · exact List.append_left_lt (ih hlm)

/-- Texts stand in the order of their bytes. -/
theorem bytes_lt_iff {s t : String} : s.toUTF8.data.toList < t.toUTF8.data.toList ↔ s < t := by
  have hbytes (s : String) : s.toUTF8.data.toList = s.toList.flatMap String.utf8EncodeChar := by
    rw [String.toUTF8_eq_toByteArray, ← String.utf8Encode_toList, List.utf8Encode]
    simp
  rw [hbytes, hbytes, String.lt_iff]
  refine ⟨fun h => ?_, flatMap_utf8EncodeChar_lt⟩
  by_contra hnot
  rcases lt_or_eq_of_le (not_lt.1 hnot) with hlt | heq
  · exact List.lt_asymm h (flatMap_utf8EncodeChar_lt hlt)
  · rw [heq] at h
    exact List.lt_irrefl _ h

end Bytes

/-- A text that begins with another is not before it. -/
theorem not_lt_of_isPrefix {start name : List Char} (h : start <+: name) : ¬ name < start := by
  obtain ⟨rest, rfl⟩ := h
  exact List.not_lt.2 List.le_append_left

/-- Texts between a text and one that begins with it begin with it too. By induction on the text. -/
theorem isPrefix_of_between {start name later : List Char} (hstart : ¬ name < start)
    (hlater : name < later) (h : start <+: later) : start <+: name := by
  induction start generalizing name later with
  | nil => exact List.nil_prefix
  | cons c start ih =>
    obtain ⟨rest, rfl⟩ := h
    cases name with
    | nil => exact absurd (List.nil_lt_cons c start) hstart
    | cons d name =>
      rw [List.cons_append, List.cons_lt_cons_iff] at hlater
      rw [List.cons_lt_cons_iff, not_or] at hstart
      obtain ⟨hdc, htail⟩ := hstart
      obtain ⟨rfl, hlt⟩ := hlater.resolve_left hdc
      have hnot : ¬ name < start := fun hlt => htail ⟨rfl, hlt⟩
      exact List.cons_prefix_cons.2 ⟨rfl, ih hnot hlt (List.prefix_append start rest)⟩

/-- Parameters with names of their own can be pushed onto a block. -/
theorem Block.pushAll_of_nodup {b : Block} {parameters : List (String × Tensor)}
    (h : ((b.parameters ++ parameters).map (·.1)).Nodup) :
    ∃ b', b.pushAll parameters = .ok b' ∧ b'.parameters = b.parameters ++ parameters := by
  induction parameters generalizing b with
  | nil => exact ⟨b, rfl, (List.append_nil _).symm⟩
  | cons p rest ih =>
    obtain ⟨name, t⟩ := p
    have hnew : name ∉ b.parameters.map (·.1) := fun hmem => by
      rw [List.map_append, List.nodup_append] at h
      exact h.2.2 name hmem name (by simp) rfl
    obtain ⟨b₁, hpush⟩ : ∃ b₁, b.push name t = .ok b₁ := by simp [push, hnew]
    have hb₁ : b₁.parameters ++ rest = b.parameters ++ (name, t) :: rest := by
      rw [parameters_of_push hpush, List.append_assoc, List.singleton_append]
    obtain ⟨b', hall, hparameters⟩ := ih (b := b₁) (by rwa [hb₁])
    exact ⟨b', by simp only [pushAll, hpush, hall], hparameters.trans hb₁⟩

namespace Checkpoint

variable {start name rest : String}

theorem rest?_eq_some_iff : rest? start name = some rest ↔ name = start ++ rest := by
  rw [rest?]
  constructor
  · intro h
    split at h
    case isFalse => cases h
    case isTrue hprefix =>
      obtain ⟨tail, htail⟩ := List.isPrefixOf_iff_prefix.1 hprefix
      cases h
      rw [← htail, List.drop_left, ← String.toList_inj, String.toList_append, String.toList_ofList,
        htail]
  · rintro rfl
    simp

theorem isPrefix_of_rest? (h : rest? start name = some rest) : start.toList <+: name.toList := by
  rw [rest?_eq_some_iff.1 h, String.toList_append]
  exact List.prefix_append _ _

/-- The scan of ascending names from its start on finds all that begin with it. By induction on the
names: once one of them does not begin with the start, no later one does. -/
theorem entriesUnder_eq_filterMap {entries : List (String × Tensor)}
    (hascending : entries.Pairwise fun a b => a.1 < b.1) (hstart : ∀ e ∈ entries, ¬ e.1 < start) :
    entriesUnder start entries =
      entries.filterMap fun e => (rest? start e.1).map fun rest => (rest, e.2) := by
  induction entries with
  | nil => rfl
  | cons e others ih =>
    obtain ⟨name, t⟩ := e
    obtain ⟨hfirst, hothers⟩ := List.pairwise_cons.1 hascending
    cases hrest : rest? start name with
    | some rest =>
      simp only [entriesUnder, hrest, List.filterMap_cons, Option.map_some]
      rw [ih hothers fun e he => hstart e (List.mem_cons_of_mem _ he)]
    | none =>
      have hnone : ∀ e ∈ others, rest? start e.1 = none := by
        intro e he
        by_contra hsome
        obtain ⟨rest, hlater⟩ := Option.ne_none_iff_exists'.1 hsome
        have hname : ¬ name < start := hstart (name, t) List.mem_cons_self
        obtain ⟨tail, htail⟩ := isPrefix_of_between (String.lt_iff.not.1 hname)
          (String.lt_iff.1 (hfirst e he)) (isPrefix_of_rest? hlater)
        have hbegins : name = start ++ String.ofList tail := by
          rw [← String.toList_inj, String.toList_append, String.toList_ofList, htail]
        rw [rest?_eq_some_iff.2 hbegins] at hrest
        cases hrest
      simp only [entriesUnder, hrest, List.filterMap_cons, Option.map_none]
      symm
      rw [List.filterMap_eq_nil_iff]
      intro e he
      rw [hnone e he, Option.map_none]

/-- A scan of all names from the start on finds those that begin with it: the names before the start
do not. -/
theorem entriesUnder_dropWhile {entries : List (String × Tensor)}
    (hascending : entries.Pairwise fun a b => a.1 < b.1) :
    entriesUnder start (entries.dropWhile fun e => compare e.1 start = .lt) =
      entries.filterMap fun e => (rest? start e.1).map fun rest => (rest, e.2) := by
  induction entries with
  | nil => rfl
  | cons e others ih =>
    obtain ⟨hfirst, hothers⟩ := List.pairwise_cons.1 hascending
    by_cases hbefore : compare e.1 start = .lt
    · have hnone : rest? start e.1 = none := by
        by_contra hsome
        obtain ⟨rest, hrest⟩ := Option.ne_none_iff_exists'.1 hsome
        exact not_lt_of_isPrefix (isPrefix_of_rest? hrest)
          (String.lt_iff.1 (compare_lt_iff_lt.1 hbefore))
      rw [List.dropWhile_cons, if_pos (decide_eq_true hbefore), ih hothers, List.filterMap_cons,
        hnone, Option.map_none]
    · rw [List.dropWhile_cons, if_neg (by simpa using hbefore)]
      refine entriesUnder_eq_filterMap hascending fun e' he' => ?_
      have hfrom : ¬ e.1 < start := fun hlt => hbefore (compare_lt_iff_lt.2 hlt)
      rcases List.mem_cons.1 he' with rfl | he'
      · exact hfrom
      · exact fun hlt => hfrom ((hfirst e' he').trans hlt)

-- another layer's name ends the scan, however much of the stem it shares
example (s t : Tensor) :
    entriesUnder "layers.1." [("layers.1.bias", s), ("layers.10.bias", t)] = [("bias", s)] := rfl

/-- A block is cut out of every checkpoint by every stem, an empty one too: its parameters are the
names that stand after the stem and a point in the names bound, in the order of the bytes of these
and with the tensors they are bound to. -/
theorem block_under_stem (c : Checkpoint) (stem : String) :
    ∃ b, c.block stem = .ok b ∧
      (b.parameters.map fun p => (stem ++ "." ++ p.1).toUTF8.data.toList).Pairwise (· < ·) ∧
      ∀ rest t, (rest, t) ∈ b.parameters ↔ c.get? (stem ++ "." ++ rest) = some t := by
  let start := stem ++ "."
  let found := c.tensors.toList.filterMap fun e => (rest? start e.1).map fun rest => (rest, e.2)
  have hascending : c.tensors.toList.Pairwise fun a b => a.1 < b.1 :=
    c.tensors.ascending.imp compare_lt_iff_lt.1
  have hmem (rest : String) (t : Tensor) :
      (rest, t) ∈ found ↔ c.get? (start ++ rest) = some t := by
    rw [get?, ← Table.mem_toList]
    simp [found, rest?_eq_some_iff]
  have hnames : (found.map fun p => start ++ p.1).Pairwise (· < ·) := by
    refine List.pairwise_map.2 (hascending.filterMap _ fun e e' hlt p hp p' hp' => ?_)
    obtain ⟨rest, hrest, rfl⟩ := Option.map_eq_some_iff.1 hp
    obtain ⟨rest', hrest', rfl⟩ := Option.map_eq_some_iff.1 hp'
    rwa [rest?_eq_some_iff.1 hrest, rest?_eq_some_iff.1 hrest'] at hlt
  have hnodup : ((Block.empty.parameters ++ found).map (·.1)).Nodup := by
    refine List.Nodup.of_map (start ++ ·) ?_
    rw [List.map_map]
    exact hnames.imp ne_of_lt
  obtain ⟨b, hb, hparameters⟩ := Block.pushAll_of_nodup hnodup
  have hparameters' : b.parameters = found := hparameters
  refine ⟨b, ?_, ?_, fun rest t => ?_⟩
  · rw [block, entriesUnder_dropWhile hascending]
    exact hb
  · rw [hparameters', List.pairwise_map]
    exact (List.pairwise_map.1 hnames).imp bytes_lt_iff.2
  · rw [hparameters']
    exact hmem rest t

end Checkpoint

end TieredWeights
