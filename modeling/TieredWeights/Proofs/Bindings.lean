import Mathlib.Algebra.BigOperators.Group.Multiset.Basic
import Mathlib.Algebra.GroupWithZero.Nat
import Mathlib.Data.Multiset.Count
import TieredWeights.Text.Numeral
import TieredWeights.Table

/-!
# The bindings of a table

A table lists every binding once: `mem_toList` reads the list through `find?`, so tables that bind
the same are equal. The values of a table are counted as a multiset, in which an insertion adds one
value in place of the value that the key had; counts of references rest on that.
-/
namespace TieredWeights

theorem sumOf_eq_sum (l : List Nat) : sumOf l = l.sum := by
  induction l with
  | nil => rfl
  | cons n l ih => rw [sumOf, ih, List.sum_cons]

namespace Table

variable {κ ν : Type} [Ord κ]

theorem lookup_eq_none_of_lt {k : κ} {l : List (κ × ν)}
    (h : ∀ b ∈ l, compare k b.1 = .lt) : lookup k l = none := by
  induction l with
  | nil => rfl
  | cons c rest ih =>
    have hc : compare k c.1 = .lt := h c List.mem_cons_self
    simp only [lookup, hc, reduceCtorEq, if_false]
    exact ih fun b hb => h b (List.mem_cons_of_mem _ hb)

variable [Std.LawfulEqOrd κ]

theorem mem_iff_lookup {l : List (κ × ν)} (h : l.Pairwise fun a b => compare a.1 b.1 = .lt)
    (k : κ) (v : ν) : (k, v) ∈ l ↔ lookup k l = some v := by
  induction l with
  | nil => simp [lookup]
  | cons c rest ih =>
    obtain ⟨first, others⟩ := List.pairwise_cons.1 h
    obtain ⟨k', v'⟩ := c
    by_cases hk : k = k'
    · subst hk
      have hnone : lookup k rest = none := lookup_eq_none_of_lt first
      have hout : (k, v) ∉ rest := by rw [ih others, hnone]; simp
      simp [lookup, hout, eq_comm]
    · have hne : compare k k' ≠ .eq := fun he => hk (Std.LawfulEqOrd.eq_of_compare he)
      simp [lookup, hne, hk, ih others]

theorem mem_toList {t : Table κ ν} {k : κ} {v : ν} : (k, v) ∈ t.toList ↔ t.find? k = some v :=
  mem_iff_lookup t.ascending k v

theorem nodup_keys (t : Table κ ν) : t.keys.Nodup := by
  refine t.ascending.map _ fun a b (h : compare a.1 b.1 = .lt) (he : a.1 = b.1) => ?_
  rw [he, Std.ReflOrd.compare_self] at h
  cases h

theorem nodup_toList (t : Table κ ν) : t.toList.Nodup := (nodup_keys t).of_map _

theorem mem_keys {t : Table κ ν} {k : κ} : k ∈ t.keys ↔ (t.find? k).isSome := by
  simp only [keys, List.mem_map, Prod.exists, exists_and_right, exists_eq_right, mem_toList,
    Option.isSome_iff_exists]

theorem mem_values {t : Table κ ν} {v : ν} : v ∈ t.values ↔ ∃ k, t.find? k = some v := by
  simp only [values, List.mem_map, Prod.exists, exists_eq_right, mem_toList]

theorem find?_filter (t : Table κ ν) (p : κ → ν → Bool) (k : κ) :
    (t.filter p).find? k = (t.find? k).filter (p k) := by
  apply Option.ext
  intro v
  rw [← mem_toList, filter, List.mem_filter, mem_toList, Option.filter_eq_some_iff]

theorem find?_map {μ : Type} (t : Table κ ν) (f : κ → ν → μ) (k : κ) :
    (t.map f).find? k = (t.find? k).map (f k) := by
  apply Option.ext
  intro w
  rw [← mem_toList, map, List.mem_map, Option.map_eq_some_iff]
  constructor
  · rintro ⟨⟨k', v⟩, hb, heq⟩
    cases heq
    exact ⟨v, mem_toList.1 hb, rfl⟩
  · rintro ⟨v, hv, rfl⟩
    exact ⟨(k, v), mem_toList.2 hv, rfl⟩

variable [Std.TransOrd κ]

/-- Ascending lists of the same members are equal. -/
theorem eq_of_ascending {α : Type} {f : α → κ} {l l' : List α}
    (h : l.Pairwise fun a b => compare (f a) (f b) = .lt)
    (h' : l'.Pairwise fun a b => compare (f a) (f b) = .lt) (hmem : ∀ a, a ∈ l ↔ a ∈ l') :
    l = l' := by
  have hirrefl : ∀ a, compare (f a) (f a) ≠ .lt := fun a => by
    rw [Std.ReflOrd.compare_self]
    exact Ordering.noConfusion
  have hne : ∀ {a b : α}, compare (f a) (f b) = .lt → a ≠ b := by
    rintro a _ hab rfl
    exact hirrefl a hab
  refine List.Perm.eq_of_pairwise (fun a b _ _ hab hba => ?_) h h'
    ((List.perm_ext_iff_of_nodup (h.imp hne) (h'.imp hne)).2 hmem)
  exact absurd (Std.TransCmp.lt_trans hab hba) (hirrefl a)

/-- Tables that bind the same are equal. -/
theorem eq_of_find? {s t : Table κ ν} (h : ∀ k, s.find? k = t.find? k) : s = t := by
  apply eq_of_toList
  refine eq_of_ascending s.ascending t.ascending ?_
  rintro ⟨k, v⟩
  rw [mem_toList, mem_toList, h]

variable [DecidableEq κ]

theorem erase_eq_self {t : Table κ ν} {k : κ} (h : t.find? k = none) : t.erase k = t := by
  apply eq_of_find?
  intro k'
  rw [find?_erase]
  split_ifs with hk
  · rw [hk, h]
  · rfl

/-- Binding a key to the value that it has changes nothing. -/
theorem insert_eq_self {t : Table κ ν} {k : κ} {v : ν} (h : t.find? k = some v) :
    t.insert k v = t := by
  apply eq_of_find?
  intro k'
  rw [find?_insert]
  split_ifs with hk
  · rw [hk, h]
  · rfl

/-- Binding a key anew adds no key. -/
theorem keys_insert {t : Table κ ν} {k : κ} {v : ν} (h : t.find? k = some v) (w : ν) :
    (t.insert k w).keys = t.keys := by
  have hascending : ∀ s : Table κ ν, s.keys.Pairwise fun a b => compare a b = .lt := fun s =>
    s.ascending.map _ fun _ _ hlt => hlt
  refine eq_of_ascending (f := id) (hascending _) (hascending _) fun k' => ?_
  rw [mem_keys, mem_keys, find?_insert]
  split_ifs with hk
  · rw [hk, h]
    exact iff_of_true rfl rfl
  · exact Iff.rfl

/-- The last binding of a key counts. -/
theorem insert_insert (t : Table κ ν) (k : κ) (v w : ν) :
    (t.insert k v).insert k w = t.insert k w := by
  apply eq_of_find?
  intro k'
  by_cases h : k' = k <;> simp [find?_insert, h]

/-- An insertion adds its binding to those of the other keys. -/
theorem toList_insert_perm (t : Table κ ν) (k : κ) (v : ν) :
    (t.insert k v).toList.Perm ((k, v) :: (t.erase k).toList) := by
  have hout : (k, v) ∉ (t.erase k).toList := by simp [mem_toList]
  refine (List.perm_ext_iff_of_nodup (nodup_toList _)
    (List.nodup_cons.2 ⟨hout, nodup_toList _⟩)).2 ?_
  rintro ⟨k', v'⟩
  rw [List.mem_cons, mem_toList, mem_toList, find?_insert, find?_erase]
  by_cases hk : k' = k
  · simp [hk, eq_comm]
  · simp [hk]

theorem values_insert (t : Table κ ν) (k : κ) (v : ν) :
    ((t.insert k v).values : Multiset ν) = v ::ₘ ((t.erase k).values : Multiset ν) :=
  Multiset.coe_eq_coe.2 ((toList_insert_perm t k v).map Prod.snd)

theorem values_insert_new {t : Table κ ν} {k : κ} (h : t.find? k = none) (v : ν) :
    ((t.insert k v).values : Multiset ν) = v ::ₘ (t.values : Multiset ν) := by
  rw [values_insert, erase_eq_self h]

theorem values_of_find? {t : Table κ ν} {k : κ} {v : ν} (h : t.find? k = some v) :
    (t.values : Multiset ν) = v ::ₘ ((t.erase k).values : Multiset ν) := by
  conv_lhs => rw [← insert_eq_self h]
  exact values_insert t k v

/-- A sum over the values trades the old value of a key for the new one. -/
theorem sumOf_values_insert (f : ν → Nat) {t : Table κ ν} {k : κ} {v : ν} (h : t.find? k = some v)
    (w : ν) : sumOf ((t.insert k w).values.map f) + f v = sumOf (t.values.map f) + f w := by
  have hsum : ∀ s : Table κ ν, sumOf (s.values.map f) = ((s.values : Multiset ν).map f).sum :=
    fun s => (sumOf_eq_sum _).trans (by rw [Multiset.map_coe, Multiset.sum_coe])
  rw [hsum, hsum, values_insert, values_of_find? h, Multiset.map_cons, Multiset.map_cons,
    Multiset.sum_cons, Multiset.sum_cons]
  omega

end Table

end TieredWeights
