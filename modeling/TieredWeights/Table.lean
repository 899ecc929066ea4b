/-!
# Ordered tables

A `Table κ ν` binds keys to values and keeps its bindings in ascending key order, so two tables
with the same bindings are equal and a listing of one is already sorted. What a table binds is
read through `find?`; `find?_insert` and `find?_erase` say what each operation does to it.
-/
namespace TieredWeights

/-- Bindings in strictly ascending key order. -/
structure Table (κ ν : Type) [Ord κ] where
  toList : List (κ × ν)
  ascending : toList.Pairwise fun a b => compare a.1 b.1 = .lt

namespace Table

variable {κ ν μ : Type} [Ord κ]

/-- The table without bindings. -/
def empty : Table κ ν := ⟨[], .nil⟩

instance : Inhabited (Table κ ν) := ⟨empty⟩
instance : EmptyCollection (Table κ ν) := ⟨empty⟩

theorem eq_of_toList {s t : Table κ ν} (h : s.toList = t.toList) : s = t := by
  cases s; cases t; cases h; rfl

instance [DecidableEq κ] [DecidableEq ν] : DecidableEq (Table κ ν) := fun s t =>
  decidable_of_iff (s.toList = t.toList) ⟨eq_of_toList, fun h => h ▸ rfl⟩

/-- The value of a key in a list of bindings. -/
def lookup (k : κ) : List (κ × ν) → Option ν
  | [] => none
  | (k', v) :: rest => if compare k k' = .eq then some v else lookup k rest

/-- A binding placed at its position; a binding of the same key is replaced. -/
def place (k : κ) (v : ν) : List (κ × ν) → List (κ × ν)
  | [] => [(k, v)]
  | (k', v') :: rest =>
    match compare k k' with
    | .lt => (k, v) :: (k', v') :: rest
    | .eq => (k, v) :: rest
    | .gt => (k', v') :: place k v rest

def find? (t : Table κ ν) (k : κ) : Option ν := lookup k t.toList

def contains (t : Table κ ν) (k : κ) : Bool := (t.find? k).isSome

def keys (t : Table κ ν) : List κ := t.toList.map (·.1)

def values (t : Table κ ν) : List ν := t.toList.map (·.2)

def size (t : Table κ ν) : Nat := t.toList.length

def isEmpty (t : Table κ ν) : Bool := t.toList.isEmpty

/-- The bindings that satisfy a test. -/
def filter (p : κ → ν → Bool) (t : Table κ ν) : Table κ ν :=
  ⟨t.toList.filter fun b => p b.1 b.2, t.ascending.filter _⟩

/-- The table without a key. -/
def erase (t : Table κ ν) (k : κ) : Table κ ν := t.filter fun k' _ => compare k k' ≠ .eq

/-- Every value changed by a function of its key and itself. -/
def map (f : κ → ν → μ) (t : Table κ ν) : Table κ μ :=
  ⟨t.toList.map fun b => (b.1, f b.1 b.2), t.ascending.map _ fun _ _ h => h⟩

@[simp] theorem find?_empty (k : κ) : (empty : Table κ ν).find? k = none := rfl

theorem mem_place {k : κ} {v : ν} {l : List (κ × ν)} {b : κ × ν} (h : b ∈ place k v l) :
    b = (k, v) ∨ b ∈ l := by
  induction l with
  | nil => exact .inl (by simpa [place] using h)
  | cons c rest ih =>
    obtain ⟨k', v'⟩ := c
    simp only [place] at h
    split at h
    · rcases List.mem_cons.1 h with h | h
      · exact .inl h
      · exact .inr h
    · rcases List.mem_cons.1 h with h | h
      · exact .inl h
      · exact .inr (List.mem_cons_of_mem _ h)
    · rcases List.mem_cons.1 h with h | h
      · exact .inr (h ▸ List.mem_cons_self)
      · rcases ih h with h | h
        · exact .inl h
        · exact .inr (List.mem_cons_of_mem _ h)

section

variable [Std.TransOrd κ] [Std.LawfulEqOrd κ]

theorem place_ascending (k : κ) (v : ν) {l : List (κ × ν)}
    (h : l.Pairwise fun a b => compare a.1 b.1 = .lt) :
    (place k v l).Pairwise fun a b => compare a.1 b.1 = .lt := by
  induction l with
  | nil => simp [place]
  | cons c rest ih =>
    obtain ⟨k', v'⟩ := c
    obtain ⟨first, others⟩ := List.pairwise_cons.1 h
    simp only [place]
    split
    · rename_i hlt
      refine List.pairwise_cons.2 ⟨fun b hb => ?_, h⟩
      rcases List.mem_cons.1 hb with rfl | hb
      · exact hlt
      · exact Std.TransCmp.lt_trans hlt (first b hb)
    · rename_i heq
      have hk : k = k' := Std.LawfulEqOrd.eq_of_compare heq
      subst hk
      exact List.pairwise_cons.2 ⟨first, others⟩
    · rename_i hgt
      refine List.pairwise_cons.2 ⟨fun b hb => ?_, ih others⟩
      rcases mem_place hb with rfl | hb
      · exact Std.OrientedCmp.lt_of_gt hgt
      · exact first b hb

/-- Bind `k` to `v`, replacing an earlier value of `k`. -/
def insert (t : Table κ ν) (k : κ) (v : ν) : Table κ ν :=
  ⟨place k v t.toList, place_ascending k v t.ascending⟩

/-- Change the value of `k`, if it has one. -/
def modify (t : Table κ ν) (k : κ) (f : ν → ν) : Table κ ν :=
  match t.find? k with
  | none => t
  | some v => t.insert k (f v)

/-- The bindings of a list, a later binding of a key replacing an earlier one. -/
def ofList (l : List (κ × ν)) : Table κ ν := l.foldl (fun t b => t.insert b.1 b.2) empty

variable [DecidableEq κ]

omit [Std.TransOrd κ] in
theorem lookup_place (k k' : κ) (v : ν) (l : List (κ × ν)) :
    lookup k' (place k v l) = if k' = k then some v else lookup k' l := by
  induction l with
  | nil => simp [place, lookup]
  | cons c rest ih =>
    obtain ⟨k₁, v₁⟩ := c
    simp only [place]
    split
    · simp [lookup]
    · rename_i heq
      have hk : k = k₁ := Std.LawfulEqOrd.eq_of_compare heq
      subst hk
      by_cases h : k' = k <;> simp [lookup, h]
    · rename_i hgt
      have hk : k ≠ k₁ := fun he => by simp [he] at hgt
      by_cases h : k' = k
      · subst h
        simp [lookup, ih, hk]
      · simp [lookup, ih, h]

/-- After `k` is bound to `v`, `k` has the value `v` and every other key the value it had. -/
theorem find?_insert (t : Table κ ν) (k k' : κ) (v : ν) :
    (t.insert k v).find? k' = if k' = k then some v else t.find? k' :=
  lookup_place k k' v t.toList

@[simp] theorem find?_insert_self (t : Table κ ν) (k : κ) (v : ν) :
    (t.insert k v).find? k = some v := by simp [find?_insert]

theorem find?_insert_ne (t : Table κ ν) {k k' : κ} (v : ν) (h : k' ≠ k) :
    (t.insert k v).find? k' = t.find? k' := by simp [find?_insert, h]

omit [Std.TransOrd κ] in
theorem lookup_filter (k k' : κ) (l : List (κ × ν)) :
    lookup k' (l.filter fun b => decide (compare k b.1 ≠ .eq)) =
      if k' = k then none else lookup k' l := by
  induction l with
  | nil => simp [lookup]
  | cons c rest ih =>
    obtain ⟨k₁, v₁⟩ := c
    by_cases hk : k = k₁
    · subst hk
      rw [List.filter_cons_of_neg (by simp), ih]
      by_cases h : k' = k <;> simp [lookup, h]
    · rw [List.filter_cons_of_pos (by simpa using hk)]
      by_cases h : k' = k
      · subst h
        simpa [lookup, hk] using ih
      · simp only [lookup, ih, h, if_false]

omit [Std.TransOrd κ] in
/-- After `k` is erased it has no value, and every other key has the value it had. -/
theorem find?_erase (t : Table κ ν) (k k' : κ) :
    (t.erase k).find? k' = if k' = k then none else t.find? k' :=
  lookup_filter k k' t.toList

omit [Std.TransOrd κ] in
@[simp] theorem find?_erase_self (t : Table κ ν) (k : κ) : (t.erase k).find? k = none := by
  simp [find?_erase]

omit [Std.TransOrd κ] in
theorem find?_erase_ne (t : Table κ ν) {k k' : κ} (h : k' ≠ k) :
    (t.erase k).find? k' = t.find? k' := by simp [find?_erase, h]

/-- A modified key has its changed value, and every other key the value it had. -/
theorem find?_modify (t : Table κ ν) (k k' : κ) (f : ν → ν) :
    (t.modify k f).find? k' = if k' = k then (t.find? k).map f else t.find? k' := by
  unfold modify
  split
  · rename_i h
    by_cases hk : k' = k
    · simp [hk, h]
    · simp [hk]
  · rename_i v h
    simp [find?_insert, h]

end

end Table

end TieredWeights
