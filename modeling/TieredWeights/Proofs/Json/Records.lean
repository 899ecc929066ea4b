import TieredWeights.Proofs.Json.Writing

/-!
# Records read from written objects

The fields of a record are written in any order, and those with a default may be left out. Whatever
is written, each field is found with the value of its text, or it is one of those left out, so a
record is read back field by field.
-/
namespace TieredWeights.Json

/-- A text that writes the fields of a record in some order, all but some that may be left out. -/
def WritesObject (fields : List (String × String)) (omittable : String → Prop)
    (text : String) : Prop :=
  ∃ (left : List String) (written : List (String × String)), (∀ name ∈ left, omittable name) ∧
    written.Perm (fields.filter fun f => f.1 ∉ left) ∧ text = writeObject written

/-- All fields in their own order. -/
theorem writesObject_writeObject (fields : List (String × String)) (omittable : String → Prop) :
    WritesObject fields omittable (writeObject fields) :=
  ⟨[], fields, nofun, by simp, rfl⟩

/-- Values under the names of fields: each is that of the field's text, or the field is one that may
be left out and there is none. -/
def Found (fields : List (String × String)) (omittable : String → Prop)
    (values : List (String × Value)) : Prop :=
  ∀ f ∈ fields, values.lookup f.1 = read f.2.toList ∨ (omittable f.1 ∧ values.lookup f.1 = none)

/-- The value of a field's text under its name. -/
def fieldValue (f : String × String) : String × Value := (f.1, (read f.2.toList).getD .null)

theorem lookup_eq_some_of_mem {l : List (String × Value)} (h : (l.map (·.1)).Nodup)
    {v : String × Value} (hv : v ∈ l) : l.lookup v.1 = some v.2 := by
  induction l with
  | nil => cases hv
  | cons w l ih =>
    rw [List.map_cons, List.nodup_cons] at h
    rcases List.mem_cons.1 hv with rfl | hv
    · exact List.lookup_cons_self
    · have hname : v.1 ≠ w.1 := by
        intro heq
        exact h.1 (heq ▸ List.mem_map_of_mem hv)
      rw [List.lookup_cons, beq_false_of_ne hname]
      exact ih h.2 hv

section

variable {fields : List (String × String)} {omittable : String → Prop}
  {values : List (String × Value)} {α : Type} {rule : Value → Option α} {name text : String} {x : α}

/-- The fields of an object of known names, none twice. -/
theorem record?_object {names : List String} (hnames : ∀ v ∈ values, v.1 ∈ names)
    (hnodup : (values.map (·.1)).Nodup) :
    record? names (.object (values.map fun v => (some v.1, v.2))) = some values := by
  have hmap : ∀ values : List (String × Value), (values.map fun v => (some v.1, v.2)).mapM
      (fun f : Option String × Value => f.1.map fun name => (name, f.2)) = some values := by
    intro values
    induction values with
    | nil => rfl
    | cons v values ih => simp [ih]
  have hfilter : values.filter (fun f => names.contains f.1) = values :=
    List.filter_eq_self.2 fun v hv => List.contains_iff_mem.2 (hnames v hv)
  simp only [record?, hmap, hfilter, Option.bind_eq_bind, Option.bind_some, if_pos hnodup]

/-- Whatever of a record is written is found again. -/
theorem record?_of_writesObject (names : List String)
    (h : WritesObject fields omittable text) (hnames : ∀ f ∈ fields, f.1 ∈ names)
    (hnodup : (fields.map (·.1)).Nodup) (hread : ∀ f ∈ fields, ∃ v, read f.2.toList = some v) :
    ∃ values, (read text.toList).bind (record? names) = some values ∧
      Found fields omittable values := by
  obtain ⟨left, written, hleft, hperm, rfl⟩ := h
  have hmem : ∀ f, f ∈ written ↔ f ∈ fields ∧ f.1 ∉ left := fun f => by
    rw [hperm.mem_iff, List.mem_filter, decide_eq_true_iff]
  have hwritten : List.Forall₂ FieldReads written (written.map fieldValue) := by
    rw [List.forall₂_map_right_iff, List.forall₂_same]
    intro f hf
    obtain ⟨v, hv⟩ := hread f ((hmem f).1 hf).1
    exact ⟨rfl, by rw [fieldValue, hv, Option.getD_some]⟩
  have hvnames : (written.map fieldValue).map (·.1) = written.map (·.1) := by
    rw [List.map_map]
    rfl
  have hvnodup : ((written.map fieldValue).map (·.1)).Nodup := by
    rw [hvnames, (hperm.map _).nodup_iff]
    exact hnodup.sublist (List.filter_sublist.map _)
  refine ⟨written.map fieldValue, ?_, fun f hf => ?_⟩
  · rw [read_writeObject hwritten, Option.bind_some, record?_object ?_ hvnodup]
    exact List.forall_mem_map.2 fun f hf => hnames f ((hmem f).1 hf).1
  · by_cases hleft' : f.1 ∈ left
    · refine .inr ⟨hleft _ hleft', List.lookup_eq_none_iff.2 (List.forall_mem_map.2 fun g hg => ?_)⟩
      have hname : f.1 ≠ g.1 := by
        intro heq
        exact ((hmem g).1 hg).2 (heq ▸ hleft')
      exact bne_iff_ne.2 hname
    · obtain ⟨v, hv⟩ := hread f hf
      have hlookup := lookup_eq_some_of_mem hvnodup
        (List.mem_map_of_mem (f := fieldValue) ((hmem f).2 ⟨hf, hleft'⟩))
      rw [fieldValue, hv, Option.getD_some] at hlookup
      exact .inl (hlookup.trans hv.symm)

/-- A field that has to be present is read from its text. -/
theorem Found.required (h : Found fields omittable values) (hf : (name, text) ∈ fields)
    (hname : ¬ omittable name) (hx : Reads rule text x) :
    required rule name values = some x := by
  rcases h _ hf with hlookup | ⟨homittable, -⟩
  · rw [Json.required, hlookup]
    exact hx
  · exact absurd homittable hname

/-- A field that may be missing is read from its text, or it is the one assumed without it. -/
theorem Found.optional {absent : α} (h : Found fields omittable values) (hf : (name, text) ∈ fields)
    (hname : omittable name → x = absent) (hx : Reads rule text x) :
    optional rule absent name values = some x := by
  rcases h _ hf with hlookup | ⟨homittable, hlookup⟩
  · obtain ⟨v, hread, hv⟩ := Option.bind_eq_some_iff.1 hx
    rw [Json.optional, hlookup, hread]
    exact hv
  · rw [Json.optional, hlookup, hname homittable]

end

end TieredWeights.Json
