import Mathlib.Data.Finset.Card
import Mathlib.Logic.Relation
import TieredWeights.Proofs.Bindings
import TieredWeights.Proofs.Readings

/-!
# Filling a checkpoint

A checkpoint is filled by calls: tensors are registered as they are read, tensors read before are
inserted, and names are tied to others. What a call does is one equation: it binds its name, if that
is free, to the tensor that it brings, if it brings one. So a name that is bound stays bound to its
tensor, and the count of sources follows the calls: a tensor just read brings a source of its own, a
tie none.
-/
namespace TieredWeights

theorem length_eraseDups {α : Type} [DecidableEq α] (l : List α) :
    l.eraseDups.length = l.toFinset.card := by
  induction l using List.reverseRecOn with
  | nil => rfl
  | append_singleton l a ih =>
    rw [List.eraseDups_append, List.length_append, ih, List.toFinset_append, Finset.union_comm]
    by_cases h : a ∈ l <;> simp [List.removeAll, List.eraseDups_cons, h]

namespace Checkpoint

/-- A call on a checkpoint. -/
inductive Call where
  | register (name : String) (type : ElementType) (shape : List Nat) (bytes : Bytes)
  | insert (name : String) (t : Tensor)
  | tie (name target : String)

namespace Call

/-- The name to be bound. -/
def name : Call → String
  | register name _ _ _ => name
  | insert name _ => name
  | tie name _ => name

def isRegister : Call → Bool
  | register _ _ _ _ => true
  | _ => false

def isInsert : Call → Bool
  | insert _ _ => true
  | _ => false

end Call

/-- How many sources the tensors of a checkpoint have. -/
theorem uniqueSources_eq (c : Checkpoint) :
    c.uniqueSources = (c.tensors.values.map Tensor.source).toFinset.card :=
  length_eraseDups _

theorem uniqueSources_le (c : Checkpoint) : c.uniqueSources ≤ c.size := by
  rw [uniqueSources_eq]
  refine (List.toFinset_card_le _).trans_eq ?_
  rw [List.length_map, Table.values, List.length_map]
  rfl

/-- A name bound anew adds the source of its tensor, unless that is there already. -/
theorem uniqueSources_insert {c : Checkpoint} {name : String} (h : c.get? name = none)
    (t : Tensor) :
    (⟨c.tensors.insert name t⟩ : Checkpoint).uniqueSources =
      c.uniqueSources + if t.source ∈ c.tensors.values.map Tensor.source then 0 else 1 := by
  have hvalues : ((c.tensors.insert name t).values.map Tensor.source).Perm
      (t.source :: c.tensors.values.map Tensor.source) :=
    (Multiset.coe_eq_coe.1 (Table.values_insert_new h t)).map Tensor.source
  rw [uniqueSources_eq, uniqueSources_eq, List.toFinset_eq_of_perm _ _ hvalues, List.toFinset_cons]
  split
  case isTrue hmem => rw [Finset.insert_eq_of_mem (List.mem_toFinset.2 hmem), Nat.add_zero]
  case isFalse hnot => rw [Finset.card_insert_of_notMem (by simpa using hnot)]

end Checkpoint

namespace Readings

open Checkpoint (Call)

/-- The readings with the outcome of a binding: a fault leaves the checkpoint. -/
def conclude (s : Readings) (k : Nat) : Except Fault Checkpoint → Except Fault Unit × Readings
  | .error e => (.error e, s)
  | .ok c => (.ok (), { s with checkpoints := Function.update s.checkpoints k c })

/-- A call on checkpoint `k`. -/
def call (s : Readings) (k : Nat) : Call → Except Fault Unit × Readings
  | .register name type shape bytes =>
    let (r, c, ids) := (s.checkpoints k).register s.ids name type shape bytes
    (r.map fun _ => (), { s with checkpoints := Function.update s.checkpoints k c }.add (r, ids))
  | .insert name t => s.conclude k ((s.checkpoints k).insert name t)
  | .tie name target => s.conclude k ((s.checkpoints k).tie name target)

/-- The tensor that a call on checkpoint `k` brings, or why it brings none. -/
def brought (s : Readings) (k : Nat) : Call → Except Fault Tensor
  | .register _ type shape bytes => (s.ids.ofBytes type shape bytes).1
  | .insert _ t => .ok t
  | .tie _ target =>
    match (s.checkpoints k).get? target with
    | none => .error (.config (.tieTarget target))
    | some t => .ok t

/-- A tensor that is inserted was read before. -/
def Offers (s : Readings) : Call → Prop
  | .insert _ t => t ∈ s.tensors
  | _ => True

/-- The readings with checkpoint `j` made a copy of checkpoint `i`. -/
def copy (s : Readings) (i j : Nat) : Readings :=
  { s with checkpoints := Function.update s.checkpoints j (s.checkpoints i) }

/-- What a program does: it reads a tensor, makes a call or copies a checkpoint. -/
def Move (s s' : Readings) : Prop := Step s s' ∨ ∃ i j, s' = s.copy i j

/-- What a program brings about, starting with nothing read. -/
def Reached (s : Readings) : Prop := Relation.ReflTransGen Move {} s

/-- The calls on checkpoint `k` from `s` on, the first of them first, each with its outcome; the
program makes other moves between them. -/
inductive Calls (k : Nat) (s : Readings) : List (Call × Except Fault Unit) → Readings → Prop
  | start : Calls k s [] s
  | between {calls : List (Call × Except Fault Unit)} {s₁ s₂ : Readings} (h : Calls k s calls s₁)
      (hmove : Move s₁ s₂) (hkeep : s₂.checkpoints k = s₁.checkpoints k) : Calls k s calls s₂
  | call {calls : List (Call × Except Fault Unit)} {s₁ : Readings} (h : Calls k s calls s₁)
      (c : Call) (hc : s₁.Offers c) :
      Calls k s (calls ++ [(c, (s₁.call k c).1)]) (s₁.call k c).2

variable {s s' : Readings} {k : Nat} {calls : List (Call × Except Fault Unit)}

theorem add_checkpoints (s : Readings) (result : Except Fault Tensor × Issuer) :
    (s.add result).checkpoints = s.checkpoints := by
  obtain ⟨e | t, ids⟩ := result <;> rfl

/-- A name is bound if it is free; otherwise its binding is refused. -/
theorem insert_cases (c : Checkpoint) (name : String) (t : Tensor) :
    c.insert name t = .error (.duplicateParameter name) ∧ c.get? name ≠ none ∨
      c.insert name t = .ok ⟨c.tensors.insert name t⟩ ∧ c.get? name = none := by
  rw [Checkpoint.insert, Table.contains, Checkpoint.get?]
  cases c.tensors.find? name <;> simp

theorem conclude_cases (s : Readings) (k : Nat) (name : String) (t : Tensor) :
    s.conclude k ((s.checkpoints k).insert name t) = (.error (.duplicateParameter name), s) ∧
        (s.checkpoints k).get? name ≠ none ∨
      s.conclude k ((s.checkpoints k).insert name t) =
          (.ok (), { s with
            checkpoints :=
              Function.update s.checkpoints k ⟨(s.checkpoints k).tensors.insert name t⟩ }) ∧
        (s.checkpoints k).get? name = none := by
  rcases insert_cases (s.checkpoints k) name t with ⟨hfail, hbound⟩ | ⟨hok, hfree⟩
  · exact .inl ⟨by rw [hfail, conclude], hbound⟩
  · exact .inr ⟨by rw [hok, conclude], hfree⟩

/-- What a call does: if it brings a tensor and its name is free it binds the name, and otherwise it
fails and leaves every checkpoint as it was. -/
theorem call_cases (s : Readings) (k : Nat) (c : Call) :
    (∃ e, (s.call k c).1 = .error e ∧ (s.call k c).2.checkpoints = s.checkpoints ∧
      (s.brought k c = .error e ∨
        e = .duplicateParameter c.name ∧ (s.checkpoints k).get? c.name ≠ none)) ∨
    ∃ t, (s.call k c).1 = .ok () ∧ s.brought k c = .ok t ∧ (s.checkpoints k).get? c.name = none ∧
      (s.call k c).2.checkpoints =
        Function.update s.checkpoints k ⟨(s.checkpoints k).tensors.insert c.name t⟩ := by
  cases c with
  | register name type shape bytes =>
    simp only [call, Checkpoint.register, brought, Call.name]
    rcases hread : s.ids.ofBytes type shape bytes with ⟨e | t, ids⟩
    · exact .inl ⟨e, rfl, by simp [add_checkpoints], .inl rfl⟩
    · rcases insert_cases (s.checkpoints k) name t with ⟨hfail, hbound⟩ | ⟨hok, hfree⟩
      · simp only [hfail]
        exact .inl ⟨_, rfl, by simp [add_checkpoints], .inr ⟨rfl, hbound⟩⟩
      · simp only [hok]
        exact .inr ⟨t, rfl, rfl, hfree, add_checkpoints _ _⟩
  | insert name t =>
    simp only [call, brought, Call.name]
    rcases s.conclude_cases k name t with ⟨hfail, hbound⟩ | ⟨hok, hfree⟩
    · exact .inl ⟨_, by rw [hfail], by rw [hfail], .inr ⟨rfl, hbound⟩⟩
    · exact .inr ⟨t, by rw [hok], rfl, hfree, by rw [hok]⟩
  | tie name target =>
    simp only [call, brought, Checkpoint.tie, Checkpoint.get?, Call.name]
    cases htarget : (s.checkpoints k).tensors.find? target with
    | none => exact .inl ⟨_, rfl, rfl, .inl rfl⟩
    | some t =>
      simp only
      rcases s.conclude_cases k name t with ⟨hfail, hbound⟩ | ⟨hok, hfree⟩
      · exact .inl ⟨_, by rw [hfail], by rw [hfail], .inr ⟨rfl, hbound⟩⟩
      · exact .inr ⟨t, by rw [hok], rfl, hfree, by rw [hok]⟩

/-- A call that fails leaves every checkpoint. -/
theorem checkpoints_of_error {c : Call} {e : Fault} (h : (s.call k c).1 = .error e) :
    (s.call k c).2.checkpoints = s.checkpoints := by
  rcases s.call_cases k c with ⟨_, -, hkeep, -⟩ | ⟨_, hok, -⟩
  · exact hkeep
  · rw [hok] at h
    cases h

/-- A call that succeeds binds a free name to the tensor that it brings. -/
theorem checkpoint_of_ok {c : Call} (h : (s.call k c).1 = .ok ()) :
    ∃ t, s.brought k c = .ok t ∧ (s.checkpoints k).get? c.name = none ∧
      (s.call k c).2.checkpoints k = ⟨(s.checkpoints k).tensors.insert c.name t⟩ := by
  rcases s.call_cases k c with ⟨_, herror, -⟩ | ⟨t, -, hbrought, hfree, hbind⟩
  · rw [herror] at h
    cases h
  · exact ⟨t, hbrought, hfree, by rw [hbind, Function.update_self]⟩

/-- A name that is bound keeps its tensor through any call. -/
theorem get?_call (c : Call) {name : String} {t : Tensor}
    (h : (s.checkpoints k).get? name = some t) :
    ((s.call k c).2.checkpoints k).get? name = some t := by
  cases hcall : (s.call k c).1 with
  | error e => rwa [checkpoints_of_error hcall]
  | ok u =>
    obtain ⟨t', -, hfree, hbind⟩ := checkpoint_of_ok hcall
    have hne : name ≠ c.name := fun he => by
      rw [he, hfree] at h
      cases h
    rw [hbind, Checkpoint.get?, Table.find?_insert_ne _ _ hne]
    exact h

/-! ### What calls keep -/

theorem Sound.copy (h : s.Sound) (i j : Nat) : (s.copy i j).Sound where
  issued := h.issued
  apart := h.apart
  bound m name t ht := by
    by_cases hm : m = j
    · simp only [Readings.copy, hm, Function.update_self] at ht
      exact h.bound i name t ht
    · simp only [Readings.copy, Function.update_of_ne hm] at ht
      exact h.bound m name t ht

theorem Move.sound (h : Move s s') (hs : s.Sound) : s'.Sound := by
  rcases h with hstep | ⟨i, j, rfl⟩
  · exact hstep.sound hs
  · exact hs.copy i j

theorem Reached.sound (h : Reached s) : s.Sound := by
  induction h with
  | refl => exact sound_empty
  | tail _ hmove ih => exact hmove.sound ih

theorem Sound.conclude (h : s.Sound) {name : String} {t : Tensor} (ht : t ∈ s.tensors) :
    (s.conclude k ((s.checkpoints k).insert name t)).2.Sound := by
  cases hinsert : (s.checkpoints k).insert name t with
  | error e => exact h
  | ok c => exact h.bind k ht hinsert

theorem Sound.call (h : s.Sound) {c : Call} (hc : s.Offers c) : (s.call k c).2.Sound := by
  cases c with
  | register name type shape bytes => exact h.register rfl
  | insert name t => exact h.conclude hc
  | tie name target =>
    simp only [Readings.call, Checkpoint.tie]
    split
    case h_1 => exact h
    case h_2 t ht => exact h.conclude (h.bound k target t ht)

theorem Calls.sound (h : Calls k s calls s') (hs : s.Sound) : s'.Sound := by
  induction h with
  | start => exact hs
  | between _ hmove _ ih => exact hmove.sound ih
  | call _ c hc ih => exact ih.call hc

/-- A name that is bound keeps its tensor through any calls. -/
theorem Calls.get? (h : Calls k s calls s') {name : String} {t : Tensor}
    (ht : (s.checkpoints k).get? name = some t) : (s'.checkpoints k).get? name = some t := by
  induction h with
  | start => exact ht
  | between _ _ hkeep ih => rwa [hkeep]
  | call _ c _ ih => exact get?_call c ih

/-- A tie that succeeds binds both its names to one tensor. -/
theorem tie_binds {name target : String} (h : (s.call k (.tie name target)).1 = .ok ()) :
    ∃ t, (s.checkpoints k).get? target = some t ∧
      ((s.call k (.tie name target)).2.checkpoints k).get? name = some t := by
  obtain ⟨t, hbrought, -, hbind⟩ := checkpoint_of_ok h
  refine ⟨t, ?_, ?_⟩
  · simp only [brought] at hbrought
    split at hbrought
    case h_1 => cases hbrought
    case h_2 t' ht' =>
      cases hbrought
      exact ht'
  · rw [hbind, Checkpoint.get?]
    exact Table.find?_insert_self _ _ _

/-- The tie of two names that one of the calls made. -/
def Tied (calls : List (Call × Except Fault Unit)) (name target : String) : Prop :=
  (Call.tie name target, .ok ()) ∈ calls

/-- The names of a tie that was made stay bound to one tensor. By induction on the calls. -/
theorem Calls.tied (h : Calls k s calls s') {name target : String}
    (htied : Tied calls name target) :
    ∃ t, (s'.checkpoints k).get? name = some t ∧ (s'.checkpoints k).get? target = some t := by
  induction h with
  | start => cases htied
  | between _ _ hkeep ih =>
    rw [hkeep]
    exact ih htied
  | @call calls s₁ _ c _ ih =>
    rcases List.mem_append.1 htied with hbefore | hlast
    · obtain ⟨t, hname, htarget⟩ := ih hbefore
      exact ⟨t, get?_call c hname, get?_call c htarget⟩
    · obtain ⟨rfl, hok⟩ := Prod.mk.inj (List.mem_singleton.1 hlast)
      obtain ⟨t, htarget, hname⟩ := tie_binds hok.symm
      exact ⟨t, hname, get?_call _ htarget⟩

/-- Names that a chain of ties joins, whichever way each tie goes, are bound to one tensor. -/
theorem Calls.chain (h : Calls k s calls s') {name other : String}
    (hchain : Relation.TransGen (Relation.SymmGen (Tied calls)) name other) :
    ∃ t, (s'.checkpoints k).get? name = some t ∧ (s'.checkpoints k).get? other = some t := by
  have hlink {a b : String} (hab : Relation.SymmGen (Tied calls) a b) :
      ∃ t, (s'.checkpoints k).get? a = some t ∧ (s'.checkpoints k).get? b = some t := by
    rcases hab with hab | hba
    · exact h.tied hab
    · obtain ⟨t, hb, ha⟩ := h.tied hba
      exact ⟨t, ha, hb⟩
  induction hchain with
  | single hab => exact hlink hab
  | tail _ hbc ih =>
    obtain ⟨t, hname, hmiddle⟩ := ih
    obtain ⟨t', hmiddle', hother⟩ := hlink hbc
    rw [hmiddle] at hmiddle'
    cases hmiddle'
    exact ⟨t, hname, hother⟩

/-! ### The count of sources -/

/-- Only clones of a tensor have its source. -/
theorem Sound.mem_sources_iff (h : s.Sound) {t : Tensor} (ht : t ∈ s.tensors) :
    t.source ∈ (s.checkpoints k).tensors.values.map Tensor.source ↔
      t ∈ (s.checkpoints k).tensors.values := by
  refine ⟨fun hmem => ?_, List.mem_map_of_mem⟩
  obtain ⟨t', ht', he⟩ := List.mem_map.1 hmem
  obtain ⟨name, hname⟩ := Table.mem_values.1 ht'
  rwa [← List.inj_on_of_nodup_map h.apart (h.bound k name t' hname) ht he]

theorem uniqueSources_call {c : Call} (h : (s.call k c).1 = .ok ()) :
    ∃ t, s.brought k c = .ok t ∧ ((s.call k c).2.checkpoints k).uniqueSources =
      (s.checkpoints k).uniqueSources +
        if t.source ∈ (s.checkpoints k).tensors.values.map Tensor.source then 0 else 1 := by
  obtain ⟨t, hbrought, hfree, hbind⟩ := checkpoint_of_ok h
  exact ⟨t, hbrought, by rw [hbind, Checkpoint.uniqueSources_insert hfree]⟩

/-- A tie brings no source. -/
theorem uniqueSources_tie {name target : String} (h : (s.call k (.tie name target)).1 = .ok ()) :
    ((s.call k (.tie name target)).2.checkpoints k).uniqueSources =
      (s.checkpoints k).uniqueSources := by
  obtain ⟨t, htarget, -⟩ := tie_binds h
  obtain ⟨t', hbrought, hcount⟩ := uniqueSources_call h
  simp only [brought, htarget] at hbrought
  cases hbrought
  rw [hcount, if_pos (List.mem_map_of_mem (Table.mem_values.2 ⟨target, htarget⟩)), Nat.add_zero]

/-- A tensor just read brings a source of its own. -/
theorem Sound.uniqueSources_register (hs : s.Sound) {name : String} {type : ElementType}
    {shape : List Nat} {bytes : Bytes}
    (h : (s.call k (.register name type shape bytes)).1 = .ok ()) :
    ((s.call k (.register name type shape bytes)).2.checkpoints k).uniqueSources =
      (s.checkpoints k).uniqueSources + 1 := by
  obtain ⟨t, hbrought, hcount⟩ := uniqueSources_call h
  have hnew := ((fresh_ofBytes s.ids type shape bytes).2 t hbrought).1
  rw [hcount, if_neg]
  intro hmem
  obtain ⟨t', ht', he⟩ := List.mem_map.1 hmem
  obtain ⟨other, hother⟩ := Table.mem_values.1 ht'
  have hold := hs.issued t' (hs.bound k other t' hother)
  omega

/-- A tensor inserted brings its source unless a clone of it is bound already. -/
theorem Sound.uniqueSources_insert (hs : s.Sound) {name : String} {t : Tensor}
    (ht : t ∈ s.tensors) (h : (s.call k (.insert name t)).1 = .ok ()) :
    (t ∈ (s.checkpoints k).tensors.values →
      ((s.call k (.insert name t)).2.checkpoints k).uniqueSources =
        (s.checkpoints k).uniqueSources) ∧
    (t ∉ (s.checkpoints k).tensors.values →
      ((s.call k (.insert name t)).2.checkpoints k).uniqueSources =
        (s.checkpoints k).uniqueSources + 1) := by
  obtain ⟨t', hbrought, hcount⟩ := uniqueSources_call h
  cases hbrought
  have hmem := hs.mem_sources_iff (k := k) ht
  refine ⟨fun hclone => ?_, fun hnew => ?_⟩
  · rw [hcount, if_pos (hmem.2 hclone), Nat.add_zero]
  · rw [hcount, if_neg fun hsource => hnew (hmem.1 hsource)]

/-- Of calls that insert nothing only the registrations that succeed bring sources, one each. -/
theorem Calls.uniqueSources (h : Calls k s calls s') (hs : s.Sound)
    (hcalls : ∀ x ∈ calls, x.1.isInsert = false) :
    (s'.checkpoints k).uniqueSources =
      (s.checkpoints k).uniqueSources + calls.countP fun x => x.1.isRegister && x.2.isOk := by
  induction h with
  | start => rfl
  | between _ _ hkeep ih => rw [hkeep, ih hcalls]
  | @call calls s₁ hrun c _ ih =>
    have ih := ih fun x hx => hcalls x (List.mem_append_left _ hx)
    rw [List.countP_append, List.countP_singleton, ← Nat.add_assoc, ← ih]
    cases hcall : (s₁.call k c).1 with
    | error e => simp [checkpoints_of_error hcall, Except.isOk, Except.toBool]
    | ok u =>
      cases c with
      | register name type shape bytes => exact (hrun.sound hs).uniqueSources_register hcall
      | insert name t => cases hcalls _ (List.mem_append_right _ List.mem_cons_self)
      | tie name target => exact uniqueSources_tie hcall

/-- What one call on checkpoint `k` does to its bindings and to the count of their sources. -/
structure Accounts (s : Readings) (k : Nat) : Prop where
  failed : ∀ c e, (s.call k c).1 = .error e → (s.call k c).2.checkpoints = s.checkpoints
  tied : ∀ name target, (s.call k (.tie name target)).1 = .ok () →
    (∃ t, ((s.call k (.tie name target)).2.checkpoints k).get? name = some t ∧
      ((s.call k (.tie name target)).2.checkpoints k).get? target = some t) ∧
    ((s.call k (.tie name target)).2.checkpoints k).uniqueSources = (s.checkpoints k).uniqueSources
  registered : ∀ name type shape bytes, (s.call k (.register name type shape bytes)).1 = .ok () →
    ((s.call k (.register name type shape bytes)).2.checkpoints k).uniqueSources =
      (s.checkpoints k).uniqueSources + 1
  inserted : ∀ name, ∀ t ∈ s.tensors, (s.call k (.insert name t)).1 = .ok () →
    (t ∈ (s.checkpoints k).tensors.values →
      ((s.call k (.insert name t)).2.checkpoints k).uniqueSources =
        (s.checkpoints k).uniqueSources) ∧
    (t ∉ (s.checkpoints k).tensors.values →
      ((s.call k (.insert name t)).2.checkpoints k).uniqueSources =
        (s.checkpoints k).uniqueSources + 1)

theorem Sound.accounts (h : s.Sound) (k : Nat) : s.Accounts k where
  failed _ _ := checkpoints_of_error
  tied _ _ hok :=
    have ⟨t, htarget, hname⟩ := tie_binds hok
    ⟨⟨t, hname, get?_call _ htarget⟩, uniqueSources_tie hok⟩
  registered _ _ _ _ := h.uniqueSources_register
  inserted _ _ := h.uniqueSources_insert

/-- Bindings are permanent, and ties add no source. Through any calls on a checkpoint, whatever the
program does between them, a name that is bound keeps its tensor, and names that ties have joined
are bound to one tensor, hence have one identity. At any time the count of sources is that of the
different source ids bound, and no more than the names; what a further call does to it is told by
`Accounts`. So a checkpoint filled by registrations and ties alone has as many sources as
registrations have succeeded, however many ids those that failed have used up. -/
theorem bindings_permanent (hs : Reached s) (h : Calls k s calls s') :
    (∀ name t, (s.checkpoints k).get? name = some t → (s'.checkpoints k).get? name = some t) ∧
      (∀ name other, Relation.TransGen (Relation.SymmGen (Tied calls)) name other →
        ∃ t, (s'.checkpoints k).get? name = some t ∧ (s'.checkpoints k).get? other = some t) ∧
      (s'.checkpoints k).uniqueSources =
        ((s'.checkpoints k).tensors.values.map Tensor.source).toFinset.card ∧
      (s'.checkpoints k).uniqueSources ≤ (s'.checkpoints k).size ∧
      s'.Accounts k ∧
      (s.checkpoints k = .empty → (∀ x ∈ calls, x.1.isInsert = false) →
        (s'.checkpoints k).uniqueSources =
          calls.countP fun x => x.1.isRegister && x.2.isOk) := by
  refine ⟨fun _ _ => h.get?, fun _ _ => h.chain, Checkpoint.uniqueSources_eq _,
    Checkpoint.uniqueSources_le _, (h.sound hs.sound).accounts k, fun hempty hcalls => ?_⟩
  have hcount := h.uniqueSources hs.sound hcalls
  have hnone : Checkpoint.empty.uniqueSources = 0 := rfl
  rwa [hempty, hnone, Nat.zero_add] at hcount

/-- Two tensors are registered; a third has its id used up by a name that is bound, and a chain of
ties joins two more names to the first. -/
theorem bindings_permanent_chain : Reached {} ∧ ∃ calls s', Calls 0 {} calls s' ∧
    (∃ t, (s'.checkpoints 0).get? "c" = some t ∧ (s'.checkpoints 0).get? "a" = some t) ∧
      (s'.checkpoints 0).uniqueSources = 2 ∧ (s'.checkpoints 0).size = 4 ∧ s'.ids.issued = 3 := by
  have hstart : Reached {} := .refl
  let register (name : String) : Call := .register name .u8 [1] ⟨⟨#[7]⟩, by decide⟩
  have hrun := (((((Calls.start (k := 0) (s := {})).call (register "a") trivial).call
    (register "a") trivial).call (.tie "b" "a") trivial).call (.tie "c" "b") trivial).call
    (register "d") trivial
  have hkept := bindings_permanent hstart hrun
  refine ⟨hstart, _, _, hrun, hkept.2.1 _ _ (.tail (b := "b") (.single (.inl ?_)) (.inl ?_)),
    (hkept.2.2.2.2.2 rfl ?_).trans ?_, ?_, ?_⟩
  · exact List.mem_append_left _ (List.mem_append_right _ (List.mem_singleton.2 rfl))
  · exact List.mem_append_left _ (List.mem_append_left _
      (List.mem_append_right _ (List.mem_singleton.2 rfl)))
  · decide +kernel
  · decide +kernel
  · decide +kernel
  · decide +kernel

end Readings

end TieredWeights
