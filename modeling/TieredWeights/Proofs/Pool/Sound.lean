import Mathlib.Algebra.BigOperators.Group.Multiset.Basic
import Mathlib.Data.Multiset.Count
import TieredWeights.Pool

/-!
# Sound pools

A pool is sound for a multiset of buffers if these are the buffers that it handed out and has not
taken back: each has a slot of its own with a backing, the other slots are free, save those that were
lost to a panic, and the counts of bytes, allocations and releases are those of the multiset. Every
operation keeps soundness, and `Touches` says how little else it changes: one slot, and the spill
file of one of its generations.
-/
namespace TieredWeights

/-- What a backing holds, if its file is there. -/
def Backing.content? (f : Files) : Backing → Option Content
  | .memory content => some content
  | .file path => f.contents.find? path

namespace Pool

/-- Where the spill file of a generation of a slot stands, if the pool spills. -/
def spillPath? (p : Pool) (slot generation : Nat) : Option Path :=
  p.spill.map fun folder => folder.path ++ [p.spillName slot generation]

/-- A backing is of the pool's kind: memory, or the spill file of its own generation. -/
def Backs (p : Pool) (slot generation : Nat) : Backing → Prop
  | .memory _ => p.spillPath? slot generation = none
  | .file path => p.spillPath? slot generation = some path

/-- The buffers handed out and not taken back are those of a multiset, and the slots that are neither
free nor theirs were lost. -/
structure Sound (p : Pool) (out : Multiset Buffer) (lost : List Nat := []) : Prop where
  issued : ∀ b ∈ out, p.owns b
  backed : ∀ b ∈ out, ∃ k, p.slots[b.slot]? = some ⟨b.generation, some k⟩ ∧
    p.Backs b.slot b.generation k
  apart : (out.map Buffer.slot).Nodup
  vacant : ∀ i ∈ p.free ++ lost, ∃ g, p.slots[i]? = some ⟨g, none⟩
  free_nodup : (p.free ++ lost).Nodup
  size : p.slots.size = out.card + (p.free ++ lost).length
  used : p.used = (out.map Buffer.length).sum
  within : p.used ≤ p.capacity
  counted : p.allocations = p.releases + out.card

/-- Another pool and other files differ from these in one slot at most, whose generation does not
go back, and in the spill file of one of its generations. The system goes on refusing the same. -/
structure Touches (p : Pool) (f : Files) (slot generation : Nat) (p' : Pool) (f' : Files) :
    Prop where
  tier : p'.tier = p.tier
  id : p'.id = p.id
  process : p'.process = p.process
  spill : p'.spill = p.spill
  capacity : p'.capacity = p.capacity
  slots : ∀ i, i ≠ slot → p'.slots[i]? = p.slots[i]?
  later : ∀ s, p.slots[slot]? = some s → ∃ s', p'.slots[slot]? = some s' ∧
    (s.generation < s'.generation ∨
      s.generation = s'.generation ∧ (s.backing = none → s'.backing = none))
  files : ∀ q, p.spillPath? slot generation ≠ some q → f'.contents.find? q = f.contents.find? q
  refuses : f'.refuses = f.refuses

/-- A buffer was issued by the pool and taken back: its slot has no backing for it any more. -/
def Spent (p : Pool) (b : Buffer) : Prop :=
  ∃ s, p.slots[b.slot]? = some s ∧
    (b.generation < s.generation ∨ b.generation = s.generation ∧ s.backing = none)

theorem Sound.live_eq_add {p : Pool} {out : Multiset Buffer} {lost : List Nat}
    (h : p.Sound out lost) : p.live = out.card + lost.length := by
  have hsize := h.size
  rw [List.length_append] at hsize
  rw [live]
  omega

theorem Sound.live_eq {p : Pool} {out : Multiset Buffer} (h : p.Sound out) : p.live = out.card :=
  h.live_eq_add

theorem owns_iff {p : Pool} {b : Buffer} : p.owns b ↔ b.tier = p.tier ∧ b.pool = p.id := by
  simp only [Pool.owns, Bool.and_eq_true, decide_eq_true_eq]

theorem backing_eq_ok {p : Pool} {b : Buffer} {k : Backing} :
    p.backing b = .ok k ↔ p.owns b ∧ p.slots[b.slot]? = some ⟨b.generation, some k⟩ := by
  unfold backing
  by_cases ho : p.owns b
  · simp only [ho, Bool.not_true, Bool.false_eq_true, if_false, true_and]
    split
    · rename_i g k' hs
      rw [hs]
      by_cases hg : g = b.generation
      · simp [hg]
      · simp [hg]
    · rename_i hs
      simp only [reduceCtorEq, false_iff]
      exact fun he => hs _ _ he
  · simp [ho]

namespace Touches

variable {p p' : Pool} {f f' : Files} {slot generation : Nat}

theorem refl (p : Pool) (f : Files) (slot generation : Nat) : p.Touches f slot generation p f where
  tier := rfl
  id := rfl
  process := rfl
  spill := rfl
  capacity := rfl
  slots _ _ := rfl
  later s hs := ⟨s, hs, .inr ⟨rfl, fun h => h⟩⟩
  files _ _ := rfl
  refuses := rfl

theorem spillPath? (h : p.Touches f slot generation p' f') (i g : Nat) :
    p'.spillPath? i g = p.spillPath? i g := by
  simp [Pool.spillPath?, spillName, h.tier, h.id, h.process, h.spill]

/-- Touches of one slot in one generation add up. -/
theorem trans {p'' : Pool} {f'' : Files} (h : p.Touches f slot generation p' f')
    (h' : p'.Touches f' slot generation p'' f'') : p.Touches f slot generation p'' f'' where
  tier := h'.tier.trans h.tier
  id := h'.id.trans h.id
  process := h'.process.trans h.process
  spill := h'.spill.trans h.spill
  capacity := h'.capacity.trans h.capacity
  slots i hi := (h'.slots i hi).trans (h.slots i hi)
  later s hs := by
    obtain ⟨s', hs', hlater⟩ := h.later s hs
    obtain ⟨s'', hs'', hlater'⟩ := h'.later s' hs'
    refine ⟨s'', hs'', ?_⟩
    rcases hlater with hlt | ⟨heq, hkeep⟩ <;> rcases hlater' with hlt' | ⟨heq', hkeep'⟩
    · exact .inl (by omega)
    · exact .inl (by omega)
    · exact .inl (by omega)
    · exact .inr ⟨by omega, fun hnone => hkeep' (hkeep hnone)⟩
  files q hq := by
    rw [h'.files q (by rwa [h.spillPath?]), h.files q hq]
  refuses := h'.refuses.trans h.refuses

theorem owns (h : p.Touches f slot generation p' f') (b : Buffer) : p'.owns b = p.owns b := by
  simp [Pool.owns, h.tier, h.id]

theorem backs (h : p.Touches f slot generation p' f') (i g : Nat) (k : Backing) :
    p'.Backs i g k ↔ p.Backs i g k := by
  cases k <;> simp [Backs, h.spillPath?]

theorem spent (h : p.Touches f slot generation p' f') {b : Buffer} (hb : p.Spent b) :
    p'.Spent b := by
  obtain ⟨s, hs, hold⟩ := hb
  by_cases hi : b.slot = slot
  · rw [hi] at hs
    obtain ⟨s', hs', hlater⟩ := h.later s hs
    refine ⟨s', hi ▸ hs', ?_⟩
    rcases hold with hlt | ⟨heq, hnone⟩ <;> rcases hlater with hlt' | ⟨heq', hkeep⟩
    · exact .inl (by omega)
    · exact .inl (by omega)
    · exact .inl (by omega)
    · exact .inr ⟨by omega, hkeep hnone⟩
  · exact ⟨s, by rw [h.slots _ hi, hs], hold⟩

end Touches

namespace Sound

variable {p : Pool} {out : Multiset Buffer} {lost : List Nat}

theorem backing (h : p.Sound out lost) {b : Buffer} (hb : b ∈ out) :
    ∃ k, p.backing b = .ok k ∧ p.slots[b.slot]? = some ⟨b.generation, some k⟩ ∧
      p.Backs b.slot b.generation k := by
  obtain ⟨k, hk, hbacks⟩ := h.backed b hb
  exact ⟨k, backing_eq_ok.2 ⟨h.issued b hb, hk⟩, hk, hbacks⟩

theorem slot_ne_of_vacant (h : p.Sound out lost) {b : Buffer} (hb : b ∈ out) {i g : Nat}
    (hi : p.slots[i]? = some ⟨g, none⟩) : b.slot ≠ i := by
  rintro rfl
  obtain ⟨k, hk, -⟩ := h.backed b hb
  rw [hi] at hk
  cases hk

/-- No two buffers that are out have one slot. -/
theorem slot_ne {b c : Buffer} (h : p.Sound (b ::ₘ out) lost) (hc : c ∈ out) : c.slot ≠ b.slot := by
  have hn := h.apart
  rw [Multiset.map_cons, Multiset.nodup_cons] at hn
  exact fun he => hn.1 (he ▸ Multiset.mem_map_of_mem _ hc)

end Sound

/-- The pool with a slot put back among the free ones. -/
def putBack (p : Pool) (slot : Nat) : Pool := { p with free := slot :: p.free }

@[simp] theorem putBack_free (p : Pool) (i : Nat) : (p.putBack i).free = i :: p.free := rfl

@[simp] theorem putBack_slots (p : Pool) (i : Nat) : (p.putBack i).slots = p.slots := rfl

variable {p p' : Pool} {f f' : Files} {out : Multiset Buffer} {lost : List Nat}

theorem takeSlot_of_nil (h : p.free = []) :
    p.takeSlot = (p.slots.size, { p with slots := p.slots.push ⟨0, none⟩ }) := by
  unfold takeSlot
  rw [h]

theorem takeSlot_of_cons {i : Nat} {rest : List Nat} (h : p.free = i :: rest) :
    p.takeSlot = (i, { p with free := rest }) := by
  unfold takeSlot
  rw [h]

/-- Taking a slot and putting it back is sound; what is taken is vacant. -/
theorem Sound.putBack_takeSlot (h : p.Sound out lost) :
    (p.takeSlot.2.putBack p.takeSlot.1).Sound out lost := by
  cases hf : p.free with
  | cons i rest =>
    rw [takeSlot_of_cons hf]
    simpa [putBack, ← hf] using h
  | nil =>
    rw [takeSlot_of_nil hf]
    have hlt : ∀ {i s}, p.slots[i]? = some s → i < p.slots.size :=
      fun hs => (Array.getElem?_eq_some_iff.1 hs).1
    have hsize := h.size
    have hvacant : ∀ i ∈ lost, ∃ g, p.slots[i]? = some ⟨g, none⟩ :=
      fun i hi => h.vacant i (List.mem_append_right _ hi)
    have hnodup := h.free_nodup
    rw [hf, List.nil_append] at hsize hnodup
    refine { h with backed := ?_, vacant := ?_, free_nodup := ?_, size := ?_ }
    · intro b hb
      obtain ⟨k, hk, hbacks⟩ := h.backed b hb
      exact ⟨k, by simp [putBack, Array.getElem?_push, (hlt hk).ne, hk], hbacks⟩
    · intro i hi
      rw [putBack_free, hf, List.cons_append, List.nil_append, List.mem_cons] at hi
      rcases hi with rfl | hi
      · exact ⟨0, by simp [putBack]⟩
      · obtain ⟨g, hg⟩ := hvacant i hi
        exact ⟨g, by simp [putBack, Array.getElem?_push, (hlt hg).ne, hg]⟩
    · rw [putBack_free, hf, List.cons_append, List.nil_append, List.nodup_cons]
      refine ⟨fun hmem => ?_, hnodup⟩
      obtain ⟨g, hg⟩ := hvacant _ hmem
      exact (hlt hg).ne rfl
    · simp only [putBack, hf, List.cons_append, List.nil_append, List.length_cons,
        Array.size_push, hsize]
      omega

/-- A slot that was put back may as well be lost. -/
theorem Sound.lose {i : Nat} (h : (p.putBack i).Sound out lost) : p.Sound out (i :: lost) := by
  have hperm : (p.free ++ i :: lost).Perm ((p.putBack i).free ++ lost) := List.perm_middle
  exact
    { issued := h.issued
      backed := h.backed
      apart := h.apart
      vacant := fun j hj => h.vacant j (hperm.mem_iff.1 hj)
      free_nodup := hperm.nodup_iff.2 h.free_nodup
      size := by rw [hperm.length_eq]; exact h.size
      used := h.used
      within := h.within
      counted := h.counted }

end Pool

end TieredWeights
