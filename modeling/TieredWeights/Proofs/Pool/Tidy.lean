import Mathlib.Data.Finset.Card
import TieredWeights.Proofs.Pool.Reading

/-!
# Tidy pools

A pool is tidy among the files if at the paths of its spill files there stand just the files that
back its slots, and if the system refuses nothing that is done to files. Every request keeps it tidy,
as long as lengths stay within the limits of the file system; so the path of a generation that is yet
to come is free, and an allocation for which there is room cannot fail. A pool that spills nowhere is
tidy among any files.
-/
namespace TieredWeights

/-- The system refuses nothing that is done to a file. -/
def Files.Obliging (f : Files) : Prop := ∀ deed path, f.refuses deed path = none

theorem Files.Obliging.of_refuses {f f' : Files} (h : f.Obliging) (hr : f'.refuses = f.refuses) :
    f'.Obliging := by
  intro deed path
  rw [hr]
  exact h deed path

namespace Pool

/-- The files at the pool's own paths are those that back its slots. -/
structure Tidy (p : Pool) (f : Files) : Prop where
  obliging : p.spill.isSome → f.Obliging
  backed : ∀ i g k, p.slots[i]? = some ⟨g, some k⟩ → p.Backs i g k
  stands : ∀ i g path, p.spillPath? i g = some path →
    ((f.contents.find? path).isSome ↔ p.slots[i]? = some ⟨g, some (.file path)⟩)

/-- The file system can represent a next buffer of a length for which the pool has room: its size and,
if the pool spills, the text of the route to its file. No piece of memory can be larger. -/
def Represents (p : Pool) (n : Nat) : Prop :=
  n ≤ p.capacity - p.used → n ≤ Files.sizeLimit ∧ ∀ folder, p.spill = some folder →
    (folder.routeTo (p.spillName p.takeSlot.1
      (p.takeSlot.2.generationOf p.takeSlot.1 + 1))).utf8ByteSize ≤ Route.textLimit

variable {p p' : Pool} {f f' : Files} {out : Multiset Buffer} {lost : List Nat} {b : Buffer}
  {k : Backing} {n : Nat} {type : ElementType}

theorem tidy_new {tier : Tier} {id capacity process : Nat} {spill : Option Folder}
    (hobliging : spill.isSome → f.Obliging)
    (h : ∀ i g path, spillPath? { tier, id, capacity, spill, process } i g = some path →
      f.contents.find? path = none) : Tidy { tier, id, capacity, spill, process } f := by
  constructor
  case obliging => exact hobliging
  case backed => simp
  case stands =>
    intro i g path hpath
    simp [h i g path hpath]

/-- Files at other paths do not matter. -/
theorem Tidy.of_files (h : p.Tidy f) (hr : f'.refuses = f.refuses)
    (hf : ∀ i g path, p.spillPath? i g = some path →
      f'.contents.find? path = f.contents.find? path) : p.Tidy f' := by
  refine ⟨fun hspill => (h.obliging hspill).of_refuses hr, h.backed, ?_⟩
  intro i g path hpath
  rw [hf i g path hpath]
  exact h.stands i g path hpath

/-- A file backs no memory, and memory no slot of a pool that spills. -/
theorem spill_of_backs_memory {i g : Nat} {c : Content} (h : p.Backs i g (.memory c)) :
    p.spill = none := by
  simpa [Backs, spillPath?] using h

theorem isSome_spill_of_backs_file {i g : Nat} {path : Path} (h : p.Backs i g (.file path)) :
    p.spill.isSome := by
  rw [Backs, spillPath?, Option.map_eq_some_iff] at h
  obtain ⟨folder, hfolder, -⟩ := h
  simp [hfolder]

/-- The system lets the pool fill its files, if it has any. -/
def Writes (p : Pool) (f : Files) : Prop := p.spill.isSome → ∀ path, f.refuses .write path = none

theorem Tidy.writes (h : p.Tidy f) : p.Writes f := fun hspill => h.obliging hspill .write

theorem Touches.writes {slot generation : Nat} (h : p.Touches f slot generation p' f')
    (hw : p.Writes f) : p'.Writes f' := by
  rwa [Writes, h.spill, h.refuses]

/-- A buffer that is out can be filled if it can be read. -/
theorem Sound.copyIn_ok (h : p.Sound out lost) (hb : b ∈ out) (hw : p.Writes f)
    {old bytes : ByteArray} (hread : p.read f b = .ok old) (hsize : bytes.size = b.length) :
    (p.copyIn f b bytes).1 = .ok () := by
  obtain ⟨k, hk, -, hbacks⟩ := h.backing hb
  refine copyIn_of_read hread hsize fun path hpath => ?_
  rw [hk, Except.ok.injEq] at hpath
  subst hpath
  exact hw (isSome_spill_of_backs_file hbacks) path

theorem spillPath?_eq_none (h : p.spill = none) (i g : Nat) : p.spillPath? i g = none := by
  simp [spillPath?, h]

/-- The slot that is taken next backs nothing. -/
theorem Sound.takeSlot_vacant (h : p.Sound out lost) (g : Nat) :
    p.slots[p.takeSlot.1]? ≠ some ⟨g, some k⟩ := by
  unfold takeSlot
  cases hfree : p.free with
  | nil => simp
  | cons i rest =>
    obtain ⟨g', hi⟩ := h.vacant i (by simp [hfree])
    simp [hi]

/-- A slot belongs to a buffer that is out, or it is free or lost. -/
theorem Sound.slot_cases (h : p.Sound out lost) {i : Nat} (hi : i < p.slots.size) :
    (∃ b ∈ out, b.slot = i) ∨ i ∈ p.free ++ lost := by
  have hbacked : (out.map Buffer.slot).toFinset ⊆ Finset.range p.slots.size := by
    intro j hj
    simp only [Multiset.mem_toFinset, Multiset.mem_map] at hj
    obtain ⟨b, hb, rfl⟩ := hj
    obtain ⟨k', hk', -⟩ := h.backed b hb
    exact Finset.mem_range.2 (Array.getElem?_eq_some_iff.1 hk').1
  have hvacant : (p.free ++ lost).toFinset ⊆ Finset.range p.slots.size := by
    intro j hj
    obtain ⟨g', hg'⟩ := h.vacant j (List.mem_toFinset.1 hj)
    exact Finset.mem_range.2 (Array.getElem?_eq_some_iff.1 hg').1
  have hdisjoint : Disjoint (out.map Buffer.slot).toFinset (p.free ++ lost).toFinset := by
    refine Finset.disjoint_left.2 fun j hj hj' => ?_
    simp only [Multiset.mem_toFinset, Multiset.mem_map] at hj
    obtain ⟨b, hb, rfl⟩ := hj
    obtain ⟨g', hg'⟩ := h.vacant _ (List.mem_toFinset.1 hj')
    exact h.slot_ne_of_vacant hb hg' rfl
  -- The slots of buffers that are out and the others are as many as there are slots.
  have hall : (out.map Buffer.slot).toFinset ∪ (p.free ++ lost).toFinset =
      Finset.range p.slots.size := by
    refine Finset.eq_of_subset_of_card_le (Finset.union_subset hbacked hvacant) ?_
    rw [Finset.card_union_of_disjoint hdisjoint, Multiset.toFinset_card_of_nodup h.apart,
      List.toFinset_card_of_nodup h.free_nodup, Finset.card_range, Multiset.card_map, h.size]
  have hmem : i ∈ (out.map Buffer.slot).toFinset ∪ (p.free ++ lost).toFinset := by
    rw [hall]
    exact Finset.mem_range.2 hi
  simpa only [Finset.mem_union, Multiset.mem_toFinset, Multiset.mem_map, List.mem_toFinset] using hmem

/-- A slot with a backing has it for a buffer that is out. -/
theorem Sound.exists_of_backed (h : p.Sound out lost) {i g : Nat}
    (hi : p.slots[i]? = some ⟨g, some k⟩) : ∃ b ∈ out, b.slot = i ∧ b.generation = g := by
  rcases h.slot_cases (Array.getElem?_eq_some_iff.1 hi).1 with ⟨b, hb, rfl⟩ | hfree
  · obtain ⟨k', hk', -⟩ := h.backed b hb
    rw [hi] at hk'
    cases hk'
    exact ⟨b, hb, rfl, rfl⟩
  · obtain ⟨g', hg'⟩ := h.vacant i hfree
    rw [hi] at hg'
    cases hg'

/-- Just the slots without a backing are free or lost. -/
theorem Sound.mem_free_iff (h : p.Sound out lost) {i : Nat} :
    i ∈ p.free ++ lost ↔ ∃ g, p.slots[i]? = some ⟨g, none⟩ := by
  constructor
  · exact h.vacant i
  · rintro ⟨g, hg⟩
    rcases h.slot_cases (Array.getElem?_eq_some_iff.1 hg).1 with ⟨b, hb, rfl⟩ | hfree
    · exact absurd rfl (h.slot_ne_of_vacant hb hg)
    · exact hfree

/-- The path of the next buffer's file is free. -/
theorem Tidy.isFile_next (h : p.Tidy f) (hs : p.Sound out lost) {folder : Folder}
    (hspill : p.spill = some folder) : f.isFile (folder.path ++ [p.spillName p.takeSlot.1
      (p.takeSlot.2.generationOf p.takeSlot.1 + 1)]) = false := by
  have hpath : p.spillPath? p.takeSlot.1 (p.takeSlot.2.generationOf p.takeSlot.1 + 1) =
      some (folder.path ++ [p.spillName p.takeSlot.1
        (p.takeSlot.2.generationOf p.takeSlot.1 + 1)]) := by
    simp [spillPath?, hspill]
  have hstands := h.stands _ _ _ hpath
  have hvacant := hs.takeSlot_vacant (k := .file (folder.path ++ [p.spillName p.takeSlot.1
    (p.takeSlot.2.generationOf p.takeSlot.1 + 1)])) (p.takeSlot.2.generationOf p.takeSlot.1 + 1)
  rw [Files.isFile, Table.contains, Bool.eq_false_iff]
  exact fun hfile => hvacant (hstands.1 hfile)

/-- A pool has room for `n` bytes, there is memory for them or the file system makes their file. -/
def Takes (p : Pool) (f : Files) (n : Nat) : Prop :=
  n ≤ p.capacity - p.used ∧ (p.spill = none → n ≤ memoryLimit) ∧
    ∀ folder, p.spill = some folder → ∃ path, (f.createIn folder
      (p.spillName p.takeSlot.1 (p.takeSlot.2.generationOf p.takeSlot.1 + 1)) n).1 = .ok path

theorem Takes.allocate (h : p.Takes f n) (type : ElementType) :
    (p.allocate f n type).1 = .ok (p.nextBuffer n type) := by
  obtain ⟨hroom, hmemory, hfile⟩ := h
  have hnot : ¬ p.capacity - p.used < n := Nat.not_lt.2 hroom
  have hname : p.takeSlot.2.spillName = p.spillName := by
    funext i g
    simp only [spillName, takeSlot_tier, takeSlot_process, takeSlot_id]
  simp only [Pool.allocate, hnot, if_false, nextBuffer, hname, takeSlot_tier, takeSlot_id]
  cases hspill : p.takeSlot.2.spill with
  | none =>
    have hsmall := Nat.not_lt.2 (hmemory (by rw [← hspill, takeSlot_spill]))
    simp only [hsmall, if_false]
  | some folder =>
    obtain ⟨path, hpath⟩ := hfile folder (by rw [← hspill, takeSlot_spill])
    rcases hc : f.createIn folder (p.spillName p.takeSlot.1
      (p.takeSlot.2.generationOf p.takeSlot.1 + 1)) n with ⟨e | path', f'⟩ <;> rw [hc] at hpath
    · cases hpath
    · simp only [hc]

/-- Where there is room the limits alone stand in the way, and not a file that is there. -/
theorem Tidy.takes (h : p.Tidy f) (hs : p.Sound out lost) (hroom : n ≤ p.capacity - p.used)
    (hfits : p.Represents n) : p.Takes f n := by
  obtain ⟨hsize, hroutes⟩ := hfits hroom
  refine ⟨hroom, fun _ => hsize, fun folder hspill => ?_⟩
  have hroute := hroutes folder hspill
  rw [← Folder.routeSize_eq] at hroute
  have hfree := h.isFile_next hs hspill
  have hobliging := h.obliging (by simp [hspill]) .create
  simp [Files.createIn, Files.create, hfree, hobliging, Nat.not_lt.2 hsize, Nat.not_lt.2 hroute,
    Except.map]

/-- An allocation for which there is room is refused for the limits alone, and not for a file that
stands in its way. -/
theorem Tidy.allocate_ok (h : p.Tidy f) (hs : p.Sound out lost) (hroom : n ≤ p.capacity - p.used)
    (hfits : p.Represents n) (type : ElementType) :
    (p.allocate f n type).1 = .ok (p.nextBuffer n type) :=
  (h.takes hs hroom hfits).allocate type

/-- An allocation for which there is no room does nothing. -/
theorem allocate_full (h : p.capacity - p.used < n) (f : Files) (type : ElementType) :
    p.allocate f n type = (.error (.outOfCapacity p.tier n (p.capacity - p.used)), p, f) := by
  simp only [allocate, h, if_true]

/-- What is handed out is backed at once, and nothing else of the pool's has changed. -/
theorem Tidy.allocated (h : p.Tidy f) (hs : p.Sound out lost)
    (ha : p.allocate f n type = (.ok b, p', f')) : p'.Tidy f' := by
  have htouch := touches_allocate ha
  obtain ⟨hb, -, k, hslot, hcontent⟩ := hs.allocate ha
  rw [← hb] at htouch
  have hbacks : p.Backs b.slot b.generation k := by
    rcases allocate_cases ha with ⟨e, he, -⟩ | ⟨-, he, -⟩ | ⟨k', hb', -, rfl, hbacks, -⟩
    · cases he
    · cases he
    · cases hb'
      have hsize : (p.nextBuffer n type).slot < p.takeSlot.2.slots.size := by
        obtain ⟨g, hg⟩ := hs.putBack_takeSlot.vacant p.takeSlot.1 (by simp)
        exact (Array.getElem?_eq_some_iff.1 hg).1
      rw [getElem?_occupy hsize] at hslot
      cases hslot
      exact hbacks
  have hvacant : ∀ g k, p.slots[b.slot]? ≠ some ⟨g, some k⟩ := by
    intro g k
    rw [hb]
    exact hs.takeSlot_vacant g
  constructor
  case obliging =>
    intro hspill
    rw [htouch.spill] at hspill
    exact (h.obliging hspill).of_refuses htouch.refuses
  case backed =>
    intro i g k' hk'
    rw [htouch.backs]
    by_cases hi : i = b.slot
    · rw [hi, hslot] at hk'
      cases hk'
      rwa [hi]
    · rw [htouch.slots i hi] at hk'
      exact h.backed i g k' hk'
  case stands =>
    intro i g path hpath
    rw [htouch.spillPath?] at hpath
    by_cases hnew : p.spillPath? b.slot b.generation = some path
    · obtain ⟨-, rfl, rfl⟩ := spillPath?_inj hpath hnew
      cases k with
      | memory c =>
        rw [Backs, hnew] at hbacks
        cases hbacks
      | file path' =>
        rw [Backs, hnew, Option.some.injEq] at hbacks
        subst hbacks
        rw [Backing.content?] at hcontent
        simp [hslot, hcontent]
    · rw [htouch.files path hnew, h.stands i g path hpath]
      by_cases hi : i = b.slot
      · subst hi
        have hg : g ≠ b.generation := fun hg => hnew (hg ▸ hpath)
        simp [hvacant, hslot, hg.symm]
      · rw [htouch.slots i hi]

theorem Tidy.copyIn (h : p.Tidy f) {bytes : ByteArray} {r : Except Fault Unit}
    (hc : p.copyIn f b bytes = (r, p', f')) : p'.Tidy f' := by
  rcases copyIn_cases hc with ⟨e, -, rfl, rfl⟩ | ⟨c, hb, -, -, rfl, rfl⟩ |
    ⟨path, old, part, hb, hold, rfl, rfl, -⟩
  · exact h
  · obtain ⟨-, hslot⟩ := backing_eq_ok.1 hb
    have hlt := (Array.getElem?_eq_some_iff.1 hslot).1
    have hbacks := h.backed _ _ _ hslot
    have hnone := spillPath?_eq_none (spill_of_backs_memory hbacks)
    constructor
    case obliging => exact h.obliging
    case backed =>
      intro i g k hk
      by_cases hi : i = b.slot
      · subst hi
        simp only [Array.getElem?_setIfInBounds_self_of_lt hlt, Option.some.injEq, Slot.mk.injEq] at hk
        obtain ⟨rfl, rfl⟩ := hk
        exact hbacks
      · rw [Array.getElem?_setIfInBounds_ne (Ne.symm hi)] at hk
        exact h.backed i g k hk
    case stands =>
      intro i g path hpath
      have hpath' : p.spillPath? i g = some path := hpath
      rw [hnone] at hpath'
      cases hpath'
  · refine ⟨h.obliging, h.backed, ?_⟩
    intro i g path' hpath
    rw [← h.stands i g path' hpath]
    by_cases he : path' = path
    · simp [he, hold]
    · rw [Table.find?_insert_ne _ _ he]

/-- A buffer is taken back with its file. -/
theorem Tidy.release (h : p.Tidy f) (hb : p.backing b = .ok k) :
    ∃ f', p.release f b = (.ok [], p.vacate b, f') ∧ (p.vacate b).Tidy f' ∧
      ∀ path, k ≠ .file path → f'.contents.find? path = f.contents.find? path := by
  obtain ⟨-, hslot⟩ := backing_eq_ok.1 hb
  have hlt := (Array.getElem?_eq_some_iff.1 hslot).1
  have hbacks := h.backed _ _ _ hslot
  have hself : (p.vacate b).slots[b.slot]? = some ⟨b.generation, none⟩ := by
    simp [vacate, hlt]
  have hother : ∀ i, i ≠ b.slot → (p.vacate b).slots[i]? = p.slots[i]? := by
    intro i hi
    simp [vacate, hi.symm]
  have hbacked : ∀ i g k', (p.vacate b).slots[i]? = some ⟨g, some k'⟩ →
      (p.vacate b).Backs i g k' := by
    intro i g k' hk'
    have hi : i ≠ b.slot := by
      rintro rfl
      rw [hself] at hk'
      cases hk'
    rw [hother i hi] at hk'
    exact h.backed i g k' hk'
  cases k with
  | memory c =>
    refine ⟨f, by simp [Pool.release, hb], ⟨h.obliging, hbacked, ?_⟩, fun _ _ => rfl⟩
    intro i g path hpath
    have hnone := spillPath?_eq_none (spill_of_backs_memory hbacks) i g
    have hpath' : p.spillPath? i g = some path := hpath
    rw [hnone] at hpath'
    cases hpath'
  | file path =>
    have hfile : f.isFile path = true := (h.stands _ _ _ hbacks).2 hslot
    have hobliging := h.obliging (isSome_spill_of_backs_file hbacks) .remove path
    refine ⟨{ f with contents := f.contents.erase path },
      by simp [Pool.release, hb, Files.remove, hfile, hobliging], ⟨h.obliging, hbacked, ?_⟩, ?_⟩
    · intro i g path' hpath
      have hpath' : p.spillPath? i g = some path' := hpath
      by_cases he : path' = path
      · subst he
        obtain ⟨-, rfl, rfl⟩ := spillPath?_inj hpath' hbacks
        simp [hself]
      · rw [Table.find?_erase_ne _ he, h.stands i g path' hpath']
        by_cases hi : i = b.slot
        · subst hi
          have hg : ¬ b.generation = g := by
            rintro rfl
            rw [Backs, hpath', Option.some.injEq] at hbacks
            exact he hbacks
          simp [hself, hslot, hg]
        · rw [hother i hi]
    · intro path' hne
      refine Table.find?_erase_ne _ ?_
      rintro rfl
      exact hne rfl

end Pool

end TieredWeights
