import TieredWeights.Proofs.Pool.Sound

/-!
# What pool operations do

One lemma for each operation of a sound pool: an allocation adds its buffer to those that are out,
or is refused and adds none, or asks for too much memory and loses a slot; a write leaves them, and
a release of one that is out succeeds and takes it away. Each touches one slot, which no other
buffer has.
-/
namespace TieredWeights

namespace Files

theorem find?_createIn_ne {f f' : Files} {folder : Folder} {name : String} {n : Nat}
    {r : Except IoFault Path} (h : f.createIn folder name n = (r, f')) {q : Path}
    (hq : q ≠ folder.path ++ [name]) : f'.contents.find? q = f.contents.find? q := by
  unfold createIn at h
  split at h
  · cases h
    rfl
  · cases h
    exact find?_create_ne rfl hq

/-- Whatever becomes of a file, the system goes on refusing the same. -/
@[simp] theorem refuses_create (f : Files) (p : Path) (n : Nat) :
    (f.create p n).2.refuses = f.refuses := by
  unfold create
  split
  · rfl
  split
  · rfl
  split <;> rfl

@[simp] theorem refuses_createIn (f : Files) (folder : Folder) (name : String) (n : Nat) :
    (f.createIn folder name n).2.refuses = f.refuses := by
  unfold createIn
  split
  · rfl
  · exact refuses_create f _ n

theorem createIn_eq_ok {f f' : Files} {folder : Folder} {name : String} {n : Nat} {path : Path}
    (h : f.createIn folder name n = (.ok path, f')) :
    path = folder.path ++ [name] ∧ f'.contents.find? path = some (.zeros n) := by
  unfold createIn at h
  split at h
  · cases h
  · rcases hc : f.create (folder.path ++ [name]) n with ⟨e | u, g⟩
    · simp [hc, Except.map] at h
    · simp only [hc, Except.map, Prod.mk.injEq, Except.ok.injEq] at h
      obtain ⟨rfl, rfl⟩ := h
      exact ⟨rfl, find?_create hc⟩

end Files

namespace Pool

variable {p p' : Pool} {f f' : Files} {out : Multiset Buffer} {lost : List Nat}

@[simp] theorem takeSlot_tier (p : Pool) : p.takeSlot.2.tier = p.tier := by
  unfold takeSlot; split <;> rfl

@[simp] theorem takeSlot_id (p : Pool) : p.takeSlot.2.id = p.id := by
  unfold takeSlot; split <;> rfl

@[simp] theorem takeSlot_process (p : Pool) : p.takeSlot.2.process = p.process := by
  unfold takeSlot; split <;> rfl

@[simp] theorem takeSlot_spill (p : Pool) : p.takeSlot.2.spill = p.spill := by
  unfold takeSlot; split <;> rfl

@[simp] theorem takeSlot_allocations (p : Pool) : p.takeSlot.2.allocations = p.allocations := by
  unfold takeSlot; split <;> rfl

@[simp] theorem takeSlot_releases (p : Pool) : p.takeSlot.2.releases = p.releases := by
  unfold takeSlot; split <;> rfl

@[simp] theorem takeSlot_capacity (p : Pool) : p.takeSlot.2.capacity = p.capacity := by
  unfold takeSlot; split <;> rfl

@[simp] theorem takeSlot_used (p : Pool) : p.takeSlot.2.used = p.used := by
  unfold takeSlot; split <;> rfl

/-- Taking a slot only makes a new vacant one where there was none. -/
theorem touches_takeSlot (p : Pool) (f : Files) (g : Nat) (free : List Nat) :
    p.Touches f p.takeSlot.1 g { p.takeSlot.2 with free } f := by
  unfold takeSlot
  split
  · exact { Touches.refl p f _ g with }
  · refine { Touches.refl p f _ g with slots := ?_, later := ?_ }
    · intro i hi
      simp [Array.getElem?_push, hi]
    · intro s hs
      simp at hs

/-- The buffer that an allocation is to hand out. -/
def nextBuffer (p : Pool) (n : Nat) (type : ElementType) : Buffer :=
  ⟨p.tier, p.id, p.takeSlot.1, p.takeSlot.2.generationOf p.takeSlot.1 + 1, n, type⟩

@[simp] theorem nextBuffer_length (p : Pool) (n : Nat) (type : ElementType) :
    (p.nextBuffer n type).length = n := rfl

/-- There is room for a buffer in memory, and still it is more than a piece of memory can have. -/
structure Overflows (p : Pool) (n : Nat) : Prop where
  spill : p.spill = none
  room : n ≤ p.capacity - p.used
  large : memoryLimit < n

theorem allocate_of_overflows {n : Nat} (h : p.Overflows n) (f : Files) (type : ElementType) :
    p.allocate f n type = (.error .capacityOverflow, p.takeSlot.2, f) := by
  have hroom : ¬ p.capacity - p.used < n := Nat.not_lt.2 h.room
  have hspill : p.takeSlot.2.spill = none := (takeSlot_spill p).trans h.spill
  simp only [allocate, hroom, if_false, hspill, h.large, if_true]

/-- An allocation is refused and at most makes a vacant slot, or it takes a slot for more memory than
there can be, or it hands out the next buffer. -/
theorem allocate_cases {n : Nat} {type : ElementType} {r : Except Fault Buffer}
    (h : p.allocate f n type = (r, p', f')) :
    (∃ e, r = .error e ∧ e.isPanic = false ∧
        (p' = p ∨ p' = p.takeSlot.2.putBack p.takeSlot.1)) ∨
      (p.Overflows n ∧ r = .error .capacityOverflow ∧ p' = p.takeSlot.2 ∧ f' = f) ∨
      ∃ k, r = .ok (p.nextBuffer n type) ∧ n ≤ p.capacity - p.used ∧
        p' = p.takeSlot.2.occupy (p.nextBuffer n type).slot (p.nextBuffer n type).generation n k ∧
        p.Backs (p.nextBuffer n type).slot (p.nextBuffer n type).generation k ∧
        k.content? f' = some (.zeros n) := by
  have hnext : p.nextBuffer n type = ⟨p.takeSlot.2.tier, p.takeSlot.2.id, p.takeSlot.1,
      p.takeSlot.2.generationOf p.takeSlot.1 + 1, n, type⟩ := by
    rw [nextBuffer, takeSlot_tier, takeSlot_id]
  unfold allocate at h
  by_cases hroom : p.capacity - p.used < n
  · simp only [hroom, if_true, Prod.mk.injEq] at h
    obtain ⟨rfl, rfl, rfl⟩ := h
    exact .inl ⟨_, rfl, rfl, .inl rfl⟩
  · simp only [hroom, if_false] at h
    have hn : n ≤ p.capacity - p.used := Nat.le_of_not_lt hroom
    cases hs : p.takeSlot.2.spill with
    | none =>
      have hspill : p.spill = none := (takeSlot_spill p).symm.trans hs
      simp only [hs] at h
      by_cases hlarge : memoryLimit < n
      · simp only [hlarge, if_true, Prod.mk.injEq] at h
        obtain ⟨rfl, rfl, rfl⟩ := h
        exact .inr (.inl ⟨⟨hspill, hn, hlarge⟩, rfl, rfl, rfl⟩)
      · simp only [hlarge, if_false, Prod.mk.injEq] at h
        obtain ⟨rfl, rfl, rfl⟩ := h
        refine .inr (.inr ⟨_, by rw [hnext], hn, rfl, ?_, rfl⟩)
        simp [Backs, spillPath?, hspill]
    | some folder =>
      simp only [hs] at h
      rcases hc : f.createIn folder (p.takeSlot.2.spillName p.takeSlot.1
        (p.takeSlot.2.generationOf p.takeSlot.1 + 1)) n with ⟨e | path, g⟩
      · simp only [hc, Prod.mk.injEq] at h
        obtain ⟨rfl, rfl, rfl⟩ := h
        refine .inl ⟨_, rfl, rfl, .inr ?_⟩
        rw [putBack, ← hs]
      · simp only [hc, Prod.mk.injEq] at h
        obtain ⟨rfl, rfl, rfl⟩ := h
        obtain ⟨rfl, hfind⟩ := Files.createIn_eq_ok hc
        refine .inr (.inr ⟨_, by rw [hnext], hn, rfl, ?_, hfind⟩)
        rw [takeSlot_spill] at hs
        simp [Backs, spillPath?, nextBuffer, hs, spillName]

theorem find?_allocate {n : Nat} {type : ElementType} {r : Except Fault Buffer}
    (h : p.allocate f n type = (r, p', f')) {q : Path}
    (hq : p.spillPath? (p.nextBuffer n type).slot (p.nextBuffer n type).generation ≠ some q) :
    f'.contents.find? q = f.contents.find? q := by
  unfold allocate at h
  by_cases hroom : p.capacity - p.used < n
  · simp only [hroom, if_true, Prod.mk.injEq] at h
    rw [h.2.2]
  · simp only [hroom, if_false] at h
    cases hs : p.takeSlot.2.spill with
    | none =>
      simp only [hs] at h
      split at h <;> cases h <;> rfl
    | some folder =>
      simp only [hs] at h
      rcases hc : f.createIn folder (p.takeSlot.2.spillName p.takeSlot.1
        (p.takeSlot.2.generationOf p.takeSlot.1 + 1)) n with ⟨e | path, g⟩ <;>
      · simp only [hc, Prod.mk.injEq] at h
        rw [← h.2.2]
        refine Files.find?_createIn_ne hc fun he => hq ?_
        rw [takeSlot_spill] at hs
        simp [he, spillPath?, nextBuffer, hs, spillName]

theorem refuses_allocate {n : Nat} {type : ElementType} {r : Except Fault Buffer}
    (h : p.allocate f n type = (r, p', f')) : f'.refuses = f.refuses := by
  unfold allocate at h
  by_cases hroom : p.capacity - p.used < n
  · simp only [hroom, if_true, Prod.mk.injEq] at h
    rw [h.2.2]
  · simp only [hroom, if_false] at h
    cases hs : p.takeSlot.2.spill with
    | none =>
      simp only [hs] at h
      split at h <;> cases h <;> rfl
    | some folder =>
      simp only [hs] at h
      rcases hc : f.createIn folder (p.takeSlot.2.spillName p.takeSlot.1
        (p.takeSlot.2.generationOf p.takeSlot.1 + 1)) n with ⟨e | path, g⟩ <;>
      · have hcreate := congrArg (fun x => x.2.refuses) hc
        simp only [hc, Prod.mk.injEq] at h
        rw [← h.2.2, ← hcreate]
        exact Files.refuses_createIn f folder _ n

/-- A new generation of a slot touches no other slot. -/
theorem touches_occupy {i n : Nat} (k : Backing)
    (hf : ∀ q, p.spillPath? i (p.generationOf i + 1) ≠ some q →
      f'.contents.find? q = f.contents.find? q) (hr : f'.refuses = f.refuses) :
    p.Touches f i (p.generationOf i + 1) (p.occupy i (p.generationOf i + 1) n k) f' := by
  refine { Touches.refl p f i (p.generationOf i + 1) with
    slots := ?_, later := ?_, files := hf, refuses := hr }
  · intro j hj
    simp [occupy, hj.symm]
  · intro s hs
    have hlt : i < p.slots.size := (Array.getElem?_eq_some_iff.1 hs).1
    refine ⟨⟨p.generationOf i + 1, some k⟩, by simp [occupy, hlt], .inl ?_⟩
    simp [generationOf, hs]

/-- An allocation touches the slot of the next buffer, which is vacant. -/
theorem touches_allocate {n : Nat} {type : ElementType} {r : Except Fault Buffer}
    (h : p.allocate f n type = (r, p', f')) :
    p.Touches f (p.nextBuffer n type).slot (p.nextBuffer n type).generation p' f' := by
  have htake := fun free => touches_takeSlot p f (p.nextBuffer n type).generation free
  have hfiles := fun q hq => find?_allocate (q := q) h hq
  have hrefuses := refuses_allocate h
  rcases allocate_cases h with ⟨e, -, -, rfl | rfl⟩ | ⟨-, -, rfl, -⟩ | ⟨k, -, -, rfl, -, -⟩
  · exact { Touches.refl p' f (p'.nextBuffer n type).slot (p'.nextBuffer n type).generation with
      files := hfiles, refuses := hrefuses }
  · exact { htake _ with files := hfiles, refuses := hrefuses }
  · exact { htake p.takeSlot.2.free with files := hfiles, refuses := hrefuses }
  · refine (htake p.takeSlot.2.free).trans (touches_occupy k (fun q hq => hfiles q ?_) hrefuses)
    rwa [(htake p.takeSlot.2.free).spillPath?] at hq

theorem getElem?_occupy {i g n : Nat} {k : Backing} (h : i < p.slots.size) :
    (p.occupy i g n k).slots[i]? = some ⟨g, some k⟩ := by
  simp [occupy, h]

theorem getElem?_occupy_ne {i g n : Nat} {k : Backing} {j : Nat} (h : j ≠ i) :
    (p.occupy i g n k).slots[j]? = p.slots[j]? := by
  simp [occupy, h.symm]

/-- A free slot that is occupied by a buffer of the pool, with room for it. -/
theorem Sound.occupy {b : Buffer} {k : Backing} (h : (p.putBack b.slot).Sound out lost)
    (ho : p.owns b) (hn : b.length ≤ p.capacity - p.used) (hk : p.Backs b.slot b.generation k) :
    (p.occupy b.slot b.generation b.length k).Sound (b ::ₘ out) lost := by
  obtain ⟨g₀, hi⟩ := h.vacant b.slot (by simp)
  have hlt : b.slot < p.slots.size := (Array.getElem?_eq_some_iff.1 hi).1
  have hne : ∀ c ∈ out, c.slot ≠ b.slot := fun c hc => h.slot_ne_of_vacant hc hi
  have hfree := List.nodup_cons.1 h.free_nodup
  refine ⟨?_, ?_, ?_, ?_, hfree.2, ?_, ?_, ?_, ?_⟩
  · intro c hc
    rcases Multiset.mem_cons.1 hc with rfl | hc
    · exact ho
    · exact h.issued c hc
  · intro c hc
    rcases Multiset.mem_cons.1 hc with rfl | hc
    · exact ⟨k, getElem?_occupy hlt, hk⟩
    · obtain ⟨k', hk', hbacks⟩ := h.backed c hc
      exact ⟨k', (getElem?_occupy_ne (hne c hc)).trans hk', hbacks⟩
  · rw [Multiset.map_cons, Multiset.nodup_cons]
    refine ⟨fun hmem => ?_, h.apart⟩
    obtain ⟨c, hc, he⟩ := Multiset.mem_map.1 hmem
    exact hne c hc he
  · intro j hj
    obtain ⟨g, hg⟩ := h.vacant j (List.mem_cons_of_mem _ hj)
    have hji : j ≠ b.slot := fun he => hfree.1 (he ▸ hj)
    exact ⟨g, (getElem?_occupy_ne hji).trans hg⟩
  · have hs := h.size
    simp only [putBack_slots, putBack_free, List.cons_append, List.length_cons] at hs
    simp only [Pool.occupy, Array.size_setIfInBounds, Multiset.card_cons]
    omega
  · have hu : p.used = (out.map Buffer.length).sum := h.used
    simp only [Pool.occupy, Multiset.map_cons, Multiset.sum_cons, hu]
    exact Nat.add_comm _ _
  · have hw : p.used ≤ p.capacity := h.within
    simp only [Pool.occupy]
    omega
  · have hc : p.allocations = p.releases + out.card := h.counted
    simp only [Pool.occupy, Multiset.card_cons]
    omega

/-- The slot of the next buffer belongs to no buffer that is out. -/
theorem Sound.slot_ne_nextBuffer (h : p.Sound out lost) (n : Nat) (type : ElementType) {b : Buffer}
    (hb : b ∈ out) : b.slot ≠ (p.nextBuffer n type).slot := by
  obtain ⟨g, hg⟩ := h.putBack_takeSlot.vacant p.takeSlot.1 (by simp)
  exact h.putBack_takeSlot.slot_ne_of_vacant hb hg

/-- What an allocation hands out is out afterwards, besides what was. -/
theorem Sound.allocate {n : Nat} {type : ElementType} {b : Buffer} (h : p.Sound out lost)
    (ha : p.allocate f n type = (.ok b, p', f')) :
    b = p.nextBuffer n type ∧ p'.Sound (b ::ₘ out) lost ∧
      ∃ k, p'.slots[b.slot]? = some ⟨b.generation, some k⟩ ∧ k.content? f' = some (.zeros n) := by
  rcases allocate_cases ha with ⟨e, he, -⟩ | ⟨-, he, -⟩ | ⟨k, hb, hn, hp', hbacks, hk⟩
  · cases he
  · cases he
  · cases hb
    have hput : (p.takeSlot.2.putBack (p.nextBuffer n type).slot).Sound out lost :=
      h.putBack_takeSlot
    have htake := touches_takeSlot p f 0 p.takeSlot.2.free
    obtain ⟨g, hg⟩ := hput.vacant (p.nextBuffer n type).slot (by simp)
    refine ⟨rfl, ?_, k, ?_, hk⟩
    · rw [hp']
      refine hput.occupy ?_ (by simpa using hn) ((htake.backs _ _ k).2 hbacks)
      simp [owns, nextBuffer]
    · rw [hp']
      exact getElem?_occupy (Array.getElem?_eq_some_iff.1 hg).1

/-- A refused allocation hands nothing out. -/
theorem Sound.refused {n : Nat} {type : ElementType} {e : Fault} (h : p.Sound out lost)
    (ha : p.allocate f n type = (.error e, p', f')) (he : e.isPanic = false) :
    p'.Sound out lost := by
  rcases allocate_cases ha with ⟨e, -, -, rfl | rfl⟩ | ⟨-, hpanic, -⟩ | ⟨k, hb, -⟩
  · exact h
  · exact h.putBack_takeSlot
  · cases hpanic
    cases he
  · cases hb

/-- What a piece of memory can hold never makes an allocation panic. -/
theorem isPanic_of_allocate {n : Nat} {type : ElementType} {e : Fault} (hn : n ≤ memoryLimit)
    (ha : p.allocate f n type = (.error e, p', f')) : e.isPanic = false := by
  rcases allocate_cases ha with ⟨e, he, hreturns, -⟩ | ⟨hoverflows, -⟩ | ⟨k, he, -⟩
  · cases he
    exact hreturns
  · exact absurd hn (Nat.not_le.2 hoverflows.large)
  · cases he

/-- An allocation of more memory than there can be hands nothing out either, and loses a slot. -/
theorem Sound.overflowed {n : Nat} {type : ElementType} (h : p.Sound out lost)
    (ha : p.allocate f n type = (.error .capacityOverflow, p', f')) :
    p.Overflows n ∧ p'.Sound out (p.takeSlot.1 :: lost) := by
  rcases allocate_cases ha with ⟨e, he, hpanic, -⟩ | ⟨hoverflows, -, rfl, -⟩ | ⟨k, hb, -⟩
  · cases he
    cases hpanic
  · exact ⟨hoverflows, h.putBack_takeSlot.lose⟩
  · cases hb

/-- An allocation that hands nothing out loses a slot at most. -/
theorem Sound.unallocated {n : Nat} {type : ElementType} {e : Fault} (h : p.Sound out lost)
    (ha : p.allocate f n type = (.error e, p', f')) : ∃ lost', p'.Sound out lost' := by
  by_cases he : e = .capacityOverflow
  · subst he
    exact ⟨_, (h.overflowed ha).2⟩
  · exact ⟨lost, h.refused ha (Fault.isPanic_eq_false.2 he)⟩

/-- A write is refused and changes nothing, or it writes to memory, or to a file, of which a part may
be written when the system refuses the rest. -/
theorem copyIn_cases {b : Buffer} {bytes : ByteArray} {r : Except Fault Unit}
    (h : p.copyIn f b bytes = (r, p', f')) :
    (∃ e, r = .error e ∧ p' = p ∧ f' = f) ∨
      (∃ c, p.backing b = .ok (.memory c) ∧ r = .ok () ∧ bytes.size = b.length ∧ f' = f ∧
        p' = { p with slots :=
          p.slots.setIfInBounds b.slot ⟨b.generation, some (.memory (.written bytes))⟩ }) ∨
      ∃ path old part, p.backing b = .ok (.file path) ∧ f.contents.find? path = some old ∧
        p' = p ∧ f' = { f with contents := f.contents.insert path (old.overwrite part) } ∧
        bytes.size = b.length ∧ part.size ≤ bytes.size ∧
        (r = .ok () ∧ part = bytes ∨
          (∃ e, r = .error e) ∧ (f.refuses .write path).isSome) := by
  unfold copyIn at h
  split at h
  · cases h
    exact .inl ⟨_, rfl, rfl, rfl⟩
  · rename_i hsize
    have hsize' : bytes.size = b.length := not_not.1 hsize
    split at h
    · cases h
      exact .inl ⟨_, rfl, rfl, rfl⟩
    · rename_i c hb
      cases h
      exact .inr (.inl ⟨c, hb, rfl, hsize', rfl, rfl⟩)
    · rename_i path hb
      unfold Files.overwrite at h
      cases hold : f.contents.find? path with
      | none =>
        simp only [hold] at h
        cases h
        exact .inl ⟨_, rfl, rfl, rfl⟩
      | some old =>
        cases hrefuses : f.refuses .write path with
        | some refusal =>
          simp only [hold, hrefuses] at h
          cases h
          refine .inr (.inr ⟨path, old, _, hb, hold, rfl, rfl, hsize', ?_,
            .inr ⟨⟨_, rfl⟩, by simp [hrefuses]⟩⟩)
          rw [ByteArray.size_extract]
          omega
        | none =>
          simp only [hold, hrefuses] at h
          cases h
          exact .inr (.inr ⟨path, old, bytes, hb, hold, rfl, rfl, hsize', le_rfl, .inl ⟨rfl, rfl⟩⟩)

/-- A write that is done is of the buffer's length, and the buffer has a backing. -/
theorem copyIn_eq_ok {b : Buffer} {bytes : ByteArray}
    (h : p.copyIn f b bytes = (.ok (), p', f')) :
    bytes.size = b.length ∧ ∃ k, p.backing b = .ok k := by
  rcases copyIn_cases h with ⟨e, he, -⟩ | ⟨c, hc, -, hsize, -⟩ |
    ⟨path, old, part, hc, -, -, -, hsize, -⟩
  · cases he
  · exact ⟨hsize, _, hc⟩
  · exact ⟨hsize, _, hc⟩

/-- A write that is refused changes no pool, and no file either unless the system refuses it. -/
theorem copyIn_error {b : Buffer} {bytes : ByteArray} {e : Fault}
    (h : p.copyIn f b bytes = (.error e, p', f')) :
    p' = p ∧ ((∀ path, f.refuses .write path = none) → f' = f) := by
  rcases copyIn_cases h with ⟨e, -, hp, hf⟩ | ⟨c, -, hok, -⟩ |
    ⟨path, old, part, -, -, hp, -, -, -, ⟨hok, -⟩ | ⟨-, hrefuses⟩⟩
  · exact ⟨hp, fun _ => hf⟩
  · cases hok
  · cases hok
  · exact ⟨hp, fun hwrites => by simp [hwrites] at hrefuses⟩

/-- A write to a buffer that is out touches its slot. -/
theorem Sound.touches_copyIn {b : Buffer} {bytes : ByteArray} {r : Except Fault Unit}
    (hp : p.Sound out lost) (hb : b ∈ out) (h : p.copyIn f b bytes = (r, p', f')) :
    p.Touches f b.slot b.generation p' f' := by
  obtain ⟨k, hk, hslot, hbacks⟩ := hp.backing hb
  rcases copyIn_cases h with ⟨e, -, rfl, rfl⟩ | ⟨c, hc, -, -, rfl, rfl⟩ |
    ⟨path, old, part, hc, -, rfl, rfl, -⟩
  · exact Touches.refl p' f' _ _
  · refine { Touches.refl p f' b.slot b.generation with slots := ?_, later := ?_ }
    · intro i hi
      simp [hi.symm]
    · intro s hs
      have hlt : b.slot < p.slots.size := (Array.getElem?_eq_some_iff.1 hs).1
      rw [hslot, Option.some.injEq] at hs
      subst hs
      exact ⟨⟨b.generation, some (.memory (.written bytes))⟩, by simp [hlt],
        .inr ⟨rfl, fun hnone => by cases hnone⟩⟩
  · rw [hk, Except.ok.injEq] at hc
    subst hc
    refine { Touches.refl p' f b.slot b.generation with files := fun q hq => ?_ }
    refine Table.find?_insert_ne _ _ fun he => hq ?_
    rw [he]
    exact hbacks

theorem Sound.copyIn {b : Buffer} {bytes : ByteArray} {r : Except Fault Unit}
    (hp : p.Sound out lost) (hb : b ∈ out) (h : p.copyIn f b bytes = (r, p', f')) :
    p'.Sound out lost := by
  obtain ⟨k, hk, hslot, hbacks⟩ := hp.backing hb
  rcases copyIn_cases h with ⟨e, -, rfl, rfl⟩ | ⟨c, hc, -, -, rfl, rfl⟩ |
    ⟨path, old, part, hc, -, rfl, rfl, -⟩
  · exact hp
  · have hlt : b.slot < p.slots.size := (Array.getElem?_eq_some_iff.1 hslot).1
    obtain ⟨rest, rfl⟩ := Multiset.exists_cons_of_mem hb
    refine { hp with backed := ?_, vacant := ?_, size := ?_ }
    · intro c' hc'
      rcases Multiset.mem_cons.1 hc' with rfl | hc'
      · rw [hk, Except.ok.injEq] at hc
        subst hc
        exact ⟨.memory (.written bytes), by simp [hlt], hbacks⟩
      · obtain ⟨k', hk', hbacks'⟩ := hp.backed c' (Multiset.mem_cons_of_mem hc')
        exact ⟨k', by simpa [(hp.slot_ne hc').symm] using hk', hbacks'⟩
    · intro i hi
      obtain ⟨g, hg⟩ := hp.vacant i hi
      exact ⟨g, by simpa [hp.slot_ne_of_vacant hb hg] using hg⟩
    · simpa using hp.size
  · exact hp

/-- A buffer that is out is taken back, whatever becomes of its file. -/
theorem Sound.release {b : Buffer} {r : Except Fault (List Notice)}
    (hp : p.Sound (b ::ₘ out) lost) (h : p.release f b = (r, p', f')) :
    (∃ notices, r = .ok notices) ∧ p' = p.vacate b ∧
      (∀ q, p.spillPath? b.slot b.generation ≠ some q →
        f'.contents.find? q = f.contents.find? q) ∧ f'.refuses = f.refuses := by
  obtain ⟨k, hk, -, hbacks⟩ := hp.backing (Multiset.mem_cons_self b out)
  unfold Pool.release at h
  rw [hk] at h
  cases k with
  | memory c =>
    cases h
    exact ⟨⟨_, rfl⟩, rfl, fun _ _ => rfl, rfl⟩
  | file path =>
    unfold Files.remove at h
    by_cases hfile : f.isFile path
    · cases hrefuses : f.refuses .remove path with
      | some refusal =>
        simp only [hfile, hrefuses, if_true, Prod.mk.injEq] at h
        obtain ⟨rfl, rfl, rfl⟩ := h
        exact ⟨⟨_, rfl⟩, rfl, fun _ _ => rfl, rfl⟩
      | none =>
        simp only [hfile, hrefuses, if_true, Prod.mk.injEq] at h
        obtain ⟨rfl, rfl, rfl⟩ := h
        refine ⟨⟨_, rfl⟩, rfl, fun q hq => Table.find?_erase_ne _ fun he => hq ?_, rfl⟩
        rw [he]
        exact hbacks
    · simp only [hfile, Bool.false_eq_true, if_false, Prod.mk.injEq] at h
      obtain ⟨rfl, rfl, rfl⟩ := h
      exact ⟨⟨_, rfl⟩, rfl, fun _ _ => rfl, rfl⟩

theorem Sound.vacate {b : Buffer} (hp : p.Sound (b ::ₘ out) lost) :
    (p.vacate b).Sound out lost := by
  obtain ⟨k, -, hslot, -⟩ := hp.backing (Multiset.mem_cons_self b out)
  have hlt : b.slot < p.slots.size := (Array.getElem?_eq_some_iff.1 hslot).1
  have hnot : b.slot ∉ p.free ++ lost := fun hmem => by
    obtain ⟨g, hg⟩ := hp.vacant _ hmem
    rw [hslot] at hg
    cases hg
  have hapart := hp.apart
  rw [Multiset.map_cons, Multiset.nodup_cons] at hapart
  refine ⟨?_, ?_, hapart.2, ?_, ?_, ?_, ?_, ?_, ?_⟩
  · exact fun c hc => hp.issued c (Multiset.mem_cons_of_mem hc)
  · intro c hc
    obtain ⟨k', hk', hbacks⟩ := hp.backed c (Multiset.mem_cons_of_mem hc)
    exact ⟨k', by simpa [Pool.vacate, (hp.slot_ne hc).symm] using hk', hbacks⟩
  · intro i hi
    rcases List.mem_cons.1 hi with rfl | hi
    · exact ⟨b.generation, by simp [Pool.vacate, hlt]⟩
    · obtain ⟨g, hg⟩ := hp.vacant i hi
      have hne : b.slot ≠ i := fun he => hnot (he ▸ hi)
      exact ⟨g, by simpa [Pool.vacate, hne] using hg⟩
  · exact List.nodup_cons.2 ⟨hnot, hp.free_nodup⟩
  · have hs := hp.size
    simp only [Multiset.card_cons] at hs
    simp only [Pool.vacate, Array.size_setIfInBounds, List.cons_append, List.length_cons]
    omega
  · have hu := hp.used
    simp only [Multiset.map_cons, Multiset.sum_cons] at hu
    simp only [Pool.vacate]
    omega
  · have hw := hp.within
    simp only [Pool.vacate]
    omega
  · have hc := hp.counted
    simp only [Multiset.card_cons] at hc
    simp only [Pool.vacate]
    omega

/-- Taking back a buffer that is out touches its slot, and the buffer is spent. -/
theorem Sound.touches_vacate {b : Buffer} (hp : p.Sound (b ::ₘ out) lost)
    (hf : ∀ q, p.spillPath? b.slot b.generation ≠ some q →
      f'.contents.find? q = f.contents.find? q) (hr : f'.refuses = f.refuses) :
    p.Touches f b.slot b.generation (p.vacate b) f' ∧ (p.vacate b).Spent b := by
  obtain ⟨k, -, hslot, -⟩ := hp.backing (Multiset.mem_cons_self b out)
  have hlt : b.slot < p.slots.size := (Array.getElem?_eq_some_iff.1 hslot).1
  have hnone : (p.vacate b).slots[b.slot]? = some ⟨b.generation, none⟩ := by
    simp [Pool.vacate, hlt]
  refine ⟨{ Touches.refl p f b.slot b.generation with
    slots := ?_, later := ?_, files := hf, refuses := hr }, _, hnone, .inr ⟨rfl, rfl⟩⟩
  · intro i hi
    simp [Pool.vacate, hi.symm]
  · intro s hs
    rw [hslot, Option.some.injEq] at hs
    subst hs
    exact ⟨_, hnone, .inr ⟨rfl, fun _ => rfl⟩⟩

end Pool

end TieredWeights
