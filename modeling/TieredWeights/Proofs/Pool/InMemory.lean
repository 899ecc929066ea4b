import TieredWeights.Proofs.Pool.Sessions
import TieredWeights.Proofs.Pool.Tidy

/-!
# Pools read into memory

`inMemory` is the pool that has in memory what another keeps in files. Each request is answered by
both alike, and what the one becomes is again in memory what the other becomes: the only difference
that a spill folder makes is where the bytes are.
-/
namespace TieredWeights

/-- A slot with its bytes in memory. -/
def Slot.inMemory (f : Files) (s : Slot) : Slot :=
  { s with backing := s.backing.bind fun k => (k.content? f).map .memory }

namespace Pool

/-- The pool with all bytes in memory. -/
def inMemory (p : Pool) (f : Files) : Pool :=
  { p with spill := none, slots := p.slots.map (Slot.inMemory f) }

variable {p p' : Pool} {f f' : Files} {out : Multiset Buffer} {lost : List Nat} {b : Buffer}
  {k : Backing} {n : Nat} {bytes : ByteArray}

@[simp] theorem inMemory_tier (p : Pool) (f : Files) : (p.inMemory f).tier = p.tier := rfl

@[simp] theorem inMemory_used (p : Pool) (f : Files) : (p.inMemory f).used = p.used := rfl

@[simp] theorem inMemory_live (p : Pool) (f : Files) : (p.inMemory f).live = p.live := by
  simp [inMemory, live]

@[simp] theorem inMemory_owns (p : Pool) (f : Files) (b : Buffer) :
    (p.inMemory f).owns b = p.owns b := rfl

@[simp] theorem getElem?_inMemory (p : Pool) (f : Files) (i : Nat) :
    (p.inMemory f).slots[i]? = p.slots[i]?.map (Slot.inMemory f) := by
  simp [inMemory]

/-- A new pool has nothing to read into memory. -/
theorem inMemory_new (tier : Tier) (id capacity process : Nat) (spill : Option Folder) (f : Files) :
    inMemory { tier, id, capacity, spill, process } f = { tier, id, capacity, process } := by
  simp [inMemory]

/-- Files at other paths than those of a slot do not matter to it. -/
theorem Tidy.slot_inMemory (h : p.Tidy f) {i : Nat} (hf : ∀ g path,
    p.spillPath? i g = some path → f'.contents.find? path = f.contents.find? path) :
    p.slots[i]?.map (Slot.inMemory f') = p.slots[i]?.map (Slot.inMemory f) := by
  cases hs : p.slots[i]? with
  | none => rfl
  | some s =>
    obtain ⟨g, backing⟩ := s
    cases backing with
    | none => rfl
    | some k =>
      have hbacks := h.backed i g k hs
      cases k with
      | memory c => rfl
      | file path => simp [Slot.inMemory, Backing.content?, hf g path hbacks]

/-- Files at other paths than the pool's do not matter. -/
theorem Tidy.inMemory_congr (h : p.Tidy f) (hf : ∀ i g path, p.spillPath? i g = some path →
    f'.contents.find? path = f.contents.find? path) : p.inMemory f' = p.inMemory f := by
  have hslots : p.slots.map (Slot.inMemory f') = p.slots.map (Slot.inMemory f) := by
    refine Array.ext_getElem? fun i => ?_
    rw [Array.getElem?_map, Array.getElem?_map]
    exact h.slot_inMemory (hf i)
  rw [inMemory, inMemory, hslots]

theorem takeSlot_inMemory (p : Pool) (f : Files) :
    (p.inMemory f).takeSlot = (p.takeSlot.1, p.takeSlot.2.inMemory f) := by
  unfold takeSlot
  cases hfree : p.free with
  | nil => simp [inMemory, hfree, Slot.inMemory]
  | cons i rest => simp [inMemory, hfree]

theorem generationOf_inMemory (p : Pool) (f : Files) (i : Nat) :
    (p.inMemory f).generationOf i = p.generationOf i := by
  rw [generationOf, generationOf, getElem?_inMemory, Option.map_map]
  rfl

theorem nextBuffer_inMemory (p : Pool) (f : Files) (n : Nat) (type : ElementType) :
    (p.inMemory f).nextBuffer n type = p.nextBuffer n type := by
  simp only [nextBuffer, takeSlot_inMemory, generationOf_inMemory]
  rfl

/-- An allocation in memory for which there is room. -/
theorem allocate_memory (hspill : p.spill = none) (hroom : n ≤ p.capacity - p.used)
    (hsize : n ≤ memoryLimit) (f : Files) (type : ElementType) :
    p.allocate f n type = (.ok (p.nextBuffer n type),
      p.takeSlot.2.occupy (p.nextBuffer n type).slot (p.nextBuffer n type).generation n
        (.memory (.zeros n)), f) := by
  have hspill' : p.takeSlot.2.spill = none := by rwa [takeSlot_spill]
  simp only [allocate, Nat.not_lt.2 hroom, Nat.not_lt.2 hsize, if_false, hspill', nextBuffer,
    takeSlot_tier, takeSlot_id]

theorem occupy_inMemory {i g : Nat} (hk : k.content? f' = some (.zeros n))
    (hother : ∀ j, j ≠ i → p.slots[j]?.map (Slot.inMemory f') = p.slots[j]?.map (Slot.inMemory f)) :
    (p.inMemory f).occupy i g n (.memory (.zeros n)) = (p.occupy i g n k).inMemory f' := by
  have hslots : (p.slots.map (Slot.inMemory f)).setIfInBounds i ⟨g, some (.memory (.zeros n))⟩ =
      (p.slots.setIfInBounds i ⟨g, some k⟩).map (Slot.inMemory f') := by
    refine Array.ext_getElem? fun j => ?_
    by_cases hj : j = i
    · subst hj
      simp [Array.getElem?_setIfInBounds, Slot.inMemory, hk]
    · rw [Array.getElem?_setIfInBounds_ne (Ne.symm hj), Array.getElem?_map, Array.getElem?_map,
        Array.getElem?_setIfInBounds_ne (Ne.symm hj), hother j hj]
  simp only [occupy, inMemory, hslots]

/-- Both allocate alike. -/
theorem Tidy.allocate_inMemory (h : p.Tidy f) (hs : p.Sound out lost) (hfits : p.Represents n)
    {type : ElementType} {r : Except Fault Buffer} (ha : p.allocate f n type = (r, p', f'))
    (g : Files) : (p.inMemory f).allocate g n type = (r, p'.inMemory f', g) := by
  by_cases hroom : p.capacity - p.used < n
  · rw [allocate_full hroom] at ha
    cases ha
    exact allocate_full (p := p.inMemory f) hroom g type
  · have hroom' : n ≤ (p.inMemory f).capacity - (p.inMemory f).used := Nat.le_of_not_lt hroom
    have hok := h.allocate_ok hs hroom' hfits type
    rw [ha] at hok
    subst hok
    obtain ⟨e, he, -⟩ | ⟨-, he, -⟩ | ⟨k, -, -, rfl, -, hcontent⟩ := allocate_cases ha
    · cases he
    · cases he
    · rw [allocate_memory rfl hroom' (hfits hroom').1, nextBuffer_inMemory, takeSlot_inMemory]
      have htake := touches_takeSlot p f 0 p.takeSlot.2.free
      rw [occupy_inMemory hcontent]
      intro j hj
      have hj' : j ≠ p.takeSlot.1 := hj
      rw [htake.slots j hj']
      refine h.slot_inMemory fun g path hpath => find?_allocate ha ?_
      exact fun hpath' => hj (spillPath?_inj hpath hpath').2.1

/-- What backs a buffer of a tidy pool holds something. -/
theorem Tidy.content (h : p.Tidy f) (hb : p.backing b = .ok k) : ∃ c, k.content? f = some c := by
  obtain ⟨-, hslot⟩ := backing_eq_ok.1 hb
  have hbacks := h.backed _ _ _ hslot
  cases k with
  | memory c => exact ⟨c, rfl⟩
  | file path => exact Option.isSome_iff_exists.1 ((h.stands _ _ _ hbacks).2 hslot)

theorem backing_inMemory {c : Content} (hb : p.backing b = .ok k) (hc : k.content? f = some c) :
    (p.inMemory f).backing b = .ok (.memory c) := by
  obtain ⟨howns, hslot⟩ := backing_eq_ok.1 hb
  apply backing_eq_ok.2
  exact ⟨howns, by simp [hslot, Slot.inMemory, hc]⟩

/-- Neither knows a buffer that the other does not know. -/
theorem backing_inMemory_error {e : Fault} (hb : p.backing b = .error e) :
    (p.inMemory f).backing b = .error e := by
  unfold backing at hb ⊢
  rw [inMemory_owns, getElem?_inMemory]
  by_cases ho : p.owns b
  · simp only [ho, Bool.not_true, Bool.false_eq_true, if_false] at hb ⊢
    cases hs : p.slots[b.slot]? with
    | none => simpa [hs] using hb
    | some s =>
      obtain ⟨g, backing⟩ := s
      cases backing with
      | none => simpa [hs, Slot.inMemory] using hb
      | some k =>
        by_cases hg : g = b.generation
        · simp [hs, hg] at hb
        · have he : e = .invalidHandle p.tier := by simpa [hs, hg, eq_comm] using hb
          rw [he]
          cases hc : k.content? f with
          | none => simp [Slot.inMemory, hc]
          | some c => simp [Slot.inMemory, hc, hg]
  · simpa [ho] using hb

/-- Both read alike. -/
theorem Tidy.read_inMemory (h : p.Tidy f) (b : Buffer) (g : Files) :
    (p.inMemory f).read g b = p.read f b := by
  cases hb : p.backing b with
  | error e => simp only [Pool.read, hb, backing_inMemory_error hb]
  | ok k =>
    obtain ⟨c, hc⟩ := h.content hb
    have hread : p.read f b = .ok c.bytes := read_eq_ok.2 ⟨k, c, hb, hc, rfl⟩
    rw [hread]
    simp only [Pool.read, backing_inMemory hb hc]

/-- Both write alike, if nothing longer than the buffer was written before. -/
theorem Tidy.copyIn_inMemory (h : p.Tidy f) {r : Except Fault Unit}
    (hold : ∀ old, p.read f b = .ok old → old.size ≤ b.length)
    (hcopy : p.copyIn f b bytes = (r, p', f')) (g : Files) :
    (p.inMemory f).copyIn g b bytes = (r, p'.inMemory f', g) := by
  unfold Pool.copyIn at hcopy ⊢
  by_cases hsize : bytes.size = b.length
  · simp only [hsize, ne_eq, not_true_eq_false, if_false] at hcopy ⊢
    cases hb : p.backing b with
    | error e =>
      simp only [hb] at hcopy
      cases hcopy
      simp only [backing_inMemory_error hb]
    | ok k =>
      obtain ⟨c, hc⟩ := h.content hb
      obtain ⟨-, hslot⟩ := backing_eq_ok.1 hb
      have hlt := (Array.getElem?_eq_some_iff.1 hslot).1
      simp only [hb] at hcopy
      simp only [backing_inMemory hb hc]
      cases k with
      | memory c' =>
        cases hcopy
        simp [inMemory, Slot.inMemory, Backing.content?]
      | file path =>
        have hfind : f.contents.find? path = some c := hc
        have hspill := isSome_spill_of_backs_file (h.backed _ _ _ hslot)
        have hobliging := h.obliging hspill .write path
        simp only [Files.overwrite, hfind, hobliging] at hcopy
        cases hcopy
        have hfits : c.size ≤ bytes.size := by
          rw [hsize, ← Content.size_bytes]
          exact hold c.bytes (read_eq_ok.2 ⟨_, c, hb, hc, rfl⟩)
        have hslots : (p.slots.map (Slot.inMemory f)).setIfInBounds b.slot
            ⟨b.generation, some (.memory (.written bytes))⟩ = p.slots.map (Slot.inMemory
              { f with contents := f.contents.insert path (c.overwrite bytes) }) := by
          refine Array.ext_getElem? fun i => ?_
          by_cases hi : i = b.slot
          · subst hi
            rw [Array.getElem?_setIfInBounds_self_of_lt (by simpa using hlt), Array.getElem?_map,
              hslot]
            simp [Slot.inMemory, Backing.content?, Content.overwrite, hfits]
          · rw [Array.getElem?_setIfInBounds_ne (Ne.symm hi), Array.getElem?_map,
              Array.getElem?_map]
            refine (h.slot_inMemory fun g path' hpath => Table.find?_insert_ne _ _ ?_).symm
            rintro rfl
            exact hi (spillPath?_inj hpath (h.backed _ _ _ hslot)).2.1
        simp only [inMemory, hslots]
  · simp only [hsize, ne_eq, not_false_eq_true, if_true] at hcopy ⊢
    cases hcopy
    rfl

/-- Both take back alike, and a file goes with its buffer. -/
theorem Tidy.release_inMemory (h : p.Tidy f) {r : Except Fault (List Notice)}
    (hr : p.release f b = (r, p', f')) (g : Files) :
    (p.inMemory f).release g b = (r, p'.inMemory f', g) ∧ p'.Tidy f' := by
  cases hb : p.backing b with
  | error e =>
    simp only [Pool.release, hb] at hr
    cases hr
    exact ⟨by simp only [Pool.release, backing_inMemory_error hb], h⟩
  | ok k =>
    obtain ⟨c, hc⟩ := h.content hb
    obtain ⟨-, hslot⟩ := backing_eq_ok.1 hb
    obtain ⟨f₁, hrelease, htidy, hfiles⟩ := h.release hb
    rw [hr] at hrelease
    cases hrelease
    refine ⟨?_, htidy⟩
    have hslots : (p.slots.map (Slot.inMemory f)).setIfInBounds b.slot ⟨b.generation, none⟩ =
        (p.slots.setIfInBounds b.slot ⟨b.generation, none⟩).map (Slot.inMemory f') := by
      refine Array.ext_getElem? fun i => ?_
      by_cases hi : i = b.slot
      · subst hi
        simp [Array.getElem?_setIfInBounds, Slot.inMemory]
      · rw [Array.getElem?_setIfInBounds_ne (Ne.symm hi), Array.getElem?_map, Array.getElem?_map,
          Array.getElem?_setIfInBounds_ne (Ne.symm hi)]
        refine (h.slot_inMemory fun g path hpath => hfiles path ?_).symm
        rintro rfl
        exact hi (spillPath?_inj hpath (h.backed _ _ _ hslot)).2.1
    have hvacate : (p.inMemory f).vacate b = (p.vacate b).inMemory f' := by
      simp only [vacate, inMemory, hslots]
    simp only [Pool.release, backing_inMemory hb hc, hvacate]

/-- A pool does not answer to a buffer for one reason only. -/
theorem backing_eq_error {e : Fault} (hb : p.backing b = .error e) :
    ∃ tier, e = .invalidHandle tier := by
  unfold backing at hb
  split at hb
  · cases hb
    exact ⟨_, rfl⟩
  · split at hb
    · split at hb
      · cases hb
      · cases hb
        exact ⟨_, rfl⟩
    · cases hb
      exact ⟨_, rfl⟩

theorem backing_inMemory_eq_ok (hb : (p.inMemory f).backing b = .ok k) :
    ∃ c, k = .memory c := by
  obtain ⟨-, hslot⟩ := backing_eq_ok.1 hb
  rw [getElem?_inMemory, Option.map_eq_some_iff] at hslot
  obtain ⟨s, -, hs⟩ := hslot
  simp only [Slot.inMemory, Slot.mk.injEq, Option.bind_eq_some_iff, Option.map_eq_some_iff] at hs
  obtain ⟨-, -, -, c, -, hc⟩ := hs
  exact ⟨c, hc.symm⟩

/-- No file stands in the way of a pool in memory. -/
theorem serve_inMemory_ne_io (p : Pool) (f g : Files) (request : Request) (e : IoFault) :
    ((p.inMemory f).serve g request).1 ≠ .error (.io e) := by
  cases request with
  | allocate n type =>
    by_cases hroom : (p.inMemory f).capacity - (p.inMemory f).used < n
    · simp [serve, allocate_full hroom, Except.map]
    · have hroom' := Nat.le_of_not_lt hroom
      by_cases hsize : n ≤ memoryLimit
      · simp [serve, allocate_memory rfl hroom' hsize, Except.map]
      · have hoverflows : (p.inMemory f).Overflows n := ⟨rfl, hroom', Nat.lt_of_not_le hsize⟩
        simp [serve, allocate_of_overflows hoverflows, Except.map]
  | copyIn b bytes =>
    by_cases hsize : bytes.size = b.length
    · cases hb : (p.inMemory f).backing b with
      | error e' =>
        obtain ⟨tier, rfl⟩ := backing_eq_error hb
        simp [serve, copyIn, hsize, hb, Except.map]
      | ok k =>
        obtain ⟨c, rfl⟩ := backing_inMemory_eq_ok hb
        simp [serve, copyIn, hsize, hb, Except.map]
    · simp [serve, copyIn, hsize, Except.map]
  | read b =>
    cases hb : (p.inMemory f).backing b with
    | error e' =>
      obtain ⟨tier, rfl⟩ := backing_eq_error hb
      simp [serve, read, hb, Except.map]
    | ok k =>
      obtain ⟨c, rfl⟩ := backing_inMemory_eq_ok hb
      simp [serve, read, hb, Except.map]
  | release b =>
    cases hb : (p.inMemory f).backing b with
    | error e' =>
      obtain ⟨tier, rfl⟩ := backing_eq_error hb
      simp [serve, release, hb, Except.map]
    | ok k =>
      obtain ⟨c, rfl⟩ := backing_inMemory_eq_ok hb
      simp [serve, release, hb, Except.map]

/-- Whatever is asked, both answer alike, and the pool stays tidy. -/
theorem Tidy.serve_inMemory (h : p.Tidy f) (hs : p.Sound out lost) {request : Request}
    {reply : Except Fault Reply}
    (hfits : ∀ n type, request = .allocate n type → p.Represents n)
    (hold : ∀ b ∈ request.buffer?, ∀ old, p.read f b = .ok old → old.size ≤ b.length)
    (hserve : p.serve f request = (reply, p', f')) (g : Files) :
    (p.inMemory f).serve g request = (reply, p'.inMemory f', g) ∧ p'.Tidy f' := by
  cases request with
  | allocate n type =>
    have hfits' := hfits n type rfl
    rcases ha : p.allocate f n type with ⟨r, q, f₁⟩
    simp only [Pool.serve, ha] at hserve
    cases hserve
    refine ⟨by simp only [Pool.serve, h.allocate_inMemory hs hfits' ha], ?_⟩
    cases r with
    | ok b => exact h.allocated hs ha
    | error e =>
      by_cases hroom : p.capacity - p.used < n
      · rw [allocate_full hroom] at ha
        cases ha
        exact h
      · have hok := h.allocate_ok hs (Nat.le_of_not_lt hroom) hfits' type
        rw [ha] at hok
        cases hok
  | copyIn b bytes =>
    rcases hc : p.copyIn f b bytes with ⟨r, q, f₁⟩
    simp only [Pool.serve, hc] at hserve
    cases hserve
    exact ⟨by simp only [Pool.serve, h.copyIn_inMemory (hold b rfl) hc], h.copyIn hc⟩
  | read b =>
    cases hserve
    exact ⟨by simp only [Pool.serve, h.read_inMemory], h⟩
  | release b =>
    rcases hr : p.release f b with ⟨r, q, f₁⟩
    simp only [Pool.serve, hr] at hserve
    cases hserve
    obtain ⟨hmemory, htidy⟩ := h.release_inMemory hr g
    exact ⟨by simp only [Pool.serve, hmemory], htidy⟩

end Pool

end TieredWeights
