import TieredWeights.Proofs.Pool.Twins

/-!
# Spare slots

An allocation that the file system refuses may leave a slot behind that was made for it. Such a spare
slot stands last among the free ones, and when all the others are used it is the one that would have
been made. So a pool with a spare slot answers whatever it is asked as the pool without it, and
counts the same.
-/
namespace TieredWeights.Pool

/-- The pool with one slot more that was never used. -/
def padded (p : Pool) : Pool :=
  { p with slots := p.slots.push ⟨0, none⟩, free := p.free ++ [p.slots.size] }

/-- A pool is another one, perhaps with a spare slot. -/
def Spares (p q : Pool) : Prop := q = p ∨ q = p.padded

/-- Only slots that are there are free. -/
def FreeInRange (p : Pool) : Prop := ∀ i ∈ p.free, i < p.slots.size

/-- What a pool answers to one request after the other and what it counts after each, and what
becomes of the files. Before each request others change the files. -/
def answers (p : Pool) (f : Files) : List ((Files → Files) × Request) →
    List (Except Fault Reply × Nat × Nat × Nat × Nat) × Files
  | [] => ([], f)
  | (change, request) :: rest =>
    let (reply, p', f') := p.serve (change f) request
    let (told, last) := p'.answers f' rest
    ((reply, p'.counts) :: told, last)

variable {p p' q : Pool} {f f' : Files} {out : Multiset Buffer} {lost : List Nat} {b : Buffer}
  {n i g : Nat} {k : Backing} {rest : List Nat} {type : ElementType}

theorem Sound.freeInRange (h : p.Sound out lost) : p.FreeInRange := by
  intro i hi
  obtain ⟨g, hg⟩ := h.vacant i (List.mem_append_left _ hi)
  exact (Array.getElem?_eq_some_iff.1 hg).1

@[simp] theorem counts_padded (p : Pool) : p.padded.counts = p.counts := by
  have hlive : p.padded.live = p.live := by
    simp [live, padded]
  simp only [counts, hlive]
  rfl

theorem Spares.counts (h : p.Spares q) : q.counts = p.counts := by
  rcases h with rfl | rfl
  · rfl
  · exact p.counts_padded

/-- A spare slot backs no buffer. -/
theorem backing_padded (p : Pool) (b : Buffer) : p.padded.backing b = p.backing b := by
  have howns : p.padded.owns b = p.owns b := rfl
  have htier : p.padded.tier = p.tier := rfl
  have hslots : p.padded.slots = p.slots.push ⟨0, none⟩ := rfl
  unfold backing
  rw [howns, htier, hslots]
  by_cases hlast : b.slot = p.slots.size
  · simp [hlast]
  · simp [Array.getElem?_push, hlast]

theorem Spares.backing (h : p.Spares q) (b : Buffer) : q.backing b = p.backing b := by
  rcases h with rfl | rfl
  · rfl
  · exact p.backing_padded b

theorem Spares.read (h : p.Spares q) (f : Files) (b : Buffer) : q.read f b = p.read f b := by
  unfold Pool.read
  rw [h.backing]

/-- Where a slot would have been made, the spare one is taken. -/
theorem takeSlot_padded_of_nil (h : p.free = []) : p.padded.takeSlot = p.takeSlot := by
  have hfree : p.padded.free = [p.slots.size] := by simp [padded, h]
  rw [takeSlot_of_cons hfree, takeSlot_of_nil h, padded, ← h]

theorem takeSlot_padded_of_cons (h : p.free = i :: rest) :
    p.padded.takeSlot = (i, padded { p with free := rest }) := by
  have hfree : p.padded.free = i :: (rest ++ [p.slots.size]) := by simp [padded, h]
  rw [takeSlot_of_cons hfree]
  rfl

/-- A slot that is put back at once is where it was, or it is spare. -/
theorem spares_putBack_takeSlot (p : Pool) : p.Spares (p.takeSlot.2.putBack p.takeSlot.1) := by
  cases hfree : p.free with
  | nil =>
    right
    rw [takeSlot_of_nil hfree]
    simp [putBack, padded, hfree]
  | cons i rest =>
    left
    rw [takeSlot_of_cons hfree, putBack]
    simp [← hfree]

theorem generationOf_padded (h : i < p.slots.size) : p.padded.generationOf i = p.generationOf i := by
  simp [generationOf, padded, Array.getElem?_push, h.ne]

theorem setIfInBounds_push {slots : Array Slot} (h : i < slots.size) (s t : Slot) :
    (slots.push t).setIfInBounds i s = (slots.setIfInBounds i s).push t := by
  have hlt : i < slots.toList.length := h
  rw [← Array.toList_inj]
  simp [List.set_append_left _ _ hlt]

theorem occupy_padded (h : i < p.slots.size) :
    p.padded.occupy i g n k = (p.occupy i g n k).padded := by
  simp [occupy, padded, setIfInBounds_push h]

theorem vacate_padded (h : b.slot < p.slots.size) : p.padded.vacate b = (p.vacate b).padded := by
  simp [vacate, padded, setIfInBounds_push h]

/-- Where there is room, an allocation takes a slot and asks for memory or the file system for a
file. -/
theorem allocate_of_room (hroom : ¬ p.capacity - p.used < n) (f : Files) (type : ElementType) :
    p.allocate f n type =
      match p.spill with
      | none =>
        if memoryLimit < n then (.error .capacityOverflow, p.takeSlot.2, f)
        else (.ok (p.nextBuffer n type), p.takeSlot.2.occupy p.takeSlot.1
          (p.takeSlot.2.generationOf p.takeSlot.1 + 1) n (.memory (.zeros n)), f)
      | some folder =>
        match f.createIn folder (p.spillName p.takeSlot.1
            (p.takeSlot.2.generationOf p.takeSlot.1 + 1)) n with
        | (.error e, f) => (.error (.io e), p.takeSlot.2.putBack p.takeSlot.1, f)
        | (.ok path, f) => (.ok (p.nextBuffer n type), p.takeSlot.2.occupy p.takeSlot.1
            (p.takeSlot.2.generationOf p.takeSlot.1 + 1) n (.file path), f) := by
  have hname : p.takeSlot.2.spillName = p.spillName := by
    funext i g
    simp only [spillName, takeSlot_tier, takeSlot_process, takeSlot_id]
  unfold allocate
  rw [if_neg hroom]
  cases hspill : p.spill with
  | none => simp only [nextBuffer, takeSlot_tier, takeSlot_id, takeSlot_spill, hspill]
  | some folder =>
    simp only [nextBuffer, hname, takeSlot_tier, takeSlot_id, takeSlot_spill, hspill]
    rcases f.createIn folder (p.spillName p.takeSlot.1
      (p.takeSlot.2.generationOf p.takeSlot.1 + 1)) n with ⟨e | path, f'⟩
    · simp only [putBack, takeSlot_tier, takeSlot_id, takeSlot_spill, hspill]
    · simp only

/-- A spare slot changes neither what an allocation answers nor the files that it leaves. -/
theorem allocate_padded (h : p.FreeInRange) (f : Files) (n : Nat) (type : ElementType) :
    ∃ q, p.padded.allocate f n type = ((p.allocate f n type).1, q, (p.allocate f n type).2.2) ∧
      (p.allocate f n type).2.1.Spares q := by
  by_cases hroom : p.capacity - p.used < n
  · have hroom' : p.padded.capacity - p.padded.used < n := hroom
    rw [allocate_full hroom, allocate_full hroom']
    exact ⟨p.padded, rfl, .inr rfl⟩
  have hroom' : ¬ p.padded.capacity - p.padded.used < n := hroom
  have hspill : p.padded.spill = p.spill := rfl
  have hname : p.padded.spillName = p.spillName := rfl
  rw [allocate_of_room hroom, allocate_of_room hroom', hspill, hname]
  cases hfree : p.free with
  | nil =>
    -- The pool makes the slot that the other has spare, and from then on they are the same.
    have hnext : p.padded.nextBuffer n type = p.nextBuffer n type := by
      rw [nextBuffer, takeSlot_padded_of_nil hfree]
      rfl
    rw [hnext, takeSlot_padded_of_nil hfree]
    exact ⟨_, rfl, .inl rfl⟩
  | cons i rest =>
    obtain ⟨p', htake, htake', hi⟩ : ∃ p' : Pool, p.takeSlot = (i, p') ∧
        p.padded.takeSlot = (i, p'.padded) ∧ i < p'.slots.size :=
      ⟨_, takeSlot_of_cons hfree, takeSlot_padded_of_cons hfree, h i (by simp [hfree])⟩
    have hgeneration := generationOf_padded hi
    have hnext : p.padded.nextBuffer n type = p.nextBuffer n type := by
      simp only [nextBuffer, htake, htake', hgeneration]
      rfl
    simp only [hnext, htake, htake', hgeneration]
    cases p.spill with
    | none =>
      simp only
      split
      · exact ⟨_, rfl, .inr rfl⟩
      · exact ⟨_, rfl, .inr (occupy_padded hi)⟩
    | some folder =>
      simp only
      rcases f.createIn folder (p.spillName i (p'.generationOf i + 1)) n with ⟨e | path, f'⟩
      · exact ⟨_, rfl, .inr rfl⟩
      · exact ⟨_, rfl, .inr (occupy_padded hi)⟩

theorem copyIn_padded (p : Pool) (f : Files) (b : Buffer) (bytes : ByteArray) :
    ∃ q, p.padded.copyIn f b bytes = ((p.copyIn f b bytes).1, q, (p.copyIn f b bytes).2.2) ∧
      (p.copyIn f b bytes).2.1.Spares q := by
  unfold copyIn
  rw [backing_padded]
  split_ifs with hsize
  · exact ⟨p.padded, rfl, .inr rfl⟩
  cases hk : p.backing b with
  | error e => exact ⟨p.padded, rfl, .inr rfl⟩
  | ok k =>
    have hlt : b.slot < p.slots.size := (Array.getElem?_eq_some_iff.1 (backing_eq_ok.1 hk).2).1
    cases k with
    | memory c =>
      refine ⟨_, rfl, .inr ?_⟩
      simp [padded, setIfInBounds_push hlt]
    | file path =>
      simp only
      rcases f.overwrite path bytes with ⟨e | u, f'⟩
      · exact ⟨p.padded, rfl, .inr rfl⟩
      · exact ⟨p.padded, rfl, .inr rfl⟩

theorem release_padded (p : Pool) (f : Files) (b : Buffer) :
    ∃ q, p.padded.release f b = ((p.release f b).1, q, (p.release f b).2.2) ∧
      (p.release f b).2.1.Spares q := by
  unfold release
  rw [backing_padded]
  cases hk : p.backing b with
  | error e => exact ⟨p.padded, rfl, .inr rfl⟩
  | ok k =>
    have hlt : b.slot < p.slots.size := (Array.getElem?_eq_some_iff.1 (backing_eq_ok.1 hk).2).1
    cases k with
    | memory c => exact ⟨_, rfl, .inr (vacate_padded hlt)⟩
    | file path =>
      simp only
      rcases f.remove path with ⟨e | u, f'⟩
      · exact ⟨_, rfl, .inr (vacate_padded hlt)⟩
      · exact ⟨_, rfl, .inr (vacate_padded hlt)⟩

/-- Whatever is asked, a spare slot changes neither the answer nor the files. -/
theorem serve_padded (h : p.FreeInRange) (f : Files) (request : Request) :
    ∃ q, p.padded.serve f request = ((p.serve f request).1, q, (p.serve f request).2.2) ∧
      (p.serve f request).2.1.Spares q := by
  cases request with
  | allocate n type =>
    obtain ⟨q, hq, hspares⟩ := allocate_padded h f n type
    exact ⟨q, by simp only [serve, hq], hspares⟩
  | copyIn b bytes =>
    obtain ⟨q, hq, hspares⟩ := p.copyIn_padded f b bytes
    exact ⟨q, by simp only [serve, hq], hspares⟩
  | read b =>
    have hread : p.padded.read f b = p.read f b := Spares.read (.inr rfl) f b
    exact ⟨p.padded, by simp only [serve, hread], .inr rfl⟩
  | release b =>
    obtain ⟨q, hq, hspares⟩ := p.release_padded f b
    exact ⟨q, by simp only [serve, hq], hspares⟩

theorem Spares.serve (hq : p.Spares q) (h : p.FreeInRange) (f : Files) (request : Request) :
    ∃ q', q.serve f request = ((p.serve f request).1, q', (p.serve f request).2.2) ∧
      (p.serve f request).2.1.Spares q' := by
  rcases hq with rfl | rfl
  · exact ⟨_, rfl, .inl rfl⟩
  · exact serve_padded h f request

namespace FreeInRange

theorem padded (h : p.FreeInRange) : p.padded.FreeInRange := by
  intro i hi
  simp only [Pool.padded, List.mem_append, List.mem_singleton, Array.size_push] at hi ⊢
  rcases hi with hi | rfl
  · exact Nat.lt_succ_of_lt (h i hi)
  · exact Nat.lt_succ_self _

theorem spares (h : p.FreeInRange) (hq : p.Spares q) : q.FreeInRange := by
  rcases hq with rfl | rfl
  · exact h
  · exact h.padded

theorem takeSlot (h : p.FreeInRange) : p.takeSlot.2.FreeInRange := by
  cases hfree : p.free with
  | nil =>
    rw [takeSlot_of_nil hfree]
    simp [FreeInRange, hfree]
  | cons i rest =>
    rw [takeSlot_of_cons hfree]
    intro j hj
    exact h j (by simp [hfree, show j ∈ rest from hj])

theorem allocate {r : Except Fault Buffer} (h : p.FreeInRange)
    (ha : p.allocate f n type = (r, p', f')) : p'.FreeInRange := by
  rcases allocate_cases ha with ⟨e, -, -, rfl | rfl⟩ | ⟨-, -, rfl, -⟩ | ⟨k, -, -, rfl, -, -⟩
  · exact h
  · exact h.spares p.spares_putBack_takeSlot
  · exact h.takeSlot
  · intro i hi
    simpa [occupy] using h.takeSlot i hi

theorem copyIn {r : Except Fault Unit} {bytes : ByteArray} (h : p.FreeInRange)
    (hc : p.copyIn f b bytes = (r, p', f')) : p'.FreeInRange := by
  rcases copyIn_cases hc with ⟨e, -, rfl, -⟩ | ⟨c, -, -, -, -, rfl⟩ |
    ⟨path, old, part, -, -, rfl, -⟩
  · exact h
  · intro i hi
    simpa using h i hi
  · exact h

theorem release (h : p.FreeInRange) (f : Files) (b : Buffer) :
    (p.release f b).2.1.FreeInRange := by
  have hvacate : ∀ k, p.backing b = .ok k → (p.vacate b).FreeInRange := by
    intro k hk i hi
    have hlt := (Array.getElem?_eq_some_iff.1 (backing_eq_ok.1 hk).2).1
    simp only [vacate, List.mem_cons, Array.size_setIfInBounds] at hi ⊢
    rcases hi with rfl | hi
    · exact hlt
    · exact h i hi
  unfold Pool.release
  cases hk : p.backing b with
  | error e => exact h
  | ok k =>
    cases k with
    | memory c => exact hvacate _ hk
    | file path =>
      simp only
      rcases f.remove path with ⟨e | u, f'⟩
      · exact hvacate _ hk
      · exact hvacate _ hk

/-- No request makes a slot free that is not there. -/
theorem serve (h : p.FreeInRange) (f : Files) (request : Request) :
    (p.serve f request).2.1.FreeInRange := by
  cases request with
  | allocate n type =>
    rcases ha : p.allocate f n type with ⟨r, p', f'⟩
    simpa only [Pool.serve, ha] using h.allocate ha
  | copyIn b bytes =>
    rcases hc : p.copyIn f b bytes with ⟨r, p', f'⟩
    simpa only [Pool.serve, hc] using h.copyIn hc
  | read b => exact h
  | release b => exact h.release f b

end FreeInRange

/-- Whatever is asked one after the other, and whatever others do to the files in between, a spare
slot is never noticed. -/
theorem Spares.answers (hq : p.Spares q) (h : p.FreeInRange) (f : Files)
    (script : List ((Files → Files) × Request)) : q.answers f script = p.answers f script := by
  induction script generalizing p q f with
  | nil => rfl
  | cons step rest ih =>
    obtain ⟨change, request⟩ := step
    obtain ⟨q', hserve, hq'⟩ := hq.serve h (change f) request
    simp only [Pool.answers, hserve, hq'.counts, ih hq' (h.serve (change f) request)]

end TieredWeights.Pool
