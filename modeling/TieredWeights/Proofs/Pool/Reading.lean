import TieredWeights.Proofs.Pool.SpillName

/-!
# What buffers read

A buffer reads the content of its backing. What touches another slot of the pool leaves the read as
it is, and so do files of other pools, whose names differ; a write that succeeds is read back.
-/
namespace TieredWeights.Pool

variable {p p' : Pool} {f f' : Files} {out : Multiset Buffer} {lost : List Nat} {b : Buffer}
  {bytes : ByteArray}

theorem read_eq_ok : p.read f b = .ok bytes ↔
    ∃ k c, p.backing b = .ok k ∧ k.content? f = some c ∧ c.bytes = bytes := by
  unfold read
  split
  · rename_i e he
    simp [he]
  · rename_i c hc
    simp [hc, Backing.content?]
  · rename_i path hpath
    unfold Files.read
    cases hf : f.contents.find? path <;> simp [hpath, Backing.content?, hf, Except.mapError]

/-- Only the file of a buffer's own generation matters for what it reads. -/
theorem Sound.read_of_files (h : p.Sound out lost) (hb : b ∈ out)
    (hf : ∀ path, p.spillPath? b.slot b.generation = some path →
      f'.contents.find? path = f.contents.find? path)
    (hr : p.read f b = .ok bytes) : p.read f' b = .ok bytes := by
  obtain ⟨k, hk, -, hbacks⟩ := h.backing hb
  obtain ⟨k', c, hk', hc, hbytes⟩ := read_eq_ok.1 hr
  rw [hk, Except.ok.injEq] at hk'
  subst hk'
  refine read_eq_ok.2 ⟨k, c, hk, ?_, hbytes⟩
  cases k with
  | memory content => exact hc
  | file path => exact (hf path hbacks).trans hc

theorem Touches.backing_eq_ok {slot generation : Nat} {k : Backing}
    (h : p.Touches f slot generation p' f') (hne : b.slot ≠ slot) :
    p'.backing b = .ok k ↔ p.backing b = .ok k := by
  rw [Pool.backing_eq_ok, Pool.backing_eq_ok, h.owns, h.slots _ hne]

/-- What touches another slot leaves what a buffer reads. -/
theorem Sound.read_of_touches {slot generation : Nat} (h : p.Sound out lost) (hb : b ∈ out)
    (ht : p.Touches f slot generation p' f') (hne : b.slot ≠ slot)
    (hr : p.read f b = .ok bytes) : p'.read f' b = .ok bytes := by
  have hfiles : p.read f' b = .ok bytes := by
    refine h.read_of_files hb (fun path hpath => ht.files path fun he => ?_) hr
    exact hne (spillPath?_inj hpath he).2.1
  obtain ⟨k, c, hk, hc⟩ := read_eq_ok.1 hfiles
  exact read_eq_ok.2 ⟨k, c, (ht.backing_eq_ok hne).2 hk, hc⟩

/-- What can be read can be written, unless the system refuses. -/
theorem copyIn_of_read {old : ByteArray} (hread : p.read f b = .ok old)
    (hsize : bytes.size = b.length)
    (hwrites : ∀ path, p.backing b = .ok (.file path) → f.refuses .write path = none) :
    (p.copyIn f b bytes).1 = .ok () := by
  obtain ⟨x, c, hx, hcontent, -⟩ := read_eq_ok.1 hread
  unfold copyIn
  simp only [hsize, ne_eq, not_true_eq_false, if_false, hx]
  cases x with
  | memory content => rfl
  | file path =>
    have hfind : f.contents.find? path = some c := hcontent
    simp [Files.overwrite, hfind, hwrites path hx]

/-- A write that succeeds is read back, if nothing longer was written before. -/
theorem Sound.read_copyIn (h : p.Sound out lost) (hb : b ∈ out)
    (hold : ∃ k c, p.backing b = .ok k ∧ k.content? f = some c ∧ c.size ≤ b.length)
    (hc : p.copyIn f b bytes = (.ok (), p', f')) : p'.read f' b = .ok bytes := by
  obtain ⟨k, c, hk, hcontent, hsize⟩ := hold
  have hslot := (backing_eq_ok.1 hk).2
  have hlt : b.slot < p.slots.size := (Array.getElem?_eq_some_iff.1 hslot).1
  rcases copyIn_cases hc with ⟨e, he, -⟩ | ⟨c', hc', -, hn, rfl, rfl⟩ |
    ⟨path, old, part, hpath, hfind, rfl, rfl, hn, -, ⟨-, rfl⟩ | ⟨⟨e, he⟩, -⟩⟩
  · cases he
  · refine read_eq_ok.2 ⟨.memory (.written bytes), .written bytes, ?_, rfl, rfl⟩
    exact backing_eq_ok.2 ⟨h.issued b hb, by simp [hlt]⟩
  · rw [hk, Except.ok.injEq] at hpath
    subst hpath
    rw [Backing.content?, hfind, Option.some.injEq] at hcontent
    subst hcontent
    refine read_eq_ok.2 ⟨.file path, old.overwrite part, hk, by simp [Backing.content?], ?_⟩
    rw [Content.bytes_overwrite, overlay_of_size_le]
    rw [Content.size_bytes]
    omega
  · cases he

/-- Whether a write succeeds or is broken off, as many bytes are read as before. -/
theorem Sound.size_read_copyIn (h : p.Sound out lost) (hb : b ∈ out) {old : ByteArray}
    {r : Except Fault Unit} (hread : p.read f b = .ok old) (hsize : old.size = b.length)
    (hc : p.copyIn f b bytes = (r, p', f')) :
    ∃ new, p'.read f' b = .ok new ∧ new.size = b.length := by
  obtain ⟨k, c, hk, hcontent, rfl⟩ := read_eq_ok.1 hread
  rw [Content.size_bytes] at hsize
  rcases copyIn_cases hc with ⟨e, -, rfl, rfl⟩ | ⟨c', -, rfl, hn, -⟩ |
    ⟨path, old, part, hpath, hfind, rfl, rfl, hn, hpart, -⟩
  · exact ⟨_, hread, by rw [Content.size_bytes, hsize]⟩
  · exact ⟨bytes, h.read_copyIn hb ⟨k, c, hk, hcontent, hsize.le⟩ hc, hn⟩
  · rw [hk, Except.ok.injEq] at hpath
    subst hpath
    rw [Backing.content?, hfind, Option.some.injEq] at hcontent
    subst hcontent
    have hwritten : (old.overwrite part).size = b.length := by
      rw [Content.size_overwrite_of_le (by omega), hsize]
    refine ⟨(old.overwrite part).bytes, ?_, by rw [Content.size_bytes, hwritten]⟩
    exact read_eq_ok.2 ⟨.file path, _, hk, by simp [Backing.content?], rfl⟩

end TieredWeights.Pool
