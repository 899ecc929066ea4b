import TieredWeights.Proofs.Depot.Work
import TieredWeights.Proofs.Pool.FailedAllocation

/-!
# Work on files of one's own

The files of pools are those that back their slots. Whatever is asked of a depot, its pools work on
files of their own: a file that has come to back a slot was not there before, one that backs a slot no
more is gone, and no other file is touched. That adds up over any number of deeds. So between two
states in which no slot is backed by a file all files are the same, those of others included.
-/
namespace TieredWeights

/-- The system removes whatever it is told to. -/
def Files.Removes (f : Files) : Prop := ∀ path, f.refuses .remove path = none

/-- What work on files of one's own leaves of all files, if the system removes them. Before the work
one's own are told by `own`, and after it by `own'`. -/
structure Files.Tended (own own' : Path → Prop) (f f' : Files) : Prop where
  refuses : f'.refuses = f.refuses
  made : f.Removes → ∀ p, own' p → own p ∨ f.contents.find? p = none
  kept : f.Removes → ∀ p, ¬ own p → ¬ own' p → f'.contents.find? p = f.contents.find? p
  gone : f.Removes → ∀ p, own p → ¬ own' p → f'.contents.find? p = none

namespace Files.Tended

variable {own own' own'' : Path → Prop} {f f' f'' : Files}

theorem refl (own : Path → Prop) (f : Files) : Tended own own f f where
  refuses := rfl
  made _ _ h := .inl h
  kept _ _ _ _ := rfl
  gone _ _ h h' := absurd h h'

theorem removes (h : Tended own own' f f') (hf : f.Removes) : f'.Removes := by
  intro path
  rw [h.refuses]
  exact hf path

theorem trans (h : Tended own own' f f') (h' : Tended own' own'' f' f'') :
    Tended own own'' f f'' where
  refuses := h'.refuses.trans h.refuses
  made hf p hown'' := by
    by_cases hown : own p
    · exact .inl hown
    by_cases hown' : own' p
    · exact h.made hf p hown'
    · refine .inr ?_
      rw [← h.kept hf p hown hown']
      exact (h'.made (h.removes hf) p hown'').resolve_left hown'
  kept hf p hown hown'' := by
    by_cases hown' : own' p
    · rw [h'.gone (h.removes hf) p hown' hown'', (h.made hf p hown').resolve_left hown]
    · rw [h'.kept (h.removes hf) p hown' hown'', h.kept hf p hown hown']
  gone hf p hown hown'' := by
    by_cases hown' : own' p
    · exact h'.gone (h.removes hf) p hown' hown''
    · rw [h'.kept (h.removes hf) p hown' hown'', h.gone hf p hown hown']

/-- Who has no files before and none after leaves the files as they were. -/
theorem contents_eq (h : Tended own own' f f') (hf : f.Removes) (hown : ∀ p, ¬ own p)
    (hown' : ∀ p, ¬ own' p) : f'.contents = f.contents :=
  Table.eq_of_find? fun p => h.kept hf p (hown p) (hown' p)

end Files.Tended

namespace Pool

/-- A file backs a slot of the pool. -/
def HasFile (p : Pool) (path : Path) : Prop :=
  ∃ i g : Nat, p.slots[i]? = some ⟨g, some (.file path)⟩

variable {p p' q : Pool} {f f' : Files} {out : Multiset Buffer} {b : Buffer} {n i : Nat}
  {type : ElementType} {path : Path}

/-- Where one slot alone differs, a file backs the other slots as before. -/
theorem HasFile.before (h : p'.HasFile path)
    (hslots : ∀ j : Nat, j ≠ i → p'.slots[j]? = p.slots[j]?) :
    p.HasFile path ∨ ∃ g, p'.slots[i]? = some ⟨g, some (.file path)⟩ := by
  obtain ⟨j, g, hj⟩ := h
  by_cases hji : j = i
  · exact .inr ⟨g, hji ▸ hj⟩
  · exact .inl ⟨j, g, (hslots j hji).symm.trans hj⟩

/-- Work on one slot, told by what backs it before and after. -/
theorem tended_of_slot (hrefuses : f'.refuses = f.refuses)
    (hslots : ∀ j : Nat, j ≠ i → p'.slots[j]? = p.slots[j]?)
    (hmade : ∀ path g, p'.slots[i]? = some ⟨g, some (.file path)⟩ →
      p.HasFile path ∨ f.contents.find? path = none)
    (hkept : ∀ path, ¬ p.HasFile path → ¬ p'.HasFile path →
      f'.contents.find? path = f.contents.find? path)
    (hgone : f.Removes → ∀ path g, p.slots[i]? = some ⟨g, some (.file path)⟩ →
      ¬ p'.HasFile path → f'.contents.find? path = none) :
    Files.Tended p.HasFile p'.HasFile f f' where
  refuses := hrefuses
  made _ path h := by
    rcases h.before hslots with hbefore | ⟨g, hg⟩
    · exact .inl hbefore
    · exact hmade path g hg
  kept _ := hkept
  gone hf path h h' := by
    rcases h.before fun j hj => (hslots j hj).symm with hafter | ⟨g, hg⟩
    · exact absurd hafter h'
    · exact hgone hf path g hg h'

theorem Spares.hasFile_iff (h : p.Spares q) : q.HasFile path ↔ p.HasFile path := by
  rcases h with rfl | rfl
  · rfl
  · have hslots : ∀ j : Nat, j ≠ p.slots.size → p.padded.slots[j]? = p.slots[j]? := by
      intro j hj
      simp [padded, Array.getElem?_push, hj]
    constructor
    · intro hfile
      refine (hfile.before hslots).resolve_right ?_
      simp [padded]
    · intro hfile
      refine (hfile.before fun j hj => (hslots j hj).symm).resolve_right ?_
      simp

/-- A buffer that is handed out may have a file, which was not there before. -/
theorem Sound.tended_granted (hp : p.Sound out) (h : p.allocate f n type = (.ok b, p', f')) :
    Files.Tended p.HasFile p'.HasFile f f' := by
  have htouch := touches_allocate h
  obtain ⟨rfl, hs, -⟩ := hp.allocate h
  obtain ⟨k, hslot, hbacks⟩ := hs.backed _ (Multiset.mem_cons_self _ out)
  rw [htouch.backs] at hbacks
  refine tended_of_slot htouch.refuses htouch.slots (fun path g hg => .inr ?_)
    (fun path _ hno => ?_) fun _ path g hg => absurd hg (hp.takeSlot_vacant g)
  · rw [hslot] at hg
    cases hg
    by_contra hfile
    obtain ⟨e, he⟩ := allocate_blocked hbacks (Option.isSome_iff_ne_none.2 hfile) n type
    rw [h] at he
    cases he
  · refine htouch.files path fun hpath => ?_
    cases k with
    | memory c => exact absurd (hbacks.symm.trans hpath) nofun
    | file path' =>
      obtain rfl : path' = path := Option.some.inj (hbacks.symm.trans hpath)
      exact hno ⟨_, _, hslot⟩

/-- A refused allocation leaves no file, but for one of a size that no file can have. -/
theorem tended_refused {e : Fault} (hn : n ≤ Files.sizeLimit)
    (h : p.allocate f n type = (.error e, p', f')) : Files.Tended p.HasFile p'.HasFile f f' := by
  obtain ⟨hspares, -⟩ := allocate_error h (isPanic_of_allocate hn h)
  have hfiles : f' = f := by
    by_cases hroom : p.capacity - p.used < n
    · rw [allocate_full hroom] at h
      cases h
      rfl
    rw [allocate_of_room hroom] at h
    cases hspill : p.spill with
    | none =>
      have hlarge : ¬ memoryLimit < n := Nat.not_lt.2 hn
      simp only [hspill, hlarge, if_false] at h
      cases h
    | some folder =>
      simp only [hspill] at h
      rcases hc : f.createIn folder (p.spillName p.takeSlot.1
        (p.takeSlot.2.generationOf p.takeSlot.1 + 1)) n with ⟨e' | path, g⟩ <;>
        simp only [hc] at h <;> cases h
      rcases Files.createIn_error hc with ⟨rfl, -⟩ | ⟨-, -, -, hcreates⟩
      · rfl
      · have hok := hcreates n hn
        rw [hc] at hok
        cases hok
  have hsame : p'.HasFile = p.HasFile := funext fun path => propext hspares.hasFile_iff
  rw [hfiles, hsame]
  exact .refl _ _

theorem tended_copyIn {bytes : ByteArray} {r : Except Fault Unit}
    (h : p.copyIn f b bytes = (r, p', f')) : Files.Tended p.HasFile p'.HasFile f f' := by
  rcases copyIn_cases h with ⟨e, -, rfl, rfl⟩ | ⟨c, hb, -, -, rfl, rfl⟩ |
    ⟨path, old, part, hb, -, rfl, rfl, -⟩
  · exact .refl _ _
  · obtain ⟨-, hslot⟩ := backing_eq_ok.1 hb
    have hlt := (Array.getElem?_eq_some_iff.1 hslot).1
    refine tended_of_slot rfl (fun j hj => Array.getElem?_setIfInBounds_ne (Ne.symm hj)) ?_
      (fun _ _ _ => rfl) ?_
    · intro path g hg
      simp [hlt] at hg
    · intro _ path g hg
      simp [hslot] at hg
  · obtain ⟨-, hslot⟩ := backing_eq_ok.1 hb
    refine ⟨rfl, fun _ _ => .inl, fun _ q hq _ => Table.find?_insert_ne _ _ ?_,
      fun _ q hq hq' => absurd hq hq'⟩
    rintro rfl
    exact hq ⟨_, _, hslot⟩

theorem tended_release {r : Except Fault (List Notice)} (h : p.release f b = (r, p', f')) :
    Files.Tended p.HasFile p'.HasFile f f' := by
  have hslots : ∀ j : Nat, j ≠ b.slot → (p.vacate b).slots[j]? = p.slots[j]? := by
    intro j hj
    simp [vacate, hj.symm]
  unfold Pool.release at h
  cases hb : p.backing b with
  | error e =>
    simp only [hb] at h
    cases h
    exact .refl _ _
  | ok k =>
    obtain ⟨-, hslot⟩ := backing_eq_ok.1 hb
    have hlt := (Array.getElem?_eq_some_iff.1 hslot).1
    have hvacant : ∀ (path : Path) (g : Nat),
        (p.vacate b).slots[b.slot]? ≠ some ⟨g, some (.file path)⟩ := by
      intro path g
      simp [vacate, hlt]
    cases k with
    | memory c =>
      simp only [hb] at h
      cases h
      refine tended_of_slot rfl hslots (fun path g hg => absurd hg (hvacant path g))
        (fun _ _ _ => rfl) fun _ path g hg => ?_
      simp [hslot] at hg
    | file path =>
      simp only [hb, Files.remove] at h
      split_ifs at h with hfile
      · cases hrefuses : f.refuses .remove path with
        | some refusal =>
          simp only [hrefuses] at h
          cases h
          refine tended_of_slot rfl hslots (fun path g hg => absurd hg (hvacant path g))
            (fun _ _ _ => rfl) fun hf q g hg _ => ?_
          rw [hf path] at hrefuses
          cases hrefuses
        | none =>
          simp only [hrefuses] at h
          cases h
          refine tended_of_slot rfl hslots (fun path g hg => absurd hg (hvacant path g))
            (fun q hq _ => Table.find?_erase_ne _ ?_) fun _ q g hg _ => ?_
          · rintro rfl
            exact hq ⟨_, _, hslot⟩
          · rw [hslot] at hg
            cases hg
            exact Table.find?_erase_self _ _
      · cases h
        refine tended_of_slot rfl hslots (fun path g hg => absurd hg (hvacant path g))
          (fun _ _ _ => rfl) fun _ q g hg _ => ?_
        rw [hslot] at hg
        cases hg
        simpa [Files.isFile, Table.contains] using hfile

end Pool

namespace Depot

/-- A file backs a slot of a pool. -/
def HasFile (d : Depot) (path : Path) : Prop :=
  ∃ tier pool, d.pools.find? tier = some pool ∧ pool.HasFile path

/-- A depot came of another through work on files of its own. -/
def Tended (d d' : Depot) : Prop := Files.Tended d.HasFile d'.HasFile d.files d'.files

variable {d d' d'' : Depot} {tier : Tier} {pool pool' : Pool} {out : Multiset Buffer} {b : Buffer}
  {n : Nat} {type : ElementType}

namespace Tended

theorem refl (d : Depot) : Tended d d := Files.Tended.refl _ _

theorem trans (h : Tended d d') (h' : Tended d' d'') : Tended d d'' := Files.Tended.trans h h'

/-- Notices are no matter of files. -/
theorem of_pools (h : d'.pools = d.pools) (hf : d'.files = d.files) : Tended d d' := by
  have hsame : d'.HasFile = d.HasFile := by
    funext path
    simp only [HasFile, h]
  rw [Tended, hsame, hf]
  exact .refl _ _

/-- Work of one pool, which is put in its old place. -/
theorem of_insert (hpool : d.pools.find? tier = some pool)
    (hpools : d'.pools = d.pools.insert tier pool')
    (h : Files.Tended pool.HasFile pool'.HasFile d.files d'.files) : Tended d d' := by
  have hself : d'.pools.find? tier = some pool' := by rw [hpools, Table.find?_insert_self]
  have hothers : ∀ t, t ≠ tier → d'.pools.find? t = d.pools.find? t := by
    intro t ht
    rw [hpools, Table.find?_insert_ne _ _ ht]
  constructor
  case refuses => exact h.refuses
  case made =>
    rintro hf path ⟨t, q, hq, hfile⟩
    by_cases ht : t = tier
    · rw [ht, hself, Option.some.injEq] at hq
      subst hq
      exact (h.made hf path hfile).imp_left fun hbefore => ⟨tier, pool, hpool, hbefore⟩
    · exact .inl ⟨t, q, by rw [← hothers t ht, hq], hfile⟩
  case kept =>
    intro hf path hno hno'
    exact h.kept hf path (fun hfile => hno ⟨tier, pool, hpool, hfile⟩)
      fun hfile => hno' ⟨tier, pool', hself, hfile⟩
  case gone =>
    rintro hf path ⟨t, q, hq, hfile⟩ hno'
    by_cases ht : t = tier
    · rw [ht, hpool, Option.some.injEq] at hq
      subst hq
      exact h.gone hf path hfile fun hafter => hno' ⟨tier, pool', hself, hafter⟩
    · exact absurd ⟨t, q, by rw [hothers t ht, hq], hfile⟩ hno'

end Tended

/-- Where nothing is handed out no slot is backed. -/
theorem Sound.not_hasFile (hd : d.Sound 0) (path : Path) : ¬ d.HasFile path := by
  rintro ⟨tier, pool, hpool, i, g, hi⟩
  obtain ⟨b, hb, -⟩ := (hd.pools tier pool hpool).2.exists_of_backed hi
  exact absurd (mem_onTier.1 hb).1 (Multiset.notMem_zero b)

theorem Sound.tended_allocate (hd : d.Sound out) (hn : n ≤ Files.sizeLimit) {r : Except Fault Buffer}
    (h : d.allocate tier n type = (r, d')) : d.Tended d' := by
  unfold Depot.allocate at h
  split at h
  · cases h
    exact .refl d
  · rename_i pool hpool
    rcases ha : pool.allocate d.files n type with ⟨r', pool', files⟩
    simp only [ha] at h
    cases h
    refine .of_insert hpool rfl ?_
    cases r with
    | error e => exact Pool.tended_refused hn ha
    | ok b => exact (hd.pools tier pool hpool).2.tended_granted ha

theorem tended_copyIn {bytes : ByteArray} {r : Except Fault Unit}
    (h : d.copyIn tier b bytes = (r, d')) : d.Tended d' := by
  unfold Depot.copyIn at h
  split at h
  · cases h
    exact .refl d
  · rename_i pool hpool
    rcases hc : pool.copyIn d.files b bytes with ⟨r', pool', files⟩
    simp only [hc] at h
    cases h
    exact .of_insert hpool rfl (Pool.tended_copyIn hc)

theorem tended_release {r : Except Fault Unit} (h : d.release tier b = (r, d')) : d.Tended d' := by
  unfold Depot.release at h
  split at h
  · cases h
    exact .refl d
  · rename_i pool hpool
    rcases hr : pool.release d.files b with ⟨e | notices, pool', files⟩ <;> simp only [hr] at h <;>
      cases h <;> exact .of_insert hpool rfl (Pool.tended_release hr)

/-- Placing a tensor undisturbed is such work, whether it succeeds or not. -/
theorem Sound.tended_placeTensor (hd : d.Sound out) {t : Tensor} {r : Except Fault Buffer}
    (h : d.placeTensor tier t id = (r, d')) : d.Tended d' := by
  unfold Depot.placeTensor at h
  rcases ha : d.allocate tier t.bytes.size t.type with ⟨e | b, d₁⟩ <;> simp only [ha, id] at h <;>
    have hallocated := hd.tended_allocate t.size_le ha
  · cases h
    exact hallocated
  rcases hc : d₁.copyIn tier b t.bytes with ⟨e | u, d₂⟩ <;> simp only [hc] at h <;>
    have hwritten := hallocated.trans (tended_copyIn hc)
  · rcases hr : d₂.release tier b with ⟨e' | u, d₃⟩ <;> simp only [hr] at h <;> cases h <;>
      exact hwritten.trans (tended_release hr)
  · cases h
    exact hwritten

theorem folders_addPool (d : Depot) (tier : Tier) (capacity : Option Nat) (spill : Option String) :
    ∃ folders, (d.addPool tier capacity spill).2.files = { d.files with folders } := by
  unfold addPool newPool
  cases spill with
  | none => exact ⟨_, rfl⟩
  | some folder =>
    have hmake := Files.exists_makeFolder d.files folder
    rcases hm : d.files.makeFolder folder with ⟨e | path, files⟩ <;> simp only [hm] at hmake ⊢ <;>
      exact hmake

/-- Pools that join a depot change no file, and folders only are made. -/
theorem folders_addPools {specs : List (Tier × Option Nat × Option String)} {r : Except Fault Unit}
    (h : d.addPools specs = (r, d')) : ∃ folders, d'.files = { d.files with folders } := by
  induction specs generalizing d with
  | nil =>
    cases h
    exact ⟨_, rfl⟩
  | cons spec rest ih =>
    obtain ⟨tier, capacity, spill⟩ := spec
    obtain ⟨folders, hfirst⟩ := d.folders_addPool tier capacity spill
    rcases ha : d.addPool tier capacity spill with ⟨e | u, d₁⟩ <;>
      simp only [addPools, ha] at h hfirst
    · cases h
      exact ⟨folders, hfirst⟩
    · obtain ⟨folders', hrest⟩ := ih h
      exact ⟨folders', by rw [hrest, hfirst]⟩

end Depot

end TieredWeights
