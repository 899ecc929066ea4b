import TieredWeights.Proofs.Pool.Tidy

/-!
# Refusals of a pool

A tidy pool refuses an allocation for want of room, or because the file system takes no file of its
size or of its name. Slots are numbered by the allocations so far, and the generations of a slot by the
releases, so names stay as short as these counts allow.
-/
namespace TieredWeights

/-- A file that was made has a size that files can have, and a route that can be written. -/
theorem Files.limits_of_createIn {f f' : Files} {folder : Folder} {name : String} {n : Nat}
    {path : Path} (h : f.createIn folder name n = (.ok path, f')) :
    n ≤ sizeLimit ∧ (folder.routeTo name).utf8ByteSize ≤ Route.textLimit := by
  rw [← Folder.routeSize_eq]
  by_cases hroute : Route.textLimit < folder.routeSize name
  · simp only [createIn, hroute, if_true] at h
    cases h
  refine ⟨?_, Nat.le_of_not_lt hroute⟩
  by_contra hover
  rw [not_le] at hover
  unfold createIn create at h
  simp only [hroute, hover, if_false, if_true] at h
  split_ifs at h
  · cases h
  · split at h <;> cases h

namespace Pool

/-- The file system takes a file of `n` bytes, if the pool spills. -/
def Sized (p : Pool) (n : Nat) : Prop := p.spill.isSome → n ≤ Files.sizeLimit

/-- The file system takes the route to the file of a generation of a slot. -/
def Named (p : Pool) (slot generation : Nat) : Prop := ∀ folder, p.spill = some folder →
  (folder.routeTo (p.spillName slot generation)).utf8ByteSize ≤ Route.textLimit

/-- The file system takes the names of the first `n` slots in each of their first `ages` generations. -/
def Names (p : Pool) (n ages : Nat) : Prop :=
  ∀ slot < n, ∀ earlier < ages, p.Named slot (earlier + 1)

/-- A slot has had a generation more than its pool has released, at most, and none more while it is
vacant. The file system has taken the names of all. -/
structure Worn (p : Pool) (i : Nat) (s : Slot) : Prop where
  last : s.generation ≤ p.releases + 1
  vacant : s.backing = none → s.generation ≤ p.releases
  first : s.backing.isSome → 0 < s.generation
  named : ∀ earlier < s.generation, p.Named i (earlier + 1)

/-- There are no more slots than allocations, and no slot has had more generations than releases
account for. -/
structure Thrifty (p : Pool) : Prop where
  slots : p.slots.size ≤ p.allocations
  worn : ∀ (i : Nat) (s : Slot), p.slots[i]? = some s → p.Worn i s

/-- What no request changes: where a pool stands and what it can hold. -/
def site (p : Pool) : Tier × Nat × Nat × Nat × Option Folder :=
  (p.tier, p.process, p.id, p.capacity, p.spill)

variable {p p' : Pool} {f f' : Files} {out : Multiset Buffer} {lost : List Nat} {b : Buffer}
  {n slot generation : Nat} {type : ElementType}

theorem Touches.site (h : p.Touches f slot generation p' f') : p'.site = p.site := by
  simp only [Pool.site, h.tier, h.process, h.id, h.capacity, h.spill]

theorem spill_of_site (h : p'.site = p.site) : p'.spill = p.spill :=
  congrArg (fun site => site.2.2.2.2) h

theorem capacity_of_site (h : p'.site = p.site) : p'.capacity = p.capacity :=
  congrArg (fun site => site.2.2.2.1) h

theorem sized_of_site (h : p'.site = p.site) : p'.Sized n ↔ p.Sized n := by
  rw [Sized, Sized, spill_of_site h]

theorem named_of_site (h : p'.site = p.site) : p'.Named slot generation ↔ p.Named slot generation := by
  have htier : p'.tier = p.tier := congrArg Prod.fst h
  have hprocess : p'.process = p.process := congrArg (fun site => site.2.1) h
  have hid : p'.id = p.id := congrArg (fun site => site.2.2.1) h
  rw [Named, Named, spill_of_site h, spillName, spillName, htier, hprocess, hid]

theorem names_of_site {ages : Nat} (h : p'.site = p.site) : p'.Names n ages ↔ p.Names n ages := by
  simp only [Names, named_of_site h]

theorem Names.mono {m ages fewer : Nat} (h : p.Names n ages) (hm : m ≤ n) (hages : fewer ≤ ages) :
    p.Names m fewer :=
  fun slot hslot earlier hearlier => h slot (hslot.trans_le hm) earlier (hearlier.trans_le hages)

theorem named_of_memory (h : p.spill = none) (slot generation : Nat) : p.Named slot generation := by
  simp [Named, h]

/-- Nothing wears a slot off while its pool stays where it is. -/
theorem Worn.of_site {s : Slot} (h : p.Worn slot s) (hsite : p'.site = p.site)
    (hreleases : p.releases ≤ p'.releases) : p'.Worn slot s where
  last := h.last.trans (Nat.succ_le_succ hreleases)
  vacant hnone := (h.vacant hnone).trans hreleases
  first := h.first
  named earlier hearlier := (named_of_site hsite).2 (h.named earlier hearlier)

theorem thrifty_new (tier : Tier) (id capacity process : Nat) (spill : Option Folder) :
    Thrifty { tier, id, capacity, spill, process } where
  slots := le_rfl
  worn i s hs := by simp at hs

/-- The next buffer's slot is bounded by the count of allocations, and its generation by that of
releases; the earlier generations of the slot have had names. -/
theorem Thrifty.nextBuffer (h : p.Thrifty) (hs : p.Sound out lost) (n : Nat) (type : ElementType) :
    (p.nextBuffer n type).slot ≤ p.allocations ∧
      ∃ before ≤ p.releases, (p.nextBuffer n type).generation = before + 1 ∧
        ∀ earlier < before, p.Named (p.nextBuffer n type).slot (earlier + 1) := by
  have hslots := h.slots
  unfold Pool.nextBuffer takeSlot
  cases hfree : p.free with
  | nil => exact ⟨hslots, 0, Nat.zero_le _, by simp [generationOf], nofun⟩
  | cons i rest =>
    obtain ⟨g, hi⟩ := hs.vacant i (by simp [hfree])
    have hlt := (Array.getElem?_eq_some_iff.1 hi).1
    have hworn := h.worn i _ hi
    exact ⟨by simp only; omega, g, hworn.vacant rfl, by simp [generationOf, hi], hworn.named⟩

/-- A tidy pool refuses for want of room what there is memory for or the file system takes. -/
theorem Tidy.full (h : p.Tidy f) (hs : p.Sound out lost)
    (hthrifty : p.spill.isSome → p.Thrifty) (hmemory : p.spill = none → n ≤ memoryLimit)
    (hsized : p.Sized n) (hnames : p.Names (p.allocations + 1) (p.releases + 1)) {e : Fault}
    (ha : p.allocate f n type = (.error e, p', f')) : p.capacity < p.used + n := by
  have hnamed : p.Named (p.nextBuffer n type).slot (p.nextBuffer n type).generation := by
    cases hspill : p.spill with
    | none => exact named_of_memory hspill _ _
    | some folder =>
      obtain ⟨hslot, before, hbefore, hgeneration, -⟩ :=
        (hthrifty (by simp [hspill])).nextBuffer hs n type
      rw [hgeneration]
      exact hnames _ (Nat.lt_succ_of_le hslot) _ (Nat.lt_succ_of_le hbefore)
  by_contra hroom
  have hsize : n ≤ Files.sizeLimit := by
    cases hspill : p.spill with
    | none => exact hmemory hspill
    | some folder => exact hsized (by simp [hspill])
  have hrepresents : p.Represents n := fun _ => ⟨hsize, hnamed⟩
  have hok := h.allocate_ok hs (by omega) hrepresents type
  rw [ha] at hok
  cases hok

/-- The file system took the file of a buffer that was handed out. -/
theorem limits_of_allocate (ha : p.allocate f n type = (.ok b, p', f')) :
    p.Sized n ∧ p.Named (p.nextBuffer n type).slot (p.nextBuffer n type).generation := by
  have hlimits : ∀ folder, p.spill = some folder → n ≤ Files.sizeLimit ∧
      (folder.routeTo (p.spillName (p.nextBuffer n type).slot
        (p.nextBuffer n type).generation)).utf8ByteSize ≤ Route.textLimit := by
    intro folder hfolder
    have hname : p.takeSlot.2.spillName = p.spillName := by
      funext i g
      simp only [spillName, takeSlot_tier, takeSlot_process, takeSlot_id]
    unfold allocate at ha
    by_cases hroom : p.capacity - p.used < n
    · simp only [hroom, if_true] at ha
      cases ha
    · simp only [hroom, if_false, takeSlot_spill, hfolder, hname] at ha
      rcases hc : f.createIn folder (p.spillName p.takeSlot.1
        (p.takeSlot.2.generationOf p.takeSlot.1 + 1)) n with ⟨e | path, g⟩
      · simp only [hc] at ha
        cases ha
      · exact Files.limits_of_createIn hc
  refine ⟨fun hspill => ?_, fun folder hfolder => (hlimits folder hfolder).2⟩
  obtain ⟨folder, hfolder⟩ := Option.isSome_iff_exists.1 hspill
  exact (hlimits folder hfolder).1

theorem allocations_of_allocate (ha : p.allocate f n type = (.ok b, p', f')) :
    p'.allocations = p.allocations + 1 := by
  rcases allocate_cases ha with ⟨e, he, -⟩ | ⟨-, he, -⟩ | ⟨k, -, -, rfl, -, -⟩
  · cases he
  · cases he
  · rw [occupy, takeSlot_allocations]

theorem allocations_of_copyIn {bytes : ByteArray} {r : Except Fault Unit}
    (hc : p.copyIn f b bytes = (r, p', f')) : p'.allocations = p.allocations := by
  rcases copyIn_cases hc with ⟨e, -, rfl, -⟩ | ⟨c, -, -, -, -, rfl⟩ |
    ⟨path, old, part, -, -, rfl, -⟩ <;> rfl

theorem Thrifty.allocated (h : p.Thrifty) (hs : p.Sound out lost)
    (ha : p.allocate f n type = (.ok b, p', f')) : p'.Thrifty := by
  obtain ⟨-, before, hbefore, hgeneration, hearlier⟩ := h.nextBuffer hs n type
  obtain ⟨-, hnamed⟩ := limits_of_allocate ha
  have htake : p.takeSlot.2.slots.size ≤ p.slots.size + 1 := by
    unfold takeSlot
    split <;> simp
  have hcount := allocations_of_allocate ha
  have htouch := touches_allocate ha
  have hsite := htouch.site
  rcases allocate_cases ha with ⟨e, he, -⟩ | ⟨-, he, -⟩ | ⟨k, -, -, rfl, -, -⟩
  · cases he
  · cases he
  have hreleases : (p.takeSlot.2.occupy (p.nextBuffer n type).slot (p.nextBuffer n type).generation
      n k).releases = p.releases := takeSlot_releases p
  constructor
  · have hslots := h.slots
    rw [hcount]
    simp only [occupy, Array.size_setIfInBounds]
    omega
  · intro i s hi
    by_cases hself : i = (p.nextBuffer n type).slot
    · subst hself
      have hlt := (Array.getElem?_eq_some_iff.1 hi).1
      simp only [occupy, Array.size_setIfInBounds] at hlt
      rw [getElem?_occupy hlt, Option.some.injEq] at hi
      subst hi
      constructor
      case last =>
        rw [hreleases, hgeneration]
        exact Nat.succ_le_succ hbefore
      case vacant =>
        intro hnone
        cases hnone
      case first => exact fun _ => Nat.succ_pos _
      case named =>
        intro earlier hlast
        rw [named_of_site hsite]
        rcases Nat.lt_or_ge earlier before with hlt | hge
        · exact hearlier earlier hlt
        · rw [hgeneration] at hlast hnamed
          rwa [Nat.le_antisymm (Nat.le_of_lt_succ hlast) hge]
    · rw [htouch.slots i hself] at hi
      exact (h.worn i s hi).of_site hsite hreleases.ge

theorem Thrifty.copyIn (h : p.Thrifty) {bytes : ByteArray} {r : Except Fault Unit}
    (hc : p.copyIn f b bytes = (r, p', f')) : p'.Thrifty := by
  rcases copyIn_cases hc with ⟨e, -, rfl, -⟩ | ⟨c, hb, -, -, -, rfl⟩ |
    ⟨path, old, part, -, -, rfl, -⟩
  · exact h
  · obtain ⟨-, hslot⟩ := backing_eq_ok.1 hb
    have hlt := (Array.getElem?_eq_some_iff.1 hslot).1
    refine ⟨by simpa using h.slots, fun i s hi => Worn.of_site (p := p) ?_ rfl le_rfl⟩
    by_cases hself : i = b.slot
    · subst hself
      rw [Array.getElem?_setIfInBounds_self_of_lt hlt, Option.some.injEq] at hi
      subst hi
      have hworn := h.worn _ _ hslot
      exact ⟨hworn.last, nofun, fun _ => hworn.first rfl, hworn.named⟩
    · rw [Array.getElem?_setIfInBounds_ne (Ne.symm hself)] at hi
      exact h.worn i s hi
  · exact h

theorem Thrifty.vacate (h : p.Thrifty) {k : Backing} (hb : p.backing b = .ok k) :
    (p.vacate b).Thrifty := by
  obtain ⟨-, hslot⟩ := backing_eq_ok.1 hb
  have hlt := (Array.getElem?_eq_some_iff.1 hslot).1
  refine ⟨by simpa [Pool.vacate] using h.slots, fun i s hi => ?_⟩
  by_cases hself : i = b.slot
  · subst hself
    simp only [Pool.vacate, Array.getElem?_setIfInBounds_self_of_lt hlt, Option.some.injEq] at hi
    subst hi
    -- The generation that ends is accounted for by this release.
    have hworn := h.worn _ _ hslot
    refine ⟨Nat.le_succ_of_le hworn.last, fun _ => hworn.last, fun hsome => ?_, hworn.named⟩
    cases hsome
  · simp only [Pool.vacate, Array.getElem?_setIfInBounds_ne (Ne.symm hself)] at hi
    exact (h.worn i s hi).of_site rfl (Nat.le_succ _)

/-- A pool that has taken nothing back has a name for each buffer that is out, its slots being used in
order and once each. -/
theorem Thrifty.names (h : p.Thrifty) (hs : p.Sound out lost) (hnone : p.releases = 0) :
    p.Names out.card 1 := by
  have hslots := h.slots
  have hsize := hs.size
  have hcounted := hs.counted
  have hfree : p.free ++ lost = [] := List.length_eq_zero_iff.1 (by omega)
  intro slot hslot earlier hearlier
  rcases hs.slot_cases (i := slot) (by omega) with ⟨b, hb, rfl⟩ | hmem
  · obtain ⟨k, hk, -⟩ := hs.backed b hb
    have hworn := h.worn _ _ hk
    exact hworn.named earlier (hearlier.trans_le (hworn.first rfl))
  · rw [hfree] at hmem
    exact absurd hmem List.not_mem_nil

end Pool

end TieredWeights
