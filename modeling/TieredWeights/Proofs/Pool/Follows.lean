import TieredWeights.Proofs.Depot.Sound
import TieredWeights.Proofs.Pool.Sessions

/-!
# Pools in step with their maps

`Follows` says of a pool and of what was asked of it so far that the pool holds what the map `holds`
holds. The buffers that the map binds are those that are out; one that it does not bind any more is
spent, so a slot that is used again never answers to it. Every request keeps the pool in step, and
`backing_iff` reads off which buffers the pool answers to.
-/
namespace TieredWeights

namespace Pool

variable {p p' : Pool} {f f' : Files} {k : Nat} {past : List Served} {b : Buffer}
  {bytes : ByteArray}

theorem Spent.backing_ne (h : p.Spent b) (x : Backing) : p.backing b ≠ .ok x := by
  intro hx
  obtain ⟨s, hs, hold⟩ := h
  have hslot := (backing_eq_ok.1 hx).2
  rw [hs, Option.some.injEq] at hslot
  subst hslot
  rcases hold with hlt | ⟨-, hnone⟩
  · exact Nat.lt_irrefl _ hlt
  · cases hnone

/-- A new buffer has a generation that its slot never had. -/
theorem not_spent_nextBuffer (p : Pool) (n : Nat) (type : ElementType) :
    ¬ p.Spent (p.nextBuffer n type) := by
  rintro ⟨s, hs, hold⟩
  have hgeneration : (p.nextBuffer n type).generation = s.generation + 1 := by
    unfold nextBuffer takeSlot at *
    cases hfree : p.free with
    | nil => simp [hfree] at hs
    | cons i rest =>
      simp only [hfree] at hs ⊢
      simp [generationOf, hs]
  omega

/-- The pool that has been asked for what `past` tells holds what the map holds. -/
structure Follows (p : Pool) (f : Files) (k : Nat) (past : List Served) : Prop where
  number : p.id = k
  writes : ∀ path, f.refuses .write path = none
  sound : ∃ out lost, p.Sound out lost ∧ ∀ b, b ∈ out ↔ (holds k past b).isSome
  bound : ∀ b, (holds k past b).isSome ↔ (k, b) ∈ issued past ∧ (k, b) ∉ released past
  taken : ∀ b, (k, b) ∈ released past → (k, b) ∈ issued past
  owned : ∀ b, (k, b) ∈ issued past → p.owns b
  spent : ∀ b, (k, b) ∈ issued past → holds k past b = none → p.Spent b
  reads : ∀ b bytes, holds k past b = some bytes → bytes.size = b.length ∧ p.read f b = .ok bytes

theorem follows_new {tier : Tier} {capacity process : Nat} {spill : Option Folder}
    (hwrites : ∀ path, f.refuses .write path = none) (hpast : ∀ s ∈ past, s.pool ≠ k) :
    Follows { tier, id := k, capacity, spill, process } f k past := by
  have hnone : ∀ b, holds k past b = none := fun b => (not_asked hpast b).2.2
  constructor
  case number => rfl
  case writes => exact hwrites
  case sound => exact ⟨0, [], Depot.sound_new tier k capacity process spill, by simp [hnone]⟩
  case bound => simp [hnone, not_asked hpast]
  case taken => exact fun b hb => absurd hb (not_asked hpast b).2.1
  case owned => exact fun b hb => absurd hb (not_asked hpast b).1
  case spent => exact fun b hb => absurd hb (not_asked hpast b).1
  case reads => simp [hnone]

theorem Follows.of_same {past' : List Served} (h : p.Follows f k past)
    (hsame : SameFor k past past') : p.Follows f k past' := by
  constructor
  case number => exact h.number
  case writes => exact h.writes
  case sound => simpa only [hsame.holds] using h.sound
  case bound => simpa only [hsame.holds, hsame.issued, hsame.released] using h.bound
  case taken => simpa only [hsame.issued, hsame.released] using h.taken
  case owned => simpa only [hsame.issued] using h.owned
  case spent => simpa only [hsame.holds, hsame.issued] using h.spent
  case reads => simpa only [hsame.holds] using h.reads

/-- Files that are none of the pool's do not matter. -/
theorem Follows.of_files (h : p.Follows f k past) (hwrites : ∀ path, f'.refuses .write path = none)
    (hf : ∀ b path, (holds k past b).isSome → p.spillPath? b.slot b.generation = some path →
      f'.contents.find? path = f.contents.find? path) : p.Follows f' k past := by
  obtain ⟨out, lost, hs, hout⟩ := h.sound
  refine { h with writes := hwrites, reads := fun b bytes hb => ?_ }
  obtain ⟨hsize, hread⟩ := h.reads b bytes hb
  have hmem : b ∈ out := (hout b).2 (by simp [hb])
  exact ⟨hsize, hs.read_of_files hmem (fun path => hf b path (by simp [hb])) hread⟩

/-- What touches one slot of the pool leaves the buffers of other slots and those that are spent. -/
theorem Follows.touched {slot generation : Nat} (h : p.Follows f k past)
    (ht : p.Touches f slot generation p' f') :
    p'.id = k ∧ (∀ path, f'.refuses .write path = none) ∧
      (∀ b, (k, b) ∈ issued past → p'.owns b) ∧
      (∀ b, (k, b) ∈ issued past → holds k past b = none → p'.Spent b) ∧
      ∀ b bytes, holds k past b = some bytes → b.slot ≠ slot →
        bytes.size = b.length ∧ p'.read f' b = .ok bytes := by
  obtain ⟨out, lost, hs, hout⟩ := h.sound
  refine ⟨ht.id.trans h.number, fun path => ?_, ?_, ?_, ?_⟩
  · rw [ht.refuses]
    exact h.writes path
  · intro b hb
    rw [ht.owns]
    exact h.owned b hb
  · exact fun b hb hnone => ht.spent (h.spent b hb hnone)
  · intro b bytes hb hne
    obtain ⟨hsize, hread⟩ := h.reads b bytes hb
    have hmem : b ∈ out := (hout b).2 (by simp [hb])
    exact ⟨hsize, hs.read_of_touches hmem ht hne hread⟩

/-- An allocation that is refused, or asks for too much memory, leaves all as it was. -/
theorem Follows.refused {n : Nat} {type : ElementType} {e : Fault} (h : p.Follows f k past)
    (ha : p.allocate f n type = (.error e, p', f')) : p'.Follows f' k past := by
  obtain ⟨out, lost, hs, hout⟩ := h.sound
  obtain ⟨number, writes, owned, spent, reads⟩ := h.touched (touches_allocate ha)
  obtain ⟨lost', hs'⟩ := hs.unallocated ha
  refine ⟨number, writes, ⟨out, lost', hs', hout⟩, h.bound, h.taken, owned, spent,
    fun b bytes hb => ?_⟩
  have hmem : b ∈ out := (hout b).2 (by simp [hb])
  exact reads b bytes hb (hs.slot_ne_nextBuffer n type hmem)

/-- An allocation brings a buffer that the pool never issued. -/
theorem Follows.fresh {n : Nat} {type : ElementType} (h : p.Follows f k past)
    (ha : p.allocate f n type = (.ok b, p', f')) : (k, b) ∉ issued past := by
  obtain ⟨out, lost, hs, hout⟩ := h.sound
  obtain ⟨rfl, -⟩ := hs.allocate ha
  intro hissued
  by_cases hb : (holds k past (p.nextBuffer n type)).isSome
  · exact hs.slot_ne_nextBuffer n type ((hout _).2 hb) rfl
  · rw [Option.not_isSome_iff_eq_none] at hb
    exact not_spent_nextBuffer p n type (h.spent _ hissued hb)

/-- A deed on one buffer, which binds it anew or unbinds it, and touches no slot but its own. -/
theorem Follows.rebound {generation : Nat} {s : Served} {v : Option ByteArray}
    (h : p.Follows f k past) (hs : Rebinds k past b v s)
    (ht : p.Touches f b.slot generation p' f') (hsound : ∃ out lost, p'.Sound out lost ∧
      ∀ c, c ∈ out ↔ (Function.update (holds k past) b v c).isSome)
    (hb : v.isSome → (k, b) ∉ released past)
    (hslots : ∀ c, c ≠ b → (holds k past c).isSome → c.slot ≠ b.slot) (hown : p'.owns b)
    (hspent : v = none → p'.Spent b)
    (hread : ∀ bytes, v = some bytes → bytes.size = b.length ∧ p'.read f' b = .ok bytes) :
    p'.Follows f' k (s :: past) := by
  obtain ⟨number, writes, owned, spent, reads⟩ := h.touched ht
  constructor
  case number => exact number
  case writes => exact writes
  case sound => simpa only [hs.holds] using hsound
  case bound =>
    intro c
    rw [hs.holds, hs.issued, hs.released]
    by_cases hcb : c = b
    · subst hcb
      cases v with
      | none => simp
      | some bytes => simpa using hb
    · simpa [hcb] using h.bound c
  case taken =>
    intro c hc
    rw [hs.issued]
    rcases (hs.released c).1 hc with ⟨hcb, -⟩ | hc
    · exact .inl hcb
    · exact .inr (h.taken c hc)
  case owned =>
    intro c hc
    rcases (hs.issued c).1 hc with rfl | hc
    · exact hown
    · exact owned c hc
  case spent =>
    intro c hc hnone
    by_cases hcb : c = b
    · subst hcb
      rw [hs.holds, Function.update_self] at hnone
      exact hspent hnone
    · rw [hs.holds, Function.update_of_ne hcb] at hnone
      exact spent c (((hs.issued c).1 hc).resolve_left hcb) hnone
  case reads =>
    intro c bytes hc
    by_cases hcb : c = b
    · subst hcb
      rw [hs.holds, Function.update_self] at hc
      exact hread bytes hc
    · rw [hs.holds, Function.update_of_ne hcb] at hc
      exact reads c bytes hc (hslots c hcb (by simp [hc]))

theorem Follows.allocated {n : Nat} {type : ElementType} (h : p.Follows f k past)
    (ha : p.allocate f n type = (.ok b, p', f')) :
    p'.Follows f' k (⟨k, .allocate n type, .ok (.buffer b)⟩ :: past) := by
  obtain ⟨out, lost, hs, hout⟩ := h.sound
  obtain ⟨hb, hs', backing, hslot, hcontent⟩ := hs.allocate ha
  have htouch : p.Touches f b.slot b.generation p' f' := by
    rw [hb]
    exact touches_allocate ha
  have hown : p'.owns b := hs'.issued b (Multiset.mem_cons_self b out)
  have hread : p'.read f' b = .ok (Content.zeros n).bytes :=
    read_eq_ok.2 ⟨backing, _, backing_eq_ok.2 ⟨hown, hslot⟩, hcontent, rfl⟩
  refine h.rebound (rebinds_allocate k n type b past) htouch ⟨b ::ₘ out, lost, hs', ?_⟩ ?_ ?_ hown
    ?_ ?_
  · intro c
    by_cases hc : c = b <;> simp [hc, hout]
  · exact fun _ hreleased => h.fresh ha (h.taken b hreleased)
  · exact fun c _ hc => hs'.slot_ne ((hout c).2 hc)
  · simp
  · rintro bytes ⟨⟩
    exact ⟨by simp [hb], hread⟩

/-- A buffer that is bound is out, and has its slot to itself. -/
theorem Follows.exists_sound_cons (h : p.Follows f k past) (hb : (holds k past b).isSome) :
    ∃ out lost, p.Sound (b ::ₘ out) lost ∧ b ∉ out ∧ (∀ c, c ∈ b ::ₘ out ↔ (holds k past c).isSome) ∧
      ∀ c, c ≠ b → (holds k past c).isSome → c.slot ≠ b.slot := by
  obtain ⟨out, lost, hs, hout⟩ := h.sound
  obtain ⟨rest, rfl⟩ := Multiset.exists_cons_of_mem ((hout b).2 hb)
  refine ⟨rest, lost, hs, fun hmem => hs.slot_ne hmem rfl, hout, fun c hcb hc => ?_⟩
  exact hs.slot_ne ((Multiset.mem_cons.1 ((hout c).2 hc)).resolve_left hcb)

theorem Follows.copied (h : p.Follows f k past) (hb : (holds k past b).isSome)
    (hc : p.copyIn f b bytes = (.ok (), p', f')) :
    p'.Follows f' k (⟨k, .copyIn b bytes, .ok .done⟩ :: past) ∧
      p.Touches f b.slot b.generation p' f' := by
  obtain ⟨out, lost, hs, -, hout, hslots⟩ := h.exists_sound_cons hb
  have hmem := Multiset.mem_cons_self b out
  have hs' := hs.copyIn hmem hc
  have htouch := hs.touches_copyIn hmem hc
  obtain ⟨hissued, hreleased⟩ := (h.bound b).1 hb
  obtain ⟨old, hold⟩ := Option.isSome_iff_exists.1 hb
  obtain ⟨hsize, hread⟩ := h.reads b old hold
  obtain ⟨x, c, hx, hcontent, hbytes⟩ := read_eq_ok.1 hread
  have hfits : c.size ≤ b.length := by rw [← Content.size_bytes, hbytes, hsize]
  refine ⟨h.rebound (rebinds_copyIn hissued bytes) htouch ⟨b ::ₘ out, lost, hs', ?_⟩ ?_ hslots
    (hs'.issued b hmem) ?_ ?_, htouch⟩
  · intro c
    by_cases hcb : c = b
    · simp [hcb]
    · rw [Function.update_of_ne hcb]
      exact hout c
  · exact fun _ => hreleased
  · simp
  · rintro bytes' ⟨⟩
    exact ⟨(copyIn_eq_ok hc).1, hs.read_copyIn hmem ⟨x, c, hx, hcontent, hfits⟩ hc⟩

theorem Follows.released {notices : List Notice} (h : p.Follows f k past)
    (hb : (holds k past b).isSome) (hr : p.release f b = (.ok notices, p', f')) :
    p'.Follows f' k (⟨k, .release b, .ok .done⟩ :: past) ∧
      p.Touches f b.slot b.generation p' f' := by
  obtain ⟨out, lost, hs, hnot, hout, hslots⟩ := h.exists_sound_cons hb
  obtain ⟨-, rfl, hfiles, hrefuses⟩ := hs.release hr
  obtain ⟨htouch, hspent⟩ := hs.touches_vacate hfiles hrefuses
  have hown : (p.vacate b).owns b := hs.issued b (Multiset.mem_cons_self b out)
  obtain ⟨hissued, -⟩ := (h.bound b).1 hb
  refine ⟨h.rebound (rebinds_release hissued) htouch ⟨out, lost, hs.vacate, ?_⟩ ?_ hslots hown
    (fun _ => hspent) ?_, htouch⟩
  · intro c
    by_cases hcb : c = b
    · simpa [hcb] using hnot
    · rw [Function.update_of_ne hcb, ← hout c, Multiset.mem_cons, or_iff_right hcb]
  · simp
  · simp

/-- A pool has a backing for the buffers that the map binds, and for no other that was ever
issued, whichever pool it was. -/
theorem Follows.backing_iff (h : p.Follows f k past) (hb : (k, b) ∈ issued past ∨ b.pool ≠ k) :
    (∃ x, p.backing b = .ok x) ↔ (holds k past b).isSome := by
  constructor
  · rintro ⟨x, hx⟩
    have howns := owns_iff.1 (backing_eq_ok.1 hx).1
    have hpool : b.pool = k := howns.2.trans h.number
    have hissued := hb.resolve_right (not_not_intro hpool)
    by_contra hnone
    rw [Option.not_isSome_iff_eq_none] at hnone
    exact (h.spent b hissued hnone).backing_ne x hx
  · intro hsome
    obtain ⟨out, lost, hs, hout⟩ := h.sound
    obtain ⟨x, hx, -⟩ := hs.backing ((hout b).2 hsome)
    exact ⟨x, hx⟩

theorem Follows.read_iff (h : p.Follows f k past) (hb : (k, b) ∈ issued past ∨ b.pool ≠ k) :
    p.read f b = .ok bytes ↔ holds k past b = some bytes := by
  constructor
  · intro hread
    obtain ⟨x, -, hx, -⟩ := read_eq_ok.1 hread
    obtain ⟨held, hheld⟩ := Option.isSome_iff_exists.1 ((h.backing_iff hb).1 ⟨x, hx⟩)
    have hread' := (h.reads b held hheld).2
    rw [hread, Except.ok.injEq] at hread'
    rw [hread', hheld]
  · exact fun hheld => (h.reads b bytes hheld).2

theorem Follows.copyIn_iff (h : p.Follows f k past) (hb : (k, b) ∈ issued past ∨ b.pool ≠ k) :
    (p.copyIn f b bytes).1 = .ok () ↔ bytes.size = b.length ∧ (holds k past b).isSome := by
  constructor
  · intro hok
    obtain ⟨hsize, hbacking⟩ := copyIn_eq_ok (Prod.ext hok rfl : p.copyIn f b bytes = (.ok (), _))
    exact ⟨hsize, (h.backing_iff hb).1 hbacking⟩
  · rintro ⟨hsize, hsome⟩
    obtain ⟨old, hold⟩ := Option.isSome_iff_exists.1 hsome
    exact copyIn_of_read (h.reads b old hold).2 hsize fun path _ => h.writes path

/-- A release that is refused changes nothing. -/
theorem release_error {e : Fault} (hr : p.release f b = (.error e, p', f')) :
    p' = p ∧ f' = f := by
  unfold release at hr
  split at hr
  · cases hr
    exact ⟨rfl, rfl⟩
  · cases hr
  · split at hr <;> cases hr

theorem exists_backing_of_release {notices : List Notice}
    (hr : (p.release f b).1 = .ok notices) : ∃ x, p.backing b = .ok x := by
  unfold release at hr
  split at hr
  · cases hr
  · exact ⟨_, ‹_›⟩
  · exact ⟨_, ‹_›⟩

theorem Follows.release_iff (h : p.Follows f k past) (hb : (k, b) ∈ issued past ∨ b.pool ≠ k) :
    (∃ notices, (p.release f b).1 = .ok notices) ↔ (holds k past b).isSome := by
  constructor
  · rintro ⟨notices, hr⟩
    exact (h.backing_iff hb).1 (exists_backing_of_release hr)
  · intro hsome
    obtain ⟨out, lost, hs, -⟩ := h.exists_sound_cons hsome
    exact (hs.release rfl).1

/-- What a pool serves keeps it in step with the map, and touches one slot. -/
theorem Follows.serve {request : Request} {reply : Except Fault Reply} (h : p.Follows f k past)
    (hb : ∀ b ∈ request.buffer?, (k, b) ∈ issued past ∨ b.pool ≠ k)
    (hs : p.serve f request = (reply, p', f')) :
    p'.Follows f' k (⟨k, request, reply⟩ :: past) ∧
      ∃ slot generation, p.Touches f slot generation p' f' := by
  cases request with
  | allocate n type =>
    rcases ha : p.allocate f n type with ⟨e | b, q, g⟩ <;> simp only [Pool.serve, ha] at hs <;> cases hs
    · exact ⟨(h.refused ha).of_same (sameFor_error k _ e past), _, _, touches_allocate ha⟩
    · exact ⟨h.allocated ha, _, _, touches_allocate ha⟩
  | copyIn b bytes =>
    rcases hc : p.copyIn f b bytes with ⟨e | u, q, g⟩ <;> simp only [Pool.serve, hc] at hs <;> cases hs
    · obtain ⟨rfl, hfiles⟩ := copyIn_error hc
      cases hfiles h.writes
      exact ⟨h.of_same (sameFor_error k _ _ past), 0, 0, .refl _ _ _ _⟩
    · have hok : (p.copyIn f b bytes).1 = .ok () := by rw [hc]
      obtain ⟨hfollows, htouch⟩ := h.copied ((h.copyIn_iff (hb b rfl)).1 hok).2 hc
      exact ⟨hfollows, _, _, htouch⟩
  | read b =>
    cases hs
    exact ⟨h.of_same (sameFor_read k b _ past), 0, 0, .refl _ _ _ _⟩
  | release b =>
    rcases hr : p.release f b with ⟨e | notices, q, g⟩ <;> simp only [Pool.serve, hr] at hs <;> cases hs
    · obtain ⟨rfl, rfl⟩ := release_error hr
      exact ⟨h.of_same (sameFor_error k _ _ past), 0, 0, .refl _ _ _ _⟩
    · have hok : ∃ notices, (p.release f b).1 = .ok notices := ⟨notices, by rw [hr]⟩
      obtain ⟨hfollows, htouch⟩ := h.released ((h.release_iff (hb b rfl)).1 hok) hr
      exact ⟨hfollows, _, _, htouch⟩

end Pool

end TieredWeights
