import TieredWeights.Proofs.Faults
import TieredWeights.Proofs.Pool.Refusals
import TieredWeights.Proofs.Pool.Twins

/-!
# Runs of one pool

A pool is asked again and again, for any buffer that it ever issued and any that it did not, and
between two requests the files may have become any others: spill files may be missing, and foreign
files may stand where spill files are to come. Whatever happens, every buffer that the pool issued
was either taken back, once, or is out; and every slot is a buffer's, or free, or was lost to a call
that ended in a panic.
-/
namespace TieredWeights

/-- Whether a call ended in a panic. -/
def Served.panicked (s : Served) : Bool :=
  match s.reply with
  | .error e => e.isPanic
  | .ok _ => false

/-- How many calls ended in a panic. -/
def panics (past : List Served) : Nat := past.countP Served.panicked

namespace Pool

/-- The runs of a pool since it was made, with what it has served, the last first. -/
inductive Run : List Served → Pool → Prop
  | start {d d' : Depot} {tier : Tier} {capacity : Option Nat} {spill : Option String} {p : Pool}
      (hcapacity : ∀ n ∈ capacity, n ≤ wordMax)
      (hnew : d.newPool tier capacity spill = (.ok p, d')) : Run [] p
  | serve {past : List Served} {p p' : Pool} {f f' : Files} {request : Request}
      {reply : Except Fault Reply} (h : Run past p)
      (hissued : ∀ b ∈ request.buffer?, (p.id, b) ∈ issued past ∨ ¬ p.owns b)
      (hserve : p.serve f request = (reply, p', f')) : Run (⟨p.id, request, reply⟩ :: past) p'

/-- The buffers of the pool are files, or no piece of memory is too large for it to have room for. -/
def NeverOverflows (p : Pool) : Prop := p.spill.isSome ∨ p.capacity ≤ memoryLimit

/-- Every buffer that was issued was taken back, and then it is spent, or it is out. -/
structure Ledger (p : Pool) (past : List Served) (out : Multiset Buffer) (lost : List Nat) :
    Prop where
  sound : p.Sound out lost
  balance : (issued past : Multiset (Nat × Buffer)) = released past + out.map (Prod.mk p.id)
  once : (issued past).Nodup
  spent : ∀ b, (p.id, b) ∈ released past → p.Spent b
  releases : p.releases = (released past).length
  panicked : lost.length = panics past
  quiet : p.NeverOverflows → lost = []
  word : p.capacity ≤ wordMax

variable {p p' : Pool} {f f' : Files} {past : List Served} {out : Multiset Buffer}
  {lost : List Nat} {b : Buffer}

theorem NeverOverflows.not_overflows {n : Nat} (h : p.NeverOverflows) : ¬ p.Overflows n := by
  intro ho
  have hroom := ho.room
  have hlarge := ho.large
  rcases h with hspill | hcapacity
  · simp [ho.spill] at hspill
  · omega

theorem issued_cons (s : Served) (past : List Served) :
    issued (s :: past) = s.issue?.toList ++ issued past := by
  cases h : s.issue? <;> simp [issued, h]

theorem released_cons (s : Served) (past : List Served) :
    released (s :: past) = s.release?.toList ++ released past := by
  cases h : s.release? <;> simp [released, h]

/-- Only an allocation ends in a panic. -/
theorem panicked_of_serve {k : Nat} {request : Request} {reply : Except Fault Reply}
    (h : p.serve f request = (reply, p', f')) (hr : ∀ n type, request ≠ .allocate n type) :
    Served.panicked ⟨k, request, reply⟩ = false := by
  cases request with
  | allocate n type => exact absurd rfl (hr n type)
  | copyIn b bytes =>
    rcases hc : p.copyIn f b bytes with ⟨e | u, q, g⟩ <;> simp only [serve, hc] at h <;> cases h
    · exact (copyIn_fault hc).isPanic
    · rfl
  | read b =>
    rcases hread : p.read f b with e | bytes <;> simp only [serve, hread] at h <;> cases h
    · exact (read_fault hread).isPanic
    · rfl
  | release b =>
    rcases hback : p.release f b with ⟨e | notices, q, g⟩ <;> simp only [serve, hback] at h <;>
      cases h
    · exact (release_fault hback).isPanic
    · rfl

namespace Ledger

theorem mem_issued (h : p.Ledger past out lost) :
    (p.id, b) ∈ issued past ↔ (p.id, b) ∈ released past ∨ b ∈ out := by
  rw [← Multiset.mem_coe, h.balance]
  simp

/-- The buffers that are out are those that were issued and not taken back. -/
theorem live_eq (h : p.Ledger past out lost) :
    (TieredWeights.live past : Multiset (Nat × Buffer)) = out.map (Prod.mk p.id) := by
  have honce : (released past + out.map (Prod.mk p.id) : Multiset (Nat × Buffer)).Nodup := by
    rw [← h.balance]
    exact h.once
  obtain ⟨-, -, hdisjoint⟩ := Multiset.nodup_add.1 honce
  have hreleased : (released past : Multiset (Nat × Buffer)).filter (· ∉ released past) = 0 :=
    Multiset.filter_eq_nil.2 fun x hx => not_not_intro hx
  have hout : (out.map (Prod.mk p.id)).filter (· ∉ released past) = out.map (Prod.mk p.id) :=
    Multiset.filter_eq_self.2 fun x hx hx' => Multiset.disjoint_left.1 hdisjoint hx' hx
  calc (TieredWeights.live past : Multiset (Nat × Buffer))
      = (issued past : Multiset (Nat × Buffer)).filter (· ∉ released past) := rfl
    _ = out.map (Prod.mk p.id) := by
      rw [h.balance, Multiset.filter_add, hreleased, hout, zero_add]

theorem mem_live (h : p.Ledger past out lost) : (p.id, b) ∈ TieredWeights.live past ↔ b ∈ out := by
  rw [← Multiset.mem_coe, h.live_eq]
  simp

/-- A buffer that has a backing is out. -/
theorem mem_of_backing (h : p.Ledger past out lost) (hb : (p.id, b) ∈ issued past ∨ ¬ p.owns b)
    {k : Backing} (hk : p.backing b = .ok k) : b ∈ out := by
  have hissued := hb.resolve_right (not_not_intro (backing_eq_ok.1 hk).1)
  rcases h.mem_issued.1 hissued with hreleased | hmem
  · exact absurd hk ((h.spent b hreleased).backing_ne k)
  · exact hmem

theorem start {d d' : Depot} {tier : Tier} {capacity : Option Nat} {spill : Option String}
    (hcapacity : ∀ n ∈ capacity, n ≤ wordMax)
    (hnew : d.newPool tier capacity spill = (.ok p, d')) : p.Ledger [] 0 [] := by
  obtain ⟨⟨folder, rfl⟩, -, -⟩ := Depot.newPool_eq_ok hnew
  constructor
  case sound => exact Depot.sound_new _ _ _ _ _
  case balance => simp [issued, released]
  case once => simp [issued]
  case spent => simp [released]
  case releases => rfl
  case panicked => rfl
  case quiet => exact fun _ => rfl
  case word =>
    cases capacity with
    | none => exact Nat.le_refl wordMax
    | some n => exact hcapacity n rfl

/-- What neither issues a buffer nor takes one back leaves the ledger, and loses a slot just if it
panics. -/
theorem kept {s : Served} {slot generation : Nat} {lost' : List Nat} (h : p.Ledger past out lost)
    (hissue : s.issue? = none) (hrelease : s.release? = none) (hs : p'.Sound out lost')
    (hlost : lost'.length = lost.length + if s.panicked then 1 else 0)
    (hquiet : p.NeverOverflows → lost' = lost)
    (ht : p.Touches f slot generation p' f') (hcount : p'.allocations = p.allocations) :
    p'.Ledger (s :: past) out lost' := by
  have hissued : issued (s :: past) = issued past := by simp [issued_cons, hissue]
  have hreleased : released (s :: past) = released past := by simp [released_cons, hrelease]
  constructor
  case sound => exact hs
  case balance => rw [hissued, hreleased, ht.id, h.balance]
  case once => rw [hissued]; exact h.once
  case spent =>
    intro b hb
    rw [hreleased, ht.id] at hb
    exact ht.spent (h.spent b hb)
  case releases =>
    have hbefore := h.sound.counted
    have hafter := hs.counted
    have hreleases := h.releases
    rw [hreleased]
    omega
  case panicked => rw [hlost, h.panicked, panics, panics, List.countP_cons]
  case quiet =>
    intro hnever
    have hbefore : p.NeverOverflows := by
      rwa [NeverOverflows, ht.spill, ht.capacity] at hnever
    rw [hquiet hbefore, h.quiet hbefore]
  case word => rw [ht.capacity]; exact h.word

theorem allocated {n : Nat} {type : ElementType} (h : p.Ledger past out lost)
    (ha : p.allocate f n type = (.ok b, p', f')) :
    p'.Ledger (⟨p.id, .allocate n type, .ok (.buffer b)⟩ :: past) (b ::ₘ out) lost := by
  have ht := touches_allocate ha
  obtain ⟨hb, hs, -⟩ := h.sound.allocate ha
  -- No buffer that is out has the slot, and none that was taken back has the generation.
  have hfresh : (p.id, b) ∉ issued past := by
    intro hissued
    rcases h.mem_issued.1 hissued with hreleased | hmem
    · rw [hb] at hreleased
      exact not_spent_nextBuffer p n type (h.spent _ hreleased)
    · rw [hb] at hmem
      exact h.sound.slot_ne_nextBuffer n type hmem rfl
  have hcount : p'.releases = p.releases := by
    have hbefore := h.sound.counted
    have hafter := hs.counted
    rw [allocations_of_allocate ha, Multiset.card_cons] at hafter
    omega
  constructor
  case sound => exact hs
  case balance =>
    have hissued : issued (⟨p.id, .allocate n type, .ok (.buffer b)⟩ :: past) =
        (p.id, b) :: issued past := rfl
    have hreleased : released (⟨p.id, .allocate n type, .ok (.buffer b)⟩ :: past) =
        released past := rfl
    rw [hissued, hreleased, ht.id, ← Multiset.cons_coe, h.balance, Multiset.map_cons,
      Multiset.add_cons]
  case once => exact List.nodup_cons.2 ⟨hfresh, h.once⟩
  case spent =>
    intro c hc
    rw [ht.id] at hc
    exact ht.spent (h.spent c hc)
  case releases => exact hcount.trans h.releases
  case panicked => exact h.panicked
  case quiet =>
    rw [NeverOverflows, ht.spill, ht.capacity]
    exact h.quiet
  case word => rw [ht.capacity]; exact h.word

theorem vacated {rest : Multiset Buffer} (h : p.Ledger past (b ::ₘ rest) lost)
    (hfiles : ∀ q, p.spillPath? b.slot b.generation ≠ some q →
      f'.contents.find? q = f.contents.find? q) (hrefuses : f'.refuses = f.refuses) :
    (p.vacate b).Ledger (⟨p.id, .release b, .ok .done⟩ :: past) rest lost := by
  obtain ⟨ht, hspent⟩ := h.sound.touches_vacate hfiles hrefuses
  have hissued : issued (⟨p.id, .release b, .ok .done⟩ :: past) = issued past := rfl
  have hreleased : released (⟨p.id, .release b, .ok .done⟩ :: past) =
      (p.id, b) :: released past := rfl
  constructor
  case sound => exact h.sound.vacate
  case balance =>
    rw [hissued, hreleased, ht.id, ← Multiset.cons_coe, h.balance, Multiset.map_cons,
      Multiset.add_cons, Multiset.cons_add]
  case once => exact h.once
  case spent =>
    intro c hc
    rw [hreleased, ht.id, List.mem_cons, Prod.mk.injEq] at hc
    rcases hc with ⟨-, rfl⟩ | hc
    · exact hspent
    · exact ht.spent (h.spent c hc)
  case releases => simp [hreleased, vacate, h.releases]
  case panicked => exact h.panicked
  case quiet => exact h.quiet
  case word => exact h.word

/-- An allocation that hands nothing out is refused, or it panics and loses a slot. -/
theorem unallocated {n : Nat} {type : ElementType} {e : Fault} (h : p.Ledger past out lost)
    (ha : p.allocate f n type = (.error e, p', f')) :
    ∃ lost', p'.Ledger (⟨p.id, .allocate n type, .error e⟩ :: past) out lost' := by
  have ht := touches_allocate ha
  cases he : e.isPanic with
  | false =>
    have hserve : p.serve f (.allocate n type) = (.error e, p', f') := by
      simp only [Pool.serve, ha]
      rfl
    obtain ⟨-, -, hcount, -, -⟩ := serve_error hserve he
    exact ⟨lost, h.kept rfl rfl (h.sound.refused ha he) (by simp [Served.panicked, he]) (fun _ => rfl)
      ht hcount⟩
  | true =>
    obtain rfl : e = .capacityOverflow := by
      by_contra hne
      rw [Fault.isPanic_eq_false.2 hne] at he
      cases he
    obtain ⟨hoverflows, hs⟩ := h.sound.overflowed ha
    rw [allocate_of_overflows hoverflows] at ha
    cases ha
    exact ⟨_, h.kept rfl rfl hs (by simp [Served.panicked, he])
      (fun hnever => absurd hoverflows hnever.not_overflows) ht (takeSlot_allocations p)⟩

/-- Whatever is asked and whatever the files are, the ledger is kept. -/
theorem serve {request : Request} {reply : Except Fault Reply} (h : p.Ledger past out lost)
    (hb : ∀ b ∈ request.buffer?, (p.id, b) ∈ issued past ∨ ¬ p.owns b)
    (hs : p.serve f request = (reply, p', f')) :
    ∃ out' lost', p'.Ledger (⟨p.id, request, reply⟩ :: past) out' lost' := by
  have hkeeps (hr : ∀ n type, request ≠ .allocate n type) : lost.length =
      lost.length + if Served.panicked ⟨p.id, request, reply⟩ then 1 else 0 := by
    rw [panicked_of_serve hs hr]
    rfl
  cases request with
  | allocate n type =>
    rcases ha : p.allocate f n type with ⟨e | b, q, g⟩ <;> simp only [Pool.serve, ha] at hs <;> cases hs
    · exact ⟨out, h.unallocated ha⟩
    · exact ⟨_, _, h.allocated ha⟩
  | copyIn b bytes =>
    rcases hc : p.copyIn f b bytes with ⟨e | u, q, g⟩ <;> simp only [Pool.serve, hc] at hs <;> cases hs
    · obtain ⟨rfl, -⟩ := copyIn_error hc
      exact ⟨out, lost, h.kept rfl rfl h.sound (hkeeps (by simp)) (fun _ => rfl) (.refl _ f 0 0) rfl⟩
    · obtain ⟨-, k, hk⟩ := copyIn_eq_ok hc
      have hmem := h.mem_of_backing (hb b rfl) hk
      exact ⟨out, lost, h.kept rfl rfl (h.sound.copyIn hmem hc) rfl (fun _ => rfl)
        (h.sound.touches_copyIn hmem hc)
        (allocations_of_copyIn hc)⟩
  | read b =>
    cases hs
    refine ⟨out, lost,
      h.kept ?_ rfl h.sound (hkeeps (by simp)) (fun _ => rfl) (.refl _ f 0 0) rfl⟩
    cases p.read f b <;> rfl
  | release b =>
    rcases hr : p.release f b with ⟨e | notices, q, g⟩ <;> simp only [Pool.serve, hr] at hs <;> cases hs
    · obtain ⟨rfl, rfl⟩ := release_error hr
      exact ⟨out, lost,
        h.kept rfl rfl h.sound (hkeeps (by simp)) (fun _ => rfl) (.refl _ f' 0 0) rfl⟩
    · obtain ⟨k, hk⟩ := exists_backing_of_release (f := f) (b := b) (by rw [hr])
      obtain ⟨rest, rfl⟩ := Multiset.exists_cons_of_mem (h.mem_of_backing (hb b rfl) hk)
      obtain ⟨-, rfl, hfiles, hrefuses⟩ := h.sound.release hr
      exact ⟨rest, lost, h.vacated hfiles hrefuses⟩

end Ledger

theorem Run.ledger (h : Run past p) : ∃ out lost, p.Ledger past out lost := by
  induction h with
  | start hcapacity hnew => exact ⟨0, [], .start hcapacity hnew⟩
  | serve _ hissued hserve ih =>
    obtain ⟨out, lost, hledger⟩ := ih
    exact hledger.serve hissued hserve

end Pool

end TieredWeights
