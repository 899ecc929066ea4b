import Mathlib.Logic.Relation
import TieredWeights.Proofs.Depot.Sound

/-!
# Work on a depot

Whoever works on a tier of a depot has buffers of his own there: he allocates them, writes them and
gives them back. `Step` is one such deed and `Work` a run of them, perhaps while others tamper with
the files. A deed keeps a depot sound and leaves the buffers of others alone, as `Leaves` records;
placing a tensor is work that ends with one buffer, which holds the tensor's bytes, or with none.
-/
namespace TieredWeights.Depot

/-- What becomes of a depot while some buffers are left alone. If nobody tampers with the files,
these read what they read before. -/
structure Leaves (tampered : Prop) (d d' : Depot) (rest : Multiset Buffer) : Prop where
  spent : ∀ b, d.Spent b → d'.Spent b
  tiers : ∀ t, (d'.pools.find? t).isSome = (d.pools.find? t).isSome
  reads : ¬ tampered → ∀ b ∈ rest, ∀ bytes,
    d.read b.tier b = .ok bytes → d'.read b.tier b = .ok bytes

namespace Leaves

theorem refl (tampered : Prop) (d : Depot) (rest : Multiset Buffer) : Leaves tampered d d rest where
  spent _ h := h
  tiers _ := rfl
  reads _ _ _ _ h := h

end Leaves

variable {tampered : Prop} {d d' : Depot} {out own own' rest : Multiset Buffer} {tier : Tier}

/-- What leaves some buffers alone leaves fewer alone. -/
theorem Leaves.weaken (h : Leaves tampered d d' out) (hle : rest ≤ out) : Leaves tampered d d' rest :=
  ⟨h.spent, h.tiers, fun ht b hb => h.reads ht b (Multiset.mem_of_le hle hb)⟩

theorem Touches.leaves {slot generation : Nat} {pool pool' : Pool}
    (h : d.Touches tier slot generation pool pool' d') (hd : d.Sound out) (hrest : rest ≤ out)
    (hne : ∀ b ∈ rest, b.tier = tier → b.slot ≠ slot) : Leaves tampered d d' rest where
  spent _ hb := h.spent hb
  tiers := h.isSome
  reads _ b hb _ hr := h.read hd (Multiset.mem_of_le hrest hb) (hne b hb) hr

/-- An allocation hands out a new buffer of zero bytes. -/
theorem Sound.allocate (tampered : Prop) {n : Nat} {type : ElementType} {b : Buffer}
    (hd : d.Sound out)
    (h : d.allocate tier n type = (.ok b, d')) :
    d'.Sound (b ::ₘ out) ∧ Leaves tampered d d' out ∧ b.tier = tier ∧ b.length = n ∧
      ∃ pool k, d'.pools.find? tier = some pool ∧ pool.backing b = .ok k ∧
        k.content? d'.files = some (.zeros n) := by
  unfold Depot.allocate at h
  split at h
  · cases h
  · rename_i pool hpool
    rcases ha : pool.allocate d.files n type with ⟨r, pool', files⟩
    simp only [ha, Prod.mk.injEq] at h
    obtain ⟨rfl, rfl⟩ := h
    obtain ⟨htier, hs⟩ := hd.pools tier pool hpool
    obtain ⟨hb, hs', k, hslot, hcontent⟩ := hs.allocate ha
    have hbtier : b.tier = tier := by rw [hb]; exact htier
    have htouch : d.Touches tier b.slot b.generation pool pool'
        { d with pools := d.pools.insert tier pool', files } := by
      refine ⟨hpool, rfl, ?_⟩
      rw [hb]
      exact Pool.touches_allocate ha
    refine ⟨?_, ?_, hbtier, by rw [hb]; rfl, pool', k, htouch.find?_self, ?_, hcontent⟩
    · refine htouch.sound hd ?_ fun t ht => onTier_cons_ne (by rwa [hbtier]) out
      rwa [onTier_cons_self hbtier]
    · refine htouch.leaves hd le_rfl fun c hc hct => ?_
      rw [hb]
      exact hs.slot_ne_nextBuffer n type (mem_onTier.2 ⟨hc, hct⟩)
    · exact Pool.backing_eq_ok.2 ⟨hs'.issued b (Multiset.mem_cons_self b _), hslot⟩

/-- A refused allocation hands nothing out. -/
theorem Sound.refused (tampered : Prop) {n : Nat} {type : ElementType} {e : Fault}
    (hd : d.Sound out) (he : e.isPanic = false)
    (h : d.allocate tier n type = (.error e, d')) :
    d'.Sound out ∧ Leaves tampered d d' out := by
  unfold Depot.allocate at h
  split at h
  · cases h
    exact ⟨hd, .refl _ _ _⟩
  · rename_i pool hpool
    rcases ha : pool.allocate d.files n type with ⟨r, pool', files⟩
    simp only [ha, Prod.mk.injEq] at h
    obtain ⟨rfl, rfl⟩ := h
    have hs := (hd.pools tier pool hpool).2
    have htouch : d.Touches tier _ _ pool pool' { d with pools := d.pools.insert tier pool', files } :=
      ⟨hpool, rfl, Pool.touches_allocate ha⟩
    refine ⟨htouch.sound hd (hs.refused ha he) fun _ _ => rfl, htouch.leaves hd le_rfl ?_⟩
    exact fun c hc hct => hs.slot_ne_nextBuffer n type (mem_onTier.2 ⟨hc, hct⟩)

theorem isPanic_of_allocate {n : Nat} {type : ElementType} {e : Fault} (hn : n ≤ memoryLimit)
    (h : d.allocate tier n type = (.error e, d')) : e.isPanic = false := by
  unfold Depot.allocate at h
  split at h
  · cases h
    rfl
  · rename_i pool hpool
    rcases ha : pool.allocate d.files n type with ⟨r, pool', files⟩
    simp only [ha, Prod.mk.injEq] at h
    obtain ⟨rfl, -⟩ := h
    exact Pool.isPanic_of_allocate hn ha

/-- A write to a buffer leaves the others alone. -/
theorem Sound.copyIn (tampered : Prop) {b : Buffer} {bytes : ByteArray} {r : Except Fault Unit}
    (hd : d.Sound (b ::ₘ rest)) (hb : b.tier = tier) (h : d.copyIn tier b bytes = (r, d')) :
    d'.Sound (b ::ₘ rest) ∧ Leaves tampered d d' rest := by
  unfold Depot.copyIn at h
  split at h
  · cases h
    exact ⟨hd, .refl _ _ _⟩
  · rename_i pool hpool
    rcases hc : pool.copyIn d.files b bytes with ⟨r', pool', files⟩
    simp only [hc, Prod.mk.injEq] at h
    obtain ⟨rfl, rfl⟩ := h
    have hs := (hd.pools tier pool hpool).2
    rw [onTier_cons_self hb] at hs
    have hmem := Multiset.mem_cons_self b (onTier rest tier)
    have htouch : d.Touches tier b.slot b.generation pool pool'
        { d with pools := d.pools.insert tier pool', files } :=
      ⟨hpool, rfl, hs.touches_copyIn hmem hc⟩
    refine ⟨htouch.sound hd ?_ fun _ _ => rfl, htouch.leaves hd (Multiset.le_cons_self _ _) ?_⟩
    · rw [onTier_cons_self hb]
      exact hs.copyIn hmem hc
    · exact fun c hc hct => hs.slot_ne (mem_onTier.2 ⟨hc, hct⟩)

/-- A buffer that is out is taken back, and spent from then on. -/
theorem Sound.release (tampered : Prop) {b : Buffer} {r : Except Fault Unit}
    (hd : d.Sound (b ::ₘ rest))
    (hb : b.tier = tier) (h : d.release tier b = (r, d')) :
    r = .ok () ∧ d'.Sound rest ∧ Leaves tampered d d' rest ∧ d'.Spent b := by
  obtain ⟨pool, hpool⟩ := hd.housed b (Multiset.mem_cons_self b rest)
  rw [hb] at hpool
  have hs := (hd.pools tier pool hpool).2
  rw [onTier_cons_self hb] at hs
  rcases hr : pool.release d.files b with ⟨r', pool', files⟩
  obtain ⟨⟨notices, rfl⟩, rfl, hfiles, hrefuses⟩ := hs.release hr
  simp only [Depot.release, hpool, hr, Prod.mk.injEq] at h
  obtain ⟨rfl, rfl⟩ := h
  obtain ⟨htouches, hspent⟩ := hs.touches_vacate hfiles hrefuses
  have htouch : d.Touches tier b.slot b.generation pool (pool.vacate b)
      { d with pools := d.pools.insert tier (pool.vacate b), files, notices := d.notices ++ notices } :=
    ⟨hpool, rfl, htouches⟩
  refine ⟨rfl, ?_, ?_, pool.vacate b, by rw [hb, htouch.find?_self], hspent⟩
  · exact htouch.sound hd hs.vacate fun t ht => (onTier_cons_ne (by rwa [hb]) rest).symm
  · refine htouch.leaves hd (Multiset.le_cons_self _ _) ?_
    exact fun c hc hct => hs.slot_ne (mem_onTier.2 ⟨hc, hct⟩)

/-- Notices and files are no matter of soundness. -/
theorem Sound.of_pools (hd : d.Sound out) (h : d'.pools = d.pools) : d'.Sound out where
  pools := by rw [h]; exact hd.pools
  housed := by rw [h]; exact hd.housed
  distinct := by rw [h]; exact hd.distinct

theorem Leaves.of_pools (h : d'.pools = d.pools) (hf : ¬ tampered → d'.files = d.files) :
    Leaves tampered d d' rest where
  spent b hb := by rwa [Spent, h]
  tiers t := by rw [h]
  reads ht b _ bytes hr := by rwa [Depot.read, h, hf ht]

/-- One deed of someone who works on a tier with buffers of his own. -/
inductive Step (tampered : Prop) (tier : Tier) :
    Depot × Multiset Buffer → Depot × Multiset Buffer → Prop
  | allocate {d d' : Depot} {own : Multiset Buffer} {n : Nat} {type : ElementType} {b : Buffer}
      (h : d.allocate tier n type = (.ok b, d')) : Step tampered tier (d, own) (d', b ::ₘ own)
  | refused {d d' : Depot} {own : Multiset Buffer} {n : Nat} {type : ElementType} {e : Fault}
      (he : e.isPanic = false) (h : d.allocate tier n type = (.error e, d')) :
      Step tampered tier (d, own) (d', own)
  | fill {d d' : Depot} {own : Multiset Buffer} {b : Buffer} {bytes : ByteArray}
      {r : Except Fault Unit} (hb : b ∈ own) (h : d.copyIn tier b bytes = (r, d')) :
      Step tampered tier (d, own) (d', own)
  | giveBack {d d' : Depot} {own : Multiset Buffer} {b : Buffer} {r : Except Fault Unit}
      (h : d.release tier b = (r, d')) : Step tampered tier (d, b ::ₘ own) (d', own)
  | tamper {d : Depot} {own : Multiset Buffer} (h : tampered) (files : Files) :
      Step tampered tier (d, own) ({ d with files }, own)

/-- A run of deeds. -/
def Work (tampered : Prop) (tier : Tier) (d : Depot) (own : Multiset Buffer) (d' : Depot)
    (own' : Multiset Buffer) : Prop :=
  Relation.ReflTransGen (Step tampered tier) (d, own) (d', own')

theorem Step.sound (h : Step tampered tier (d, own) (d', own')) (hd : d.Sound (own + rest))
    (hown : ∀ b ∈ own, b.tier = tier) :
    d'.Sound (own' + rest) ∧ (∀ b ∈ own', b.tier = tier) ∧ Leaves tampered d d' rest := by
  cases h with
  | @allocate _ _ _ n type b h =>
    obtain ⟨hs, hl, hb, -⟩ := hd.allocate tampered h
    refine ⟨by rwa [Multiset.cons_add], fun c hc => ?_, hl.weaken (Multiset.le_add_left _ _)⟩
    rcases Multiset.mem_cons.1 hc with rfl | hc
    · exact hb
    · exact hown c hc
  | refused he h =>
    obtain ⟨hs, hl⟩ := hd.refused tampered he h
    exact ⟨hs, hown, hl.weaken (Multiset.le_add_left _ _)⟩
  | @fill _ _ _ b bytes r hb h =>
    obtain ⟨own, rfl⟩ := Multiset.exists_cons_of_mem hb
    rw [Multiset.cons_add] at hd ⊢
    obtain ⟨hs, hl⟩ := hd.copyIn tampered (hown b hb) h
    exact ⟨hs, hown, hl.weaken (Multiset.le_add_left _ _)⟩
  | @giveBack _ _ _ b r h =>
    rw [Multiset.cons_add] at hd
    obtain ⟨-, hs, hl, -⟩ := hd.release tampered
      (hown b (Multiset.mem_cons_self b _)) h
    exact ⟨hs, fun c hc => hown c (Multiset.mem_cons_of_mem hc),
      hl.weaken (Multiset.le_add_left _ _)⟩
  | tamper ht files => exact ⟨hd.of_pools rfl, hown, .of_pools rfl fun hno => absurd ht hno⟩

/-- The buffers that an answer brings. -/
def brought : Except Fault Buffer → Multiset Buffer
  | .ok b => {b}
  | .error _ => 0

/-- Placing a tensor is work that keeps the buffer it brings. Others may tamper with the files
before the buffer is filled. -/
theorem placeTensor_work (d : Depot) (tier : Tier) (t : Tensor) {tamper : Files → Files}
    (h : tampered ∨ tamper = id) {r : Except Fault Buffer}
    (hr : d.placeTensor tier t (fun d => { d with files := tamper d.files }) = (r, d')) :
    Work tampered tier d 0 d' (brought r) := by
  unfold placeTensor at hr
  rcases ha : d.allocate tier t.bytes.size t.type with ⟨e | b, d₁⟩ <;> simp only [ha] at hr
  · cases hr
    exact .single (.refused (isPanic_of_allocate t.size_le ha) ha)
  · have hmeanwhile : Work tampered tier d 0 { d₁ with files := tamper d₁.files } {b} := by
      have hfirst : Work tampered tier d 0 d₁ {b} := .single (.allocate ha)
      rcases h with ht | rfl
      · exact hfirst.tail (.tamper ht _)
      · exact hfirst
    rcases hc : Depot.copyIn { d₁ with files := tamper d₁.files } tier b t.bytes with ⟨e | u, d₂⟩ <;>
      simp only [hc] at hr <;>
      have hcopied := hmeanwhile.tail (.fill (Multiset.mem_singleton_self b) hc)
    · rcases hback : d₂.release tier b with ⟨e' | u, d₃⟩ <;> simp only [hback] at hr <;> cases hr
      · exact hcopied.tail (.giveBack hback)
      · exact hcopied.tail (.giveBack hback)
    · cases hr
      exact hcopied

/-- A tensor placed while nobody tampers with the files is read from its buffer. -/
theorem Sound.read_placeTensor (hd : d.Sound out) {t : Tensor} {b : Buffer}
    (h : d.placeTensor tier t id = (.ok b, d')) : d'.read tier b = .ok t.bytes := by
  unfold placeTensor at h
  rcases ha : d.allocate tier t.bytes.size t.type with ⟨e | b', d₁⟩
  · simp [ha] at h
  · obtain ⟨hs, -, htier, hlength, pool, k, hpool, hk, hcontent⟩ := hd.allocate False ha
    simp only [ha, id] at h
    rcases hc : pool.copyIn d₁.files b' t.bytes with ⟨r, pool', files⟩
    have hcopy : d₁.copyIn tier b' t.bytes =
        (r, { d₁ with pools := d₁.pools.insert tier pool', files }) := by
      rw [Depot.copyIn, hpool]
      simp only [hc]
    rw [hcopy] at h
    cases r with
    | error e =>
      simp only at h
      split at h <;> cases h
    | ok u =>
      cases h
      have hpools := (hs.pools tier pool hpool).2
      rw [onTier_cons_self htier] at hpools
      rw [read_eq (Table.find?_insert_self _ _ _)]
      exact hpools.read_copyIn (Multiset.mem_cons_self b _) ⟨k, _, hk, hcontent, hlength.ge⟩ hc

end TieredWeights.Depot
