import TieredWeights.Proofs.Depot.Work

/-!
# Errands

Somebody who may use all tiers of a depot does errands there: each is one deed on one tier, with some
of the buffers that he has. Errands leave the buffers of others alone. A depot is whole if every buffer
that is out reads as many bytes as it has; as long as nobody tampers with the files, errands keep it so.
-/
namespace TieredWeights.Depot

/-- Every buffer reads as many bytes as it has. -/
def Whole (d : Depot) (out : Multiset Buffer) : Prop :=
  ∀ b ∈ out, ∃ bytes, d.read b.tier b = .ok bytes ∧ bytes.size = b.length

/-- One deed on one tier, with some of the buffers that one has. -/
inductive Errand : Depot × Multiset Buffer → Depot × Multiset Buffer → Prop
  | on {tier : Tier} {d d' : Depot} {own own' : Multiset Buffer}
      (h : Step False tier (d, own) (d', own')) (hown : ∀ b ∈ own, b.tier = tier)
      (others : Multiset Buffer) : Errand (d, own + others) (d', own' + others)

/-- A run of errands. -/
def Errands (d : Depot) (own : Multiset Buffer) (d' : Depot) (own' : Multiset Buffer) : Prop :=
  Relation.ReflTransGen Errand (d, own) (d', own')

variable {d d' d'' : Depot} {out own own' rest : Multiset Buffer} {tier : Tier} {b : Buffer}

theorem Leaves.trans (h : Leaves False d d' rest) (h' : Leaves False d' d'' rest) :
    Leaves False d d'' rest where
  spent b hb := h'.spent b (h.spent b hb)
  tiers t := (h'.tiers t).trans (h.tiers t)
  reads ht b hb bytes hr := h'.reads ht b hb bytes (h.reads ht b hb bytes hr)

/-- Buffers left alone are read in full if they were. -/
theorem Leaves.whole (h : Leaves False d d' rest) (hw : d.Whole rest) : d'.Whole rest := by
  intro b hb
  obtain ⟨bytes, hread, hsize⟩ := hw b hb
  exact ⟨bytes, h.reads id b hb bytes hread, hsize⟩

theorem whole_cons : d.Whole (b ::ₘ rest) ↔
    (∃ bytes, d.read b.tier b = .ok bytes ∧ bytes.size = b.length) ∧ d.Whole rest := by
  simp only [Whole, Multiset.mem_cons, forall_eq_or_imp]

/-- A new buffer reads zero bytes. -/
theorem Sound.whole_allocate (hd : d.Sound out) (hw : d.Whole out) {n : Nat} {type : ElementType}
    (h : d.allocate tier n type = (.ok b, d')) : d'.Whole (b ::ₘ out) := by
  obtain ⟨-, hleaves, htier, hlength, pool, k, hpool, hk, hcontent⟩ := hd.allocate False h
  refine whole_cons.2 ⟨⟨(Content.zeros n).bytes, ?_, ?_⟩, hleaves.whole hw⟩
  · rw [htier, read_eq hpool]
    exact Pool.read_eq_ok.2 ⟨k, _, hk, hcontent, rfl⟩
  · rw [Content.size_bytes, hlength]
    rfl

/-- A buffer that is written has its length still, whether the write succeeds or not. -/
theorem Sound.whole_copyIn (hd : d.Sound (b ::ₘ rest)) (hw : d.Whole (b ::ₘ rest)) (hb : b.tier = tier)
    {bytes : ByteArray} {r : Except Fault Unit} (h : d.copyIn tier b bytes = (r, d')) :
    d'.Whole (b ::ₘ rest) := by
  obtain ⟨-, hleaves⟩ := hd.copyIn False hb h
  obtain ⟨⟨old, hread, hsize⟩, hrest⟩ := whole_cons.1 hw
  refine whole_cons.2 ⟨?_, hleaves.whole hrest⟩
  obtain ⟨pool, hpool⟩ := hd.housed b (Multiset.mem_cons_self b rest)
  rw [hb] at hpool
  rw [hb, read_eq hpool] at hread
  rcases hc : pool.copyIn d.files b bytes with ⟨r', pool', files⟩
  simp only [Depot.copyIn, hpool, hc, Prod.mk.injEq] at h
  obtain ⟨rfl, rfl⟩ := h
  rw [hb, read_eq (Table.find?_insert_self _ _ _)]
  have hs := (hd.pools tier pool hpool).2
  rw [onTier_cons_self hb] at hs
  exact hs.size_read_copyIn (Multiset.mem_cons_self b _) hread hsize hc

theorem Step.whole (h : Step False tier (d, own) (d', own')) (hd : d.Sound (own + rest))
    (hw : d.Whole (own + rest)) (hown : ∀ b ∈ own, b.tier = tier) : d'.Whole (own' + rest) := by
  cases h with
  | allocate h =>
    rw [Multiset.cons_add]
    exact hd.whole_allocate hw h
  | refused he h => exact (hd.refused False he h).2.whole hw
  | @fill _ _ _ b bytes r hb h =>
    obtain ⟨others, rfl⟩ := Multiset.exists_cons_of_mem hb
    rw [Multiset.cons_add] at hd hw ⊢
    exact hd.whole_copyIn hw (hown b hb) h
  | @giveBack _ _ _ b r h =>
    rw [Multiset.cons_add] at hd hw
    obtain ⟨-, -, hleaves, -⟩ := hd.release False (hown b (Multiset.mem_cons_self b _)) h
    exact hleaves.whole (whole_cons.1 hw).2
  | tamper h => exact h.elim

/-- Errands keep a depot sound and whole, and leave alone what others have. -/
theorem Errands.sound (h : Errands d own d' own') (hd : d.Sound (own + rest))
    (hw : d.Whole (own + rest)) :
    d'.Sound (own' + rest) ∧ d'.Whole (own' + rest) ∧ Leaves False d d' rest := by
  unfold Errands at h
  generalize hx : (d, own) = x at h
  generalize hy : (d', own') = y at h
  induction h generalizing d' own' with
  | refl =>
    rw [← hx, Prod.mk.injEq] at hy
    obtain ⟨rfl, rfl⟩ := hy
    exact ⟨hd, hw, .refl _ _ _⟩
  | @tail y z _ herrand ih =>
    obtain ⟨d₁, own₁⟩ := y
    subst hy
    obtain ⟨hd₁, hw₁, hleaves₁⟩ := ih rfl
    cases herrand with
    | on h hown others =>
      rw [add_assoc] at hd₁ hw₁ ⊢
      obtain ⟨hd', -, hleaves⟩ := h.sound hd₁ hown
      exact ⟨hd', h.whole hd₁ hw₁ hown, hleaves₁.trans (hleaves.weaken (Multiset.le_add_left _ _))⟩

end TieredWeights.Depot
