import TieredWeights.Proofs.Loader

/-!
# What every load keeps

A relation between what a loader was and what it has become is kept by a load if it adds up, if each
deed of a load keeps it, and if the others keep it at every moment of the load. So a property of all
loads in company is proved deed by deed.
-/
namespace TieredWeights.Loader

/-- A relation that adds up, and that the deeds of a load keep. -/
structure Kept (R : Loader → Loader → Prop) : Prop where
  refl : ∀ l, R l l
  trans : ∀ {l l' l''}, R l l' → R l' l'' → R l l''
  note : ∀ l n, R l (l.note n)
  counted : ∀ (l : Loader) reuse, R l { l with reuse }
  resolved : ∀ (l : Loader) t tier, R l { l with cache := (l.cache.resolve t tier).2 }
  releaseAll : ∀ l ps, R l (l.releaseAll ps)
  loadMap : ∀ l block, R l (l.loadMap block).2
  storeMap : ∀ l block parameters, R l (l.storeMap block parameters).2
  dropMap : ∀ l m, R l (l.dropMap m)
  clearBlockIf : ∀ l block m, R l (l.clearBlockIf block m).2

variable {σ : Type} {R : Loader → Loader → Prop} {company : Company σ} {index : Nat} {block : Block}
  {plan : Plan} {w w' : Loader × σ}

section

variable (hR : Kept R) (hact : ∀ moment w, R w.1 (company.act moment w).1)

include hR hact

/-- By induction on what is yet to be resolved. -/
theorem gather_kept {rest : List (String × Tensor)} {before : Nat} {g : Gathered}
    {r : Except Fault Gathered} (h : gather company plan before rest g w = (r, w')) :
    R w.1 w'.1 := by
  induction rest generalizing before g w with
  | nil =>
    cases h
    exact hR.refl _
  | cons x rest ih =>
    obtain ⟨name, t⟩ := x
    rw [gather] at h
    split_ifs at h with hcancelled
    · cases h
      exact hR.releaseAll _ _
    · apply hR.trans (hact (.admitted before) w)
      generalize company.act (.admitted before) w = w₁ at h ⊢
      cases htier : plan.tierOf? name with
      | none =>
        simp only [htier] at h
        cases h
        exact hR.releaseAll _ _
      | some tier =>
        simp only [htier] at h
        have hresolved := hR.resolved w₁.1 t tier
        rcases hr : w₁.1.cache.resolve t tier with ⟨e | p, c⟩ <;> simp only [hr] at h hresolved
        · cases h
          exact hR.trans hresolved (hR.releaseAll _ _)
        · exact hR.trans hresolved (hR.trans (hact (.resolved (before + 1)) (_, w₁.2)) (ih h))

theorem consultStore_kept {attempt : Nat} {r : Except Fault (Option Handle)}
    (h : consultStore company index block attempt w = (r, w')) : R w.1 w'.1 := by
  unfold consultStore at h
  have hload := hR.loadMap w.1 index
  rcases hl : w.1.loadMap index with ⟨e | _ | m, l⟩ <;> simp only [hl] at h hload
  · cases h
    exact hload
  · cases h
    exact hR.trans hload (hact (.consulted attempt) (_, w.2))
  · split_ifs at h with hmatch
    · cases h
      exact hR.trans hload (hR.counted _ _)
    · apply hR.trans hload
      apply hR.trans (hR.note l (.mismatch index block.names ((l.store.map? m).getD .empty).keys))
      apply hR.trans (hact (.consulted attempt) (l.note _, w.2))
      generalize company.act (.consulted attempt) _ = w₁ at h ⊢
      have hclear := hR.clearBlockIf w₁.1 index m
      rcases hc : w₁.1.clearBlockIf index m with ⟨e | b, l⟩ <;> simp only [hc] at h hclear <;>
        cases h
      · exact hR.trans hclear (hR.dropMap _ _)
      · exact hR.trans hclear (hR.trans (hR.dropMap _ _) (hact (.dismissed attempt) (_, w₁.2)))

theorem commit_kept {attempt : Nat} {g : Gathered} {r : Except Fault (Option Handle)}
    (h : commit company index attempt g w = (r, w')) : R w.1 w'.1 := by
  unfold commit at h
  split_ifs at h with hcancelled
  · cases h
    exact hR.releaseAll _ _
  · apply hR.trans (hact (.approved attempt) w)
    generalize company.act (.approved attempt) w = w₁ at h ⊢
    have hstore := hR.storeMap w₁.1 index g.parameters
    rcases hs : w₁.1.storeMap index g.parameters with ⟨e | m, l⟩ <;> simp only [hs] at h hstore
    · cases e with
      | alreadyPopulated b =>
        cases h
        exact hR.trans hstore (hact (.refused attempt) (_, w₁.2))
      | _ =>
        cases h
        exact hstore
    · cases h
      exact hR.trans hstore (hR.counted _ _)

/-- By induction on the attempts that remain. -/
theorem attempts_kept {remaining before : Nat} {r : Except Fault Handle}
    (h : attempts company index block plan remaining before w = (r, w')) : R w.1 w'.1 := by
  induction remaining generalizing before w with
  | zero =>
    cases h
    exact hR.note _ _
  | succ remaining ih =>
    rw [attempts_succ] at h
    split_ifs at h with hcancelled
    · cases h
      exact hR.refl _
    · apply hR.trans (hact (.attempted (commitAttempts - remaining)) w)
      rcases hconsult : consultStore company index block (commitAttempts - remaining)
        (company.act (.attempted (commitAttempts - remaining)) w) with ⟨e | _ | handle, w₂⟩ <;>
        simp only [hconsult] at h <;> have hfirst := consultStore_kept hR hact hconsult
      · cases h
        exact hfirst
      · apply hR.trans hfirst
        rcases hg : gather company plan before block.parameters {} w₂ with ⟨e | g, w₃⟩ <;>
          simp only [hg] at h <;> have hgather := gather_kept hR hact hg
        · cases h
          exact hgather
        · apply hR.trans hgather
          rcases hc : commit company index (commitAttempts - remaining) g w₃ with
            ⟨e | _ | handle, w₄⟩ <;> simp only [hc] at h <;> have hcommit := commit_kept hR hact hc
          · cases h
            exact hcommit
          · exact hR.trans hcommit (ih h)
          · cases h
            exact hcommit
      · cases h
        exact hfirst

theorem loadAmong_kept {split : Split Binary64} {r : Except Fault Handle}
    (h : loadAmong company index block split w = (r, w')) : R w.1 w'.1 := by
  unfold loadAmong at h
  rcases hsplit : Brackets.ofSplit split with e | brackets <;> simp only [hsplit] at h
  · cases h
    exact hR.refl _
  · have hattempts := attempts_kept hR hact h
    exact hR.trans (hR.counted w.1 _) (hR.trans (hact .started (_, w.2)) hattempts)

end

end TieredWeights.Loader
