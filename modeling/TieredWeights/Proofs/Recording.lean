import TieredWeights.Proofs.Loader

/-!
# Recorded loads

What a load does of its own shows between what the others leave at one of its moments and what they
find at the next. A company can be recorded: it keeps a log of the loaders that it found and left. A
load does not notice what the others have of their own, so what is proved of logs holds of loads in
any company.
-/
namespace TieredWeights

/-- A moment of a load: the loader as the others found it, and as they left it. -/
structure Entry where
  moment : Moment
  found : Loader
  left : Loader

/-- A company that keeps a log, the latest entry last. -/
def Company.recorded {σ : Type} (company : Company σ) : Company (σ × List Entry) where
  act moment w :=
    let after := company.act moment (w.1, w.2.1)
    (after.1, (after.2, w.2.2 ++ [⟨moment, w.1, after.1⟩]))
  cancelled w := company.cancelled (w.1, w.2.1)

/-- A company is another one of which only a part of the state is seen. -/
structure Company.SeenAs {σ τ : Type} (full : Company τ) (view : τ → σ)
    (company : Company σ) : Prop where
  act : ∀ moment l x, company.act moment (l, view x) =
    ((full.act moment (l, x)).1, view (full.act moment (l, x)).2)
  cancelled : ∀ l x, company.cancelled (l, view x) = full.cancelled (l, x)

theorem Company.recorded_seenAs {σ : Type} (company : Company σ) :
    company.recorded.SeenAs Prod.fst company := ⟨fun _ _ _ => rfl, fun _ _ => rfl⟩

namespace Loader

variable {σ τ : Type} {full : Company τ} {view : τ → σ} {company : Company σ} {index : Nat}
  {block : Block} {plan : Plan} {w w' : Loader × τ}

section

variable (hseen : full.SeenAs view company)

include hseen

theorem act_seen (moment : Moment) (w : Loader × τ) : company.act moment (w.1, view w.2) =
    ((full.act moment w).1, view (full.act moment w).2) := hseen.act moment w.1 w.2

theorem cancelled_seen (w : Loader × τ) : company.cancelled (w.1, view w.2) = full.cancelled w :=
  hseen.cancelled w.1 w.2

/-- By induction on what is yet to be gathered. -/
theorem gather_seen {before : Nat} {rest : List (String × Tensor)} {g : Gathered}
    {r : Except Fault Gathered} (h : gather full plan before rest g w = (r, w')) :
    gather company plan before rest g (w.1, view w.2) = (r, (w'.1, view w'.2)) := by
  induction rest generalizing before g w with
  | nil =>
    cases h
    rfl
  | cons x rest ih =>
    obtain ⟨name, t⟩ := x
    rw [gather] at h ⊢
    rw [cancelled_seen hseen, act_seen hseen]
    split_ifs at h ⊢ with hcancelled
    · cases h
      rfl
    · revert h
      generalize full.act (.admitted before) w = w₁
      intro h
      cases htier : plan.tierOf? name with
      | none =>
        simp only [htier] at h
        cases h
        rfl
      | some tier =>
        simp only [htier] at h ⊢
        rcases hr : w₁.1.cache.resolve t tier with ⟨e | p, c⟩ <;> simp only [hr] at h ⊢
        · cases h
          rfl
        · rw [hseen.act]
          exact ih h

theorem consultStore_seen {attempt : Nat} {r : Except Fault (Option Handle)}
    (h : consultStore full index block attempt w = (r, w')) :
    consultStore company index block attempt (w.1, view w.2) = (r, (w'.1, view w'.2)) := by
  unfold consultStore at h ⊢
  rcases hload : w.1.loadMap index with ⟨e | _ | m, l⟩ <;> simp only [hload] at h ⊢
  · cases h
    rfl
  · rw [hseen.act]
    cases h
    rfl
  · split_ifs at h ⊢ with hmatch
    · cases h
      rfl
    · rw [hseen.act]
      revert h
      generalize full.act (.consulted attempt) _ = w₁
      intro h
      rcases hclear : w₁.1.clearBlockIf index m with ⟨e | b, l'⟩ <;> simp only [hclear] at h ⊢
      · cases h
        rfl
      · rw [hseen.act]
        cases h
        rfl

theorem commit_seen {attempt : Nat} {g : Gathered} {r : Except Fault (Option Handle)}
    (h : commit full index attempt g w = (r, w')) :
    commit company index attempt g (w.1, view w.2) = (r, (w'.1, view w'.2)) := by
  unfold commit at h ⊢
  rw [cancelled_seen hseen, act_seen hseen]
  split_ifs at h ⊢ with hcancelled
  · cases h
    rfl
  · revert h
    generalize full.act (.approved attempt) w = w₁
    intro h
    rcases hs : w₁.1.storeMap index g.parameters with ⟨e | m, l⟩ <;> simp only [hs] at h ⊢
    · cases e with
      | alreadyPopulated b =>
        simp only at h ⊢
        rw [hseen.act]
        cases h
        rfl
      | _ =>
        cases h
        rfl
    · cases h
      rfl

/-- By induction on the attempts that remain. -/
theorem attempts_seen {remaining before : Nat} {r : Except Fault Handle}
    (h : attempts full index block plan remaining before w = (r, w')) :
    attempts company index block plan remaining before (w.1, view w.2) = (r, (w'.1, view w'.2)) := by
  induction remaining generalizing before w with
  | zero =>
    cases h
    rfl
  | succ remaining ih =>
    rw [attempts_succ] at h ⊢
    rw [cancelled_seen hseen, act_seen hseen]
    split_ifs at h ⊢ with hcancelled
    · cases h
      rfl
    · rcases hconsult : consultStore full index block (commitAttempts - remaining)
        (full.act (.attempted (commitAttempts - remaining)) w) with
          ⟨e | _ | handle, w₁⟩ <;>
        simp only [hconsult, consultStore_seen hseen hconsult] at h ⊢
      · cases h
        rfl
      · rcases hg : gather full plan before block.parameters {} w₁ with ⟨e | g, w₂⟩ <;>
          simp only [hg, gather_seen hseen hg] at h ⊢
        · cases h
          rfl
        · rcases hc : commit full index (commitAttempts - remaining) g w₂ with
            ⟨e | _ | handle, w₃⟩ <;>
            simp only [hc, commit_seen hseen hc] at h ⊢
          · cases h
            rfl
          · exact ih h
          · cases h
            rfl
      · cases h
        rfl

theorem loadAmong_seen {split : Split Binary64} {r : Except Fault Handle}
    (h : loadAmong full index block split w = (r, w')) :
    loadAmong company index block split (w.1, view w.2) = (r, (w'.1, view w'.2)) := by
  unfold loadAmong at h ⊢
  cases hsplit : Brackets.ofSplit split with
  | error e =>
    simp only [hsplit] at h
    cases h
    rfl
  | ok brackets =>
    simp only [hsplit] at h ⊢
    rw [hseen.act]
    exact attempts_seen hseen h

end

/-- Every load can be recorded. -/
theorem exists_recorded (company : Company σ) {split : Split Binary64} {l l' : Loader} {x x' : σ}
    {r : Except Fault Handle} (h : loadAmong company index block split (l, x) = (r, (l', x'))) :
    ∃ log, loadAmong company.recorded index block split (l, (x, [])) = (r, (l', (x', log))) := by
  rcases hr : loadAmong company.recorded index block split (l, (x, [])) with ⟨r₁, l₁, x₁, log⟩
  have hseen := loadAmong_seen company.recorded_seenAs hr
  rw [h] at hseen
  cases hseen
  exact ⟨log, rfl⟩

end Loader

end TieredWeights
