import TieredWeights.Loader
import TieredWeights.Proofs.Bindings

/-!
# The attempts of a load

An attempt gathers references under names not met before, so none that it has gathered is replaced.
It ends with the commit, which stores them as a map, finds the slot taken, or fails. With a name for
it, `attempts_succ` reads an attempt as three answers: that of the block store, that of the cache
and that of the commit.
-/
namespace TieredWeights.Loader

variable {σ : Type}

@[simp] theorem alone_act (moment : Moment) (w : Loader × Unit) :
    Company.alone.act moment w = w := rfl

@[simp] theorem alone_cancelled (w : Loader × Unit) : Company.alone.cancelled w = false := rfl

section

variable {g : Gathered} {name : String}

/-- A reference gathered under a new name is one more. -/
theorem Gathered.values_add (h : g.parameters.find? name = none) (r : Resolved) :
    ((g.add name r).parameters.values : Multiset PlacementId) =
      r.placement ::ₘ ↑g.parameters.values :=
  Table.values_insert_new h _

/-- Every reference gathered is new or shared. -/
theorem Gathered.size_add (h : g.parameters.find? name = none)
    (hsize : g.parameters.size = g.placed + g.reused) (r : Resolved) :
    (g.add name r).parameters.size = (g.add name r).placed + (g.add name r).reused := by
  have hcard := congrArg Multiset.card (Gathered.values_add h r)
  simp only [Multiset.coe_card, Multiset.card_cons, Table.values, List.length_map] at hcard
  change (g.add name r).parameters.size = g.parameters.size + 1 at hcard
  rw [hcard, hsize, Gathered.add]
  split_ifs <;> dsimp only <;> omega

/-- Names that are new stay new when another name is bound. -/
theorem Gathered.new_add {rest : List (String × Tensor)} (hname : name ∉ rest.map Prod.fst)
    (hnew : ∀ x ∈ rest, g.parameters.find? x.1 = none) (r : Resolved) :
    ∀ x ∈ rest, (g.add name r).parameters.find? x.1 = none := by
  intro x hx
  have hne : x.1 ≠ name := fun he => hname (List.mem_map.2 ⟨x, hx, he⟩)
  rw [Gathered.add, Table.find?_insert_ne _ _ hne]
  exact hnew x hx

end

/-- The end of an attempt: the handle of the map stored, or `none` if the slot was taken. -/
def commit (company : Company σ) (index attempt : Nat) (g : Gathered) (w : Loader × σ) :
    Except Fault (Option Handle) × (Loader × σ) :=
  if company.cancelled w then (.error .cancelled, (w.1.releaseAll g.parameters.values, w.2))
  else
    let w := company.act (.approved attempt) w
    match w.1.storeMap index g.parameters with
    | (.ok m, l) =>
      (.ok (some ⟨index, m, .loaded g.placed g.reused attempt⟩),
        (l.countLoaded g.placed g.reused, w.2))
    | (.error (.alreadyPopulated _), l) => (.ok none, company.act (.refused attempt) (l, w.2))
    | (.error e, l) => (.error e, (l, w.2))

theorem attempts_succ (company : Company σ) (index : Nat) (block : Block) (plan : Plan)
    (remaining before : Nat) (w : Loader × σ) :
    attempts company index block plan (remaining + 1) before w =
      if company.cancelled w then (.error .cancelled, w)
      else
        match consultStore company index block (commitAttempts - remaining)
          (company.act (.attempted (commitAttempts - remaining)) w) with
        | (.error e, w) => (.error e, w)
        | (.ok (some handle), w) => (.ok handle, w)
        | (.ok none, w) =>
          match gather company plan before block.parameters {} w with
          | (.error e, w) => (.error e, w)
          | (.ok g, w) =>
            match commit company index (commitAttempts - remaining) g w with
            | (.error e, w) => (.error e, w)
            | (.ok (some handle), w) => (.ok handle, w)
            | (.ok none, w) => attempts company index block plan remaining (before + block.size) w := by
  rw [attempts]
  split
  · rfl
  · rcases consultStore company index block (commitAttempts - remaining)
      (company.act (.attempted (commitAttempts - remaining)) w) with ⟨e | _ | handle, w₁⟩
    · rfl
    · simp only
      rcases gather company plan before block.parameters {} w₁ with ⟨e | g, w₂⟩
      · rfl
      · simp only [commit]
        split
        · rfl
        · rcases (company.act (.approved (commitAttempts - remaining)) w₂).1.storeMap index
            g.parameters with ⟨e | m, l⟩
          · cases e <;> rfl
          · rfl
    · rfl

/-- A load is a load in company of nobody. -/
theorem loadAmong_alone {l l' : Loader} {index : Nat} {block : Block} {split : Split Binary64}
    {r : Except Fault Handle} (h : l.load index block split = (r, l')) :
    loadAmong .alone index block split (l, ()) = (r, (l', ())) := by
  rw [load] at h
  rcases hload : loadAmong .alone index block split (l, ()) with ⟨r', l'', u⟩
  rw [hload] at h
  cases h
  rfl

end TieredWeights.Loader
