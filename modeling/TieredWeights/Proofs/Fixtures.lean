import TieredWeights.Proofs.Faults
import TieredWeights.Proofs.Kept
import TieredWeights.Proofs.Scene

/-!
# Fixtures of a loader

The tiers of a loader and its own split never change, whatever its users do and in whatever company
it loads: `Run.fixtures`. So a load that plans only onto tiers of the loader is never refused for
want of a tier, at whatever moment of it the other users act.
-/
namespace TieredWeights

/-- A fault for which the tiers or the split are to blame. -/
def Fault.BlamesTiers : Fault → Prop
  | .unknownTier _ | .invalidSplit _ => True
  | _ => False

theorem Fault.IsRefusal.not_blamesTiers {e : Fault} (h : e.IsRefusal) : ¬ e.BlamesTiers := by
  cases e <;> first | exact id | exact fun _ => h

namespace BlockStore

variable {s : BlockStore} {block : Nat} {e : Fault}

theorem held?_fault (h : s.held? block = .error e) : ¬ e.BlamesTiers := by
  unfold held? at h
  split at h <;> cases h
  exact id

theorem load_fault {s' : BlockStore} (h : s.load block = (.error e, s')) : ¬ e.BlamesTiers := by
  unfold load at h
  rcases hheld : s.held? block with e' | _ | m <;> simp only [hheld] at h <;> cases h
  exact held?_fault hheld

theorem store_fault {parameters : Table String PlacementId} {s' : BlockStore}
    (h : s.store block parameters = (.error e, s')) : ¬ e.BlamesTiers := by
  unfold store at h
  rcases hheld : s.held? block with e' | _ | m <;> simp only [hheld] at h <;> cases h
  · exact held?_fault hheld
  · exact id

theorem clearIf_fault {m : MapId} (h : (s.clearIf block m).1 = .error e) : ¬ e.BlamesTiers := by
  unfold clearIf at h
  rcases hheld : s.held? block with e' | m' <;> simp only [hheld] at h
  · cases h
    exact held?_fault hheld
  · split at h <;> cases h

end BlockStore

namespace Depot

variable {tampered : Prop} {tier : Tier} {x y : Depot × Multiset Buffer}

theorem Step.tiers (h : Step tampered tier x y) : y.1.tiers = x.1.tiers := by
  cases h with
  | @allocate d d' own n type b h => exact (congrArg (·.2.tiers) h).symm.trans (d.tiers_allocate _ _ _)
  | @refused d d' own n type e _ h => exact (congrArg (·.2.tiers) h).symm.trans (d.tiers_allocate _ _ _)
  | @fill d d' own b bytes r _ h => exact (congrArg (·.2.tiers) h).symm.trans (d.tiers_copyIn _ _ _)
  | @giveBack d d' own b r h => exact (congrArg (·.2.tiers) h).symm.trans (d.tiers_release _ _)
  | tamper => rfl

end Depot

namespace Cache

variable {purged tampered : Prop} {tier : Tier}

theorem Deed.tiers {x y : Cache × Multiset Buffer} (h : Deed purged tampered tier x y) :
    y.1.depot.tiers = x.1.depot.tiers := by
  cases h with
  | work h => exact h.tiers
  | purge => exact tiers_purge _

/-- Whatever an honest maker does, the tiers stay. -/
theorem tiers_of_honest {make : Maker} (h : make.Honest purged tampered tier) (c : Cache) :
    (make c).2.depot.tiers = c.depot.tiers := by
  have hdeeds : ∀ {x y}, Relation.ReflTransGen (Deed purged tampered tier) x y →
      y.1.depot.tiers = x.1.depot.tiers := by
    intro x y hxy
    induction hxy with
    | refl => rfl
    | tail _ hdeed ih => exact hdeed.tiers.trans ih
  exact hdeeds (h c)

/-- A call with an honest maker keeps the tiers. -/
theorem tiers_call (c : Cache) (key : Key) {make : Maker}
    (h : make.Honest purged tampered tier) : (c.call key make).2.depot.tiers = c.depot.tiers := by
  have hconsult := congrArg Depot.tiers (c.consult_depot key)
  unfold call
  rcases hc : c.consult key with ⟨e | p | ticket, c₁⟩ <;> simp only [hc] at hconsult ⊢
  · exact hconsult
  · exact hconsult
  · have hsettle := (make c₁).2.tiers_settle ticket (make c₁).1
    rw [tiers_of_honest h, hconsult] at hsettle
    rcases hs : (make c₁).2.settle ticket (make c₁).1 with ⟨e | p, c₂⟩ <;>
      simp only [hs] at hsettle ⊢ <;> exact hsettle

theorem tiers_resolve (c : Cache) (t : Tensor) (tier : Tier) :
    (c.resolve t tier).2.depot.tiers = c.depot.tiers := by
  have honest : (Maker.ofTensor t id tier).Honest False False tier :=
    Maker.ofTensor_honest False t tier (.inr rfl)
  rw [resolve_eq_call]
  exact c.tiers_call _ honest

end Cache

namespace Loader

/-- What a loader has for good. -/
def fixtures (l : Loader) : List Tier × Split Binary64 := (l.depot.tiers, l.split)

theorem fixtures_cache (l : Loader) {c : Cache} (h : c.depot.tiers = l.depot.tiers) :
    ({ l with cache := c } : Loader).fixtures = l.fixtures :=
  Prod.ext h rfl

theorem fixtures_releaseAll (l : Loader) (ps : List PlacementId) :
    (l.releaseAll ps).fixtures = l.fixtures :=
  l.fixtures_cache (l.cache.tiers_releaseAll ps)

theorem fixtures_dropMap (l : Loader) (m : MapId) : (l.dropMap m).fixtures = l.fixtures :=
  fixtures_releaseAll { l with store := (l.store.drop m).2 } _

theorem fixtures_clearBlock (l : Loader) (block : Nat) :
    (l.clearBlock block).2.fixtures = l.fixtures :=
  fixtures_releaseAll { l with store := (l.store.clear block).2.2 } _

theorem fixtures_clearBlockIf (l : Loader) (block : Nat) (m : MapId) :
    (l.clearBlockIf block m).2.fixtures = l.fixtures :=
  fixtures_releaseAll { l with store := (l.store.clearIf block m).2.2 } _

theorem fixtures_clearBlocks (l : Loader) : l.clearBlocks.2.fixtures = l.fixtures :=
  fixtures_releaseAll { l with store := l.store.clearAll.2.2 } _

theorem fixtures_storeMap (l : Loader) (block : Nat) (parameters : Table String PlacementId) :
    (l.storeMap block parameters).2.fixtures = l.fixtures := by
  unfold storeMap
  rcases l.store.store block parameters with ⟨e | m, store⟩
  · exact fixtures_releaseAll { l with store } _
  · rfl

theorem storeMap_fault {l l' : Loader} {block : Nat} {parameters : Table String PlacementId}
    {e : Fault} (h : l.storeMap block parameters = (.error e, l')) : ¬ e.BlamesTiers := by
  unfold storeMap at h
  rcases hs : l.store.store block parameters with ⟨e' | m, store⟩ <;> simp only [hs] at h <;> cases h
  exact BlockStore.store_fault hs

/-- Every deed of a load leaves the fixtures. -/
theorem kept_fixtures : Kept fun l l' => l'.fixtures = l.fixtures where
  refl _ := rfl
  trans h h' := h'.trans h
  note _ _ := rfl
  counted _ _ := rfl
  resolved l t tier := l.fixtures_cache (l.cache.tiers_resolve t tier)
  releaseAll := fixtures_releaseAll
  loadMap _ _ := rfl
  storeMap := fixtures_storeMap
  dropMap := fixtures_dropMap
  clearBlockIf := fixtures_clearBlockIf

variable {σ : Type} {company : Company σ} {plan : Plan} {w w' : Loader × σ} {e : Fault}

theorem consultStore_blameless {index attempt : Nat} {block : Block}
    (h : consultStore company index block attempt w = (.error e, w')) : ¬ e.BlamesTiers := by
  unfold consultStore loadMap at h
  rcases hload : w.1.store.load index with ⟨e' | _ | m, store⟩ <;> simp only [hload] at h
  · cases h
    exact BlockStore.load_fault hload
  · cases h
  · split_ifs at h
    · cases h
    · generalize company.act (.consulted attempt) _ = w₁ at h
      rcases hc : w₁.1.clearBlockIf index m with ⟨e' | b, l⟩ <;> simp only [hc] at h <;> cases h
      have hfault : (w₁.1.store.clearIf index m).1 = .error e := congrArg Prod.fst hc
      exact BlockStore.clearIf_fault hfault

theorem commit_blameless {index attempt : Nat} {g : Gathered}
    (h : commit company index attempt g w = (.error e, w')) : ¬ e.BlamesTiers := by
  unfold commit at h
  split_ifs at h with hcancelled
  · cases h
    exact id
  · generalize company.act (.approved attempt) w = w₁ at h
    rcases hs : w₁.1.storeMap index g.parameters with ⟨e' | m, l⟩ <;> simp only [hs] at h
    · have hfault := storeMap_fault hs
      cases e' with
      | alreadyPopulated b => cases h
      | _ =>
        cases h
        exact hfault
    · cases h

section

variable {fixtures : List Tier × Split Binary64}
  (hact : ∀ moment w, (company.act moment w).1.fixtures = w.1.fixtures)
  (hplan : ∀ name tier, plan.tierOf? name = some tier → tier ∈ fixtures.1)

include hact hplan

/-- By induction on what is yet to be resolved. -/
theorem gather_blameless {rest : List (String × Tensor)} {before : Nat} {g : Gathered}
    (hw : w.1.fixtures = fixtures)
    (h : gather company plan before rest g w = (.error e, w')) : ¬ e.BlamesTiers := by
  induction rest generalizing before g w with
  | nil => cases h
  | cons x rest ih =>
    obtain ⟨name, t⟩ := x
    rw [gather] at h
    split_ifs at h with hcancelled
    · cases h
      exact id
    · have hw₁ := (hact (.admitted before) w).trans hw
      generalize company.act (.admitted before) w = w₁ at h hw₁
      cases htier : plan.tierOf? name with
      | none =>
        simp only [htier] at h
        cases h
        exact id
      | some tier =>
        simp only [htier] at h
        have htiers := w₁.1.cache.tiers_resolve t tier
        rcases hr : w₁.1.cache.resolve t tier with ⟨e' | p, c⟩ <;> simp only [hr] at h htiers
        · cases h
          have hmem := hplan name tier htier
          rw [← hw₁] at hmem
          exact ((Cache.resolveAmid_fault hr).2 (fun _ => rfl) hmem).not_blamesTiers
        · refine ih ((hact (.resolved (before + 1)) _).trans ?_) h
          exact (fixtures_cache _ htiers).trans hw₁

/-- By induction on the attempts that remain. -/
theorem attempts_blameless {index remaining before : Nat} {block : Block}
    (hw : w.1.fixtures = fixtures)
    (h : attempts company index block plan remaining before w = (.error e, w')) :
    ¬ e.BlamesTiers := by
  induction remaining generalizing before w with
  | zero =>
    cases h
    exact id
  | succ remaining ih =>
    rw [attempts_succ] at h
    split_ifs at h with hcancelled
    · cases h
      exact id
    · have hw₁ := (hact (.attempted (commitAttempts - remaining)) w).trans hw
      generalize company.act (.attempted (commitAttempts - remaining)) w = w₁ at h hw₁
      rcases hconsult : consultStore company index block (commitAttempts - remaining) w₁ with
        ⟨e' | _ | handle, w₂⟩ <;> simp only [hconsult] at h
      · cases h
        exact consultStore_blameless hconsult
      · have hw₂ := (consultStore_kept kept_fixtures hact hconsult).trans hw₁
        rcases hg : gather company plan before block.parameters {} w₂ with ⟨e' | g, w₃⟩ <;>
          simp only [hg] at h
        · cases h
          exact gather_blameless hact hplan hw₂ hg
        · have hw₃ := (gather_kept kept_fixtures hact hg).trans hw₂
          rcases hc : commit company index (commitAttempts - remaining) g w₃ with
            ⟨e' | _ | handle, w₄⟩ <;> simp only [hc] at h
          · cases h
            exact commit_blameless hc
          · exact ih ((commit_kept kept_fixtures hact hc).trans hw₃) h
          · cases h
      · cases h

end

/-- A load under an accepted split that plans onto tiers of the loader blames no tier. -/
theorem loadAmong_blameless (hact : ∀ moment w, (company.act moment w).1.fixtures = w.1.fixtures)
    {index : Nat} {block : Block} {split : Split Binary64} {brackets : Brackets Binary64}
    (hbrackets : Brackets.ofSplit split = .ok brackets)
    (hplan : ∀ name tier, (brackets.assign block.sizes).tierOf? name = some tier →
      tier ∈ w.1.depot.tiers)
    (h : loadAmong company index block split w = (.error e, w')) : ¬ e.BlamesTiers := by
  unfold loadAmong at h
  simp only [hbrackets] at h
  exact attempts_blameless hact hplan (hact .started _) h

end Loader

namespace Scene

open Loader

variable {permits : Permits} {w w' : Scene}

/-- The company of a load leaves the fixtures if the rivals do. -/
theorem fixtures_company {block : Block} {plan : Plan} {rivals : Moment → Scene → Scene}
    {cancelled : Scene → Bool} (h : ∀ moment w, (rivals moment w).1.fixtures = w.1.fixtures)
    (moment : Moment) (w : Scene) :
    ((company block plan rivals cancelled).act moment w).1.fixtures = w.1.fixtures := by
  rw [← h moment w]
  cases moment <;> rfl

/-- Whatever users bring about, the fixtures stay. By induction on the run, in which the runs of a
load's rivals are met before the load. -/
theorem Run.fixtures (h : Run permits w w') : w'.1.fixtures = w.1.fixtures := by
  induction h with
  | rest => rfl
  | andThen _ _ ih ih' => exact ih'.trans ih
  | load index block split rivals cancelled _ _ h ih =>
    have hload := loadAmong_kept kept_fixtures (fixtures_company ih) h
    exact hload
  | @resolve l u t ht tier tamper htamper r c h =>
    rw [Cache.resolveAmid_eq_call] at h
    refine fixtures_cache _ ?_
    have hcall := l.cache.tiers_call ⟨t.identity, tier⟩
      (Maker.ofTensor_honest False t tier htamper)
    rwa [h] at hcall
  | @resolveWith l u key make hm honest r c h =>
    rw [Cache.resolveWith_eq_call, Prod.mk.injEq, Prod.mk.injEq] at h
    obtain ⟨-, rfl, -⟩ := h
    exact fixtures_cache _ (l.cache.tiers_call key honest)
  | @get l u key r c h =>
    refine fixtures_cache _ ?_
    unfold Cache.get at h
    split at h <;> cases h <;> rfl
  | clone => rfl
  | @drop l u p => exact fixtures_cache _ (l.cache.tiers_release p)
  | take => rfl
  | @loadMap l l' u block r h =>
    unfold Loader.loadMap at h
    cases h
    rfl
  | cloneMap => rfl
  | @dropMap l u m => exact l.fixtures_dropMap m
  | @storeMap l l' u block parameters r h =>
    have hstore := l.fixtures_storeMap block parameters
    rwa [h] at hstore
  | @clearBlock l u block => exact l.fixtures_clearBlock block
  | @clearBlockIf l u block m => exact l.fixtures_clearBlockIf block m
  | @clearBlocks l u => exact l.fixtures_clearBlocks
  | @clearAll l u =>
    refine Eq.trans ?_ l.fixtures_clearBlocks
    exact fixtures_cache _ (Cache.tiers_releaseAll { l.clearBlocks.2.cache with slots := .empty } _)
  | @purge l u => exact fixtures_cache _ l.cache.tiers_purge
  | @invalidate l u h tier => exact fixtures_cache _ (Cache.tiers_releaseAll { l.cache with
      slots := l.cache.slots.filter fun k _ => k.tier ≠ tier } _)
  | @clear l u => exact fixtures_cache _ (Cache.tiers_releaseAll { l.cache with slots := .empty } _)
  | tamper => rfl
  | tick => rfl

end Scene

end TieredWeights
