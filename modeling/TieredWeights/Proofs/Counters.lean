import TieredWeights.Proofs.Audit
import TieredWeights.Proofs.Plan
import TieredWeights.Proofs.Scene.Sound

/-!
# Counters and books

What the meters of a loader count beyond its books never changes, so they agree in every run that starts
from a loader nobody has used. Of the buffers allocated, the books tell those that a handle was
returned for and those of others than loads; the rest belongs to loads under way, to loads that failed
and to commits that were lost. So there is none if all loads have returned a handle at their first
attempt.
-/
namespace TieredWeights

/-- Meters and books at one time. -/
abbrev Page := Meters × Books

namespace Page

/-- What the meters count beyond the books. -/
@[ext]
structure Gap where
  loads : Int
  holderHits : Int
  resolved : Int
  reused : Int
  placed : Int
  calls : Int
  shared : Int

def gap (x : Page) : Gap where
  loads := x.1.reuse.blockLoads - x.2.loads
  holderHits := x.1.reuse.holderHits - x.2.holderHits
  resolved := x.1.reuse.parametersResolved - x.2.resolved
  reused := x.1.reuse.parametersReused - x.2.reused
  placed := x.1.reuse.parametersResolved - x.1.reuse.parametersReused - x.2.placed
  calls := x.1.hits + x.1.misses - x.2.calls
  shared := x.1.hits - x.2.shared

/-- The allocations that the books do not explain. -/
def slack (x : Page) : Int := x.1.allocations - (x.2.placed + x.2.others)

/-- The loads that have not returned a handle. -/
def pending (x : Page) : Int := x.2.loads - x.2.handles.card

/-- From one page to another the books kept pace with the meters. -/
structure Fair (x y : Page) : Prop where
  gap : y.gap = x.gap
  slack : x.slack ≤ y.slack
  lost : x.2.lost ≤ y.2.lost
  pending : x.pending ≤ y.pending
  exact : y.2.lost = x.2.lost → y.pending = x.pending → y.slack = x.slack

variable {x y z : Page}

theorem Fair.refl (x : Page) : Fair x x := ⟨rfl, le_rfl, le_rfl, le_rfl, fun _ _ => rfl⟩

theorem Fair.trans (h : Fair x y) (h' : Fair y z) : Fair x z where
  gap := h'.gap.trans h.gap
  slack := h.slack.trans h'.slack
  lost := h.lost.trans h'.lost
  pending := h.pending.trans h'.pending
  exact hlost hpending := by
    have hlost₁ := h.lost
    have hlost₂ := h'.lost
    have hpending₁ := h.pending
    have hpending₂ := h'.pending
    have hfirst := h.exact (by omega) (by omega)
    have hlast := h'.exact (by omega) (by omega)
    exact hlast.trans hfirst

/-- What a call moves, the books are told. -/
theorem gap_answered {m m' : Meters} {r : Except Fault Resolved} (h : Cache.Answered m r m')
    (b : Books) : gap (m', b.asked.answered r) = gap (m, b) := by
  cases h <;> ext <;> simp only [gap, Books.asked, Books.answered, Books.holderHits, Books.resolved,
    Books.reused, Books.placed, sharedBy] <;> omega

/-- What a load counts as it returns a handle, the books are told. -/
theorem gap_handed (m : Meters) (b : Books) (l : Loader) (handle : Handle) {length : Nat}
    (hlength : (l.parametersOf handle.map).length = length)
    (hall : length = handle.outcome.placed + handle.outcome.reused length) :
    gap ({ m with reuse := { m.reuse with
      holderHits := m.reuse.holderHits + if handle.outcome = .holderHit then 1 else 0
      parametersResolved := m.reuse.parametersResolved + length
      parametersReused := m.reuse.parametersReused + handle.outcome.reused length } },
        b.handed l (.ok handle)) = gap (m, b) := by
  ext <;> simp only [gap, Books.resolved_handed, Books.reused_handed, Books.placed_handed,
    Books.holderHits_handed, Books.calls_handed, Books.shared_handed, Books.loads_handed, hlength] <;>
    omega

theorem Fair.of_eq (hgap : y.gap = x.gap) (hslack : y.slack = x.slack) (hlost : y.2.lost = x.2.lost)
    (hpending : y.pending = x.pending) : Fair x y :=
  ⟨hgap, hslack.ge, hlost.ge, hpending.ge, fun _ _ => hslack⟩

/-- What a call outside of the loads allocates is booked as allocated by others. -/
theorem Fair.called {m m' : Meters} {r : Except Fault Resolved} (h : Cache.Answered m r m') (b : Books) :
    Fair (m, b) (m', (b.asked.answered r).allocated (m'.allocations - m.allocations)) := by
  refine .of_eq (gap_answered h b) ?_ rfl rfl
  cases h <;> simp only [Page.slack, Books.asked, Books.answered, Books.allocated, Books.placed] <;>
    omega

/-- A call that places nothing itself. -/
theorem Fair.called_same {m m' : Meters} {r : Except Fault Resolved} (h : Cache.Answered m r m')
    (hsame : m'.allocations = m.allocations) (b : Books) : Fair (m, b) (m', b.asked.answered r) := by
  have hcalled := Fair.called h b
  rwa [hsame, Nat.sub_self] at hcalled

/-- A call that misses is booked before it is answered. -/
theorem Fair.missed (m : Meters) (b : Books) :
    Fair (m, b) ({ m with misses := m.misses + 1 }, b.asked) := by
  refine .of_eq ?_ rfl rfl rfl
  ext <;> simp only [Page.gap, Books.asked, Books.holderHits, Books.resolved, Books.reused, Books.placed]
  omega

end Page

namespace Audit

/-- The page of a world. -/
def World.page (w : World) : Page := (w.1.meters, w.2.books)

/-- The books kept pace, and so they did whenever others saw them. -/
structure Fair (w w' : World) : Prop where
  fair : Page.Fair w.page w'.page
  seen : ∀ s ∈ w'.2.seen, s ∈ w.2.seen ∨ Page.Fair w.page (s.1.meters, s.2)

/-- During a load begun in `w₀` that has gathered `own` new placements. -/
structure Amid (w₀ : World) (own : Nat) (w : World) : Prop where
  gap : w.page.gap = w₀.page.gap
  slack : w₀.page.slack + own ≤ w.page.slack
  lost : w₀.2.books.lost ≤ w.2.books.lost
  pending : w₀.page.pending + 1 ≤ w.page.pending
  exact : w.2.books.lost = w₀.2.books.lost → w.page.pending = w₀.page.pending + 1 →
    w.page.slack = w₀.page.slack + own
  seen : ∀ s ∈ w.2.seen, s ∈ w₀.2.seen ∨ Page.Fair w₀.page (s.1.meters, s.2)

variable {w₀ w w' w'' : World} {own : Nat}

theorem Fair.refl (w : World) : Fair w w := ⟨.refl _, fun _ h => .inl h⟩

theorem Fair.trans (h : Fair w w') (h' : Fair w' w'') : Fair w w'' := by
  refine ⟨h.fair.trans h'.fair, fun s hs => ?_⟩
  rcases h'.seen s hs with hs | hs
  · exact h.seen s hs
  · exact .inr (h.fair.trans hs)

/-- What others see while the books are fair is fair. -/
theorem Fair.witnessed (h : Fair w w') : Fair w (witnessed w') := by
  refine ⟨h.fair, fun s hs => ?_⟩
  rcases List.mem_cons.1 hs with rfl | hs
  · exact .inr h.fair
  · exact h.seen s hs

/-- A load under way has not returned its handle, so the books cannot be exact yet. -/
theorem Amid.page_fair (h : Amid w₀ own w) : Page.Fair w₀.page w.page where
  gap := h.gap
  slack := by
    have hslack := h.slack
    omega
  lost := h.lost
  pending := by
    have hpending := h.pending
    omega
  exact _ hpending := by
    have hpending' := h.pending
    omega

theorem Amid.fair (h : Amid w₀ own w) : Fair w₀ w := ⟨h.page_fair, h.seen⟩

/-- What others see during a load is fair. -/
theorem Amid.witnessed (h : Amid w₀ own w) : Amid w₀ own (witnessed w) := by
  refine { h with seen := fun s hs => ?_ }
  rcases List.mem_cons.1 hs with rfl | hs
  · exact .inr h.page_fair
  · exact h.seen s hs

/-- Others may go on during a load. -/
theorem Amid.goOn (h : Amid w₀ own w) (h' : Fair w w') : Amid w₀ own w' where
  gap := h'.fair.gap.trans h.gap
  slack := h.slack.trans h'.fair.slack
  lost := h.lost.trans h'.fair.lost
  pending := h.pending.trans h'.fair.pending
  exact hlost hpending := by
    have hlost₁ := h.lost
    have hlost₂ : w.2.books.lost ≤ w'.2.books.lost := h'.fair.lost
    have hpending₁ := h.pending
    have hpending₂ := h'.fair.pending
    have hfirst := h.exact (by omega) (by omega)
    have hlast := h'.fair.exact (show w'.2.books.lost = w.2.books.lost by omega) (by omega)
    exact hlast.trans hfirst
  seen s hs := by
    rcases h'.seen s hs with hs | hs
    · exact h.seen s hs
    · exact .inr (h.page_fair.trans hs)

/-- What moves neither a meter nor the ledger. -/
theorem Amid.same (h : Amid w₀ own w) {l : Loader} (hl : l.meters = w.1.meters) :
    Amid w₀ own (l, w.2) := by
  have hpage : World.page (l, w.2) = w.page := Prod.ext hl rfl
  exact ⟨hpage ▸ h.gap, hpage ▸ h.slack, h.lost, h.pending, fun a b => hpage ▸ h.exact a b, h.seen⟩

/-- A call that a load makes is booked with its answer; what it places is the load's own. -/
theorem Amid.answered (h : Amid w₀ own w) {l : Loader} {p : PlacementId} {placed : Bool}
    (hr : Cache.Answered w.1.meters (.ok ⟨p, placed⟩) l.meters) :
    Amid w₀ (if placed then own + 1 else own)
      (l, w.2.book fun b => b.asked.answered (.ok ⟨p, placed⟩)) := by
  have hgap := Page.gap_answered hr w.2.books
  have hslack := h.slack
  have hexact := h.exact
  generalize hm : l.meters = m at hr hgap
  have hpage : World.page (l, w.2.book fun b => b.asked.answered (.ok ⟨p, placed⟩)) =
      (m, w.2.books.asked.answered (.ok ⟨p, placed⟩)) := Prod.ext hm rfl
  have hslack' : Page.slack (m, w.2.books.asked.answered (.ok ⟨p, placed⟩)) =
      w.page.slack + if placed then 1 else 0 := by
    cases hr with
    | hit => exact (add_zero _).symm
    | placed =>
      simp only [World.page, Page.slack, Books.asked, Books.answered, Books.placed, if_true]
      omega
  refine ⟨?_, ?_, h.lost, h.pending, fun hlost hpending => ?_, h.seen⟩
  · rw [hpage, hgap]
    exact h.gap
  · rw [hpage, hslack']
    split_ifs <;> push_cast <;> omega
  · rw [hpage, hslack', hexact hlost hpending]
    split_ifs <;> push_cast <;> omega

/-- A commit that is lost leaves the load what it has gathered, but for no handle. -/
theorem Amid.refused (h : Amid w₀ own w) (attempt : Nat) :
    Amid w₀ 0 (w.1, w.2.book (.told (.refused attempt))) where
  gap := h.gap
  slack := by
    have hslack := h.slack
    change _ ≤ w.page.slack
    omega
  lost := Nat.le_succ_of_le h.lost
  pending := h.pending
  exact hlost _ := by
    have hle := h.lost
    change w.2.books.lost + 1 = _ at hlost
    omega
  seen := h.seen

/-- A call that fails ends the load; what it has gathered is released. -/
theorem Amid.failed (h : Amid w₀ own w) {l : Loader} {e : Fault}
    (hr : Cache.Answered w.1.meters (.error e) l.meters) :
    Fair w₀ (l, w.2.book fun b => b.asked.answered (.error e)) := by
  have hgap := Page.gap_answered hr w.2.books
  have hslack := h.slack
  have hpending := h.pending
  generalize hm : l.meters = m at hr hgap
  have hpage : World.page (l, w.2.book fun b => b.asked.answered (.error e)) =
      (m, w.2.books.asked.answered (.error e)) := Prod.ext hm rfl
  have hslack' : w.page.slack ≤ Page.slack (m, w.2.books.asked.answered (.error e)) := by
    cases hr with
    | failed _ hle =>
      simp only [World.page, Page.slack, Books.asked, Books.answered, Books.placed]
      omega
  have hpending' : Page.pending (m, w.2.books.asked.answered (.error e)) = w.page.pending := rfl
  refine ⟨?_, h.seen⟩
  rw [hpage]
  refine ⟨hgap.trans h.gap, by omega, h.lost, by omega, fun _ hexact => ?_⟩
  omega

/-- What moves neither a meter nor the ledger. -/
theorem Fair.same (h : Fair w w') {l : Loader} (hl : l.meters = w'.1.meters) : Fair w (l, w'.2) := by
  have hpage : World.page (l, w'.2) = w'.page := Prod.ext hl rfl
  exact ⟨hpage ▸ h.fair, h.seen⟩

/-- A handle is returned for a load that was under way. -/
theorem Amid.returned (h : Amid w₀ own w) {l : Loader} {handle : Handle}
    (hgap : Page.gap (l.meters, w.2.books.handed l (.ok handle)) = w.page.gap)
    (hallocations : l.meters.allocations = w.1.meters.allocations)
    (hplaced : handle.outcome.placed = own) : Fair w₀ (handed (l, w.2) (.ok handle)) := by
  have hslack₀ := h.slack
  have hpending₀ := h.pending
  have hslack : Page.slack (l.meters, w.2.books.handed l (.ok handle)) = w.page.slack - own := by
    have hothers : (w.2.books.handed l (.ok handle)).others = w.2.books.others := rfl
    simp only [World.page, Page.slack, Books.placed_handed, hothers, hallocations, hplaced]
    omega
  have hpending : Page.pending (l.meters, w.2.books.handed l (.ok handle)) = w.page.pending - 1 := by
    simp only [World.page, Books.handed, Page.pending, Multiset.card_cons]
    omega
  have hpage : World.page (handed (l, w.2) (.ok handle)) =
      (l.meters, w.2.books.handed l (.ok handle)) := rfl
  refine ⟨?_, h.seen⟩
  rw [hpage]
  refine ⟨hgap.trans h.gap, by omega, h.lost, by omega, fun hlost hexact => ?_⟩
  have hexact₀ := h.exact hlost (by omega)
  omega

/-- A load served by the block store reuses all parameters of its handle. -/
theorem Amid.hit (h : Amid w₀ 0 w) {l : Loader} (hl : l.meters = w.1.meters) (index : Nat) (m : MapId) :
    Fair w₀ (handed (l.countHit (l.parametersOf m).length, w.2) (.ok ⟨index, m, .holderHit⟩)) := by
  refine h.returned ?_ ?_ rfl
  · rw [World.page, ← hl]
    exact Page.gap_handed l.meters w.2.books _ _ rfl (Nat.zero_add _).symm
  · rw [← hl]
    rfl

/-- A load that is committed returns a handle for what it has gathered. -/
theorem Amid.committed {placed reused attempt index : Nat} (h : Amid w₀ placed w) {l : Loader}
    (hl : l.meters = w.1.meters) (m : MapId) (hlength : (l.parametersOf m).length = placed + reused) :
    Fair w₀ (handed (l.countLoaded placed reused, w.2)
      (.ok ⟨index, m, .loaded placed reused attempt⟩)) := by
  refine h.returned ?_ ?_ rfl
  · rw [World.page, ← hl]
    exact Page.gap_handed l.meters w.2.books _ ⟨index, m, .loaded placed reused attempt⟩ hlength rfl
  · rw [← hl]
    rfl

theorem Amid.begun {split : Split Binary64} (h : split.validate = .ok ()) (w : World) :
    Amid w 0 ({ w.1 with reuse := { w.1.reuse with blockLoads := w.1.reuse.blockLoads + 1 } },
      w.2.book (.begun split)) := by
  have hbooks : w.2.book (.begun split) =
      w.2.book fun b => { b with loads := b.loads + 1 } := by
    simp only [Ledger.book, Books.begun, h]
  rw [hbooks]
  refine ⟨?_, (add_zero _).le, le_rfl, ?_, fun _ _ => (add_zero _).symm, fun _ => .inl⟩
  · exact Page.Gap.ext (add_sub_add_right_eq_sub (w.1.reuse.blockLoads : Int) w.2.books.loads 1)
      rfl rfl rfl rfl rfl rfl
  · show _ ≤ ((w.2.books.loads + 1 : Nat) : Int) - w.2.books.handles.card
    simp only [World.page, Page.pending]
    omega

section

variable {block : Block} {plan : Plan} {rivals : Moment → World → World} {cancelled : World → Bool}
  (hrivals : ∀ moment w, Fair w (rivals moment w))

include hrivals

/-- The others at a moment of a load. -/
theorem Amid.met (h : Amid w₀ own w) (moment : Moment) :
    Amid w₀ own (rivals moment (Audit.witnessed w)) :=
  h.witnessed.goOn (hrivals moment _)

/-- What a load gathers of its own is what its handle will tell. By induction on what is yet to be
gathered. -/
theorem gather_amid {rest : List (String × Tensor)} {before : Nat} {g : Gathered}
    {r : Except Fault Gathered} (hrest : Scene.Pending block before rest g)
    (hsize : g.parameters.size = g.placed + g.reused) (hw : Amid w₀ g.placed w)
    (h : Loader.gather (company block plan rivals cancelled) plan before rest g w = (r, w')) :
    (∃ e, r = .error e ∧ Fair w₀ w') ∨ ∃ g', r = .ok g' ∧
      g'.parameters.size = g'.placed + g'.reused ∧ Amid w₀ g'.placed w' := by
  induction rest generalizing before g w with
  | nil =>
    cases h
    exact .inr ⟨g, rfl, hsize, hw⟩
  | cons x rest ih =>
    obtain ⟨name, t⟩ := x
    rw [Loader.gather] at h
    split_ifs at h with hcancelled
    · cases h
      exact .inl ⟨_, rfl, hw.fair.same (Loader.meters_releaseAll _ _)⟩
    · have hx : block.parameters[before % block.size]? = some (name, t) := hrest.numbered 0 _ rfl
      have hmet := hw.met hrivals (.admitted before)
      rw [company_admitted] at h
      generalize rivals (.admitted before) (Audit.witnessed w) = w₁ at h hmet
      rw [Scene.callAt_eq hx] at h
      cases htier : plan.tierOf? name with
      | none =>
        simp only [htier, Option.map_none, Option.elim_none] at h
        cases h
        exact .inl ⟨_, rfl, hmet.fair.same (Loader.meters_releaseAll _ _)⟩
      | some tier =>
        have hanswer : (Call.make w₁.1.cache ⟨t.identity, tier⟩ (.ofTensor t id tier)).answer =
            (w₁.1.cache.resolve t tier).1 := rfl
        simp only [htier, Option.map_some, Option.elim_some, hanswer] at h
        have hid : ∀ d : Depot, (id d).allocations = d.allocations := fun _ => rfl
        have hanswered := w₁.1.cache.meters_resolveAmid w₁.1.reuse hid t tier
        change Cache.Answered w₁.1.meters (w₁.1.cache.resolve t tier).1
          ({ w₁.1 with cache := (w₁.1.cache.resolve t tier).2 } : Loader).meters at hanswered
        rcases hr : w₁.1.cache.resolve t tier with ⟨e | ⟨p, placed⟩, c⟩ <;>
          simp only [hr] at h hanswered
        · cases h
          exact .inl ⟨e, rfl, (hmet.failed hanswered).same (Loader.meters_releaseAll _ _)⟩
        · have hnext := (hmet.answered hanswered).met hrivals (.resolved (before + 1))
          have hnew : g.parameters.find? name = none := hrest.new (name, t) List.mem_cons_self
          exact ih (hrest.next ⟨p, placed⟩) (Loader.Gathered.size_add hnew hsize ⟨p, placed⟩) hnext h

theorem consultStore_amid {index attempt : Nat} {r : Except Fault (Option Handle)}
    (hw : Amid w₀ 0 w)
    (h : Loader.consultStore (company block plan rivals cancelled) index block attempt w = (r, w')) :
    (∃ e, r = .error e ∧ Fair w₀ w') ∨ (r = .ok none ∧ Amid w₀ 0 w') ∨
      ∃ handle, r = .ok (some handle) ∧ Fair w₀ (handed w' (.ok handle)) := by
  unfold Loader.consultStore at h
  have hload : (w.1.loadMap index).2.meters = w.1.meters := rfl
  rcases hl : w.1.loadMap index with ⟨e | _ | m, l⟩ <;> simp only [hl] at h hload
  · cases h
    exact .inl ⟨e, rfl, hw.fair.same hload⟩
  · cases h
    exact .inr (.inl ⟨rfl, (hw.same hload).met hrivals (.consulted attempt)⟩)
  · split_ifs at h with hmatch
    · cases h
      have hlength : (l.parametersOf m).length = ((l.store.map? m).getD .empty).size := by
        unfold Loader.parametersOf
        cases l.store.map? m <;> rfl
      rw [← hlength]
      exact .inr (.inr ⟨_, rfl, hw.hit hload index m⟩)
    · have hmet := (hw.same (l := l.note (.mismatch index block.names
        ((l.store.map? m).getD .empty).keys)) hload).met hrivals (.consulted attempt)
      have hact : ∀ w, (company block plan rivals cancelled).act (.consulted attempt) w =
          rivals (.consulted attempt) (Audit.witnessed w) := fun _ => rfl
      rw [hact] at h
      generalize rivals (.consulted attempt) _ = w₁ at h hmet
      have hclear := w₁.1.meters_clearBlockIf index m
      rcases hc : w₁.1.clearBlockIf index m with ⟨e | b, l'⟩ <;> simp only [hc] at h hclear <;> cases h
      · exact .inl ⟨e, rfl, hmet.fair.same ((l'.meters_dropMap m).trans hclear)⟩
      · exact .inr (.inl ⟨rfl, (hmet.same ((l'.meters_dropMap m).trans hclear)).met hrivals
          (.dismissed attempt)⟩)

theorem commit_amid {index attempt : Nat} {g : Gathered} {r : Except Fault (Option Handle)}
    (hsize : g.parameters.size = g.placed + g.reused) (hw : Amid w₀ g.placed w)
    (h : Loader.commit (company block plan rivals cancelled) index attempt g w = (r, w')) :
    (∃ e, r = .error e ∧ Fair w₀ w') ∨ (r = .ok none ∧ Amid w₀ 0 w') ∨
      ∃ handle, r = .ok (some handle) ∧ Fair w₀ (handed w' (.ok handle)) := by
  unfold Loader.commit at h
  split_ifs at h with hcancelled
  · cases h
    exact .inl ⟨_, rfl, hw.fair.same (Loader.meters_releaseAll _ _)⟩
  · have hmet := hw.met hrivals (.approved attempt)
    have hact : (company block plan rivals cancelled).act (.approved attempt) w =
        rivals (.approved attempt) (Audit.witnessed w) := rfl
    rw [hact] at h
    generalize rivals (.approved attempt) _ = w₁ at h hmet
    have hstore := w₁.1.meters_storeMap index g.parameters
    rcases hs : w₁.1.storeMap index g.parameters with ⟨e | m, l⟩ <;> simp only [hs] at h hstore
    · have hlost := ((hmet.same hstore).refused attempt).met hrivals (.refused attempt)
      cases e with
      | alreadyPopulated b =>
        cases h
        exact .inr (.inl ⟨rfl, hlost⟩)
      | _ =>
        cases h
        exact .inl ⟨_, rfl, hmet.fair.same hstore⟩
    · cases h
      refine .inr (.inr ⟨_, rfl, hmet.committed hstore m ?_⟩)
      rw [Loader.parametersOf_storeMap hs]
      exact hsize

/-- By induction on the attempts that remain. -/
theorem attempts_amid {index remaining before : Nat} {r : Except Fault Handle}
    (hbefore : block.size ∣ before) (hw : Amid w₀ 0 w)
    (h : Loader.attempts (company block plan rivals cancelled) index block plan remaining before w =
      (r, w')) : Fair w₀ (handed w' r) := by
  induction remaining generalizing before w with
  | zero =>
    cases h
    exact hw.fair.same rfl
  | succ remaining ih =>
    rw [Loader.attempts_succ] at h
    split_ifs at h with hcancelled
    · cases h
      exact hw.fair
    · have hmet := hw.met hrivals (.attempted (Loader.commitAttempts - remaining))
      have hact : (company block plan rivals cancelled).act
          (.attempted (Loader.commitAttempts - remaining)) w =
            rivals (.attempted (Loader.commitAttempts - remaining)) (Audit.witnessed w) := rfl
      rw [hact] at h
      generalize rivals (.attempted (Loader.commitAttempts - remaining)) _ = w₁ at h hmet
      rcases hconsult : Loader.consultStore (company block plan rivals cancelled) index block
        (Loader.commitAttempts - remaining) w₁ with ⟨r₁, w₂⟩
      rcases consultStore_amid hrivals hmet hconsult with
        ⟨e, rfl, hfair⟩ | ⟨rfl, hw₂⟩ | ⟨handle, rfl, hfair⟩ <;> simp only [hconsult] at h
      · cases h
        exact hfair
      · rcases hg : Loader.gather (company block plan rivals cancelled) plan before block.parameters {}
          w₂ with ⟨r₂, w₃⟩
        rcases gather_amid hrivals (.start hbefore) rfl hw₂ hg with
          ⟨e, rfl, hfair⟩ | ⟨g, rfl, hsize, hw₃⟩ <;> simp only [hg] at h
        · cases h
          exact hfair
        · rcases hc : Loader.commit (company block plan rivals cancelled) index
            (Loader.commitAttempts - remaining) g w₃ with ⟨r₃, w₄⟩
          rcases commit_amid hrivals hsize hw₃ hc with
            ⟨e, rfl, hfair⟩ | ⟨rfl, hw₄⟩ | ⟨handle, rfl, hfair⟩ <;> simp only [hc] at h
          · cases h
            exact hfair
          · exact ih ((Nat.dvd_add_right hbefore).2 (Nat.dvd_refl _)) hw₄ h
          · cases h
            exact hfair
      · cases h
        exact hfair

/-- A load is booked as it begins, if its split is valid. -/
theorem loadAmong_fair {index : Nat} {split : Split Binary64} {r : Except Fault Handle}
    (h : Loader.loadAmong (company block (Scene.planOf block split) rivals cancelled) index block split
      (w.1, w.2.book (.begun split)) = (r, w')) : Fair w (handed w' r) := by
  unfold Loader.loadAmong Scene.planOf at h
  cases hsplit : Brackets.ofSplit split with
  | error e =>
    have hbooks : w.2.book (.begun split) = w.2 := by
      have hvalid : split.validate = .error (.ofShares split e) := Split.validate_of_ofSplit hsplit
      simp only [Ledger.book, Books.begun, hvalid]
    simp only [hsplit, hbooks] at h
    cases h
    exact .refl w
  | ok brackets =>
    have hvalid : split.validate = .ok () := Split.validate_of_ofSplit hsplit
    simp only [hsplit] at h
    exact attempts_amid hrivals (Nat.dvd_zero _) ((Amid.begun hvalid w).met hrivals .started) h

end

/-- Whoever places bytes into an open slot goes on as the others do. -/
theorem resolving_fair (key : Key) {place : World → Except Fault Buffer × World}
    (hplace : ∀ w, Fair w (place w).2) (w : World) : Fair w (resolving key place w).2 := by
  have hasked := w.1.cache.meters_consult w.1.reuse key
  unfold resolving Cache.resolveWith
  rcases hconsult : w.1.cache.consult key with ⟨e | p | ticket, c⟩ <;> rw [hconsult] at hasked <;>
    dsimp only at hasked ⊢ <;> generalize hm : c.meters w.1.reuse = m at hasked <;> cases hasked
  · refine ⟨?_, fun _ => .inl⟩
    show Page.Fair w.page (c.meters w.1.reuse, w.2.books.asked.answered (.error e))
    rw [hm]
    exact .called_same (.failed e le_rfl) rfl w.2.books
  · refine ⟨?_, fun _ => .inl⟩
    show Page.Fair w.page (c.meters w.1.reuse, w.2.books.asked.answered (.ok ⟨p, false⟩))
    rw [hm]
    exact .called_same (.hit p) rfl w.2.books
  · have hopen : Fair w ({ w.1 with cache := c }, w.2.book .asked) := by
      refine ⟨?_, fun _ => .inl⟩
      show Page.Fair w.page (c.meters w.1.reuse, w.2.books.asked)
      rw [hm]
      exact .missed w.1.meters w.2.books
    have hplaced := hopen.witnessed.trans (hplace _)
    rcases hp : place (witnessed ({ w.1 with cache := c }, w.2.book .asked)) with ⟨brought, w₁⟩
    rw [hp] at hplaced
    have hsettle := w₁.1.cache.meters_settle w₁.1.reuse ticket brought
    rcases hs : w₁.1.cache.settle ticket brought with ⟨e | p, c₁⟩ <;> rw [hs] at hsettle <;>
      exact hplaced.same hsettle

theorem Run.fair {w w' : World} (h : Run w w') : Fair w w' := by
  induction h with
  | rest w => exact .refl w
  | andThen _ _ ih ih' => exact ih.trans ih'
  | load index block split rivals cancelled _ h ih => exact loadAmong_fair ih h
  | resolveWith key place _ ih => exact resolving_fair key ih _
  | @resolve l ledger t tier tamper r c h =>
    have hsame : ∀ d : Depot, ({ d with files := tamper d.files } : Depot).allocations =
        d.allocations := fun _ => rfl
    have hanswered := l.cache.meters_resolveAmid l.reuse hsame t tier
    rw [h] at hanswered
    exact ⟨.called hanswered ledger.books, fun _ => .inl⟩
  | @allocate l ledger tier n type r d h =>
    have hcount := Depot.allocations_allocate h
    refine ⟨.of_eq rfl ?_ rfl rfl, fun _ => .inl⟩
    show (d.allocations : Int) - (ledger.books.placed + (ledger.books.others + _ : Nat)) =
      l.depot.allocations - (ledger.books.placed + ledger.books.others)
    rw [hcount]
    push_cast
    omega
  | deed h => exact Fair.same (.refl _) h.meters

end Audit

/-- The counters of a loader tell what its books tell, where `initial` buffers had been allocated
before the loader was made. -/
structure Truthful (initial : Nat) (l : Loader) (b : Books) : Prop where
  loads : l.reuse.blockLoads = b.loads
  holderHits : l.reuse.holderHits = b.holderHits
  resolved : l.reuse.parametersResolved = b.resolved
  reused : l.reuse.parametersReused = b.reused
  le : l.reuse.parametersReused ≤ l.reuse.parametersResolved
  placed : l.reuse.parametersResolved - l.reuse.parametersReused = b.placed
  allocations : initial + b.placed ≤ l.depot.allocations
  exact : b.lost = 0 → b.handles.card = b.loads → b.others = 0 →
    l.depot.allocations = initial + b.placed
  calls : l.cache.hits + l.cache.misses = b.calls
  hits : l.cache.hits = b.shared
  misses : l.cache.misses = b.calls - b.shared

/-- Books that kept pace from the beginning are told by the counters. -/
theorem Page.Fair.truthful {initial : Nat} {l : Loader} {b : Books}
    (h : Page.Fair (⟨{}, 0, 0, initial⟩, {}) (l.meters, b)) : Truthful initial l b := by
  have hloads : (l.reuse.blockLoads : Int) - b.loads = 0 := congrArg Page.Gap.loads h.gap
  have hholder : (l.reuse.holderHits : Int) - b.holderHits = 0 := congrArg Page.Gap.holderHits h.gap
  have hresolved : (l.reuse.parametersResolved : Int) - b.resolved = 0 :=
    congrArg Page.Gap.resolved h.gap
  have hreused : (l.reuse.parametersReused : Int) - b.reused = 0 := congrArg Page.Gap.reused h.gap
  have hplaced : (l.reuse.parametersResolved : Int) - l.reuse.parametersReused - b.placed = 0 :=
    congrArg Page.Gap.placed h.gap
  have hcalls : (l.cache.hits : Int) + l.cache.misses - b.calls = 0 := congrArg Page.Gap.calls h.gap
  have hhits : (l.cache.hits : Int) - b.shared = 0 := congrArg Page.Gap.shared h.gap
  have hslack : (initial : Int) - (0 + 0) ≤ l.depot.allocations - (b.placed + b.others) := h.slack
  constructor
  case exact =>
    intro hlost hall hothers
    have hpending : (b.loads : Int) - b.handles.card = 0 := by omega
    have hexact : (l.depot.allocations : Int) - (b.placed + b.others) = initial - (0 + 0) :=
      h.exact hlost hpending
    omega
  all_goals omega

/-- In every state that users of a new loader bring about, and whenever they look in between, its
counters tell the past. -/
theorem counters_tell_the_past {d : Depot} {blocks : Nat} {split : Split Binary64} {w : Audit.World}
    (h : Audit.Run (.ofDepot d blocks split, {}) w) :
    Truthful d.allocations w.1 w.2.books ∧ ∀ s ∈ w.2.seen, Truthful d.allocations s.1 s.2 := by
  refine ⟨h.fair.fair.truthful, fun s hs => ?_⟩
  rcases h.fair.seen s hs with hs | hfair
  · cases hs
  · exact hfair.truthful

namespace Audit

/-- A block loaded for one slot after another. Nobody disturbs these loads. -/
def loaded (block : Block) (split : Split Binary64) : List Nat → World → World
  | [], w => w
  | index :: rest, w =>
    let (r, w) := Loader.loadAmong
      (company block (Scene.planOf block split) (fun _ w => w) fun _ => false) index block split
      (w.1, w.2.book (.begun split))
    loaded block split rest (handed w r)

theorem Run.loaded (block : Block) (split : Split Binary64) (slots : List Nat) (w : World) :
    Run w (loaded block split slots w) := by
  induction slots generalizing w with
  | nil => exact .rest w
  | cons index rest ih =>
    exact .andThen (.load index block split (fun _ w => w) (fun _ => false) (fun _ w => .rest w) rfl)
      (ih _)

def freshSample : World := (.ofDepot Scene.sampleDepot 2 Scene.sampleSplit, {})

/-- The block loaded for two slots, and in vain for one that is not there. -/
def loadedSample : World := loaded Scene.sampleBlock Scene.sampleSplit [0, 1, 2] freshSample

end Audit

theorem counters_tell_three_loads : Audit.Run Audit.freshSample Audit.loadedSample ∧
    Audit.loadedSample.1.reuse = ⟨3, 0, 4, 3⟩ ∧ Audit.loadedSample.2.books.handles.card = 2 ∧
      Truthful Scene.sampleDepot.allocations Audit.loadedSample.1 Audit.loadedSample.2.books := by
  have hrun : Audit.Run Audit.freshSample Audit.loadedSample := .loaded _ _ _ _
  have hreuse : Audit.loadedSample.1.reuse = ⟨3, 0, 4, 3⟩ := by decide +kernel
  have hhandles : Audit.loadedSample.2.books.handles.card = 2 := by decide +kernel
  exact ⟨hrun, hreuse, hhandles, (counters_tell_the_past hrun).1⟩

end TieredWeights
