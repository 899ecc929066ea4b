import TieredWeights.Proofs.Scene.Paths

/-!
# Runs are paths

A load is a path too, whatever its rivals do meanwhile: the references that it has gathered and the
map that it was given count among those held besides, until they are released or handed on. By
induction on a run, every run is a path of the cache, which leaves the store sound.
-/
namespace TieredWeights.Scene

open Loader

variable {permits : Permits} {block : Block} {plan : Plan} {rivals : Moment → Scene → Scene}
  {cancelled : Scene → Bool}

/-- The references that a load has gathered. -/
def gathered : Except Fault Gathered → Multiset PlacementId
  | .ok g => g.parameters.values
  | .error _ => 0

theorem called_and (u : Users) (call : Call) (entries : Multiset PlacementId)
    (maps : Multiset MapId) : (u.and entries maps).called call =
      (u.record (some call)).and (Cache.given call.answer + entries) maps := by
  simp [Users.called, Users.and, Users.record, add_assoc]

/-- References that are gathered in vain are released. -/
theorem sim_releaseAll (l : Loader) (u : Users) (ps : List PlacementId)
    (entries : Multiset PlacementId) (maps : Multiset MapId) :
    Sim permits (l, u.and (↑ps + entries) maps) (l.releaseAll ps, u.and (0 + entries) maps) := by
  refine .ofGivenUp rfl rfl ?_
  simp only [Users.and, zero_add, add_assoc]

/-- A call of a load is recorded, and what it gives is held besides. -/
theorem sim_record (l : Loader) (u : Users) {key : Key} {make : Maker} (h : permits.Allows key make)
    {r : Except Fault Resolved} {c : Cache} (hr : l.cache.call key make = (r, c))
    (entries : Multiset PlacementId) (maps : Multiset MapId) :
    Sim permits (l, u.and entries maps) ({ l with cache := c },
      (u.record (some (Call.make l.cache key make))).and (Cache.given r + entries) maps) := by
  have hcall := Sim.call l (u.and entries maps) h
  have hanswer : (Call.make l.cache key make).answer = r := by rw [Call.make, hr]
  rwa [called_and, hanswer, hr] at hcall

theorem callAt_eq {n : Nat} {name : String} {t : Tensor}
    (h : block.parameters[n % block.size]? = some (name, t)) (c : Cache) :
    callAt block plan n c =
      (plan.tierOf? name).map fun tier => Call.make c ⟨t.identity, tier⟩ (.ofTensor t id tier) := by
  rw [callAt, h, Option.bind_some]

/-- What a load has yet to gather: the parameters of the block from a number on, under names not met
before, so that no reference gathered is replaced. -/
structure Pending (block : Block) (before : Nat) (rest : List (String × Tensor)) (g : Gathered) :
    Prop where
  numbered : ∀ j x, rest[j]? = some x → block.parameters[(before + j) % block.size]? = some x
  apart : (rest.map (·.1)).Nodup
  new : ∀ x ∈ rest, g.parameters.find? x.1 = none

/-- A load has yet to gather everything, as often as it starts over. -/
theorem Pending.start {before : Nat} (h : block.size ∣ before) :
    Pending block before block.parameters {} := by
  refine ⟨fun j x hj => ?_, block.distinct, fun _ _ => rfl⟩
  obtain ⟨k, rfl⟩ := h
  have hlt : j < block.size := (List.getElem?_eq_some_iff.1 hj).1
  rw [Nat.mul_add_mod, Nat.mod_eq_of_lt hlt, hj]

theorem Pending.next {before : Nat} {x : String × Tensor} {rest : List (String × Tensor)}
    {g : Gathered} (h : Pending block before (x :: rest) g) (p : Resolved) :
    Pending block (before + 1) rest (g.add x.1 p) := by
  obtain ⟨hname, hapart⟩ := List.nodup_cons.1 h.apart
  refine ⟨fun j y hj => ?_, hapart, ?_⟩
  · rw [Nat.add_right_comm]
    exact h.numbered (j + 1) y hj
  · exact Gathered.new_add hname (fun y hy => h.new y (List.mem_cons_of_mem _ hy)) p

/-- The references that a load gathers are held besides until they are released or handed on. By
induction on what is yet to be gathered. -/
theorem gather_sim (hblock : ∀ x ∈ block.parameters, permits.tensors x.2)
    (hrivals : ∀ moment w, Refines permits w (rivals moment w))
    {rest : List (String × Tensor)} {before : Nat} {g : Gathered} {w w' : Scene}
    {r : Except Fault Gathered} (hrest : Pending block before rest g)
    (h : gather (company block plan rivals cancelled) plan before rest g w = (r, w'))
    (entries : Multiset PlacementId) (maps : Multiset MapId) :
    Sim permits (w.1, w.2.and (↑g.parameters.values + entries) maps)
      (w'.1, w'.2.and (gathered r + entries) maps) := by
  induction rest generalizing before g w with
  | nil =>
    cases h
    exact .refl _
  | cons x rest ih =>
    obtain ⟨name, t⟩ := x
    rw [gather] at h
    split_ifs at h with hcancelled
    · cases h
      exact sim_releaseAll _ _ _ _ _
    · have hx : block.parameters[before % block.size]? = some (name, t) := hrest.numbered 0 _ rfl
      refine (hrivals (.admitted before) w (↑g.parameters.values + entries) maps).trans ?_
      have hact : (company block plan rivals cancelled).act (.admitted before) w =
          ((rivals (.admitted before) w).1, (rivals (.admitted before) w).2.record
            (callAt block plan before (rivals (.admitted before) w).1.cache)) := rfl
      rw [hact, callAt_eq hx] at h
      revert h
      generalize rivals (.admitted before) w = w₁
      intro h
      cases htier : plan.tierOf? name with
      | none =>
        simp only [htier, Option.map_none] at h
        cases h
        exact sim_releaseAll _ _ _ _ _
      | some tier =>
        simp only [htier, Option.map_some, Cache.resolve_eq_call] at h
        have hallows : permits.Allows ⟨t.identity, tier⟩ (.ofTensor t id tier) :=
          .inr ⟨t, id, hblock _ (List.mem_of_getElem? hx), rfl, .inr rfl, rfl⟩
        rcases hr : w₁.1.cache.call ⟨t.identity, tier⟩ (.ofTensor t id tier) with ⟨e | p, c⟩ <;>
          simp only [hr] at h <;>
          refine (sim_record w₁.1 w₁.2 hallows hr (↑g.parameters.values + entries) maps).trans ?_
        · cases h
          rw [Cache.given, zero_add]
          exact sim_releaseAll _ _ _ _ _
        · refine (hrivals (.resolved (before + 1)) ({ w₁.1 with cache := c }, _) _ maps).trans ?_
          have hnew : g.parameters.find? name = none := hrest.new (name, t) List.mem_cons_self
          rw [Cache.given, Multiset.singleton_add, ← Multiset.cons_add, ← Gathered.values_add hnew]
          exact ih (hrest.next p) h

theorem and_and (u : Users) (entries entries' : Multiset PlacementId)
    (maps maps' : Multiset MapId) :
    (u.and entries maps).and entries' maps' = u.and (entries' + entries) (maps' + maps) := by
  simp [Users.and, add_assoc]

/-- The map that the store handed out. -/
def consulted : Except Fault (Option Handle) → Multiset MapId
  | .ok (some handle) => {handle.map}
  | .ok none => 0
  | .error _ => 0

theorem failed_sim (w : Scene) (e : Fault) (entries : Multiset PlacementId)
    (maps : Multiset MapId) : Sim permits (w.1, w.2.and entries maps)
      (w.1, w.2.and entries (handed (.error e) + maps)) := by
  rw [handed, zero_add]
  exact .refl _

/-- A map that is dismissed is held until it is dropped. -/
theorem consultStore_sim (hrivals : ∀ moment w, Refines permits w (rivals moment w))
    {index attempt : Nat} {w w' : Scene} {r : Except Fault (Option Handle)}
    (h : consultStore (company block plan rivals cancelled) index block attempt w = (r, w'))
    (entries : Multiset PlacementId) (maps : Multiset MapId) :
    Sim permits (w.1, w.2.and entries maps) (w'.1, w'.2.and entries (consulted r + maps)) := by
  have hfirst : Sim permits _ _ := .loadMap w.1 (w.2.and entries maps) index
  rw [and_and, zero_add] at hfirst
  unfold consultStore at h
  rcases hload : w.1.loadMap index with ⟨e | _ | m, l⟩ <;> simp only [hload] at h hfirst
  · cases h
    exact hfirst
  · cases h
    exact hfirst.trans (hrivals (.consulted attempt) (l, w.2) entries _)
  · split_ifs at h
    · cases h
      exact hfirst
    · have hact : ∀ w, (company block plan rivals cancelled).act (.consulted attempt) w =
          rivals (.consulted attempt) w := fun _ => rfl
      rw [hact] at h
      refine hfirst.trans (.trans (.note (.mismatch index block.names
        ((l.store.map? m).getD .empty).keys)) (.trans
          (hrivals (.consulted attempt) (l.note _, w.2) entries ({m} + maps)) ?_))
      revert h
      generalize rivals (.consulted attempt) (l.note _, w.2) = w₁
      intro h
      have hdismiss : Sim permits _ _ := .clearBlockIf w₁.1 (w₁.2.and entries ({m} + maps)) index m
      have hdrop : ∀ l, Sim permits _ _ := fun l => .dropMap l (w₁.2.and entries maps) m
      simp only [and_and, zero_add] at hdrop
      rcases hclear : w₁.1.clearBlockIf index m with ⟨e | b, l₂⟩ <;>
        simp only [hclear] at h hdismiss
      · cases h
        rw [consulted, zero_add]
        exact hdismiss.trans (hdrop l₂)
      · cases h
        rw [consulted, zero_add]
        exact (hdismiss.trans (hdrop l₂)).trans
          (hrivals (.dismissed attempt) (l₂.dropMap m, w₁.2) entries maps)

/-- References that were gathered are released, or handed on with the map that they are stored as. -/
theorem commit_sim (hrivals : ∀ moment w, Refines permits w (rivals moment w))
    {index attempt : Nat} {g : Gathered} {w w' : Scene} {r : Except Fault (Option Handle)}
    (h : commit (company block plan rivals cancelled) index attempt g w = (r, w'))
    (entries : Multiset PlacementId) (maps : Multiset MapId) :
    Sim permits (w.1, w.2.and (↑g.parameters.values + entries) maps)
      (w'.1, w'.2.and entries (consulted r + maps)) := by
  unfold commit at h
  split_ifs at h with hcancelled
  · cases h
    have hrelease : Sim permits _ _ := sim_releaseAll w.1 w.2 g.parameters.values entries maps
    rw [zero_add] at hrelease
    rwa [consulted, zero_add]
  · have hact : (company block plan rivals cancelled).act (.approved attempt) w =
        rivals (.approved attempt) w := rfl
    rw [hact] at h
    refine (hrivals (.approved attempt) w _ maps).trans ?_
    revert h
    generalize rivals (.approved attempt) w = w₁
    intro h
    have hstore : Sim permits _ _ := .storeMap w₁.1 (w₁.2.and entries maps) index g.parameters
    simp only [and_and, zero_add] at hstore
    rcases hs : w₁.1.storeMap index g.parameters with ⟨e | m, l⟩ <;> simp only [hs] at h hstore
    · rw [stored, zero_add] at hstore
      refine hstore.trans ?_
      cases e with
      | alreadyPopulated b =>
        cases h
        rw [consulted, zero_add]
        exact hrivals (.refused attempt) (l, w₁.2) entries maps
      | _ =>
        cases h
        rw [consulted, zero_add]
        exact .refl _
    · cases h
      exact hstore

/-- However often it starts over, a load ends with the map that it hands out, or with nothing. -/
theorem attempts_sim (hblock : ∀ x ∈ block.parameters, permits.tensors x.2)
    (hrivals : ∀ moment w, Refines permits w (rivals moment w)) {index remaining before : Nat}
    {w w' : Scene} {r : Except Fault Handle} (hbefore : block.size ∣ before)
    (h : attempts (company block plan rivals cancelled) index block plan remaining before w =
      (r, w')) (entries : Multiset PlacementId) (maps : Multiset MapId) :
    Sim permits (w.1, w.2.and entries maps) (w'.1, w'.2.and entries (handed r + maps)) := by
  induction remaining generalizing before w with
  | zero =>
    cases h
    rw [handed, zero_add]
    exact .note _
  | succ remaining ih =>
    rw [attempts_succ] at h
    split_ifs at h with hcancelled
    · cases h
      exact failed_sim _ _ _ _
    · refine (hrivals (.attempted (commitAttempts - remaining)) w entries maps).trans ?_
      have hact : (company block plan rivals cancelled).act
          (.attempted (commitAttempts - remaining)) w =
            rivals (.attempted (commitAttempts - remaining)) w := rfl
      rw [hact] at h
      rcases hconsult : consultStore (company block plan rivals cancelled) index block
        (commitAttempts - remaining) (rivals (.attempted (commitAttempts - remaining)) w) with
          ⟨e | _ | handle, w₁⟩ <;> simp only [hconsult] at h <;>
        refine (consultStore_sim hrivals hconsult entries maps).trans ?_
      · cases h
        exact .refl _
      · rw [consulted, zero_add]
        have hempty : ((({} : Gathered).parameters.values : Multiset PlacementId)) = 0 := rfl
        rcases hg : gather (company block plan rivals cancelled) plan before block.parameters {} w₁
          with ⟨e | g, w₂⟩ <;> simp only [hg] at h <;>
          have hgather := gather_sim hblock hrivals (.start hbefore) hg entries maps <;>
          rw [gathered, hempty, zero_add] at hgather
        · cases h
          exact hgather.trans (failed_sim _ _ _ _)
        · refine .trans hgather ?_
          rcases hc : commit (company block plan rivals cancelled) index
            (commitAttempts - remaining) g w₂ with ⟨e | _ | handle, w₃⟩ <;>
              simp only [hc] at h <;>
            refine (commit_sim hrivals hc entries maps).trans ?_
          · cases h
            exact .refl _
          · rw [consulted, zero_add]
            exact ih ((Nat.dvd_add_right hbefore).2 (Nat.dvd_refl _)) h
          · cases h
            exact .refl _
      · cases h
        exact .refl _

/-- A load is a path that ends with the map that it hands out, whatever its rivals do. -/
theorem loadAmong_sim (hblock : ∀ x ∈ block.parameters, permits.tensors x.2)
    (hrivals : ∀ moment w, Refines permits w (rivals moment w)) {index : Nat}
    {split : Split Binary64} {w w' : Scene} {r : Except Fault Handle}
    (h : loadAmong (company block (planOf block split) rivals cancelled) index block split w =
      (r, w')) (entries : Multiset PlacementId) (maps : Multiset MapId) :
    Sim permits (w.1, w.2.and entries maps) (w'.1, w'.2.and entries (handed r + maps)) := by
  unfold loadAmong planOf at h
  cases hsplit : Brackets.ofSplit split with
  | error e =>
    simp only [hsplit] at h
    cases h
    exact failed_sim _ _ _ _
  | ok brackets =>
    simp only [hsplit] at h
    refine .trans ?_ (attempts_sim hblock hrivals (Nat.dvd_zero _) h entries maps)
    exact hrivals .started ({ w.1 with reuse := { w.1.reuse with
      blockLoads := w.1.reuse.blockLoads + 1 } }, w.2) entries maps

theorem and_swap (u : Users) (entries entries' : Multiset PlacementId)
    (maps maps' : Multiset MapId) :
    (u.and entries maps).and entries' maps' = (u.and entries' maps').and entries maps := by
  rw [and_and, and_and, add_comm entries, add_comm maps]

theorem called_swap (u : Users) (call : Call) (entries : Multiset PlacementId)
    (maps : Multiset MapId) :
    (u.called call).and entries maps = (u.and entries maps).called call := by
  simp [Users.called, Users.and, add_left_comm]

/-- Every run is a path, whatever references and maps are held besides. By induction on the run,
in which the runs of a load's rivals are met before the load. -/
theorem Run.refines {w w' : Scene} (h : Run permits w w') : Refines permits w w' := by
  induction h with
  | rest w => exact .refl w
  | andThen _ _ ih ih' => exact ih.trans ih'
  | load index block split rivals cancelled hblock _ h ih =>
    intro entries maps
    rw [and_and, add_zero, add_comm]
    exact loadAmong_sim hblock ih h entries maps
  | @resolve l u t ht tier tamper htamper r c h =>
    intro entries maps
    rw [Cache.resolveAmid_eq_call] at h
    have hallows : permits.Allows ⟨t.identity, tier⟩ (.ofTensor t tamper tier) :=
      .inr ⟨t, tamper, ht, rfl, htamper, rfl⟩
    have hcall := Sim.call l (u.and entries maps) hallows
    rw [Call.make, h] at hcall
    rwa [called_swap]
  | @resolveWith l u key make hm honest r c h =>
    intro entries maps
    rw [Cache.resolveWith_eq_call, Prod.mk.injEq, Prod.mk.injEq] at h
    obtain ⟨rfl, rfl, -⟩ := h
    rw [called_swap]
    exact Sim.call _ _ (.inl ⟨hm, honest⟩)
  | @get l u key r c h =>
    intro entries maps
    have hget : Sim permits _ _ := .get l (u.and entries maps) key
    rw [h] at hget
    rwa [and_swap]
  | @clone l u p h =>
    intro entries maps
    rw [and_swap]
    refine .retain fun _ => Multiset.mem_add.2 (.inr (Multiset.mem_add.2 (.inr ?_)))
    exact Multiset.mem_add.2 (.inr h)
  | @drop l u p =>
    intro entries maps
    rw [and_swap]
    exact .drop _ _ p
  | @take l u m hm parameters hmap name p hp =>
    intro entries maps
    rw [and_swap]
    refine .retain fun hs => Multiset.mem_add.2 (.inr (Multiset.mem_add.2 (.inl ?_)))
    exact BlockStore.mem_references hmap hp
  | @loadMap l l' u block r h =>
    intro entries maps
    have hload : Sim permits _ _ := .loadMap l (u.and entries maps) block
    rw [h] at hload
    rwa [and_swap]
  | @cloneMap l u m h =>
    intro entries maps
    rw [and_swap]
    exact .cloneMap (Multiset.mem_add.2 (.inr h))
  | @dropMap l u m =>
    intro entries maps
    rw [and_swap]
    exact .dropMap _ _ m
  | @storeMap l l' u block parameters r h =>
    intro entries maps
    have hstore : Sim permits _ _ := .storeMap l (u.and entries maps) block parameters
    rw [h] at hstore
    rwa [and_swap, and_swap u 0]
  | clearBlock block => exact fun _ _ => .clearBlock _ _ block
  | clearBlockIf block m => exact fun _ _ => .clearBlockIf _ _ block m
  | clearBlocks => exact fun _ _ => .clearBlocks
  | clearAll h => exact fun _ _ => .clearAll h
  | purge h => exact fun _ _ => .ofStep (.purge h)
  | invalidate h tier => exact fun _ _ => .ofStep (.invalidate h tier)
  | clear h => exact fun _ _ => .ofStep (.clear h)
  | tamper h files => exact fun _ _ => .ofStep (.tamper h files)
  | tick n => exact fun _ _ hs => ⟨hs, .refl⟩

end TieredWeights.Scene
