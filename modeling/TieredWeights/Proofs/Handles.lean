import TieredWeights.Proofs.Kept
import TieredWeights.Proofs.Plan
import TieredWeights.Proofs.Scene.Sound

/-!
# What handles hold

The map of a handle binds the names of its block when the load hands it out, in whatever company it
loads. A map never changes and its number is not used again, so as long as the map is held it binds
the same names, whatever users do.
-/
namespace TieredWeights

namespace BlockStore

variable {s s' s'' : BlockStore} {m : MapId} {outside outside' : Multiset MapId}

/-- No map of an earlier store has changed in a later one. -/
structure Keeps (s s' : BlockStore) : Prop where
  made : s.mapsMade ≤ s'.mapsMade
  maps : ∀ m parameters, m < s.mapsMade → s'.map? m = some parameters →
    s.map? m = some parameters

namespace Keeps

theorem refl (s : BlockStore) : s.Keeps s := ⟨Nat.le_refl _, fun _ _ _ h => h⟩

theorem trans (h : s.Keeps s') (h' : s'.Keeps s'') : s.Keeps s'' where
  made := h.made.trans h'.made
  maps m parameters hm hmap :=
    h.maps m parameters hm (h'.maps m parameters (hm.trans_le h.made) hmap)

theorem drop (s : BlockStore) (m : MapId) : s.Keeps (s.drop m).2 where
  made := by
    obtain ⟨maps, he⟩ := s.drop_eq m
    rw [he]
  maps _ _ _ hmap := map?_of_drop hmap

theorem retain (s : BlockStore) (m : MapId) : s.Keeps (s.retain m) where
  made := Nat.le_refl _
  maps _ _ _ hmap := by rwa [map?_retain] at hmap

theorem load (s : BlockStore) (block : Nat) : s.Keeps (s.load block).2 := by
  unfold BlockStore.load
  rcases s.held? block with e | _ | m
  · exact refl s
  · exact refl s
  · exact retain s m

theorem store (s : BlockStore) (block : Nat) (parameters : Table String PlacementId) :
    s.Keeps (s.store block parameters).2 := by
  unfold BlockStore.store
  rcases s.held? block with e | _ | m
  · exact refl s
  · refine ⟨Nat.le_succ _, fun m x hm hmap => ?_⟩
    have hne : m ≠ s.mapsMade := hm.ne
    simpa only [map?, Table.find?_insert_ne _ _ hne] using hmap
  · exact refl s

theorem empty (s : BlockStore) (block : Nat) (m : MapId) : s.Keeps (s.empty block m).2 := by
  have hheld : s.Keeps { s with held := s.held.erase block } :=
    ⟨Nat.le_refl _, fun _ _ _ hmap => hmap⟩
  exact hheld.trans (drop _ m)

theorem clear (s : BlockStore) (block : Nat) : s.Keeps (s.clear block).2.2 := by
  unfold BlockStore.clear
  rcases s.held? block with e | _ | m
  · exact refl s
  · exact refl s
  · exact empty s block m

theorem clearIf (s : BlockStore) (block : Nat) (m : MapId) :
    s.Keeps (s.clearIf block m).2.2 := by
  unfold BlockStore.clearIf
  rcases s.held? block with e | current
  · exact refl s
  · by_cases hm : current = some m
    · simp only [hm, if_true]
      exact empty s block m
    · simp only [hm, if_false]
      exact refl s

/-- By induction on the bindings. -/
theorem clearEach (s : BlockStore) (bindings : List (Nat × MapId)) :
    s.Keeps (s.clearEach bindings).2 := by
  induction bindings generalizing s with
  | nil => exact refl s
  | cons b rest ih => exact (empty s b.1 b.2).trans (ih _)

theorem clearAll (s : BlockStore) : s.Keeps s.clearAll.2.2 := clearEach s _

/-- A map that is held all the time stays as it is. -/
theorem map?_eq (h : s.Keeps s') (hs : s.Sound outside) (hs' : s'.Sound outside')
    (hm : m ∈ outside) (hm' : m ∈ outside') : s'.map? m = s.map? m := by
  obtain ⟨x, hx⟩ := hs.find?_of_mem (Multiset.mem_add.2 (.inr hm))
  obtain ⟨x', hx'⟩ := hs'.find?_of_mem (Multiset.mem_add.2 (.inr hm'))
  have hmap := map?_of_find? hx'
  rw [hmap, h.maps m _ (hs.numbered m x hx) hmap]

end Keeps

end BlockStore

namespace Loader

variable {σ : Type} {company : Company σ} {index : Nat} {block : Block} {plan : Plan}
  {w w' : Loader × σ}

/-- Every deed of a load keeps the maps. -/
theorem kept_maps : Kept fun l l' => l.store.Keeps l'.store where
  refl l := .refl l.store
  trans h h' := h.trans h'
  note l _ := .refl l.store
  counted l _ := .refl l.store
  resolved l _ _ := .refl l.store
  releaseAll l _ := .refl l.store
  loadMap l block := .load l.store block
  storeMap l block parameters := by
    have hstore := BlockStore.Keeps.store l.store block parameters
    unfold storeMap
    rcases hs : l.store.store block parameters with ⟨e | m, store⟩ <;> rw [hs] at hstore <;>
      exact hstore
  dropMap l m := .drop l.store m
  clearBlockIf l block m := .clearIf l.store block m

/-- The names that a map binds, in order. -/
def namesOf (l : Loader) (m : MapId) : List String := (l.parametersOf m).map Prod.fst

theorem namesOf_eq (l : Loader) (m : MapId) : l.namesOf m = ((l.store.map? m).getD .empty).keys := by
  unfold namesOf parametersOf
  cases l.store.map? m <;> rfl

/-- By induction on what is yet to be gathered. -/
theorem gather_names {rest : List (String × Tensor)} {before : Nat} {g g' : Gathered}
    (h : gather company plan before rest g w = (.ok g', w')) :
    g'.parameters.keys.toFinset = g.parameters.keys.toFinset ∪ (rest.map Prod.fst).toFinset := by
  induction rest generalizing before g w with
  | nil =>
    cases h
    simp
  | cons x rest ih =>
    obtain ⟨name, t⟩ := x
    rw [gather] at h
    split_ifs at h with hcancelled
    · cases h
    · generalize company.act (.admitted before) w = w₁ at h
      cases htier : plan.tierOf? name with
      | none =>
        simp only [htier] at h
        cases h
      | some tier =>
        simp only [htier] at h
        rcases hr : w₁.1.cache.resolve t tier with ⟨e | r, c⟩ <;> simp only [hr] at h
        · cases h
        · have hadd : (g.add name r).parameters.keys.toFinset =
              insert name g.parameters.keys.toFinset := by
            ext name'
            rw [List.mem_toFinset, Table.mem_keys, Gathered.add, Table.find?_insert,
              Finset.mem_insert, List.mem_toFinset, Table.mem_keys]
            by_cases hname : name' = name <;> simp [hname]
          rw [ih h, hadd, List.map_cons, List.toFinset_cons, Finset.insert_union,
            Finset.union_insert]

/-- A handle of a block: its map has just the names of the block. -/
structure Serves (l : Loader) (index : Nat) (block : Block) (handle : Handle) : Prop where
  own : handle.block = index
  names : (l.namesOf handle.map).toFinset = (block.parameters.map Prod.fst).toFinset

theorem consultStore_serves {attempt : Nat} {handle : Handle}
    (h : consultStore company index block attempt w = (.ok (some handle), w')) :
    w'.1.Serves index block handle := by
  unfold consultStore at h
  rcases hl : w.1.loadMap index with ⟨e | _ | m, l⟩ <;> simp only [hl] at h
  · cases h
  · cases h
  · split_ifs at h with hmatch
    · cases h
      refine ⟨rfl, ?_⟩
      rw [namesOf_eq]
      exact matchesBlock_iff.1 hmatch
    · generalize company.act (.consulted attempt) _ = w₁ at h
      rcases hc : w₁.1.clearBlockIf index m with ⟨e | b, l⟩ <;> simp only [hc] at h <;> cases h

/-- What is stored binds what it was stored for. -/
theorem map?_of_storeMap {l l' : Loader} {parameters : Table String PlacementId} {m : MapId}
    (h : l.storeMap index parameters = (.ok m, l')) : l'.store.map? m = some parameters := by
  unfold storeMap BlockStore.store at h
  rcases hheld : l.store.held? index with e | _ | m' <;> simp only [hheld] at h
  · cases h
  · cases h
    simp [BlockStore.map?]
  · cases h

theorem commit_serves {attempt : Nat} {g : Gathered} {handle : Handle}
    (hg : g.parameters.keys.toFinset = (block.parameters.map Prod.fst).toFinset)
    (h : commit company index attempt g w = (.ok (some handle), w')) :
    w'.1.Serves index block handle := by
  unfold commit at h
  split_ifs at h with hcancelled
  · cases h
  · generalize company.act (.approved attempt) w = w₁ at h
    rcases hs : w₁.1.storeMap index g.parameters with ⟨e | m, l⟩ <;> simp only [hs] at h
    · cases e <;> cases h
    · cases h
      refine ⟨rfl, ?_⟩
      rw [namesOf_eq, countLoaded, map?_of_storeMap hs]
      exact hg

/-- A load that is done hands out a handle of its block. By induction on the attempts that
remain. -/
theorem attempts_serves {remaining before : Nat} {handle : Handle}
    (h : attempts company index block plan remaining before w = (.ok handle, w')) :
    w'.1.Serves index block handle := by
  induction remaining generalizing before w with
  | zero => cases h
  | succ remaining ih =>
    rw [attempts_succ] at h
    split_ifs at h with hcancelled
    · cases h
    · generalize company.act (.attempted (commitAttempts - remaining)) w = w₁ at h
      rcases hconsult : consultStore company index block (commitAttempts - remaining) w₁ with
        ⟨e | _ | handle', w₂⟩ <;> simp only [hconsult] at h
      · cases h
      · rcases hg : gather company plan before block.parameters {} w₂ with ⟨e | g, w₃⟩ <;>
          simp only [hg] at h
        · cases h
        · rcases hc : commit company index (commitAttempts - remaining) g w₃ with
            ⟨e | _ | handle', w₄⟩ <;> simp only [hc] at h
          · cases h
          · exact ih h
          · cases h
            have hnames := gather_names hg
            exact commit_serves (by simpa [Table.keys, Table.empty] using hnames) hc
      · cases h
        exact consultStore_serves hconsult

theorem loadAmong_serves {split : Split Binary64} {handle : Handle}
    (h : loadAmong company index block split w = (.ok handle, w')) :
    w'.1.Serves index block handle := by
  unfold loadAmong at h
  rcases hsplit : Brackets.ofSplit split with e | brackets <;> simp only [hsplit] at h
  · cases h
  · exact attempts_serves h

/-- A handle is of its block as long as its map is held. -/
theorem Serves.of_keeps {l l' : Loader} {maps maps' : Multiset MapId} {handle : Handle}
    (h : l.Serves index block handle) (hk : l.store.Keeps l'.store) (hs : l.store.Sound maps)
    (hs' : l'.store.Sound maps') (hm : handle.map ∈ maps) (hm' : handle.map ∈ maps') :
    l'.Serves index block handle := by
  refine ⟨h.own, ?_⟩
  rw [namesOf_eq, hk.map?_eq hs hs' hm hm', ← namesOf_eq]
  exact h.names

end Loader

namespace Scene

open Loader

variable {permits : Permits} {w w' : Scene}

/-- The company of a load keeps the maps if the rivals do. -/
theorem keeps_company {block : Block} {plan : Plan} {rivals : Moment → Scene → Scene}
    {cancelled : Scene → Bool} (h : ∀ moment (w : Scene), w.1.store.Keeps (rivals moment w).1.store)
    (moment : Moment) (w : Scene) :
    w.1.store.Keeps ((company block plan rivals cancelled).act moment w).1.store := by
  have hrivals := h moment w
  cases moment <;> exact hrivals

/-- Whatever users bring about, no map changes. By induction on the run. -/
theorem Run.keeps (h : Run permits w w') : w.1.store.Keeps w'.1.store := by
  induction h with
  | rest => exact .refl _
  | andThen _ _ ih ih' => exact ih.trans ih'
  | load index block split rivals cancelled _ _ h ih =>
    have hload := loadAmong_kept kept_maps (keeps_company ih) h
    exact hload
  | @loadMap l l' u block r h =>
    have hload := BlockStore.Keeps.load l.store block
    unfold Loader.loadMap at h
    cases h
    exact hload
  | @cloneMap l u m h => exact .retain l.store m
  | @dropMap l u m => exact .drop l.store m
  | @storeMap l l' u block parameters r h =>
    have hstore := kept_maps.storeMap l block parameters
    rwa [h] at hstore
  | @clearBlock l u block => exact .clear l.store block
  | @clearBlockIf l u block m => exact .clearIf l.store block m
  | @clearBlocks l u => exact .clearAll l.store
  | @clearAll l u => exact .clearAll l.store
  | _ => exact .refl _

end Scene

end TieredWeights
