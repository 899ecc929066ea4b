import TieredWeights.Proofs.Gathering
import TieredWeights.Proofs.Plan
import TieredWeights.Proofs.Scene.Sound

/-!
# What a load returns

A load that nobody disturbs is served by the block store if the slot holds a map of the block's
names, and then changes nothing. Otherwise it empties the slot, gathers the block's parameters and
stores them at the first attempt, for nobody fills the slot meanwhile; every name is planned, so all
that such a load can fail for is storage.
-/
namespace TieredWeights.Loader

open Scene

variable {l l' : Loader} {index : Nat} {block : Block} {m : MapId}

/-- The slot of a block holds a map, and its names are those of the block. -/
def HoldsBlock (l : Loader) (index : Nat) (block : Block) (m : MapId) : Prop :=
  ∃ parameters, l.store.held.find? index = some m ∧ l.store.map? m = some parameters ∧
    parameters.keys.toFinset = (block.parameters.map Prod.fst).toFinset

/-- The slot of a block has been emptied, and nobody else's map has gone. -/
structure Vacated (l : Loader) (index : Nat) (l' : Loader) : Prop where
  sim : ∀ permits u, Sim permits (l, u) (l', u)
  slots : l'.cache.slots = l.cache.slots
  held : l'.store.held = l.store.held.erase index
  size : l'.store.size = l.store.size
  maps : ∀ m parameters, l'.store.map? m = some parameters → l.store.map? m = some parameters

theorem releaseAll_slots (l : Loader) (ps : List PlacementId) :
    (l.releaseAll ps).cache.slots = l.cache.slots := by
  obtain ⟨_, _, he⟩ := Cache.releaseAll_eq l.cache ps
  rw [releaseAll, he]

/-- The map that the slot holds is of the block's names just if the load takes it for such. -/
theorem holdsBlock_iff {m' : MapId} {parameters : Table String PlacementId}
    (hheld : l.store.held.find? index = some m) (hmap : l.store.map? m = some parameters) :
    l.HoldsBlock index block m' ↔ m' = m ∧ matchesBlock parameters block := by
  rw [matchesBlock_iff]
  constructor
  · rintro ⟨parameters', hheld', hmap', hnames⟩
    rw [hheld, Option.some.injEq] at hheld'
    subst hheld'
    rw [hmap, Option.some.injEq] at hmap'
    subst hmap'
    exact ⟨rfl, hnames⟩
  · rintro ⟨rfl, hnames⟩
    exact ⟨parameters, hheld, hmap, hnames⟩

/-- The block store refuses a block out of range; else its slot is empty or holds a map. -/
theorem loadMap_cases (l : Loader) (index : Nat) :
    (¬ index < l.store.size ∧
        l.loadMap index = (.error (.blockOutOfRange index l.store.size), l)) ∨
      index < l.store.size ∧ (l.store.held.find? index = none ∧ l.loadMap index = (.ok none, l) ∨
        ∃ m, l.store.held.find? index = some m ∧
          l.loadMap index = (.ok (some m), { l with store := l.store.retain m })) := by
  unfold loadMap BlockStore.load BlockStore.held?
  by_cases hindex : index < l.store.size
  · cases hheld : l.store.held.find? index with
    | none => simp [hindex]
    | some m => simp [hindex]
  · simp [hindex]

theorem loadMap_eq (hindex : index < l.store.size) (hheld : l.store.held.find? index = some m) :
    l.loadMap index = (.ok (some m), { l with store := l.store.retain m }) := by
  simp only [loadMap, BlockStore.load, BlockStore.held?, hindex, if_true, hheld]

theorem clearBlockIf_eq (hindex : index < l.store.size)
    (hheld : l.store.held.find? index = some m) : l.clearBlockIf index m =
      (.ok true, Loader.releaseAll { l with store := (l.store.empty index m).2 }
        (l.store.empty index m).1) := by
  simp only [clearBlockIf, BlockStore.clearIf, BlockStore.held?, hindex, if_true, hheld]

/-- A map of the block's names is handed out as it is. -/
theorem consultStore_alone_hit (attempt : Nat) (hindex : index < l.store.size)
    (h : l.HoldsBlock index block m) : ∃ n, consultStore .alone index block attempt (l, ()) =
      (.ok (some ⟨index, m, .holderHit⟩),
        (countHit { l with store := l.store.retain m } n, ())) := by
  obtain ⟨parameters, hheld, hmap, hnames⟩ := h
  have hmatch := matchesBlock_iff.2 hnames
  refine ⟨parameters.size, ?_⟩
  unfold consultStore
  rw [loadMap_eq hindex hheld]
  simp only [BlockStore.map?_retain, hmap, Option.getD_some, hmatch, if_true]

/-- A map is dismissed: it leaves its slot, and the load that asked for it lets it go. -/
def dismiss (l : Loader) (index : Nat) (m : MapId) (n : Notice) : Loader :=
  (((note { l with store := l.store.retain m } n).clearBlockIf index m).2).dropMap m

theorem dismiss_vacated (hindex : index < l.store.size)
    (hheld : l.store.held.find? index = some m) (n : Notice) :
    Vacated l index (l.dismiss index m n) := by
  have hclear := clearBlockIf_eq (l := note { l with store := l.store.retain m } n) hindex hheld
  have hstore : (l.dismiss index m n).store =
      (((l.store.retain m).empty index m).2.drop m).2 := by
    rw [dismiss, hclear]
    rfl
  refine ⟨fun permits u => ?_, ?_, ?_, ?_, fun m' parameters hm' => ?_⟩
  · have hload : Sim permits _ _ := .loadMap l u index
    rw [loadMap_eq hindex hheld] at hload
    refine (hload.trans (.note n)).trans (.trans (.clearBlockIf _ _ index m) ?_)
    exact .dropMap _ u m
  · rw [dismiss, dropMap, releaseAll_slots, hclear, releaseAll_slots]
    rfl
  · rw [hstore, BlockStore.drop_held, BlockStore.empty_held]
    rfl
  · rw [hstore, BlockStore.drop_size, BlockStore.empty, BlockStore.drop_size]
    rfl
  · rw [hstore] at hm'
    have hm'' := BlockStore.map?_of_drop (BlockStore.map?_of_drop hm')
    rwa [← BlockStore.map?_retain l.store m m']

/-- An empty slot has nothing to hand out. -/
theorem consultStore_alone_vacant (block : Block) (attempt : Nat) (hindex : index < l.store.size)
    (hheld : l.store.held.find? index = none) :
    consultStore .alone index block attempt (l, ()) = (.ok none, (l, ())) := by
  simp only [consultStore, loadMap, BlockStore.load, BlockStore.held?, if_pos hindex, hheld]
  rfl

/-- A slot without a map of the block's names is emptied. -/
theorem consultStore_alone_miss (attempt : Nat) {maps : Multiset MapId} (hs : l.store.Sound maps)
    (hindex : index < l.store.size) (hmiss : ∀ m, ¬ l.HoldsBlock index block m) :
    ∃ l', consultStore .alone index block attempt (l, ()) = (.ok none, (l', ())) ∧
      Vacated l index l' := by
  cases hheld : l.store.held.find? index with
  | none =>
    exact ⟨l, consultStore_alone_vacant block attempt hindex hheld, fun _ _ => .refl _, rfl,
      (Table.erase_eq_self hheld).symm, rfl, fun _ _ h => h⟩
  | some m =>
    obtain ⟨x, hx⟩ := hs.find?_held hheld
    have hmap := BlockStore.map?_of_find? hx
    have hmatch : ¬ matchesBlock x.parameters block :=
      fun hmatch => hmiss m ((holdsBlock_iff hheld hmap).2 ⟨rfl, hmatch⟩)
    refine ⟨_, ?_, dismiss_vacated hindex hheld (.mismatch index block.names x.parameters.keys)⟩
    unfold consultStore
    rw [loadMap_eq hindex hheld]
    simp only [BlockStore.map?_retain, hmap, Option.getD_some, hmatch, Bool.false_eq_true, if_false,
      alone_act, dismiss]
    rw [clearBlockIf_eq (l := note { l with store := l.store.retain m } _) hindex hheld]

/-- An empty slot is filled at once. -/
theorem commit_alone (attempt : Nat) (hindex : index < l.store.size)
    (hheld : l.store.held.find? index = none) (g : Gathered) : commit .alone index attempt g (l, ()) =
      (.ok (some ⟨index, l.store.mapsMade, .loaded g.placed g.reused attempt⟩),
        (countLoaded { l with store := { l.store with
          held := l.store.held.insert index l.store.mapsMade
          maps := l.store.maps.insert l.store.mapsMade ⟨g.parameters, 2⟩
          mapsMade := l.store.mapsMade + 1 } } g.placed g.reused, ())) := by
  simp only [commit, alone_cancelled, alone_act, Bool.false_eq_true, if_false, storeMap,
    BlockStore.store_vacant hindex hheld]

/-- What a load that is not served by the block store returns, and what it leaves. -/
structure Loaded (l : Loader) (index : Nat) (block : Block) (plan : Plan) (handle : Handle)
    (l' : Loader) : Prop where
  own : handle.block = index
  outcome : ∃ placed reused, handle.outcome = .loaded placed reused 1 ∧
    placed + reused = block.size ∧ placed = (l.cache.unregistered (block.keys plan)).card
  map : ∃ parameters, l'.store.map? handle.map = some parameters ∧
    parameters.keys.toFinset = (block.parameters.map Prod.fst).toFinset ∧
    ∀ (k : Nat) x, block.parameters[k]? = some x → ∃ planned p q,
      plan.parameters[k]? = some planned ∧ parameters.find? x.1 = some p ∧
        l'.cache.find? p = some q ∧ q.key = ⟨x.2.identity, planned.tier⟩
  held : l'.store.held.find? index = some handle.map
  others : ∀ j, j ≠ index → l'.store.held.find? j = l.store.held.find? j ∧
    ∀ m, l.store.held.find? j = some m → l'.store.map? m = l.store.map? m

variable {brackets : Brackets Binary64} {held : Multiset PlacementId} {g : Gathered}
  {l₁ l₂ : Loader}

theorem Gathers.names (h : Gathers held (Block.keyOf (brackets.assign block.sizes)) l
    block.parameters {} g l') :
    g.parameters.keys.toFinset = (block.parameters.map Prod.fst).toFinset := by
  ext name
  rw [List.mem_toFinset, List.mem_toFinset, Table.mem_keys]
  by_cases hname : name ∈ block.parameters.map Prod.fst
  · obtain ⟨x, hx, rfl⟩ := List.mem_map.1 hname
    obtain ⟨p, q, hp, -⟩ := h.bound x hx
    rw [hp]
    exact iff_of_true rfl hname
  · rw [h.others name hname]
    exact iff_of_false Bool.false_ne_true hname

/-- Parameters gathered for an emptied slot and stored in it. -/
theorem Gathers.loaded {maps : Multiset MapId} (hv : Vacated l index l₁)
    (hs : l₁.store.Sound maps) (h : Gathers held (Block.keyOf (brackets.assign block.sizes)) l₁
      block.parameters {} g l₂) :
    Loaded l index block (brackets.assign block.sizes)
      ⟨index, l₂.store.mapsMade, .loaded g.placed g.reused 1⟩
      (countLoaded { l₂ with store := { l₂.store with
        held := l₂.store.held.insert index l₂.store.mapsMade
        maps := l₂.store.maps.insert l₂.store.mapsMade ⟨g.parameters, 2⟩
        mapsMade := l₂.store.mapsMade + 1 } } g.placed g.reused) := by
  have hstore : l₂.store = l₁.store := by rw [h.cacheOnly]
  refine ⟨rfl, ⟨g.placed, g.reused, rfl, ?_, ?_⟩, ⟨g.parameters, ?_, h.names, fun k x hx => ?_⟩, ?_,
    fun j hj => ⟨?_, fun m hm => ?_⟩⟩
  · exact h.counted.trans (Nat.zero_add _)
  · rw [Block.keys_assign, h.placed]
    refine (Nat.zero_add _).trans (congrArg Finset.card (Cache.unregistered_congr fun k => ?_))
    rw [Cache.registered?, hv.slots, Cache.registered?]
  · simp only [countLoaded, BlockStore.map?, Table.find?_insert_self, Option.map_some]
  · obtain ⟨planned, hplanned, htier⟩ := brackets.tierOf?_assign block hx
    obtain ⟨p, q, hp, hq, hkey⟩ := h.bound x (List.mem_of_getElem? hx)
    refine ⟨planned, p, q, hplanned, hp, hq, ?_⟩
    rw [hkey, Block.keyOf, htier, Option.getD_some]
  · exact Table.find?_insert_self _ _ _
  · refine (Table.find?_insert_ne _ _ hj).trans ?_
    rw [hstore, hv.held, Table.find?_erase_ne _ hj]
  · have hheld : l₁.store.held.find? j = some m := by
      rw [hv.held, Table.find?_erase_ne _ hj, hm]
    obtain ⟨x, hx⟩ := hs.find?_held hheld
    have hm₁ := BlockStore.map?_of_find? hx
    have hne : m ≠ l₂.store.mapsMade := by
      rw [hstore]
      exact (hs.numbered m x hx).ne
    rw [hv.maps m _ hm₁, ← hm₁, ← hstore]
    exact congrArg _ (Table.find?_insert_ne _ _ hne)

section

variable {plan : Plan} {handle : Handle} {e : Fault} {w₁ w₂ w₃ : Loader × Unit}

/-- The first attempt of a load that nobody disturbs, if the block store serves it. -/
theorem attempts_of_hit (h : consultStore .alone index block 1 (l, ()) = (.ok (some handle), w₁)) :
    attempts .alone index block plan commitAttempts 0 (l, ()) = (.ok handle, w₁) := by
  have hattempts : commitAttempts = 3 + 1 := rfl
  have hfirst : commitAttempts - 3 = 1 := rfl
  rw [hattempts, attempts_succ, hfirst]
  simp only [alone_cancelled, alone_act, Bool.false_eq_true, if_false, h]

/-- The first attempt if the block store does not serve it and a parameter is refused. -/
theorem attempts_of_refused (h : consultStore .alone index block 1 (l, ()) = (.ok none, w₁))
    (hg : gather .alone plan 0 block.parameters {} w₁ = (.error e, w₂)) :
    attempts .alone index block plan commitAttempts 0 (l, ()) = (.error e, w₂) := by
  have hattempts : commitAttempts = 3 + 1 := rfl
  have hfirst : commitAttempts - 3 = 1 := rfl
  rw [hattempts, attempts_succ, hfirst]
  simp only [alone_cancelled, alone_act, Bool.false_eq_true, if_false, h, hg]

/-- The first attempt if the block store does not serve it and all is gathered and committed. -/
theorem attempts_of_commit (h : consultStore .alone index block 1 (l, ()) = (.ok none, w₁))
    (hg : gather .alone plan 0 block.parameters {} w₁ = (.ok g, w₂))
    (hc : commit .alone index 1 g w₂ = (.ok (some handle), w₃)) :
    attempts .alone index block plan commitAttempts 0 (l, ()) = (.ok handle, w₃) := by
  have hattempts : commitAttempts = 3 + 1 := rfl
  have hfirst : commitAttempts - 3 = 1 := rfl
  rw [hattempts, attempts_succ, hfirst]
  simp only [alone_cancelled, alone_act, Bool.false_eq_true, if_false, h, hg, hc]

end

/-- The first attempt if the block store does not serve it fails for a reason of storage, or it is
the only one. -/
theorem attempts_of_miss (brackets : Brackets Binary64) {w : Scene} {permits : Permits}
    (hw : w.Sound permits) (hindex : index < w.1.store.size)
    (hmiss : ∀ m, ¬ w.1.HoldsBlock index block m) :
    (∃ e w', attempts .alone index block (brackets.assign block.sizes) commitAttempts 0 (w.1, ()) =
      (.error e, w') ∧ e.IsStorage) ∨
    ∃ handle l', attempts .alone index block (brackets.assign block.sizes) commitAttempts 0
      (w.1, ()) = (.ok handle, (l', ())) ∧
        Loaded w.1 index block (brackets.assign block.sizes) handle l' := by
  obtain ⟨l₁, hconsult, hv⟩ := consultStore_alone_miss 1 hw.store hindex hmiss
  obtain ⟨hstore, hpath⟩ := hv.sim permits w.2 hw.store
  have htally := (hpath.sound hw.tally).1
  have hs₁ : l₁.cache.Sound (↑({} : Gathered).parameters.values +
      (l₁.store.references + w.2.entries)) 0 := by
    have hempty : ((({} : Gathered).parameters.values : Multiset PlacementId)) = 0 := rfl
    rw [hempty, zero_add]
    exact htally.cache
  rcases gather_alone 0 hs₁ htally.quiet block.distinct (fun _ _ => rfl)
    (fun x hx => brackets.tierOf?_keyOf block hx) with ⟨e, w', hg, he⟩ | ⟨g, l₂, hg, hgathers⟩
  · exact .inl ⟨e, w', attempts_of_refused hconsult hg, he⟩
  · have hstore₂ : l₂.store = l₁.store := by rw [hgathers.cacheOnly]
    have hindex₂ : index < l₂.store.size := by rwa [hstore₂, hv.size]
    have hheld₂ : l₂.store.held.find? index = none := by
      rw [hstore₂, hv.held, Table.find?_erase_self]
    exact .inr ⟨_, _, attempts_of_commit hconsult hg (commit_alone 1 hindex₂ hheld₂ g),
      hgathers.loaded hv hstore⟩

variable {brackets : Brackets Binary64} {split : Split Binary64} {r : Except Fault Handle}

/-- A load under an accepted split is counted and attempted. -/
theorem attempts_of_load (hbrackets : Brackets.ofSplit split = .ok brackets)
    (hload : l.load index block split = (r, l')) :
    ∃ reuse, attempts .alone index block (brackets.assign block.sizes) commitAttempts 0
      ({ l with reuse }, ()) = (r, (l', ())) := by
  refine ⟨{ l.reuse with blockLoads := l.reuse.blockLoads + 1 }, ?_⟩
  have hamong := loadAmong_alone hload
  unfold loadAmong at hamong
  simp only [hbrackets, alone_act] at hamong
  exact hamong

/-- A load that the block store serves changes neither the cache nor what is held. -/
theorem load_of_hit (hindex : index < l.store.size)
    (hbrackets : Brackets.ofSplit split = .ok brackets)
    (hload : l.load index block split = (r, l')) (h : l.HoldsBlock index block m) :
    r = .ok ⟨index, m, .holderHit⟩ ∧ l'.cache = l.cache ∧ l'.store.held = l.store.held ∧
      ∀ m', l'.store.map? m' = l.store.map? m' := by
  obtain ⟨reuse, hattempts⟩ := attempts_of_load hbrackets hload
  obtain ⟨n, hconsult⟩ := consultStore_alone_hit 1 (l := { l with reuse }) hindex h
  rw [attempts_of_hit hconsult] at hattempts
  cases hattempts
  exact ⟨rfl, rfl, rfl, BlockStore.map?_retain _ m⟩

/-- A load that the block store does not serve fails for a reason of storage, or loads. -/
theorem load_of_miss {w : Scene} {permits : Permits} (hw : w.Sound permits)
    (hindex : index < w.1.store.size) (hbrackets : Brackets.ofSplit split = .ok brackets)
    (hload : w.1.load index block split = (r, l')) (hmiss : ∀ m, ¬ w.1.HoldsBlock index block m) :
    (∃ e, r = .error e ∧ e.IsStorage) ∨
      ∃ handle, r = .ok handle ∧ w.1.Loaded index block (brackets.assign block.sizes) handle l' := by
  obtain ⟨reuse, hattempts⟩ := attempts_of_load hbrackets hload
  have hw₀ : Scene.Sound permits ({ w.1 with reuse }, w.2) := ⟨hw.store, hw.tally⟩
  rcases attempts_of_miss brackets hw₀ hindex hmiss with
    ⟨e, w', he, hstorage⟩ | ⟨handle, l₁, hok, hloaded⟩
  · rw [hattempts, Prod.mk.injEq] at he
    exact .inl ⟨e, he.1, hstorage⟩
  · rw [hattempts, Prod.mk.injEq, Prod.mk.injEq] at hok
    obtain ⟨rfl, rfl, -⟩ := hok
    exact .inr ⟨handle, rfl, { hloaded with }⟩

end TieredWeights.Loader

namespace TieredWeights

variable {permits : Permits} {depot : Depot} {blocks : Nat} {own split : Split Binary64} {w : Scene}
  {index : Nat} {block : Block} {r : Except Fault Handle} {l : Loader}

/-- A load of a block in range under an accepted split, in any scene that users can bring about and
disturbed by nobody: it is served by the block store just if the slot holds a map of the block's
names, and then changes neither the cache nor what is held; otherwise, if it succeeds, it has loaded
the block at the first attempt; and it fails for a reason of storage only. -/
theorem load_outcome (h : Scene.Run permits (.start depot blocks own) w) (hd : depot.Sound 0)
    (hindex : index < w.1.store.size) (hsplit : split.validate = .ok ())
    (hload : w.1.load index block split = (r, l)) :
    (∀ m, w.1.HoldsBlock index block m → r = .ok ⟨index, m, .holderHit⟩ ∧
      l.cache = w.1.cache ∧ l.store.held = w.1.store.held ∧
        ∀ m', l.store.map? m' = w.1.store.map? m') ∧
    ((∀ m, ¬ w.1.HoldsBlock index block m) → ∀ handle, r = .ok handle →
      ∃ brackets, Brackets.ofSplit split = .ok brackets ∧
        w.1.Loaded index block (brackets.assign block.sizes) handle l) ∧
    ∀ e, r = .error e → e.IsStorage ∧ (∀ name, e ≠ .config (.unplacedParameter name)) ∧
      (∀ b, e ≠ .alreadyPopulated b) ∧ ∀ b n, e ≠ .commitContention b n := by
  have hw := h.sound_start hd
  obtain ⟨brackets, hbrackets⟩ := Split.ofSplit_of_validate hsplit
  refine ⟨fun m hm => Loader.load_of_hit hindex hbrackets hload hm,
    fun hmiss handle hr => ⟨brackets, hbrackets, ?_⟩, fun e hr => ?_⟩
  · rcases Loader.load_of_miss hw hindex hbrackets hload hmiss with
      ⟨e, he, -⟩ | ⟨handle', hr', hloaded⟩
    · rw [hr] at he
      cases he
    · rw [hr, Except.ok.injEq] at hr'
      rwa [hr']
  · have hmiss : ∀ m, ¬ w.1.HoldsBlock index block m := fun m hm => by
      rw [(Loader.load_of_hit hindex hbrackets hload hm).1] at hr
      cases hr
    rcases Loader.load_of_miss hw hindex hbrackets hload hmiss with
      ⟨e', he', hstorage⟩ | ⟨handle, hr', -⟩
    · rw [hr, Except.error.injEq] at he'
      subst he'
      exact ⟨hstorage, by rintro _ rfl; exact hstorage, by rintro _ rfl; exact hstorage,
        by rintro _ _ rfl; exact hstorage⟩
    · rw [hr] at hr'
      cases hr'

open Scene in
/-- The sample's block is loaded with one placement that its two parameters share. -/
theorem load_outcome_sample :
    ((start sampleDepot 1 sampleSplit).1.load 0 sampleBlock sampleSplit).1 =
      .ok ⟨0, 0, .loaded 1 1 1⟩ ∧
    ∃ brackets, Brackets.ofSplit sampleSplit = .ok brackets ∧
      (start sampleDepot 1 sampleSplit).1.Loaded 0 sampleBlock (brackets.assign sampleBlock.sizes)
        ⟨0, 0, .loaded 1 1 1⟩ ((start sampleDepot 1 sampleSplit).1.load 0 sampleBlock sampleSplit).2 := by
  have hr : ((start sampleDepot 1 sampleSplit).1.load 0 sampleBlock sampleSplit).1 =
    .ok ⟨0, 0, .loaded 1 1 1⟩ := by decide +kernel
  have hrun : Run {} (start sampleDepot 1 sampleSplit) (start sampleDepot 1 sampleSplit) := .rest _
  have hsplit : sampleSplit.validate = .ok () := by decide +kernel
  have hempty : (start sampleDepot 1 sampleSplit).1.store.held = .empty := rfl
  refine ⟨hr, (load_outcome hrun sampleDepot_sound Nat.one_pos hsplit (Prod.eta _).symm).2.1
    (fun m hm => ?_) _ hr⟩
  obtain ⟨parameters, hheld, -⟩ := hm
  rw [hempty, Table.find?_empty] at hheld
  cases hheld

end TieredWeights
