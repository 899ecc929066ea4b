import Mathlib.Algebra.Order.BigOperators.Group.Finset
import TieredWeights.Proofs.Cache.Purge
import TieredWeights.Proofs.IdleCompany

/-!
# Failed loads

A load in idle company that fails leaves nothing half-done. Its slot is as it was or has lost a map
of other names; the maps in use are as they were; the references that it gathered have been given
up, and those of a map that went with its slot; what was registered still is, in the same buffer. It
leaves placements of the keys that it resolved before it stopped, which nobody refers to, so a purge
takes their buffers back. A buffer that it could not fill is out no more.
-/
namespace TieredWeights

namespace Loader

open Scene

variable {σ : Type} {company : Company σ} {permits : Permits} {w : Scene} {u : Users}
  {l l' : Loader} {x x' : σ} {index : Nat} {block : Block} {keys : List Key} {e : Fault}
  {tried : Nat}

/-- An emptied slot is no matter of progress. -/
theorem Emptied.progress (h : Emptied l index block l') (hs : l.store.Sound u.maps)
    (hc : l.cache.Sound (l.store.references + u.entries) 0) (hquiet : l.cache.Quiet) :
    l'.store.Sound u.maps ∧ l'.cache.Sound (l'.store.references + u.entries) 0 ∧
      l'.cache.Quiet ∧ l.cache.Progress [] 0 l'.cache := by
  -- Nobody tampers with files while the slot is emptied, whatever happened before.
  obtain ⟨hstore, hpath⟩ := h.vacated.sim { tampers := False } { u with calls := 0 } hs
  have htally : (tally (l, { u with calls := 0 })).Sound { tampers := False } 0 :=
    ⟨hc, hquiet, fun call hcall => absurd hcall (Multiset.notMem_zero call)⟩
  obtain ⟨hsound, hlater⟩ := hpath.sound htally
  exact ⟨hstore, hsound.cache, hsound.quiet,
    .of_later hlater h.vacated.slots h.counts.1 h.counts.2⟩

/-- What a load has come to that holds no references any more. -/
structure Undone (w : Scene) (index : Nat) (block : Block) (resolved : List Key) (tried : Nat)
    (l : Loader) : Prop where
  slot : l.store.held = w.1.store.held ∨
    l.store.held = w.1.store.held.erase index ∧ ∀ m, ¬ w.1.HoldsBlock index block m
  maps : ∀ m parameters, l.store.map? m = some parameters → w.1.store.map? m = some parameters
  store : l.store.Sound w.2.maps
  cache : l.cache.Sound (l.store.references + w.2.entries) 0
  quiet : l.cache.Quiet
  progress : w.1.cache.Progress resolved tried l.cache

theorem undone_refl (hw : w.Sound permits) : Undone w index block [] 0 w.1 where
  slot := .inl rfl
  maps _ _ hm := hm
  store := hw.store
  cache := hw.tally.cache
  quiet := hw.tally.quiet
  progress := .refl _

theorem Emptied.undone (hw : w.Sound permits) (h : Emptied w.1 index block l) :
    Undone w index block [] 0 l := by
  obtain ⟨hstore, hcache, hquiet, hp⟩ := h.progress hw.store hw.tally.cache hw.tally.quiet
  exact ⟨.inr ⟨h.vacated.held, h.missed⟩, h.vacated.maps, hstore, hcache, hquiet, hp⟩

/-- Work on the cache alone that leaves no more references than before. -/
theorem Undone.of_cache {keys' : List Key} {tried' : Nat} (h : Undone w index block keys tried l)
    (hl : l' = { l with cache := l'.cache }) (hs : l'.cache.Sound (l.store.references + w.2.entries) 0)
    (hquiet : l'.cache.Quiet) (hp : l.cache.Progress keys' tried' l'.cache) :
    Undone w index block (keys ++ keys') (tried + tried') l' := by
  have hstore : l'.store = l.store := by rw [hl]
  constructor
  case slot => simpa only [hstore] using h.slot
  case maps => simpa only [hstore] using h.maps
  case store => simpa only [hstore] using h.store
  case cache => simpa only [hstore] using hs
  case quiet => exact hquiet
  case progress => exact h.progress.trans hp

/-- A load in idle company that fails after it was counted. -/
theorem attempts_idle (hidle : company.Idle) (brackets : Brackets Binary64) (hw : w.Sound permits)
    (h : attempts company index block (brackets.assign block.sizes) commitAttempts 0 (w.1, x) =
      (.error e, (l', x'))) :
    (e = .blockOutOfRange index w.1.store.size ∧ l' = w.1) ∨
      ∃ k tried, Stopped (block.keys (brackets.assign block.sizes)) l'.cache e k tried ∧
        Undone w index block ((block.keys (brackets.assign block.sizes)).take k) tried l' := by
  have hattempts : commitAttempts = 3 + 1 := rfl
  rw [hattempts, attempts_succ] at h
  split_ifs at h with hcancelled
  · cases h
    exact .inr ⟨0, 0, .cancelled (Nat.zero_le _), undone_refl hw⟩
  · obtain ⟨x₁, hact⟩ := hidle.act_eq (.attempted (commitAttempts - 3)) w.1 x
    rw [hact] at h
    rcases hconsult : consultStore company index block (commitAttempts - 3) (w.1, x₁) with
      ⟨r, l₁, x₂⟩
    rw [hconsult] at h
    rcases consultStore_idle hidle hw.store hconsult with
      ⟨rfl, rfl⟩ | ⟨handle, rfl⟩ | ⟨rfl, hindex, hemptied⟩
    · cases h
      exact .inl ⟨rfl, rfl⟩
    · cases h
    · refine .inr ?_
      have hundone := hemptied.undone hw
      have hs₁ : l₁.cache.Sound (↑({} : Gathered).parameters.values +
          (l₁.store.references + w.2.entries)) 0 := by
        have hempty : ((({} : Gathered).parameters.values : Multiset PlacementId)) = 0 := rfl
        rw [hempty, zero_add]
        exact hundone.cache
      rcases hgather : gather company (brackets.assign block.sizes) 0 block.parameters {} (l₁, x₂)
        with ⟨r, l₂, x₃⟩
      have hidly := gather_idle hidle hs₁ hundone.quiet block.distinct (fun _ _ => rfl)
        (fun y hy => brackets.tierOf?_keyOf block hy) hgather
      rw [← Block.keys_assign] at hidly
      simp only [hgather] at h
      rcases hidly.progress with ⟨g, rfl, hp⟩ | ⟨e', k, tried, rfl, hstopped, hp⟩
      · have hstore₂ : l₂.store = l₁.store := by rw [hidly.cacheOnly]
        have hindex₂ : index < l₂.store.size := by rwa [hstore₂, hemptied.vacated.size]
        have hheld₂ : l₂.store.held.find? index = none := by
          rw [hstore₂, hemptied.vacated.held, Table.find?_erase_self]
        rcases hcommit : commit company index (commitAttempts - 3) g (l₂, x₃) with ⟨r, l₃, x₄⟩
        simp only [hcommit] at h
        rcases commit_idle hidle hindex₂ hheld₂ hcommit with ⟨handle, rfl⟩ | ⟨rfl, rfl⟩
        · cases h
        · cases h
          obtain ⟨hs₃, hquiet₃, hp₃⟩ := hidly.sound.progress_releaseAll hidly.quiet
          have honly : l₂.releaseAll g.parameters.values =
              { l₁ with cache := (l₂.releaseAll g.parameters.values).cache } := by
            rw [releaseAll, hidly.cacheOnly]
          have hall := hundone.of_cache honly hs₃ hquiet₃ (hp.trans hp₃)
          refine ⟨_, _, .cancelled le_rfl, ?_⟩
          rw [List.take_length]
          simpa using hall
      · cases h
        have hs₂ := hidly.sound
        rw [gathered, zero_add] at hs₂
        have hall := hundone.of_cache hidly.cacheOnly hs₂ hidly.quiet hp
        rw [List.nil_append, Nat.zero_add] at hall
        exact ⟨k, tried, hstopped, hall⟩

/-- What a failed load leaves, if it has resolved some keys and tried as many. -/
structure Abandoned (w : Scene) (index : Nat) (block : Block) (resolved : List Key) (tried : Nat)
    (l : Loader) : Prop where
  slot : l.store.held.find? index = w.1.store.held.find? index ∨
    l.store.held.find? index = none ∧ ∀ m, ¬ w.1.HoldsBlock index block m
  others : ∀ j, j ≠ index → l.store.held.find? j = w.1.store.held.find? j
  maps : ∀ m ∈ mapsInUse (l, w.2), m ∈ w.mapsInUse ∧ l.store.map? m = w.1.store.map? m
  /-- The only references that go are those of a map that is in use no more. -/
  references : ∀ p q, w.1.cache.find? p = some q → w.1.cache.references p =
    l.cache.references p + ∑ m ∈ w.mapsInUse \ mapsInUse (l, w.2), w.1.store.uses m p
  registered : ∀ key p, w.1.cache.registered? key = some p → l.cache.registered? key = some p ∧
    ∃ q q', w.1.cache.find? p = some q ∧ l.cache.find? p = some q' ∧ q'.buffer = q.buffer
  resolved : ∀ key, (l.cache.registered? key).isSome ↔
    (w.1.cache.registered? key).isSome ∨ key ∈ resolved
  /-- What the load has placed is registered, and a purge takes it back. -/
  placed : ∀ p q, l.cache.find? p = some q → w.1.cache.find? p = none →
    w.1.cache.registered? q.key = none ∧ l.cache.registered? q.key = some p ∧
      l.cache.references p = 1 ∧ l.cache.purge.2.find? p = none ∧
        l.cache.purge.2.depot.Spent q.buffer
  tried : l.cache.hits + l.cache.misses = w.1.cache.hits + w.1.cache.misses + tried
  /-- No buffer is out but those of placements: one that could not be filled has been taken back. -/
  pools : ∀ tier pool, l.cache.depot.pools.find? tier = some pool →
    pool.live = (l.cache.livePlacements tier).length ∧
      pool.used = sumOf ((l.cache.livePlacements tier).map (·.buffer.length))

namespace Undone

theorem find?_held (h : Undone w index block keys tried l) {j : Nat} {m : MapId}
    (hm : l.store.held.find? j = some m) : w.1.store.held.find? j = some m := by
  rcases h.slot with hsame | ⟨herased, -⟩
  · rwa [hsame] at hm
  · rw [herased, Table.find?_erase] at hm
    split_ifs at hm
    exact hm

theorem mapsInUse (h : Undone w index block keys tried l) {m : MapId}
    (hm : m ∈ Scene.mapsInUse (l, w.2)) :
    m ∈ w.mapsInUse ∧ l.store.map? m = w.1.store.map? m := by
  rw [Scene.mapsInUse, Multiset.mem_toFinset] at hm
  constructor
  · rw [Scene.mapsInUse, Multiset.mem_toFinset]
    rcases Multiset.mem_add.1 hm with hheld | hmaps
    · obtain ⟨j, hj⟩ := Table.mem_values.1 hheld
      exact Multiset.mem_add.2 (.inl (Table.mem_values.2 ⟨j, h.find?_held hj⟩))
    · exact Multiset.mem_add.2 (.inr hmaps)
  · obtain ⟨y, hy⟩ := h.store.find?_of_mem hm
    have hmap := BlockStore.map?_of_find? hy
    rw [hmap, h.maps m _ hmap]

/-- References by their owners, before the load and after it. -/
theorem references (hw : w.Sound permits) (h : Undone w index block keys tried l)
    {p : PlacementId} {q : Placement} (hq : w.1.cache.find? p = some q) :
    w.1.cache.references p = l.cache.references p +
      ∑ m ∈ w.mapsInUse \ Scene.mapsInUse (l, w.2), w.1.store.uses m p := by
  have hc : w.1.cache.Sound (w.1.store.references + w.2.entries) 0 := hw.tally.cache
  have hsub : Scene.mapsInUse (l, w.2) ⊆ w.mapsInUse := fun m hm => (h.mapsInUse hm).1
  have huses : ∑ m ∈ Scene.mapsInUse (l, w.2), l.store.uses m p =
      ∑ m ∈ Scene.mapsInUse (l, w.2), w.1.store.uses m p := by
    refine Finset.sum_congr rfl fun m hm => ?_
    rw [BlockStore.uses, (h.mapsInUse hm).2, BlockStore.uses]
  have hregistered := h.progress.registrationCount_eq hc h.cache hq
  have hbefore : w.1.store.references.count p = ∑ m ∈ w.mapsInUse, w.1.store.uses m p :=
    hw.store.count_references p
  have hafter : l.store.references.count p =
      ∑ m ∈ Scene.mapsInUse (l, w.2), l.store.uses m p := h.store.count_references p
  have hsplit := Finset.sum_sdiff (f := fun m => w.1.store.uses m p) hsub
  rw [hc.counted, h.cache.counted, Multiset.count_add, Multiset.count_add, Multiset.count_add,
    Multiset.count_add, hc.count_registrationsOf, h.cache.count_registrationsOf, hregistered, hbefore,
    hafter, huses]
  omega

/-- What the load placed before it failed has no owner but the registration. -/
theorem placed (hw : w.Sound permits) (h : Undone w index block keys tried l) {p : PlacementId}
    {q : Placement} (hq : l.cache.find? p = some q) (hnew : w.1.cache.find? p = none) :
    w.1.cache.registered? q.key = none ∧ l.cache.registered? q.key = some p ∧
      l.cache.references p = 1 ∧ l.cache.purge.2.find? p = none ∧
        l.cache.purge.2.depot.Spent q.buffer := by
  have hc : w.1.cache.Sound (w.1.store.references + w.2.entries) 0 := hw.tally.cache
  have hnot : p ∉ l.store.references + w.2.entries := by
    intro hmem
    have hheld : p ∈ w.1.store.references + w.2.entries := by
      rcases Multiset.mem_add.1 hmem with hp | hp
      · have hcount := Multiset.count_pos.2 hp
        rw [h.store.count_references] at hcount
        obtain ⟨m, hm, huse⟩ := Finset.exists_ne_zero_of_sum_ne_zero hcount.ne'
        obtain ⟨hm', hmap⟩ := h.mapsInUse hm
        refine Multiset.mem_add.2 (.inl (Multiset.count_pos.1 ?_))
        rw [BlockStore.uses, hmap] at huse
        rw [hw.store.count_references]
        exact Finset.sum_pos' (fun _ _ => Nat.zero_le _) ⟨m, hm', Nat.pos_of_ne_zero huse⟩
      · exact Multiset.mem_add.2 (.inr hp)
    obtain ⟨q', hq'⟩ := hc.find?_of_mem (Multiset.mem_add.2 (.inr hheld))
    rw [hnew] at hq'
    cases hq'
  obtain ⟨hregistered, hone⟩ := h.cache.references_of_notMem hq hnot
  have hvacant : w.1.cache.registered? q.key = none := by
    cases hold : w.1.cache.registered? q.key with
    | none => rfl
    | some p' =>
      have hsame := h.progress.kept q.key p' hold
      rw [hregistered, Option.some.injEq] at hsame
      obtain ⟨q', hq', -⟩ := hc.keyed q.key p' hold
      rw [← hsame, hnew] at hq'
      cases hq'
  have hgone : l.cache.purge.2.find? p = none := by
    rw [h.cache.find?_purge h.quiet.opensVacant, if_neg hnot]
  refine ⟨hvacant, hregistered, hone, hgone, ?_⟩
  rcases ((h.cache.purge False).2.kept p q hq) with ⟨q', hq', -⟩ | ⟨-, -, hspent⟩
  · rw [hgone] at hq'
    cases hq'
  · exact hspent

theorem abandoned (hw : w.Sound permits) (h : Undone w index block keys tried l) :
    Abandoned w index block keys tried l := by
  have hc : w.1.cache.Sound (w.1.store.references + w.2.entries) 0 := hw.tally.cache
  constructor
  case slot =>
    rcases h.slot with hsame | ⟨herased, hmiss⟩
    · exact .inl (by rw [hsame])
    · exact .inr ⟨by rw [herased, Table.find?_erase_self], hmiss⟩
  case others =>
    intro j hj
    rcases h.slot with hsame | ⟨herased, -⟩
    · rw [hsame]
    · rw [herased, Table.find?_erase_ne _ hj]
  case maps => exact fun m hm => h.mapsInUse hm
  case references => exact fun p q hq => h.references hw hq
  case registered =>
    intro key p hp
    have hp' := h.progress.kept key p hp
    obtain ⟨q, hq, -⟩ := hc.keyed key p hp
    obtain ⟨q', hq', -⟩ := h.cache.keyed key p hp'
    rcases h.progress.later.kept p q hq with ⟨q₁, hq₁, -, hbuffer⟩ | ⟨hnone, -⟩
    · exact ⟨hp', q, q₁, hq, hq₁, hbuffer⟩
    · rw [hq'] at hnone
      cases hnone
  case resolved =>
    intro key
    constructor
    · intro hsome
      obtain ⟨p, hp⟩ := Option.isSome_iff_exists.1 hsome
      rcases h.progress.new key p hp with hold | ⟨hkey, -⟩
      · exact .inl (by simp [hold])
      · exact .inr hkey
    · rintro (hold | hkey)
      · obtain ⟨p, hp⟩ := Option.isSome_iff_exists.1 hold
        simp [h.progress.kept key p hp]
      · exact h.progress.all key hkey
  case placed => exact fun p q hq hnew => h.placed hw hq hnew
  case tried => exact h.progress.tried
  case pools => exact fun _ _ hpool => h.cache.pool_counts hpool

end Undone

end Loader

open Loader Scene in
/-- In every scene that users bring about, a load in idle company that fails has stopped before its
first step, or after it resolved the first `k` keys of its plan: cancelled then, or refused the next
one for a reason of storage. What it leaves is `Abandoned`. -/
theorem failed_load_abandoned {σ : Type} {company : Company σ} {permits : Permits} {depot : Depot}
    {blocks : Nat} {own split : Split Binary64} {w : Scene} {x x' : σ} {index : Nat} {block : Block}
    {e : Fault} {l : Loader} (h : Run permits (start depot blocks own) w) (hd : depot.Sound 0)
    (hidle : company.Idle)
    (hload : loadAmong company index block split (w.1, x) = (.error e, (l, x'))) :
    ∃ k tried, (k = 0 ∧ tried = 0 ∧ ((∃ f, e = .invalidSplit f) ∨
        e = .blockOutOfRange index w.1.store.size) ∨
      Stopped (block.keys (planOf block split)) l.cache e k tried) ∧
      Abandoned w index block ((block.keys (planOf block split)).take k) tried l := by
  have hw := h.sound_start hd
  have hstart : Abandoned w index block [] 0 w.1 := (undone_refl hw).abandoned hw
  unfold loadAmong at hload
  cases hbrackets : Brackets.ofSplit split with
  | error f =>
    simp only [hbrackets] at hload
    cases hload
    exact ⟨0, 0, .inl ⟨rfl, rfl, .inl ⟨_, rfl⟩⟩, by simpa using hstart⟩
  | ok brackets =>
    have hplan : planOf block split = brackets.assign block.sizes := by rw [planOf, hbrackets]
    simp only [hbrackets] at hload
    obtain ⟨x₁, hact⟩ := hidle.act_eq .started
      { w.1 with reuse := { w.1.reuse with blockLoads := w.1.reuse.blockLoads + 1 } } x
    rw [hact] at hload
    have hw₀ : Scene.Sound permits
      ({ w.1 with reuse := { w.1.reuse with blockLoads := w.1.reuse.blockLoads + 1 } }, w.2) :=
        ⟨hw.store, hw.tally⟩
    rw [hplan]
    rcases attempts_idle hidle brackets hw₀ hload with ⟨rfl, rfl⟩ | ⟨k, tried, hstopped, hundone⟩
    · exact ⟨0, 0, .inl ⟨rfl, rfl, .inr rfl⟩, by simpa using { hstart with }⟩
    · exact ⟨k, tried, .inr hstopped, { hundone.abandoned hw₀ with }⟩

/-- Between two parameters tied to the sample's tensor, one that the pool has no room for. -/
def sampleWide : Block :=
  ⟨[("first", Scene.sampleTensor), ("second", Scene.sampleLarge),
    ("third", Scene.sampleTensor)], by decide⟩

/-- A disk that a second file does not fit on. -/
def sampleFullDisk : Depot :=
  let full (deed : Deed) (path : Path) : Option Refusal :=
    if deed = .write ∧ path = ["spill", "disk-0-1-1-1.bin"] then
      some { reason := "No space left on device (os error 28)", written := 12 }
    else none
  (Depot.addPools { files := { Files.empty with refuses := full } } [(.disk, none, some "spill")]).2

/-- The loader with the sample's block on the full disk. -/
def sampleFullScene : Scene :=
  (Scene.start sampleFullDisk 1 ⟨100, 0, 0, 0⟩).loaded 0 Scene.sampleBlock ⟨100, 0, 0, 0⟩

theorem sampleFullDisk_sound : sampleFullDisk.Sound 0 :=
  Depot.sound_addPools_of_empty rfl rfl

open Loader Scene in
/-- The wide block takes the slot from the sample's, whose handle keeps its map, and then fails: the
host has no room for its second tensor, and the full disk takes 12 bytes of it. -/
theorem failed_load_abandoned_sample :
    (∃ l k tried,
      loadAmong .alone 0 sampleWide sampleSplit (sampleScene.1, ()) =
        (.error (.outOfCapacity .host 20 12), (l, ())) ∧
      Stopped (sampleWide.keys (planOf sampleWide sampleSplit)) l.cache
        (.outOfCapacity .host 20 12) k tried ∧
      Abandoned sampleScene 0 sampleWide
        ((sampleWide.keys (planOf sampleWide sampleSplit)).take k) tried l) ∧
    ∃ l k tried,
      loadAmong .alone 0 sampleWide ⟨100, 0, 0, 0⟩ (sampleFullScene.1, ()) =
        (.error (.io (.other "No space left on device (os error 28)")), (l, ())) ∧
      Stopped (sampleWide.keys (planOf sampleWide ⟨100, 0, 0, 0⟩)) l.cache
        (.io (.other "No space left on device (os error 28)")) k tried ∧
      Abandoned sampleFullScene 0 sampleWide
        ((sampleWide.keys (planOf sampleWide ⟨100, 0, 0, 0⟩)).take k) tried l := by
  have hidle : Company.Idle .alone := fun _ _ => rfl
  constructor
  · have hrun : Run {} (start sampleDepot 1 sampleSplit) sampleScene := sample_run trivial
    have hr : (loadAmong .alone 0 sampleWide sampleSplit (sampleScene.1, ())).1 =
      .error (.outOfCapacity .host 20 12) := by decide +kernel
    rcases hload : loadAmong .alone 0 sampleWide sampleSplit (sampleScene.1, ()) with ⟨r, l, x⟩
    rw [hload] at hr
    subst hr
    obtain ⟨k, tried, hstopped, habandoned⟩ :=
      failed_load_abandoned hrun sampleDepot_sound hidle hload
    refine ⟨l, k, tried, rfl, hstopped.resolve_left ?_, habandoned⟩
    rintro ⟨-, -, ⟨f, hf⟩ | hf⟩ <;> cases hf
  · have hrun : Run {} (start sampleFullDisk 1 ⟨100, 0, 0, 0⟩) sampleFullScene :=
      .loaded _ _ _ fun _ _ => trivial
    have hr : (loadAmong .alone 0 sampleWide ⟨100, 0, 0, 0⟩ (sampleFullScene.1, ())).1 =
      .error (.io (.other "No space left on device (os error 28)")) := by decide +kernel
    rcases hload : loadAmong .alone 0 sampleWide ⟨100, 0, 0, 0⟩ (sampleFullScene.1, ()) with
      ⟨r, l, x⟩
    rw [hload] at hr
    subst hr
    obtain ⟨k, tried, hstopped, habandoned⟩ :=
      failed_load_abandoned hrun sampleFullDisk_sound hidle hload
    refine ⟨l, k, tried, rfl, hstopped.resolve_left ?_, habandoned⟩
    rintro ⟨-, -, ⟨f, hf⟩ | hf⟩ <;> cases hf

end TieredWeights
