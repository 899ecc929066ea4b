import TieredWeights.Proofs.Cache.Progress
import TieredWeights.Proofs.LoadOutcome

/-!
# Loads in idle company

A company is idle if it leaves the loader alone at every moment; all that it may do is to cancel the
load. A load in idle company stops at one of its parameters, because it is cancelled there or for a
reason of storage, and has by then resolved those before it; or it gathers all, and finds its slot
empty when it commits.
-/
namespace TieredWeights

/-- The others leave the loader alone; they may cancel the load at any moment. -/
def Company.Idle {σ : Type} (company : Company σ) : Prop :=
  ∀ moment w, (company.act moment w).1 = w.1

theorem Company.Idle.act_eq {σ : Type} {company : Company σ} (h : company.Idle) (moment : Moment)
    (l : Loader) (x : σ) : ∃ x', company.act moment (l, x) = (l, x') :=
  ⟨(company.act moment (l, x)).2, Prod.ext (h moment (l, x)) rfl⟩

/-- Where a load over some keys stops: after how many that it has resolved, and how many it has
tried. -/
inductive Stopped (keys : List Key) (c : Cache) : Fault → Nat → Nat → Prop
  | cancelled {k : Nat} (hk : k ≤ keys.length) : Stopped keys c .cancelled k k
  | refused {e : Fault} {k : Nat} {key : Key} (he : e.IsStorage) (hkey : keys[k]? = some key)
      (hnone : c.registered? key = none) : Stopped keys c e k (k + 1)

theorem Stopped.cons {keys : List Key} {c : Cache} {e : Fault} {k tried : Nat}
    (h : Stopped keys c e k tried) (key : Key) : Stopped (key :: keys) c e (k + 1) (tried + 1) := by
  cases h with
  | cancelled hk => exact .cancelled (by simpa using hk)
  | refused he hkey hnone => exact .refused he (by simpa using hkey) hnone

namespace Loader

open Scene

variable {σ : Type} {company : Company σ} {plan : Plan} {key : String × Tensor → Key}
  {held : Multiset PlacementId} {l l' : Loader} {x x' : σ} {index : Nat} {block : Block}

/-- What gathering in idle company leaves, whether it succeeds or not. -/
structure GathersIdly (held : Multiset PlacementId) (l : Loader) (keys : List Key)
    (r : Except Fault Gathered) (l' : Loader) : Prop where
  cacheOnly : l' = { l with cache := l'.cache }
  sound : l'.cache.Sound (gathered r + held) 0
  quiet : l'.cache.Quiet
  progress : (∃ g, r = .ok g ∧ l.cache.Progress keys keys.length l'.cache) ∨
    ∃ e k tried, r = .error e ∧ Stopped keys l'.cache e k tried ∧
      l.cache.Progress (keys.take k) tried l'.cache

/-- Gathering goes on after its first key. -/
theorem GathersIdly.cons {c : Cache} {k : Key} {keys : List Key} {r : Except Fault Gathered}
    (h : GathersIdly held { l with cache := c } keys r l') (hc : l.cache.Progress [k] 1 c) :
    GathersIdly held l (k :: keys) r l' where
  cacheOnly := h.cacheOnly
  sound := h.sound
  quiet := h.quiet
  progress := by
    rcases h.progress with ⟨g, hr, hp⟩ | ⟨e, n, tried, hr, hstopped, hp⟩
    · refine .inl ⟨g, hr, ?_⟩
      have htrans := hc.trans hp
      rwa [Nat.add_comm] at htrans
    · refine .inr ⟨e, n + 1, tried + 1, hr, hstopped.cons k, ?_⟩
      have htrans := hc.trans hp
      rwa [Nat.add_comm] at htrans

/-- References gathered in vain are released. -/
theorem gathersIdly_error {c : Cache} {keys : List Key} {e : Fault} {k tried : Nat}
    {ps : List PlacementId} (hs : c.Sound (↑ps + held) 0) (hquiet : c.Quiet)
    (hstopped : ∀ c' : Cache, (∀ key, c'.registered? key = c.registered? key) →
      Stopped keys c' e k tried)
    (hp : l.cache.Progress (keys.take k) tried c) :
    GathersIdly held l keys (.error e) (Loader.releaseAll { l with cache := c } ps) := by
  obtain ⟨hs', hquiet', hp'⟩ := hs.progress_releaseAll hquiet
  constructor
  case cacheOnly => rfl
  case sound =>
    rw [gathered, zero_add]
    exact hs'
  case quiet => exact hquiet'
  case progress =>
    refine .inr ⟨e, k, tried, rfl, hstopped _ fun key => ?_, ?_⟩
    · exact congrArg (fun slots => (Table.find? slots key).bind KeySlot.registered)
        (releaseAll_slots { l with cache := c } ps)
    · have htrans := hp.trans hp'
      rwa [List.append_nil, Nat.add_zero] at htrans

/-- By induction on what is yet to be gathered. -/
theorem gather_idle (hidle : company.Idle) {before : Nat} {rest : List (String × Tensor)}
    {g : Gathered} {r : Except Fault Gathered}
    (hs : l.cache.Sound (↑g.parameters.values + held) 0) (hquiet : l.cache.Quiet)
    (hnames : (rest.map Prod.fst).Nodup) (hnew : ∀ x ∈ rest, g.parameters.find? x.1 = none)
    (hkey : ∀ x ∈ rest, plan.tierOf? x.1 = some (key x).tier ∧ (key x).identity = x.2.identity)
    (h : gather company plan before rest g (l, x) = (r, (l', x'))) :
    GathersIdly held l (rest.map key) r l' := by
  induction rest generalizing before g l x with
  | nil =>
    cases h
    exact ⟨rfl, hs, hquiet, .inl ⟨g, rfl, .refl _⟩⟩
  | cons y rest ih =>
    obtain ⟨name, t⟩ := y
    obtain ⟨hname, hnames⟩ := List.nodup_cons.1 hnames
    obtain ⟨htier, hidentity⟩ := hkey (name, t) List.mem_cons_self
    rw [gather] at h
    split_ifs at h with hcancelled
    · cases h
      exact gathersIdly_error hs hquiet (fun _ _ => .cancelled (Nat.zero_le _)) (.refl _)
    · obtain ⟨x₁, hact⟩ := hidle.act_eq (.admitted before) l x
      have hself : (⟨t.identity, (key (name, t)).tier⟩ : Key) = key (name, t) := by rw [← hidentity]
      have honest : (Maker.ofTensor t id (key (name, t)).tier).Honest False False
          (key (name, t)).tier := Maker.ofTensor_honest _ t _ (.inr rfl)
      obtain ⟨hcalled, hready⟩ := hs.called hquiet honest
      rcases hr : l.cache.resolve t (key (name, t)).tier with ⟨e | resolved, c⟩ <;>
        simp only [hact, htier, hr] at h
      · have hfault : e.IsStorage := (Cache.resolveAmid_fault hr).1
        rw [Cache.resolve_eq_call, hself] at hr
        rw [hr] at hcalled hready
        obtain ⟨hp, hnone⟩ := hcalled.progress_error hready.later
        cases h
        have hsound := hready.sound
        rw [Cache.given, zero_add] at hsound
        have hrefused : ∀ c' : Cache, (∀ key, c'.registered? key = c.registered? key) →
            Stopped (((name, t) :: rest).map key) c' e 0 1 :=
          fun c' hc' => .refused hfault rfl (by rw [hc', hnone])
        exact gathersIdly_error hsound hready.quiet hrefused hp
      · rw [Cache.resolve_eq_call, hself] at hr
        rw [hr] at hcalled hready
        obtain ⟨x₂, hact'⟩ := hidle.act_eq (.resolved (before + 1)) { l with cache := c } x₁
        rw [hact'] at h
        have hs' : c.Sound (↑(g.add name resolved).parameters.values + held) 0 := by
          have hsound := hready.sound
          rwa [Cache.given, Multiset.singleton_add, ← Multiset.cons_add,
            ← Gathered.values_add (hnew (name, t) List.mem_cons_self)] at hsound
        have hnew' := Gathered.new_add hname (fun y hy => hnew y (List.mem_cons_of_mem _ hy)) resolved
        have hrest := ih (l := { l with cache := c }) hs' hready.quiet hnames hnew'
          (fun y hy => hkey y (List.mem_cons_of_mem _ hy)) h
        exact hrest.cons (hcalled.progress hready.later)

/-- The slot of a block has been emptied, unless it was empty, for it held no map of the block's
names. -/
structure Emptied (l : Loader) (index : Nat) (block : Block) (l' : Loader) : Prop where
  vacated : Vacated l index l'
  missed : ∀ m, ¬ l.HoldsBlock index block m
  counts : l'.cache.hits = l.cache.hits ∧ l'.cache.misses = l.cache.misses

theorem dismiss_counts (l : Loader) {index : Nat} {m : MapId} (hindex : index < l.store.size)
    (hheld : l.store.held.find? index = some m) (n : Notice) :
    (l.dismiss index m n).cache.hits = l.cache.hits ∧
      (l.dismiss index m n).cache.misses = l.cache.misses := by
  have hclear := clearBlockIf_eq (l := note { l with store := l.store.retain m } n) hindex hheld
  rw [dismiss, hclear, dropMap]
  constructor <;> simp [releaseAll, note, Cache.note]

/-- The block store refuses a block out of range, serves the load, or has the slot emptied. -/
theorem consultStore_idle (hidle : company.Idle) {attempt : Nat} {maps : Multiset MapId}
    {r : Except Fault (Option Handle)} (hs : l.store.Sound maps)
    (h : consultStore company index block attempt (l, x) = (r, (l', x'))) :
    (r = .error (.blockOutOfRange index l.store.size) ∧ l' = l) ∨
      (∃ handle, r = .ok (some handle)) ∨
      r = .ok none ∧ index < l.store.size ∧ Emptied l index block l' := by
  unfold consultStore at h
  rcases loadMap_cases l index with ⟨-, hload⟩ | ⟨hindex, ⟨hheld, hload⟩ | ⟨m, hheld, hload⟩⟩ <;>
    simp only [hload] at h
  · cases h
    exact .inl ⟨rfl, rfl⟩
  · obtain ⟨x₁, hact⟩ := hidle.act_eq (.consulted attempt) l x
    rw [hact] at h
    cases h
    refine .inr (.inr ⟨rfl, hindex, ⟨fun _ _ => .refl _, rfl, ?_, rfl, fun _ _ hm => hm⟩, ?_, rfl,
      rfl⟩)
    · exact (Table.erase_eq_self hheld).symm
    · rintro m ⟨parameters, hheld', -⟩
      rw [hheld] at hheld'
      cases hheld'
  · obtain ⟨y, hy⟩ := hs.find?_held hheld
    have hmap := BlockStore.map?_of_find? hy
    simp only [BlockStore.map?_retain, hmap, Option.getD_some] at h
    split_ifs at h with hmatch
    · cases h
      exact .inr (.inl ⟨_, rfl⟩)
    · have hclear := clearBlockIf_eq
        (l := note { l with store := l.store.retain m } (.mismatch index block.names y.parameters.keys))
        hindex hheld
      obtain ⟨x₁, hact⟩ := hidle.act_eq (.consulted attempt)
        (note { l with store := l.store.retain m } (.mismatch index block.names y.parameters.keys)) x
      simp only [hact, hclear] at h
      obtain ⟨x₂, hact'⟩ := hidle.act_eq (.dismissed attempt)
        (l.dismiss index m (.mismatch index block.names y.parameters.keys)) x₁
      rw [dismiss, hclear] at hact'
      rw [hact'] at h
      cases h
      have hvacated := dismiss_vacated hindex hheld (.mismatch index block.names y.parameters.keys)
      have hcounts := dismiss_counts l hindex hheld (.mismatch index block.names y.parameters.keys)
      rw [dismiss, hclear] at hvacated hcounts
      have hmissed : ∀ m', ¬ l.HoldsBlock index block m' :=
        fun m' hholds => hmatch ((holdsBlock_iff hheld hmap).1 hholds).2
      exact .inr (.inr ⟨rfl, hindex, hvacated, hmissed, hcounts⟩)

/-- A commit to an empty slot fails only if it is cancelled. -/
theorem commit_idle (hidle : company.Idle) {attempt : Nat} {g : Gathered}
    {r : Except Fault (Option Handle)} (hindex : index < l.store.size)
    (hheld : l.store.held.find? index = none)
    (h : commit company index attempt g (l, x) = (r, (l', x'))) :
    (∃ handle, r = .ok (some handle)) ∨
      r = .error .cancelled ∧ l' = l.releaseAll g.parameters.values := by
  unfold commit at h
  split_ifs at h with hcancelled
  · cases h
    exact .inr ⟨rfl, rfl⟩
  · obtain ⟨x₁, hact⟩ := hidle.act_eq (.approved attempt) l x
    simp only [hact, storeMap, BlockStore.store_vacant hindex hheld] at h
    cases h
    exact .inl ⟨_, rfl⟩

end Loader

end TieredWeights
