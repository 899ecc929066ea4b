import TieredWeights.Proofs.Cache.Stock
import TieredWeights.Proofs.LoadOutcome

/-!
# Loads into stock

A load that nobody disturbs and that finds its slot empty brings the keys of its block into stock,
and holds a reference for each of its parameters. It fails only if the pools cannot accommodate
these keys besides those that are there.
-/
namespace TieredWeights.Loader

open Scene

variable {depot : Depot} {keys : Finset Key} {held : Multiset PlacementId} {l : Loader} {plan : Plan}
  {key : String × Tensor → Key} {index returns : Nat} {block : Block} {split : Split Binary64}
  {g : Gathered} {c : Cache}

/-- Parameters are gathered and their keys are in stock, unless the pools cannot accommodate these.
By induction on what is yet to be gathered. -/
theorem gather_stocked (htidy : depot.Tidy) (before : Nat) {rest : List (String × Tensor)}
    (hstock : l.cache.Stock depot keys (↑g.parameters.values + held))
    (hreturned : rest ≠ [] → l.cache.depot.Returned returns)
    (hnames : (rest.map Prod.fst).Nodup) (hnew : ∀ x ∈ rest, g.parameters.find? x.1 = none)
    (hkey : ∀ x ∈ rest, plan.tierOf? x.1 = some (key x).tier ∧ (key x).identity = x.2.identity) :
    (∃ e w, gather .alone plan before rest g (l, ()) = (.error e, w) ∧
        ¬ depot.Accommodates (keys ∪ (rest.map key).toFinset) (l.cache.misses + rest.length)
          returns) ∨
      ∃ g' c, gather .alone plan before rest g (l, ()) = (.ok g', ({ l with cache := c }, ())) ∧
        c.Stock depot (keys ∪ (rest.map key).toFinset) (↑g'.parameters.values + held) ∧
        l.cache.Gains keys (keys ∪ (rest.map key).toFinset) rest.length c ∧
        g'.parameters.values.length = g.parameters.values.length + rest.length := by
  induction rest generalizing before keys g l with
  | nil =>
    refine .inr ⟨g, l.cache, rfl, ?_, ?_, rfl⟩
    · simpa using hstock
    · simpa using Cache.Gains.refl keys l.cache
  | cons x rest ih =>
    obtain ⟨hname, hnames⟩ := List.nodup_cons.1 hnames
    obtain ⟨htier, hidentity⟩ := hkey x List.mem_cons_self
    have hself : (⟨x.2.identity, (key x).tier⟩ : Key) = key x := by rw [← hidentity]
    have hkeys : keys ∪ ((x :: rest).map key).toFinset =
        insert (key x) keys ∪ (rest.map key).toFinset := by
      rw [List.map_cons, List.toFinset_cons, Finset.union_insert, Finset.insert_union]
    rw [gather_alone_cons htier, hkeys]
    rcases hr : l.cache.resolve x.2 (key x).tier with ⟨r, c⟩
    have hcall := hr
    rw [Cache.resolve_eq_call] at hcall
    have hback := hreturned (List.cons_ne_nil x rest)
    rcases hstock.call htidy hback hcall with ⟨e, rfl, hfull⟩ | ⟨r, rfl, hstocked, hgains⟩
    · rw [hself] at hfull
      refine .inl ⟨e, _, rfl, fun hall => hfull (hall.mono Finset.subset_union_left ?_)⟩
      rw [List.length_cons]
      omega
    · rw [hself] at hstocked hgains
      have hvalues := Gathered.values_add (hnew x List.mem_cons_self) r
      rw [← Multiset.cons_add, ← hvalues] at hstocked
      have hlength := congrArg Multiset.card hvalues
      rw [Multiset.coe_card, Multiset.card_cons, Multiset.coe_card] at hlength
      have hnew' := Gathered.new_add hname (fun y hy => hnew y (List.mem_cons_of_mem _ hy)) r
      rcases ih (before + 1) (l := { l with cache := c }) hstocked
        (fun _ => hgains.terms.returned hback) hnames hnew'
        (fun y hy => hkey y (List.mem_cons_of_mem _ hy)) with
        ⟨e, w, hg, hfull⟩ | ⟨g', c', hg, hstocked', hgains', hcount⟩
      · refine .inl ⟨e, w, hg, fun hall => hfull (hall.mono subset_rfl ?_)⟩
        have hmisses := hgains.misses
        have hcard := Finset.card_insert_le (key x) keys
        rw [List.length_cons]
        change c.misses + rest.length ≤ _
        omega
      · refine .inr ⟨g', c', hg, hstocked', ?_, ?_⟩
        · rw [List.length_cons, Nat.add_comm]
          exact hgains.trans hgains'
        · rw [hcount, hlength, List.length_cons]
          omega

/-- What a load has gathered from which nothing was missing. -/
structure Collected (depot : Depot) (keys : Finset Key) (held : Multiset PlacementId) (c₀ : Cache)
    (block : Block) (plan : Plan) (g : Gathered) (c : Cache) : Prop where
  stock : c.Stock depot (keys ∪ (block.keys plan).toFinset) (↑g.parameters.values + held)
  gains : c₀.Gains keys (keys ∪ (block.keys plan).toFinset) block.size c
  values : g.parameters.values.length = block.size
  bound : ∀ key, key ∈ block.keys plan ↔
    ∃ p ∈ g.parameters.values, c.registered? key = some p
  counted : g.placed + g.reused = block.size
  placed : g.placed + keys.card = (keys ∪ (block.keys plan).toFinset).card

/-- A load that fails has no place for a key; otherwise it has collected all. -/
theorem gather_collected (htidy : depot.Tidy) (before : Nat) (block : Block)
    (brackets : Brackets Binary64) (hstock : l.cache.Stock depot keys held)
    (hreturned : block.parameters ≠ [] → l.cache.depot.Returned returns) :
    (∃ e w, gather .alone (brackets.assign block.sizes) before block.parameters {} (l, ()) =
        (.error e, w) ∧
      ¬ depot.Accommodates (keys ∪ (block.keys (brackets.assign block.sizes)).toFinset)
        (l.cache.misses + block.size) returns) ∨
      ∃ g c, gather .alone (brackets.assign block.sizes) before block.parameters {} (l, ()) =
          (.ok g, ({ l with cache := c }, ())) ∧
        Collected depot keys held l.cache block (brackets.assign block.sizes) g c := by
  have hempty : ((({} : Gathered).parameters.values : Multiset PlacementId)) = 0 := rfl
  have hstock' : l.cache.Stock depot keys (↑({} : Gathered).parameters.values + held) := by
    rwa [hempty, zero_add]
  rw [Block.keys_assign]
  rcases gather_stocked htidy before hstock' hreturned block.distinct (fun _ _ => rfl)
    (fun x hx => brackets.tierOf?_keyOf block hx) with
    ⟨e, w, hg, hfull⟩ | ⟨g, c, hg, hstocked, hgains, hvalues⟩
  · exact .inl ⟨e, w, hg, hfull⟩
  rcases gather_alone before hstock'.sound hstock'.quiet block.distinct (fun _ _ => rfl)
    (fun x hx => brackets.tierOf?_keyOf block hx) with ⟨e, w, he, -⟩ | ⟨g', l', hg', hgathers⟩
  · rw [hg] at he
    cases he
  rw [hg] at hg'
  cases hg'
  refine .inr ⟨g, c, hg, ?_⟩
  constructor
  case stock => rwa [Block.keys_assign]
  case gains => rwa [Block.keys_assign]
  case values => exact hvalues.trans (Nat.zero_add _)
  case bound =>
    intro k
    rw [Block.keys_assign, List.mem_map]
    constructor
    · rintro ⟨x, hx, rfl⟩
      obtain ⟨p, q, hp, hq, hkey⟩ := hgathers.bound x hx
      exact ⟨p, Table.mem_values.2 ⟨x.1, hp⟩, hstocked.registered?_eq_some.2 ⟨q, hq, hkey⟩⟩
    · rintro ⟨p, hp, hregistered⟩
      obtain ⟨q, hq, rfl⟩ := hstocked.registered?_eq_some.1 hregistered
      obtain ⟨name, hname⟩ := Table.mem_values.1 hp
      by_cases hmem : name ∈ block.parameters.map Prod.fst
      · obtain ⟨x, hx, rfl⟩ := List.mem_map.1 hmem
        obtain ⟨p', q', hp', hq', hkey⟩ := hgathers.bound x hx
        rw [hname, Option.some.injEq] at hp'
        subst hp'
        rw [hq, Option.some.injEq] at hq'
        exact ⟨x, hx, by rw [hq', hkey]⟩
      · rw [hgathers.others name hmem] at hname
        cases hname
  case counted => exact hgathers.counted.trans (Nat.zero_add _)
  case placed =>
    have hnew : l.cache.unregistered (block.parameters.map
        (Block.keyOf (brackets.assign block.sizes))) =
          (block.parameters.map (Block.keyOf (brackets.assign block.sizes))).toFinset \ keys := by
      ext k
      rw [Cache.mem_unregistered, Finset.mem_sdiff, List.mem_toFinset, ← hstock.registered,
        Bool.not_eq_true, Option.isSome_eq_false_iff, Option.isNone_iff_eq_none]
    have hplaced := hgathers.placed
    rw [hnew] at hplaced
    rw [Block.keys_assign, Finset.union_comm, ← Finset.card_sdiff_add_card, hplaced]
    exact congrArg (· + keys.card) (Nat.zero_add _)

/-- The loader that commits what was gathered to the empty slot of a block. -/
def committed (l : Loader) (index : Nat) (g : Gathered) (c : Cache) : Loader :=
  countLoaded { l with
    reuse := { l.reuse with blockLoads := l.reuse.blockLoads + 1 }
    cache := c
    store := { l.store with
      held := l.store.held.insert index l.store.mapsMade
      maps := l.store.maps.insert l.store.mapsMade ⟨g.parameters, 2⟩
      mapsMade := l.store.mapsMade + 1 } } g.placed g.reused

/-- A load for an empty slot brings the keys of its block into stock, unless the pools cannot
accommodate them besides the others. -/
theorem load_stocked (htidy : depot.Tidy) (hstock : l.cache.Stock depot keys held)
    (hreturned : block.parameters ≠ [] → l.cache.depot.Returned returns)
    (hsplit : split.validate = .ok ()) (hindex : index < l.store.size)
    (hheld : l.store.held.find? index = none) :
    (∃ e l', l.load index block split = (.error e, l') ∧
      ¬ depot.Accommodates (keys ∪ (block.keys (planOf block split)).toFinset)
        (l.cache.misses + block.size) returns) ∨
    ∃ g c, l.load index block split =
        (.ok ⟨index, l.store.mapsMade, .loaded g.placed g.reused 1⟩, l.committed index g c) ∧
      Collected depot keys held l.cache block (planOf block split) g c := by
  obtain ⟨brackets, hbrackets⟩ := Split.ofSplit_of_validate hsplit
  have hplan : planOf block split = brackets.assign block.sizes := by
    rw [planOf, hbrackets]
  have hload : ∀ r w, attempts .alone index block (brackets.assign block.sizes) commitAttempts 0
        ({ l with reuse := { l.reuse with blockLoads := l.reuse.blockLoads + 1 } }, ()) = (r, w) →
      l.load index block split = (r, w.1) := by
    intro r w hw
    simp only [Loader.load, loadAmong, hbrackets, alone_act, hw]
  have hconsult := consultStore_alone_vacant block 1
    (l := { l with reuse := { l.reuse with blockLoads := l.reuse.blockLoads + 1 } }) hindex hheld
  rw [hplan]
  rcases gather_collected
    (l := { l with reuse := { l.reuse with blockLoads := l.reuse.blockLoads + 1 } }) htidy 0 block
    brackets hstock hreturned with ⟨e, w, hg, hfull⟩ | ⟨g, c, hg, hcollected⟩
  · exact .inl ⟨e, w.1, hload _ w (attempts_of_refused hconsult hg), hfull⟩
  · have hcommit := commit_alone 1 (l := { l with
        reuse := { l.reuse with blockLoads := l.reuse.blockLoads + 1 }, cache := c }) hindex hheld g
    exact .inr ⟨g, c, hload _ _ (attempts_of_commit hconsult hg hcommit), hcollected⟩

end TieredWeights.Loader
