import Mathlib.Data.Multiset.Bind
import TieredWeights.BlockStore
import TieredWeights.Proofs.Bindings

/-!
# Sound block stores

A block store is sound for the maps that others hold if every map counts its holders: the slots
that hold it and the holders outside. The references of a store are the parameters of all its maps,
a shared map counted once; an operation that ends a map returns just the references that go.
-/
namespace TieredWeights.BlockStore

/-- The references of a map. -/
def ofMap (x : ParameterMap) : Multiset PlacementId := x.parameters.values

/-- The references of all maps, each map counted once. -/
def references (s : BlockStore) : Multiset PlacementId :=
  (s.maps.values : Multiset ParameterMap).bind ofMap

def holders (s : BlockStore) (m : MapId) : Nat := ((s.maps.find? m).map (·.holders)).getD 0

/-- Every map is held by slots and by others, as often as it counts. -/
structure Sound (s : BlockStore) (outside : Multiset MapId) : Prop where
  counted : ∀ m, s.holders m = ((s.held.values : Multiset MapId) + outside).count m
  positive : ∀ m x, s.maps.find? m = some x → 0 < x.holders
  within : ∀ block m, s.held.find? block = some m → block < s.size
  numbered : ∀ m x, s.maps.find? m = some x → m < s.mapsMade

variable {s s' : BlockStore} {outside outside' : Multiset MapId} {m : MapId} {x : ParameterMap}
  {block : Nat}

theorem sound_empty (size : Nat) : Sound { size } 0 where
  counted _ := rfl
  positive _ _ h := nomatch h
  within _ _ h := nomatch h
  numbered _ _ h := nomatch h

theorem holders_of_find? (h : s.maps.find? m = some x) : s.holders m = x.holders := by
  rw [holders, h]
  rfl

theorem map?_of_find? (h : s.maps.find? m = some x) : s.map? m = some x.parameters := by
  rw [map?, h, Option.map_some]

theorem Sound.find?_of_mem (h : s.Sound outside)
    (hm : m ∈ (s.held.values : Multiset MapId) + outside) : ∃ x, s.maps.find? m = some x := by
  cases hx : s.maps.find? m with
  | some x => exact ⟨x, rfl⟩
  | none =>
    have hcount := h.counted m
    rw [holders, hx] at hcount
    exact absurd (Multiset.count_pos.2 hm) (by rw [← hcount]; exact Nat.lt_irrefl 0)

theorem Sound.find?_held (h : s.Sound outside) (hm : s.held.find? block = some m) :
    ∃ x, s.maps.find? m = some x :=
  h.find?_of_mem (Multiset.mem_add.2 (.inl (Multiset.mem_coe.2 (Table.mem_values.2 ⟨block, hm⟩))))

theorem references_insert (h : s.maps.find? m = some x) {n : Nat} :
    references { s with maps := s.maps.insert m { x with holders := n } } = s.references := by
  rw [references, references, Table.values_insert, Table.values_of_find? h, Multiset.cons_bind,
    Multiset.cons_bind]
  rfl

theorem references_erase (h : s.maps.find? m = some x) :
    s.references = ofMap x + references { s with maps := s.maps.erase m } := by
  rw [references, Table.values_of_find? h, Multiset.cons_bind, references]

/-- What a map binds is a reference of the store. -/
theorem mem_references {parameters : Table String PlacementId} {name : String} {p : PlacementId}
    (hm : s.map? m = some parameters) (hp : parameters.find? name = some p) :
    p ∈ s.references := by
  obtain ⟨x, hx, rfl⟩ := Option.map_eq_some_iff.1 hm
  rw [references_erase hx]
  exact Multiset.mem_add.2 (.inl (Multiset.mem_coe.2 (Table.mem_values.2 ⟨name, hp⟩)))

/-- A store in which one map has come, changed or gone. -/
theorem Sound.of_find? (h : s.Sound outside) {r : Option ParameterMap}
    (hfind : ∀ m', s'.maps.find? m' = if m' = m then r else s.maps.find? m')
    (hr : ∀ x ∈ r, 0 < x.holders ∧ m < s'.mapsMade) (hmade : s.mapsMade ≤ s'.mapsMade)
    (counted : ∀ m', s'.holders m' = ((s'.held.values : Multiset MapId) + outside').count m')
    (within : ∀ block m', s'.held.find? block = some m' → block < s'.size) :
    s'.Sound outside' := by
  refine ⟨counted, fun m' x' hm' => ?_, within, fun m' x' hm' => ?_⟩
  all_goals
    rw [hfind] at hm'
    split_ifs at hm' with he
  · exact (hr x' hm').1
  · exact h.positive m' x' hm'
  · exact he ▸ (hr x' hm').2
  · exact (h.numbered m' x' hm').trans_le hmade

/-- A map that counts its holders anew. -/
theorem Sound.recounted (h : s.Sound outside) (hm : s.maps.find? m = some x) {n : Nat}
    (hn : 0 < n) (hself : n = ((s.held.values : Multiset MapId) + outside').count m)
    (hother : ∀ m', m' ≠ m → outside'.count m' = outside.count m') :
    Sound { s with maps := s.maps.insert m { x with holders := n } } outside' := by
  refine h.of_find? (fun m' => Table.find?_insert _ _ _ _) (fun x' hx' => ?_) le_rfl
    (fun m' => ?_) h.within
  · cases hx'
    exact ⟨hn, h.numbered m x hm⟩
  · by_cases he : m' = m
    · rw [he, holders, Table.find?_insert_self]
      exact hself
    · rw [holders, Table.find?_insert_ne _ _ he, Multiset.count_add, hother m' he,
        ← Multiset.count_add]
      exact h.counted m'

/-- One more holder outside. -/
theorem Sound.retain (h : s.Sound outside) (hm : s.maps.find? m = some x) :
    (s.retain m).Sound (m ::ₘ outside) ∧ (s.retain m).references = s.references := by
  have he : s.retain m = { s with maps := s.maps.insert m { x with holders := x.holders + 1 } } := by
    rw [BlockStore.retain, Table.modify, hm]
  rw [he]
  refine ⟨h.recounted hm (Nat.succ_pos _) ?_ fun m' hm' => Multiset.count_cons_of_ne hm' outside,
    references_insert hm⟩
  have hcount := h.counted m
  rw [holders_of_find? hm] at hcount
  rw [Multiset.add_cons, Multiset.count_cons_self, hcount]

/-- One holder outside less. The references that go are returned. -/
theorem Sound.drop (h : s.Sound (m ::ₘ outside)) :
    (s.drop m).2.Sound outside ∧ s.references = ↑(s.drop m).1 + (s.drop m).2.references := by
  obtain ⟨x, hm⟩ := h.find?_of_mem (m := m) (by simp)
  have hcount := h.counted m
  rw [holders_of_find? hm, Multiset.add_cons, Multiset.count_cons_self] at hcount
  simp only [BlockStore.drop, hm]
  split_ifs with hlast
  · have hzero : ((s.held.values : Multiset MapId) + outside).count m = 0 := by omega
    refine ⟨h.of_find? (fun m' => Table.find?_erase _ _ _) (fun _ hx => by cases hx) le_rfl
      (fun m' => ?_) h.within, references_erase hm⟩
    by_cases he : m' = m
    · rw [he, holders, Table.find?_erase_self]
      exact hzero.symm
    · rw [holders, Table.find?_erase_ne _ he]
      have hother := h.counted m'
      rwa [Multiset.add_cons, Multiset.count_cons_of_ne he] at hother
  · refine ⟨h.recounted hm (by omega) (by omega) fun m' he => ?_, ?_⟩
    · exact (Multiset.count_cons_of_ne he outside).symm
    · rw [references_insert hm, Multiset.coe_nil, zero_add]

/-- Holders more or less change the maps alone, and no map's parameters. -/
theorem drop_eq (s : BlockStore) (m : MapId) : ∃ maps, (s.drop m).2 = { s with maps } := by
  unfold drop
  split
  · exact ⟨_, rfl⟩
  · split_ifs <;> exact ⟨_, rfl⟩

theorem drop_held (s : BlockStore) (m : MapId) : (s.drop m).2.held = s.held := by
  obtain ⟨_, he⟩ := drop_eq s m
  rw [he]

theorem drop_size (s : BlockStore) (m : MapId) : (s.drop m).2.size = s.size := by
  obtain ⟨_, he⟩ := drop_eq s m
  rw [he]

theorem map?_of_drop {m' : MapId} {parameters : Table String PlacementId}
    (h : (s.drop m).2.map? m' = some parameters) : s.map? m' = some parameters := by
  unfold drop at h
  split at h
  · exact h
  · rename_i x hx
    split_ifs at h
    · rw [map?, Table.find?_erase] at h
      split_ifs at h
      · cases h
      · exact h
    · rw [map?, Table.find?_insert] at h
      split_ifs at h with he
      · rw [he, map?, hx]
        exact h
      · exact h

theorem map?_retain (s : BlockStore) (m m' : MapId) : (s.retain m).map? m' = s.map? m' := by
  rw [map?, BlockStore.retain, Table.find?_modify, map?]
  split_ifs with he
  · rw [he, Option.map_map]
    rfl
  · rfl

/-- A slot that is emptied gives its hold away, which is then dropped. -/
theorem Sound.empty (h : s.Sound outside) (hm : s.held.find? block = some m) :
    (s.empty block m).2.Sound outside ∧
      s.references = ↑(s.empty block m).1 + (s.empty block m).2.references := by
  have hs : Sound { s with held := s.held.erase block } (m ::ₘ outside) := by
    refine { h with counted := fun m' => ?_, within := fun b m' hm' => ?_ }
    · have hcount := h.counted m'
      rw [Table.values_of_find? hm, Multiset.cons_add, ← Multiset.add_cons] at hcount
      exact hcount
    · rw [Table.find?_erase] at hm'
      split_ifs at hm'
      exact h.within b m' hm'
  exact hs.drop

theorem empty_held (s : BlockStore) (block : Nat) (m : MapId) :
    (s.empty block m).2.held = s.held.erase block := drop_held _ _

/-- An empty slot takes the next map; it and the caller hold it. -/
theorem store_vacant (hblock : block < s.size) (hheld : s.held.find? block = none)
    (parameters : Table String PlacementId) : s.store block parameters = (.ok s.mapsMade, { s with
      held := s.held.insert block s.mapsMade
      maps := s.maps.insert s.mapsMade ⟨parameters, 2⟩
      mapsMade := s.mapsMade + 1 }) := by
  simp only [BlockStore.store, held?, hblock, if_true, hheld]

/-- The next map gets a name that no map has. -/
theorem Sound.find?_mapsMade (h : s.Sound outside) : s.maps.find? s.mapsMade = none := by
  cases hx : s.maps.find? s.mapsMade with
  | none => rfl
  | some x => exact absurd (h.numbered _ x hx) (Nat.lt_irrefl _)

/-- The caller and the slot hold the map that is stored. -/
theorem Sound.store {parameters : Table String PlacementId} {r : Except Fault MapId}
    (h : s.Sound outside) (hstore : s.store block parameters = (r, s')) :
    (∃ e, r = .error e ∧ s' = s) ∨
      r = .ok s.mapsMade ∧ block < s.size ∧ s.held.find? block = none ∧
        s'.Sound (s.mapsMade ::ₘ outside) ∧ s'.references = ↑parameters.values + s.references ∧
        s'.held = s.held.insert block s.mapsMade ∧
        s'.maps = s.maps.insert s.mapsMade ⟨parameters, 2⟩ := by
  have hfresh := h.find?_mapsMade
  unfold BlockStore.store held? at hstore
  by_cases hlt : block < s.size
  · rw [if_pos hlt] at hstore
    cases hheld : s.held.find? block with
    | some m =>
      rw [hheld] at hstore
      cases hstore
      exact .inl ⟨_, rfl, rfl⟩
    | none =>
      rw [hheld] at hstore
      cases hstore
      refine .inr ⟨rfl, hlt, rfl, h.of_find? (fun m => Table.find?_insert _ _ _ _) (fun x hx => ?_)
        (Nat.le_succ _) (fun m => ?_) (fun b m hm => ?_), ?_, rfl, rfl⟩
      · cases hx
        exact ⟨Nat.two_pos, Nat.lt_succ_self _⟩
      · have hcount := h.counted m
        rw [Table.values_insert_new hheld, Multiset.cons_add, Multiset.add_cons, Multiset.count_cons,
          Multiset.count_cons, ← hcount, holders, Table.find?_insert]
        split_ifs with he
        · rw [he, holders, hfresh]
          rfl
        · rfl
      · rw [Table.find?_insert] at hm
        split_ifs at hm with he
        · exact he ▸ hlt
        · exact h.within b m hm
      · rw [references, Table.values_insert_new hfresh, Multiset.cons_bind]
        rfl
  · rw [if_neg hlt] at hstore
    cases hstore
    exact .inl ⟨_, rfl, rfl⟩

/-- What an answer of the store holds. -/
def found : Except Fault (Option MapId) → Multiset MapId
  | .ok (some m) => {m}
  | _ => 0

theorem Sound.load (h : s.Sound outside) (block : Nat) :
    (s.load block).2.Sound (found (s.load block).1 + outside) ∧
      (s.load block).2.references = s.references := by
  have hsame : s.Sound (0 + outside) ∧ s.references = s.references := ⟨by rwa [zero_add], rfl⟩
  unfold BlockStore.load held?
  by_cases hlt : block < s.size
  · rw [if_pos hlt]
    cases hheld : s.held.find? block with
    | none => exact hsame
    | some m =>
      obtain ⟨x, hm⟩ := h.find?_held hheld
      rw [found, Multiset.singleton_add]
      exact h.retain hm
  · rw [if_neg hlt]
    exact hsame

/-- A slot is emptied, or the store is left alone. -/
theorem clear_cases (s : BlockStore) (block : Nat) : (s.clear block).2 = ([], s) ∨
    ∃ m, s.held.find? block = some m ∧ (s.clear block).2 = s.empty block m := by
  unfold BlockStore.clear held?
  by_cases hlt : block < s.size
  · rw [if_pos hlt]
    cases hheld : s.held.find? block with
    | none => exact .inl rfl
    | some m => exact .inr ⟨m, rfl, rfl⟩
  · rw [if_neg hlt]
    exact .inl rfl

/-- A slot that holds the map is emptied, or the store is left alone. -/
theorem clearIf_cases (s : BlockStore) (block : Nat) (m : MapId) :
    (s.clearIf block m).2 = ([], s) ∨
      s.held.find? block = some m ∧ (s.clearIf block m).2 = s.empty block m := by
  unfold BlockStore.clearIf held?
  by_cases hlt : block < s.size
  · rw [if_pos hlt]
    by_cases hheld : s.held.find? block = some m
    · exact .inr ⟨hheld, by simp only [hheld, if_true]⟩
    · exact .inl (by simp only [hheld, if_false])
  · rw [if_neg hlt]
    exact .inl rfl

theorem Sound.clear (h : s.Sound outside) (block : Nat) :
    (s.clear block).2.2.Sound outside ∧
      s.references = ↑(s.clear block).2.1 + (s.clear block).2.2.references := by
  rcases clear_cases s block with he | ⟨m, hheld, he⟩
  · rw [he]
    exact ⟨h, (zero_add _).symm⟩
  · rw [he]
    exact h.empty hheld

theorem Sound.clearIf (h : s.Sound outside) (block : Nat) (m : MapId) :
    (s.clearIf block m).2.2.Sound outside ∧
      s.references = ↑(s.clearIf block m).2.1 + (s.clearIf block m).2.2.references := by
  rcases clearIf_cases s block m with he | ⟨hheld, he⟩
  · rw [he]
    exact ⟨h, (zero_add _).symm⟩
  · rw [he]
    exact h.empty hheld

/-- The slots of different bindings are emptied one after another. -/
theorem Sound.clearEach {bindings : List (Nat × MapId)} (h : s.Sound outside)
    (hb : ∀ b ∈ bindings, s.held.find? b.1 = some b.2) (hnodup : (bindings.map Prod.fst).Nodup) :
    (s.clearEach bindings).2.Sound outside ∧
      s.references = ↑(s.clearEach bindings).1 + (s.clearEach bindings).2.references := by
  induction bindings generalizing s with
  | nil => exact ⟨h, (zero_add _).symm⟩
  | cons b rest ih =>
    obtain ⟨block, m⟩ := b
    obtain ⟨hnot, hnodup⟩ := List.nodup_cons.1 hnodup
    obtain ⟨hs, hreferences⟩ := h.empty (hb (block, m) List.mem_cons_self)
    have hrest : ∀ b ∈ rest, (s.empty block m).2.held.find? b.1 = some b.2 := fun b hmem => by
      have hne : b.1 ≠ block := fun he => hnot (List.mem_map.2 ⟨b, hmem, he⟩)
      rw [empty_held, Table.find?_erase_ne _ hne]
      exact hb b (List.mem_cons_of_mem _ hmem)
    obtain ⟨hs', hreferences'⟩ := ih hs hrest hnodup
    refine ⟨hs', ?_⟩
    rw [hreferences, hreferences', ← add_assoc, Multiset.coe_add]
    rfl

theorem Sound.clearAll (h : s.Sound outside) :
    s.clearAll.2.2.Sound outside ∧ s.references = ↑s.clearAll.2.1 + s.clearAll.2.2.references :=
  h.clearEach (fun _ hb => Table.mem_toList.1 hb) (Table.nodup_keys s.held)

end TieredWeights.BlockStore
