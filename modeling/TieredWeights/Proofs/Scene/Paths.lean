import TieredWeights.Proofs.Scene

/-!
# Operations are paths

What an operation of a loader does to references is a path of single deeds of its cache. `Sim` says
so of one operation: if the store was sound for the maps that the users hold, it still is, and the
references of the maps and of the users change along a path. Operations that end maps release just
the references that go with them.
-/
namespace TieredWeights.Scene

/-- The references of a scene: those of its maps and those of its users. -/
def tally (w : Scene) : Tally := ⟨w.1.cache, w.1.store.references + w.2.entries, w.2.calls⟩

/-- A scene came of another along a path. -/
def Sim (permits : Permits) (w w' : Scene) : Prop :=
  w.1.store.Sound w.2.maps →
    w'.1.store.Sound w'.2.maps ∧ Tally.Path permits w.tally w'.tally

/-- A scene came of another, whatever references and maps are held besides. -/
def Refines (permits : Permits) (w w' : Scene) : Prop :=
  ∀ entries maps, Sim permits (w.1, w.2.and entries maps) (w'.1, w'.2.and entries maps)

variable {permits : Permits} {w w' w'' : Scene} {l l' : Loader} {u u' : Users}

namespace Sim

theorem refl (w : Scene) : Sim permits w w := fun h => ⟨h, .refl⟩

theorem trans (h : Sim permits w w') (h' : Sim permits w' w'') : Sim permits w w'' := fun hs => by
  obtain ⟨hs', hpath⟩ := h hs
  obtain ⟨hs'', hpath'⟩ := h' hs'
  exact ⟨hs'', hpath.trans hpath'⟩

/-- An operation on the cache alone. -/
theorem ofPath {c : Cache} (hmaps : u'.maps = u.maps)
    (h : l.store.Sound u.maps → Tally.Path permits (tally (l, u))
      ⟨c, l.store.references + u'.entries, u'.calls⟩) :
    Sim permits (l, u) ({ l with cache := c }, u') := fun hs =>
  ⟨hmaps ▸ hs, h hs⟩

/-- A single deed on the cache, which leaves what users hold. -/
theorem ofStep {c : Cache} (h : Tally.Step permits (tally (l, u)) { tally (l, u) with cache := c }) :
    Sim permits (l, u) ({ l with cache := c }, u) := ofPath rfl fun _ => .single h

theorem note (n : Notice) : Sim permits (l, u) (l.note n, u) := ofStep (.note n)

/-- References that leave the store are released. -/
theorem ofReleased {store : BlockStore} {released : List PlacementId}
    (hentries : u'.entries = u.entries) (hcalls : u'.calls = u.calls)
    (h : l.store.Sound u.maps → store.Sound u'.maps ∧
      l.store.references = ↑released + store.references) :
    Sim permits (l, u) (Loader.releaseAll { l with store } released, u') := fun hs => by
  obtain ⟨hs', hreferences⟩ := h hs
  refine ⟨hs', ?_⟩
  have hpath : Tally.Path permits _ _ := Tally.Path.releaseAll l.cache
    (store.references + u.entries) u.calls released
  rw [← add_assoc, ← hreferences] at hpath
  have he : tally (Loader.releaseAll { l with store } released, u') =
      ⟨l.cache.releaseAll released, store.references + u.entries, u.calls⟩ := by
    rw [← hentries, ← hcalls]
    rfl
  rw [he]
  exact hpath

/-- References that users give up are released. -/
theorem ofGivenUp {released : List PlacementId} (hmaps : u'.maps = u.maps)
    (hcalls : u'.calls = u.calls) (hentries : u.entries = ↑released + u'.entries) :
    Sim permits (l, u) (l.releaseAll released, u') := by
  refine ofPath hmaps fun _ => ?_
  have hpath : Tally.Path permits _ _ := Tally.Path.releaseAll l.cache
    (l.store.references + u'.entries) u.calls released
  rw [add_left_comm, ← hentries] at hpath
  rw [hcalls]
  exact hpath

/-- A reference to a placement that is referenced anyway. -/
theorem retain {p : PlacementId} (h : l.store.Sound u.maps →
      p ∈ Cache.registrationsOf l.cache.slots + (l.store.references + u.entries)) :
    Sim permits (l, u) ({ l with cache := l.cache.retain p }, u.and {p} 0) := by
  refine ofPath (zero_add _) fun hs => ?_
  have hpath : Tally.Path permits (tally (l, u)) _ := .single (.retain (h hs))
  rw [Users.and, Multiset.singleton_add, Multiset.add_cons]
  exact hpath

theorem get (l : Loader) (u : Users) (key : Key) : Sim permits (l, u)
    ({ l with cache := (l.cache.get key).2 }, u.and (l.cache.get key).1.toList 0) := by
  rw [Cache.get]
  cases hreg : l.cache.registered? key with
  | none =>
    have hsame : u.and (none : Option PlacementId).toList 0 = u := by simp [Users.and]
    rw [hsame]
    exact .refl _
  | some p =>
    obtain ⟨slot, hslot, hp⟩ := Option.bind_eq_some_iff.1 hreg
    exact .retain fun _ => Multiset.mem_add.2
      (.inl (Cache.mem_registrationsOf.2 ⟨key, slot, hslot, hp⟩))

/-- A reference that a user gives up. -/
theorem drop (l : Loader) (u : Users) (p : PlacementId) :
    Sim permits (l, u.and {p} 0) ({ l with cache := l.cache.release p }, u) := by
  have hentries : (u.and {p} 0).entries = ↑[p] + u.entries := rfl
  have hrelease : Sim permits (l, u.and {p} 0) (l.releaseAll [p], u) :=
    .ofGivenUp (zero_add _).symm rfl hentries
  exact hrelease

theorem call (l : Loader) (u : Users) {key : Key} {make : Maker} (h : permits.Allows key make) :
    Sim permits (l, u)
      ({ l with cache := (l.cache.call key make).2 }, u.called (Call.make l.cache key make)) := by
  refine ofPath rfl fun _ => ?_
  have hpath : Tally.Path permits (tally (l, u)) _ := .single (.call h)
  rw [Users.called, add_left_comm]
  exact hpath

theorem dropMap (l : Loader) (u : Users) (m : MapId) : Sim permits (l, u.and 0 {m}) (l.dropMap m, u) := by
  refine ofReleased (zero_add _).symm rfl fun hs => ?_
  rw [Users.and, Multiset.singleton_add] at hs
  exact hs.drop

/-- One more holder of a map that a user holds. -/
theorem cloneMap {m : MapId} (h : m ∈ u.maps) :
    Sim permits (l, u) ({ l with store := l.store.retain m }, u.and 0 {m}) := fun hs => by
  obtain ⟨x, hx⟩ := hs.find?_of_mem (Multiset.mem_add.2 (.inr h))
  obtain ⟨hs', hreferences⟩ := hs.retain hx
  refine ⟨by rwa [Users.and, Multiset.singleton_add], ?_⟩
  have he : tally ({ l with store := l.store.retain m }, u.and 0 {m}) = tally (l, u) := by
    simp only [tally, hreferences, Users.and, zero_add]
  rw [he]
  exact .refl

theorem clearBlock (l : Loader) (u : Users) (block : Nat) : Sim permits (l, u) ((l.clearBlock block).2, u) :=
  ofReleased rfl rfl fun hs => hs.clear block

theorem clearBlockIf (l : Loader) (u : Users) (block : Nat) (m : MapId) :
    Sim permits (l, u) ((l.clearBlockIf block m).2, u) :=
  ofReleased rfl rfl fun hs => hs.clearIf block m

theorem clearBlocks : Sim permits (l, u) (l.clearBlocks.2, u) :=
  ofReleased rfl rfl fun hs => hs.clearAll

theorem clearAll (h : permits.forgets) : Sim permits (l, u) (l.clearAll, u) := by
  exact clearBlocks.trans (trans (ofStep (.clear h)) (note _))

theorem loadMap (l : Loader) (u : Users) (block : Nat) :
    Sim permits (l, u) ((l.loadMap block).2, u.and 0 (BlockStore.found (l.loadMap block).1)) :=
  fun hs => by
    obtain ⟨hs', hreferences⟩ := hs.load block
    refine ⟨hs', ?_⟩
    have he : tally ((l.loadMap block).2, u.and 0 (BlockStore.found (l.loadMap block).1)) =
        tally (l, u) := by
      simp only [tally, Users.and, Loader.loadMap, hreferences, zero_add]
    rw [he]
    exact .refl

/-- References are stored as a map, or released. -/
theorem storeMap (l : Loader) (u : Users) (block : Nat)
    (parameters : Table String PlacementId) :
    Sim permits (l, u.and parameters.values 0)
      ((l.storeMap block parameters).2, u.and 0 (stored (l.storeMap block parameters).1)) := by
  rcases hstore : l.store.store block parameters with ⟨e | m, s⟩
  · intro hs
    have hs' : l.store.Sound u.maps := by simpa [Users.and] using hs
    have hsame : s = l.store := by
      rcases hs'.store hstore with ⟨e, -, h⟩ | ⟨h, -⟩
      · exact h
      · cases h
    have hmap : l.storeMap block parameters = (.error e, l.releaseAll parameters.values) := by
      rw [Loader.storeMap, hstore, hsame]
    rw [hmap]
    have hentries : (u.and parameters.values 0).entries =
        ↑parameters.values + (u.and 0 0).entries := by simp [Users.and]
    exact ofGivenUp rfl rfl hentries hs
  · intro hs
    have hs' : l.store.Sound u.maps := by simpa [Users.and] using hs
    have hmap : l.storeMap block parameters = (.ok m, { l with store := s }) := by
      rw [Loader.storeMap, hstore]
    rcases hs'.store hstore with ⟨e, h, -⟩ | ⟨h, -, -, hsound, hreferences, -⟩
    · cases h
    · cases h
      rw [hmap]
      refine ⟨by simpa [Users.and, stored] using hsound, ?_⟩
      have he : tally ({ l with store := s }, u.and 0 (stored (.ok l.store.mapsMade))) =
          tally (l, u.and parameters.values 0) := by
        simp only [tally, Users.and, hreferences, zero_add]
        rw [add_assoc, add_left_comm]
      rw [he]
      exact .refl

end Sim

namespace Refines

theorem refl (w : Scene) : Refines permits w w := fun _ _ => .refl _

theorem trans (h : Refines permits w w') (h' : Refines permits w' w'') : Refines permits w w'' :=
  fun entries maps => (h entries maps).trans (h' entries maps)

end Refines

end TieredWeights.Scene
