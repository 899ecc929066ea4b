import TieredWeights.Proofs.Scene.Loads

/-!
# Sound scenes

A scene is sound if its store counts the holders of its maps and its cache the references of these
maps and of the users. A loader over pools that have nothing handed out is sound, and every run
keeps soundness; so what holds of sound scenes holds of every scene that users can bring about.
-/
namespace TieredWeights.Scene

structure Sound (permits : Permits) (w : Scene) : Prop where
  store : w.1.store.Sound w.2.maps
  tally : w.tally.Sound permits 0

variable {permits : Permits} {w w' : Scene}

/-- A run is a path, and keeps the store sound. -/
theorem Run.path (h : Run permits w w') (hs : w.1.store.Sound w.2.maps) :
    w'.1.store.Sound w'.2.maps ∧ Tally.Path permits w.tally w'.tally := by
  have hrefines := h.refines 0 0
  simpa only [Users.and, zero_add] using hrefines (by simpa only [Users.and, zero_add] using hs)

theorem Run.sound (h : Run permits w w') (hw : w.Sound permits) : w'.Sound permits := by
  obtain ⟨hstore, hpath⟩ := h.path hw.store
  exact ⟨hstore, (hpath.sound hw.tally).1⟩

/-- What every step of the cache keeps, every run keeps. -/
theorem Run.invariant {I : Tally → Prop} (h : Run permits w w') (hw : w.Sound permits)
    (hI : I w.tally)
    (hstep : ∀ t t', t.Sound permits 0 → I t → Tally.Step permits t t' → I t') : I w'.tally :=
  (h.path hw.store).2.invariant hw.tally hI hstep

theorem start_sound {depot : Depot} (hd : depot.Sound 0) (blocks : Nat) (split : Split Binary64) :
    (start depot blocks split).Sound permits := by
  refine ⟨BlockStore.sound_empty blocks, ⟨Cache.sound_ofDepot hd, ?_, ?_⟩⟩
  · exact fun _ _ h => nomatch h
  · exact fun call hcall => absurd hcall (Multiset.notMem_zero call)

/-- Every run of a new loader is sound. -/
theorem Run.sound_start {depot : Depot} {blocks : Nat} {split : Split Binary64}
    (h : Run permits (start depot blocks split) w) (hd : depot.Sound 0) : w.Sound permits :=
  h.sound (start_sound hd blocks split)

/-- A buffer that a call gave and that is live is still its placement's. -/
theorem Sound.find?_of_isLive (hw : w.Sound permits) {call : Call} (hcall : call ∈ w.2.calls)
    {r : Resolved} (hr : call.answer = .ok r) {q : Placement}
    (hq : call.after.find? r.placement = some q) (hlive : w.1.depot.IsLive q.buffer) :
    ∃ q', w.1.cache.find? r.placement = some q' ∧ q'.key = call.key ∧ q'.buffer = q.buffer := by
  obtain ⟨hgenuine, hlater⟩ := hw.tally.calls call hcall
  obtain ⟨q₀, hq₀, hkey⟩ := hgenuine.found hr
  rw [hq, Option.some.injEq] at hq₀
  subst hq₀
  rcases hlater.kept r.placement q hq with ⟨q', hq', hkey', hbuffer⟩ | ⟨-, -, hspent⟩
  · exact ⟨q', hq', hkey'.trans hkey, hbuffer⟩
  · exact absurd hlive hspent.not_isLive

/-- The scene after a load that nobody disturbs. -/
def loaded (w : Scene) (index : Nat) (block : Block) (split : Split Binary64) : Scene :=
  let result := Loader.loadAmong
    (company block (planOf block split) (fun _ w => w) fun _ => false) index block split w
  (result.2.1, result.2.2.and 0 (handed result.1))

theorem Run.loaded (w : Scene) (index : Nat) {block : Block} (split : Split Binary64)
    (hblock : ∀ x ∈ block.parameters, permits.tensors x.2) :
    Run permits w (w.loaded index block split) :=
  .load index block split (fun _ w => w) (fun _ => false) hblock (fun _ w => .rest w) rfl

/-! A scene to try statements on: two parameters tied to one tensor, loaded as a block. -/

def sampleDepot : Depot := (Depot.addPools {} [(.host, some 16, none)]).2

def sampleTensor : Tensor := ⟨1, .f32, [1], ⟨#[0, 0, 128, 63]⟩, by decide⟩

/-- A tensor that the sample's pool has no room for. -/
def sampleLarge : Tensor := ⟨3, .f32, [5], zeroBytes 20, by decide⟩

def sampleBlock : Block := ⟨[("bias", sampleTensor), ("weight", sampleTensor)], by decide⟩

def sampleSplit : Split Binary64 := ⟨0, 100, 0, 0⟩

/-- The loader with the block loaded, whose handle a user holds. -/
def sampleScene : Scene := (start sampleDepot 1 sampleSplit).loaded 0 sampleBlock sampleSplit

theorem sampleDepot_sound : sampleDepot.Sound 0 :=
  Depot.sound_addPools_of_empty rfl rfl

theorem sample_run (ht : permits.tensors sampleTensor) :
    Run permits (start sampleDepot 1 sampleSplit) sampleScene := by
  refine Run.loaded _ _ _ fun x hx => ?_
  simp only [sampleBlock, List.mem_cons, List.not_mem_nil, or_false] at hx
  rcases hx with rfl | rfl <;> exact ht

end TieredWeights.Scene
