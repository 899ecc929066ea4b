import TieredWeights.Proofs.Bench.Strategies
import TieredWeights.Proofs.Cache.OwnFiles
import TieredWeights.Proofs.Recording

/-!
# What a run leaves behind

A run without sharing has the buffers that it has not given back in a list, up to the one that could not
be filled, and gives them all back. A run through a loader is something that users of the loader bring
about, who hold nothing at its end, so closing the loader gives back all there is. Either way the run
begins and ends with nothing handed out; so no file has come, gone or changed.
-/
namespace TieredWeights

namespace Users

/-- Users who hold neither entries nor maps. -/
def Idle (u : Users) : Prop := u.entries = 0 ∧ u.maps = 0

@[simp] theorem record_entries (u : Users) (call : Option Call) :
    (u.record call).entries = u.entries := by
  cases call <;> rfl

@[simp] theorem record_maps (u : Users) (call : Option Call) : (u.record call).maps = u.maps := by
  cases call <;> rfl

end Users

namespace Scene

/-- Others with something of their own, who rest. -/
def resting (σ : Type) : Company σ := ⟨fun _ w => w, fun _ => false⟩

/-- Users who rest are seen to hold all the time what they held. -/
theorem company_seenAs (block : Block) (plan : Plan) :
    (company block plan (fun _ w => w) fun _ => false).SeenAs (fun u => (u.entries, u.maps))
      (resting _) := by
  refine ⟨fun moment l u => ?_, fun _ _ => rfl⟩
  cases moment <;> simp [company, resting]

theorem alone_seenAs {σ : Type} (x : σ) : Company.alone.SeenAs (fun _ => x) (resting σ) :=
  ⟨fun _ _ _ => rfl, fun _ _ => rfl⟩

/-- A load that nobody disturbs, as its users see it: they hold a map more if it succeeds. -/
theorem Run.ofLoad (permits : Permits) (l : Loader) (u : Users) (index : Nat) {block : Block}
    (split : Split Binary64) (hblock : ∀ x ∈ block.parameters, permits.tensors x.2) :
    ∃ u' : Users, u'.entries = u.entries ∧ u'.maps = u.maps ∧
      Run permits (l, u)
        ((l.load index block split).2, u'.and 0 (handed (l.load index block split).1)) := by
  have hrun := Run.loaded (l, u) index split hblock
  rw [Scene.loaded] at hrun
  rcases hload : Loader.loadAmong (company block (planOf block split) (fun _ w => w) fun _ => false)
    index block split (l, u) with ⟨r, l', u'⟩
  have hseen := Loader.loadAmong_seen (company_seenAs block (planOf block split)) hload
  have halone := Loader.loadAmong_seen (alone_seenAs (u.entries, u.maps))
    (Loader.loadAmong_alone (Prod.eta (l.load index block split)).symm)
  rw [hload] at hrun
  rw [hseen] at halone
  simp only [Prod.mk.injEq] at halone
  obtain ⟨rfl, rfl, hentries, hmaps⟩ := halone
  exact ⟨u', hentries, hmaps, hrun⟩

end Scene

namespace Bench

open Scene

variable {config : Config} {d d' depot : Depot} {blocks : List Block} {split : Split Binary64}
  {buffers buffers' : List Buffer} {keep : Bool} {index peak : Nat} {l l' : Loader} {u : Users}

/-- The buffers listed are those handed out, whether all could be placed or not. By induction on what is
yet to be placed. -/
theorem sound_placeParameters {plan : Plan} {rest : List (String × Tensor)}
    (hd : d.Sound (buffers : Multiset Buffer)) {r : Except Fault Unit}
    (h : placeParameters plan rest buffers d = (r, buffers', d')) :
    d'.Sound (buffers' : Multiset Buffer) ∧ d.Tended d' := by
  induction rest generalizing buffers d with
  | nil =>
    cases h
    exact ⟨hd, .refl _⟩
  | cons x rest ih =>
    obtain ⟨name, t⟩ := x
    cases htier : plan.tierOf? name with
    | none =>
      simp only [placeParameters, htier] at h
      cases h
      exact ⟨hd, .refl _⟩
    | some tier =>
      rcases ha : d.allocate tier t.bytes.size t.type with ⟨e | b, d₁⟩ <;>
        simp only [placeParameters, htier, ha] at h <;>
        have hallocated := hd.tended_allocate t.size_le ha
      · cases h
        exact ⟨(hd.refused False (Depot.isPanic_of_allocate t.size_le ha) ha).1, hallocated⟩
      obtain ⟨hs, -, hb, -⟩ := hd.allocate False ha
      rcases hc : d₁.copyIn tier b t.bytes with ⟨e | u, d₂⟩ <;> simp only [hc] at h <;>
        have hwritten := hallocated.trans (Depot.tended_copyIn hc) <;>
        have hs₂ := (hs.copyIn False hb hc).1 <;>
        rw [← Multiset.singleton_add, add_comm, ← Multiset.coe_singleton, Multiset.coe_add] at hs₂
      · cases h
        exact ⟨hs₂, hwritten⟩
      · obtain ⟨hs', hrest⟩ := ih hs₂ h
        exact ⟨hs', hwritten.trans hrest⟩

theorem sound_placeBlocks {brackets : Brackets Binary64} {blocks : List Block}
    (hd : d.Sound (buffers : Multiset Buffer)) {r : Except Fault Unit}
    (h : placeBlocks brackets blocks buffers d = (r, buffers', d')) :
    d'.Sound (buffers' : Multiset Buffer) ∧ d.Tended d' := by
  induction blocks generalizing buffers d with
  | nil =>
    cases h
    exact ⟨hd, .refl _⟩
  | cons block rest ih =>
    rcases hblock : placeParameters (brackets.assign block.sizes) block.parameters buffers d with
      ⟨e | u, buffers₁, d₁⟩ <;> simp only [placeBlocks, hblock] at h <;>
      obtain ⟨hs, htended⟩ := sound_placeParameters hd hblock
    · cases h
      exact ⟨hs, htended⟩
    · obtain ⟨hs', hrest⟩ := ih hs h
      exact ⟨hs', htended.trans hrest⟩

/-- Buffers that are out are all taken back. -/
theorem sound_giveBack (hd : d.Sound (buffers : Multiset Buffer)) {r : Except Fault Unit}
    (h : giveBack buffers d = (r, d')) : r = .ok () ∧ d'.Sound 0 ∧ d.Tended d' := by
  induction buffers generalizing d with
  | nil =>
    cases h
    exact ⟨rfl, hd, .refl _⟩
  | cons b rest ih =>
    rw [← Multiset.cons_coe] at hd
    rcases hr : d.release b.tier b with ⟨r', d₁⟩
    obtain ⟨rfl, hs, -⟩ := hd.release False rfl hr
    simp only [giveBack, hr] at h
    obtain ⟨hok, hs', hrest⟩ := ih hs h
    exact ⟨hok, hs', (Depot.tended_release hr).trans hrest⟩

/-- A run through a loader is something that its users bring about, who hold nothing in between. By
induction on the blocks that remain. -/
theorem run_loadBlocks {blocks : List Block} (hu : u.Idle) {r : Except Fault Nat}
    (h : loadBlocks split keep peak index blocks l = (r, l')) :
    ∃ u' : Users, u'.Idle ∧ Run .careful (l, u) (l', u') := by
  induction blocks generalizing l u peak index with
  | nil =>
    cases h
    exact ⟨u, hu, .rest _⟩
  | cons block rest ih =>
    have htensors : ∀ x ∈ block.parameters, Permits.careful.tensors x.2 := fun _ _ => trivial
    obtain ⟨u₁, hentries, hmaps, hload⟩ := Run.ofLoad .careful l u index split htensors
    have hu₁ : u₁.Idle := ⟨hentries.trans hu.1, hmaps.trans hu.2⟩
    rcases hl : l.load index block split with ⟨e | handle, l₁⟩ <;> rw [hl] at hload <;>
      simp only [loadBlocks, hl] at h
    · cases h
      refine ⟨u₁.and 0 0, ?_, hload⟩
      exact ⟨(zero_add _).trans hu₁.1, (zero_add _).trans hu₁.2⟩
    have hdropped : Run .careful (l, u) (l₁.dropHandle handle, u₁) := hload.andThen (.dropMap handle.map)
    cases keep with
    | true =>
      obtain ⟨u', hu', hrun⟩ := ih hu₁ h
      exact ⟨u', hu', hdropped.andThen hrun⟩
    | false =>
      cases index with
      | zero =>
        obtain ⟨u', hu', hrun⟩ := ih hu₁ h
        exact ⟨u', hu', hdropped.andThen hrun⟩
      | succ before =>
        have hcleared : Run .careful (l, u) (((l₁.dropHandle handle).clearBlock before).2, u₁) :=
          hdropped.andThen (.clearBlock before)
        rcases hc : (l₁.dropHandle handle).clearBlock before with ⟨e | held, l₂⟩ <;>
          rw [hc] at hcleared <;> simp only [letGo, hc, Bool.false_eq_true, if_false] at h
        · cases h
          exact ⟨u₁, hu₁, hcleared⟩
        · obtain ⟨u', hu', hrun⟩ := ih hu₁ h
          exact ⟨u', hu', (hcleared.andThen (.purge trivial)).andThen hrun⟩

/-- A closed run through a loader over a depot leaves the files of the depot. -/
theorem close_loadBlocks (hd : depot.Sound 0) (hremoves : depot.files.Removes) {slots : Nat}
    {own : Split Binary64} {r : Except Fault Nat}
    (h : loadBlocks split keep peak index blocks (.ofDepot depot slots own) = (r, l)) :
    l.close.files.contents = depot.files.contents := by
  obtain ⟨u, ⟨hentries, hmaps⟩, hrun⟩ := run_loadBlocks (u := {}) ⟨rfl, rfl⟩ h
  have hstart : (start depot slots own).Sound .careful := start_sound hd slots own
  obtain ⟨hclosed, hempty⟩ := (hrun.sound hstart).close hentries hmaps
  have htended : depot.Tended l.close := (hrun.tended hstart).trans hclosed
  exact htended.contents_eq hremoves hd.not_hasFile hempty.not_hasFile

/-- Furnishing makes folders, and so changes no file and not what the system removes. -/
theorem files_furnish {r : Except Fault Unit} (h : config.furnish (fresh d) = (r, depot)) :
    depot.files.contents = d.files.contents ∧ (d.files.Removes → depot.files.Removes) := by
  obtain ⟨folders, hfiles⟩ := Depot.folders_addPools h
  rw [hfiles]
  exact ⟨rfl, id⟩

theorem contents_runShared (hremoves : d.files.Removes) :
    (runShared config blocks split keep d).2.files.contents = d.files.contents := by
  unfold runShared Config.loader
  cases config.validate with
  | error e => rfl
  | ok u =>
    rcases hfurnish : config.furnish (fresh d) with ⟨e | u, depot⟩ <;>
      obtain ⟨hcontents, hkeeps⟩ := files_furnish hfurnish
    · exact hcontents
    · have hnoted : (depot.note (.started config.blocks depot.tiers config.split)).Sound 0 :=
        (furnish_sound hfurnish).of_pools rfl
      rcases Loader.overPools_cases (depot.note (.started config.blocks depot.tiers config.split))
        config.blocks config.split with ⟨-, hmade⟩ | ⟨-, hmade⟩ <;> simp only [hmade]
      · exact hcontents
      rcases hload : loadBlocks split keep 0 0 blocks (.ofDepot
        (depot.note (.started config.blocks depot.tiers config.split)) config.blocks config.split) with
        ⟨e | peak, l⟩ <;> simp only <;>
        exact (close_loadBlocks hnoted (hkeeps hremoves) hload).trans hcontents

/-- A run without sharing that has furnished its pools and normalized its split gives back what it has
placed, and so its answer is that of placing. -/
theorem runNaive_placed (hfurnish : config.furnish (fresh d) = (.ok (), depot))
    {brackets : Brackets Binary64} (hbrackets : Brackets.ofSplit split = .ok brackets)
    {placed : Except Fault Unit}
    (hplace : placeBlocks brackets blocks [] depot = (placed, buffers, d')) :
    (giveBack buffers d').1 = .ok () ∧ depot.Tended (giveBack buffers d').2 ∧
      (giveBack buffers d').2.Sound 0 ∧
      (runNaive config blocks split d).2 = (giveBack buffers d').2 ∧
      (placed = .ok () → Done config blocks split d .naive d'.allocations d'.usedBytes) ∧
      ∀ e, placed = .error e → (run config blocks split d .naive).1 = RunResult.ofFault e := by
  have hnone : depot.Sound (([] : List Buffer) : Multiset Buffer) := furnish_sound hfurnish
  obtain ⟨hs, hplaced⟩ := sound_placeBlocks hnone hplace
  rcases hback : giveBack buffers d' with ⟨r, d₂⟩
  obtain ⟨rfl, hempty, htended⟩ := sound_giveBack hs hback
  refine ⟨rfl, hplaced.trans htended, hempty, ?_, ?_, ?_⟩
  · rcases placed with e | u <;> simp only [runNaive, hfurnish, hbrackets, hplace, hback]
  · rintro rfl
    simp only [Done, run, runNaive, hfurnish, hbrackets, hplace, hback]
  · rintro e rfl
    simp only [run, runNaive, hfurnish, hbrackets, hplace, hback]

theorem contents_runNaive (hremoves : d.files.Removes) :
    (runNaive config blocks split d).2.files.contents = d.files.contents := by
  rcases hfurnish : config.furnish (fresh d) with ⟨e | u, depot⟩ <;>
    obtain ⟨hcontents, hkeeps⟩ := files_furnish hfurnish
  · simp only [runNaive, hfurnish]
    exact hcontents
  rcases hbrackets : Brackets.ofSplit split with e | brackets
  · simp only [runNaive, hfurnish, hbrackets]
    exact hcontents
  rcases hplace : placeBlocks brackets blocks [] depot with ⟨placed, buffers, d'⟩
  obtain ⟨-, htended, hempty, hrun, -⟩ := runNaive_placed hfurnish hbrackets hplace
  rw [hrun]
  have hkept := htended.contents_eq (hkeeps hremoves) (furnish_sound hfurnish).not_hasFile
    hempty.not_hasFile
  exact hkept.trans hcontents

end Bench

open Bench in
/-- Whatever a run of a strategy comes to, all files are afterwards as they were before, if the system
removes those that it is told to; it may refuse to make them and to fill them. A run without sharing
gives back every buffer that it has placed and fails for none of them, so its answer is that of
placing. -/
theorem files_kept_by_run {config : Config} {blocks : List Block} {split : Split Binary64} {d : Depot}
    (hremoves : d.files.Removes) :
    (∀ strategy, (run config blocks split d strategy).2.files.contents = d.files.contents) ∧
    ∀ depot brackets, config.furnish (fresh d) = (.ok (), depot) →
      Brackets.ofSplit split = .ok brackets → ∀ placed buffers d',
        placeBlocks brackets blocks [] depot = (placed, buffers, d') →
          (giveBack buffers d').1 = .ok () ∧
          (placed = .ok () → Done config blocks split d .naive d'.allocations d'.usedBytes) ∧
          ∀ e, placed = .error e → (run config blocks split d .naive).1 = RunResult.ofFault e := by
  refine ⟨fun strategy => ?_, fun depot brackets hfurnish hbrackets placed buffers d' hplace => ?_⟩
  · cases strategy
    · exact contents_runNaive hremoves
    · exact contents_runShared hremoves
    · exact contents_runShared hremoves
  · obtain ⟨hback, -, -, -, hanswers⟩ := runNaive_placed hfurnish hbrackets hplace
    exact ⟨hback, hanswers⟩

/-- A disk that has no room for all references. -/
def narrowDisk : Config := { sampleDisk with diskCapacity := some 20 }

/-- A file that somebody keeps in the folder of the disk. -/
def keptFile : Depot :=
  { files := Files.put { Files.empty with folders := [["spill"]] } ["spill", "notes"] ⟨#[1, 2, 3]⟩ }

open Bench in
/-- Three references are placed and given back when the fourth has no room. -/
theorem files_kept_by_narrow_run : keptFile.files.Removes ∧
    (run narrowDisk sampleModel sampleShares keptFile .naive).1 =
      .ok (.outOfCapacity (.outOfCapacity .disk 4 0)) ∧
    (∀ strategy, (run narrowDisk sampleModel sampleShares keptFile strategy).2.files.contents =
      keptFile.files.contents) ∧
    ∃ depot brackets, narrowDisk.furnish (fresh keptFile) = (.ok (), depot) ∧
      Brackets.ofSplit sampleShares = .ok brackets ∧
      (placeBlocks brackets sampleModel [] depot).2.1.length = 3 ∧
      (giveBack (placeBlocks brackets sampleModel [] depot).2.1
        (placeBlocks brackets sampleModel [] depot).2.2).1 = .ok () := by
  have hremoves : keptFile.files.Removes := fun _ => rfl
  obtain ⟨hkept, hback⟩ := @files_kept_by_run narrowDisk sampleModel sampleShares keptFile hremoves
  have hfurnish : (narrowDisk.furnish (fresh keptFile)).1 = .ok () := by decide +kernel
  have hsplit : sampleShares.validate = .ok () := by decide +kernel
  have hlength : (Brackets.ofSplit sampleShares).toOption.map (fun brackets =>
      (placeBlocks brackets sampleModel [] (narrowDisk.furnish (fresh keptFile)).2).2.1.length) =
        some 3 := by decide +kernel
  obtain ⟨brackets, hbrackets⟩ := Split.ofSplit_of_validate hsplit
  rw [hbrackets] at hlength
  refine ⟨hremoves, by decide +kernel, hkept, _, brackets, Prod.ext hfurnish rfl, hbrackets,
    Option.some.inj hlength, ?_⟩
  exact (hback _ brackets (Prod.ext hfurnish rfl) hbrackets _ _ _ rfl).1

end TieredWeights
