import TieredWeights.Prefetch
import TieredWeights.Proofs.Handles
import TieredWeights.Proofs.Recording

/-!
# Loading ahead

A prefetcher and the scene of its loader go on side by side: the prefetcher submits, workers do what
waits at any time and in any order, blocks are collected in any order, and the users of the loader
do at any time what users can, such as clearing blocks. What is pending are loads of blocks of the
model, one at most for each, and the handles among their outcomes are of their blocks all the time.
-/
namespace TieredWeights

open Scene

/-- The maps that the outcome of a submitted load holds. -/
def Submitted.maps : Submitted → Multiset MapId
  | .waiting => 0
  | .finished result => handed result

namespace Prefetcher

/-- The users of a loader as the company of a load that nobody can cancel. -/
def crowd (block : Block) (split : Split Binary64) (rivals : Moment → Scene → Scene) :
    Company Users :=
  Scene.company block (planOf block split) rivals fun _ => false

/-- What a prefetcher, its workers and the users of its loader can bring about. During each load the
users go on as `rivals` says. -/
inductive Run : Prefetcher × Scene → Prefetcher × Scene → Prop
  | rest (x : Prefetcher × Scene) : Run x x
  | andThen {x x' x'' : Prefetcher × Scene} (h : Run x x') (h' : Run x' x'') : Run x x''
  | users {p : Prefetcher} {w w' : Scene} (h : Scene.Run {} w w') : Run (p, w) (p, w')
  /-- Calls are made where there are workers, or where there are none. -/
  | enter {p : Prefetcher} {w : Scene} (workers : Bool) : Run (p, w) ({ p with workers }, w)
  | start {p : Prefetcher} {w : Scene} : Run (p, w) (p.submitFirst w.1.store, w)
  | work {p : Prefetcher} {l l' : Loader} {u u' : Users} {index : Nat} {block : Block}
      (hblock : p.blocks[index]? = some block) (hwaiting : p.pending.find? index = some .waiting)
      (rivals : Moment → Scene → Scene) (hrivals : ∀ moment w, Scene.Run {} w (rivals moment w))
      {r : Except Fault Handle}
      (h : Loader.loadAmong (crowd block p.split rivals) index block p.split (l, u) = (r, l', u'))
      (notices : List Notice) :
      Run (p, l, u) ({ p with pending := p.pending.insert index (.finished r) },
        l'.withNotices notices, u')
  | collect {p p' : Prefetcher} {l l' : Loader} {u u' : Users} {index : Nat} {block : Block}
      (hblock : p.blocks[index]? = some block) (rivals : Moment → Scene → Scene)
      (hrivals : ∀ moment w, Scene.Run {} w (rivals moment w)) {r : Except Fault Handle}
      (h : p.collect (crowd block p.split rivals) index (l, u) = (r, p', l', u')) :
      Run (p, l, u) (p', l', u'.and 0 (handed r))

variable {p p' : Prefetcher} {s : BlockStore} {w w' : Scene} {index j : Nat} {block : Block}

section submit

/-- A load is due if it is not pending and the block is not in the block store. -/
def Due (p : Prefetcher) (s : BlockStore) (j : Nat) : Prop :=
  j < p.blocks.size ∧ p.pending.find? j = none ∧ s.isPopulated j ≠ .ok true

theorem submit_cases (p : Prefetcher) (s : BlockStore) (j : Nat) :
    ¬ p.Due s j ∧ p.submit s j = p ∨
      p.Due s j ∧ p.submit s j = { p with pending := p.pending.insert j (p.submission j) } := by
  unfold submit Due
  by_cases hj : p.blocks.size ≤ j
  · simp [hj]
  · by_cases hpending : p.pending.contains j
    · have hsome : p.pending.find? j ≠ none := by
        rw [Table.contains, Option.isSome_iff_ne_none] at hpending
        exact hpending
      simp [hj, hpending, hsome]
    · have hnone : p.pending.find? j = none := by simpa [Table.contains] using hpending
      simp only [hj, hpending, if_false, Bool.false_eq_true]
      rcases hs : s.isPopulated j with e | _ | _
      · exact .inr ⟨⟨Nat.lt_of_not_le hj, hnone, by simp⟩, rfl⟩
      · exact .inr ⟨⟨Nat.lt_of_not_le hj, hnone, by simp⟩, rfl⟩
      · exact .inl ⟨by simp, rfl⟩

/-- Submitting changes nothing but what is pending. -/
theorem submitAll_eq (p : Prefetcher) (s : BlockStore) (indices : List Nat) :
    ∃ pending, p.submitAll s indices = { p with pending } := by
  induction indices generalizing p with
  | nil => exact ⟨p.pending, rfl⟩
  | cons i rest ih =>
    obtain ⟨pending, he⟩ := ih (p.submit s i)
    rcases submit_cases p s i with ⟨-, hp⟩ | ⟨-, hp⟩ <;>
      exact ⟨pending, by rw [submitAll, he, hp]⟩

open Classical in
/-- Just those loads become pending that are asked for and due. By induction on what is asked
for. -/
theorem find?_submitAll (p : Prefetcher) (s : BlockStore) (indices : List Nat) (j : Nat) :
    (p.submitAll s indices).pending.find? j =
      if j ∈ indices ∧ p.Due s j then some (p.submission j) else p.pending.find? j := by
  induction indices generalizing p with
  | nil => simp [submitAll]
  | cons i rest ih =>
    rw [submitAll, ih]
    rcases submit_cases p s i with ⟨hnot, hp⟩ | ⟨hdue, hp⟩
    · rw [hp]
      by_cases hij : j = i
      · subst hij
        simp [hnot]
      · simp [hij]
    · rw [hp]
      by_cases hij : j = i
      · subst hij
        have hgone : ¬ Due { p with pending := p.pending.insert j (p.submission j) } s j := by
          simp [Due]
        rw [if_neg fun h => hgone h.2, if_pos ⟨List.mem_cons_self, hdue⟩, Table.find?_insert_self]
      · simp [Due, submission, hij, Table.find?_insert_ne]

end submit

section maps

/-- The maps that the outcomes of pending loads hold. -/
def maps (p : Prefetcher) : Multiset MapId :=
  (p.pending.values : Multiset Submitted).bind Submitted.maps

theorem maps_without {x : Submitted} (h : p.pending.find? index = some x) :
    p.maps = x.maps + (p.without index).maps := by
  rw [maps, Table.values_of_find? h, Multiset.cons_bind]
  rfl

theorem without_eq_self (h : p.pending.find? index = none) : p.without index = p := by
  rw [without, Table.erase_eq_self h]

theorem maps_insert (p : Prefetcher) (index : Nat) (x : Submitted) :
    maps { p with pending := p.pending.insert index x } = x.maps + (p.without index).maps := by
  rw [maps, Table.values_insert, Multiset.cons_bind]
  rfl

/-- What is submitted holds nothing yet. -/
theorem maps_submission (p : Prefetcher) (index : Nat) : (p.submission index).maps = 0 := by
  unfold submission
  split <;> rfl

theorem maps_submitAll (p : Prefetcher) (s : BlockStore) (indices : List Nat) :
    (p.submitAll s indices).maps = p.maps := by
  induction indices generalizing p with
  | nil => rfl
  | cons i rest ih =>
    rw [submitAll, ih]
    rcases submit_cases p s i with ⟨-, hp⟩ | ⟨⟨-, hnone, -⟩, hp⟩
    · rw [hp]
    · rw [hp, maps_insert, maps_submission, zero_add, without_eq_self hnone]

end maps

/-- Pending are loads of blocks of the model, and the handles among their outcomes, whose maps are
held, are of their blocks. -/
structure Sound (p : Prefetcher) (w : Scene) : Prop where
  store : w.1.store.Sound (p.maps + w.2.maps)
  within : ∀ i x, p.pending.find? i = some x → i < p.blocks.size
  serves : ∀ i handle, p.pending.find? i = some (.finished (.ok handle)) →
    ∃ block, p.blocks[i]? = some block ∧ w.1.Serves i block handle

namespace Sound

/-- The loader goes on, and the maps that are pending stay held. -/
theorem of_keeps (h : p.Sound w) (hs : w'.1.store.Sound (p.maps + w'.2.maps))
    (hk : w.1.store.Keeps w'.1.store) : p.Sound w' := by
  refine ⟨hs, h.within, fun i handle hi => ?_⟩
  obtain ⟨block, hblock, hserves⟩ := h.serves i handle hi
  have hmem : handle.map ∈ p.maps := by
    rw [maps_without hi]
    exact Multiset.mem_add.2 (.inl (Multiset.mem_singleton_self _))
  exact ⟨block, hblock, hserves.of_keeps hk h.store hs (Multiset.mem_add.2 (.inl hmem))
    (Multiset.mem_add.2 (.inl hmem))⟩

theorem users (h : p.Sound w) (hrun : Scene.Run {} w w') : p.Sound w' := by
  have hrefines := hrun.refines 0 p.maps
  exact h.of_keeps (hrefines h.store).1 hrun.keeps

theorem submitAll (h : p.Sound w) (s : BlockStore) (indices : List Nat) :
    (p.submitAll s indices).Sound w := by
  obtain ⟨pending, he⟩ := submitAll_eq p s indices
  have hblocks : (p.submitAll s indices).blocks = p.blocks := by rw [he]
  constructor
  case store =>
    rw [maps_submitAll]
    exact h.store
  case within =>
    intro i x hi
    rw [hblocks]
    rw [find?_submitAll] at hi
    split_ifs at hi with hdue
    · exact hdue.2.1
    · exact h.within i x hi
  case serves =>
    intro i handle hi
    rw [hblocks]
    rw [find?_submitAll] at hi
    split_ifs at hi with hdue
    · unfold submission at hi
      split at hi <;> cases hi
    · exact h.serves i handle hi

/-- A load in company, whatever is pending. -/
theorem loaded (h : p.Sound w) {rivals : Moment → Scene → Scene}
    (hrivals : ∀ moment w, Scene.Run {} w (rivals moment w)) {split : Split Binary64}
    {r : Except Fault Handle} {l : Loader} {u : Users}
    (hload : Loader.loadAmong (crowd block split rivals) index block split w = (r, l, u)) :
    p.Sound (l, u.and 0 (handed r)) :=
  h.users (.load index block split rivals _ (fun _ _ => trivial) hrivals hload)

/-- The outcome of a pending load passes to the users. -/
theorem without {x : Submitted} (h : p.Sound w) (hx : p.pending.find? index = some x) :
    (p.without index).Sound (w.1, w.2.and 0 x.maps) := by
  constructor
  case store =>
    have hmaps : (p.without index).maps + (w.2.and 0 x.maps).maps = p.maps + w.2.maps := by
      rw [maps_without hx, Users.and, add_left_comm, ← add_assoc]
    rw [hmaps]
    exact h.store
  case within =>
    intro i y hi
    rw [Prefetcher.without, Table.find?_erase] at hi
    split_ifs at hi with hne
    exact h.within i y hi
  case serves =>
    intro i handle hi
    rw [Prefetcher.without, Table.find?_erase] at hi
    split_ifs at hi with hne
    exact h.serves i handle hi

theorem work (h : p.Sound w) (hblock : p.blocks[index]? = some block)
    (hwaiting : p.pending.find? index = some .waiting) {rivals : Moment → Scene → Scene}
    (hrivals : ∀ moment w, Scene.Run {} w (rivals moment w)) {r : Except Fault Handle} {l : Loader}
    {u : Users}
    (hload : Loader.loadAmong (crowd block p.split rivals) index block p.split w = (r, l, u)) :
    Sound { p with pending := p.pending.insert index (.finished r) } (l, u) := by
  have hloaded := h.loaded hrivals hload
  constructor
  case store =>
    have hmaps : maps { p with pending := p.pending.insert index (.finished r) } + u.maps =
        p.maps + (u.and 0 (handed r)).maps := by
      rw [maps_insert, maps_without hwaiting, Users.and, Submitted.maps, Submitted.maps, zero_add,
        add_comm (handed r), add_assoc]
    rw [hmaps]
    exact hloaded.store
  case within =>
    intro i x hi
    rw [Table.find?_insert] at hi
    split_ifs at hi with hne
    · rw [hne]
      exact h.within index _ hwaiting
    · exact h.within i x hi
  case serves =>
    intro i handle hi
    rw [Table.find?_insert] at hi
    split_ifs at hi with hne
    · cases hi
      subst hne
      exact ⟨block, hblock, Loader.loadAmong_serves hload⟩
    · exact hloaded.serves i handle hi

end Sound

/-- What collecting a block comes down to: the outcome of its pending load, or a load now. -/
theorem collect_cases {r : Except Fault Handle} {company : Company Users}
    (hblock : p.blocks[index]? = some block) (h : p.collect company index w = (r, p', w')) :
    (p.pending.find? index = some (.finished r) ∧ w' = w ∨
      (∀ r', p.pending.find? index ≠ some (.finished r')) ∧
        Loader.loadAmong company index block p.split w = (r, w')) ∧
      p' = (p.without index).proceed index w'.1.store r := by
  unfold Prefetcher.collect at h
  rcases hpending : p.pending.find? index with _ | _ | r₁ <;>
    simp only [hblock, hpending] at h <;> cases h
  · exact ⟨.inr ⟨by simp, rfl⟩, rfl⟩
  · exact ⟨.inr ⟨by simp, rfl⟩, rfl⟩
  · exact ⟨.inl ⟨rfl, rfl⟩, rfl⟩

/-- The outcome of a block that is collected, before those ahead of it are submitted. -/
theorem Sound.taken (h : p.Sound w) (hblock : p.blocks[index]? = some block)
    {rivals : Moment → Scene → Scene} (hrivals : ∀ moment w, Scene.Run {} w (rivals moment w))
    {r : Except Fault Handle} {l : Loader} {u : Users}
    (hcollect : p.collect (crowd block p.split rivals) index w = (r, p', l, u)) :
    (p.without index).Sound (l, u.and 0 (handed r)) ∧
      ∀ handle, r = .ok handle → l.Serves index block handle := by
  obtain ⟨⟨hfinished, hw⟩ | ⟨hnone, hload⟩, -⟩ := collect_cases hblock hcollect
  · cases hw
    refine ⟨h.without hfinished, ?_⟩
    rintro handle rfl
    obtain ⟨block', hblock', hserves⟩ := h.serves index handle hfinished
    rw [hblock, Option.some.injEq] at hblock'
    rwa [hblock']
  · refine ⟨?_, fun handle hr => Loader.loadAmong_serves (hr ▸ hload)⟩
    have hloaded := h.loaded hrivals hload
    cases hpending : p.pending.find? index with
    | none => rwa [without_eq_self hpending]
    | some x =>
      cases x with
      | finished r' => exact absurd hpending (hnone r')
      | waiting =>
        have hnothing : (u.and 0 (handed r)).and 0 (Submitted.maps .waiting) =
            u.and 0 (handed r) := by simp [Users.and, Submitted.maps]
        have htaken := hloaded.without hpending
        rwa [hnothing] at htaken

theorem Sound.collect (h : p.Sound w) (hblock : p.blocks[index]? = some block)
    {rivals : Moment → Scene → Scene} (hrivals : ∀ moment w, Scene.Run {} w (rivals moment w))
    {r : Except Fault Handle} {l : Loader} {u : Users}
    (hcollect : p.collect (crowd block p.split rivals) index w = (r, p', l, u)) :
    p'.Sound (l, u.and 0 (handed r)) := by
  have htaken := (h.taken hblock hrivals hcollect).1
  obtain ⟨-, rfl⟩ := collect_cases hblock hcollect
  cases r with
  | error e => exact htaken
  | ok handle => exact htaken.submitAll _ _

/-- Whatever happens, what is pending is sound, and the model of the prefetcher stays. -/
theorem Run.sound {x x' : Prefetcher × Scene} (h : Run x x') (hx : x.1.Sound x.2) :
    x'.1.Sound x'.2 ∧ x'.1.blocks = x.1.blocks ∧ x'.1.split = x.1.split ∧
      x'.1.lookahead = x.1.lookahead := by
  induction h with
  | rest => exact ⟨hx, rfl, rfl, rfl⟩
  | andThen _ _ ih ih' =>
    obtain ⟨hsound, hblocks, hsplit, hlookahead⟩ := ih hx
    obtain ⟨hsound', hblocks', hsplit', hlookahead'⟩ := ih' hsound
    exact ⟨hsound', hblocks'.trans hblocks, hsplit'.trans hsplit, hlookahead'.trans hlookahead⟩
  | users h => exact ⟨hx.users h, rfl, rfl, rfl⟩
  | enter workers => exact ⟨⟨hx.store, hx.within, hx.serves⟩, rfl, rfl, rfl⟩
  | @start p w =>
    obtain ⟨pending, he⟩ := submitAll_eq p w.1.store (List.range (min p.lookahead p.blocks.size))
    refine ⟨hx.submitAll _ _, ?_⟩
    rw [submitFirst, he]
    exact ⟨rfl, rfl, rfl⟩
  | work hblock hwaiting rivals hrivals h notices =>
    have hsound := hx.work hblock hwaiting hrivals h
    refine ⟨⟨hsound.store, hsound.within, fun i handle hi => ?_⟩, rfl, rfl, rfl⟩
    obtain ⟨block, hblock, hserves⟩ := hsound.serves i handle hi
    exact ⟨block, hblock, hserves.own, hserves.names⟩
  | @collect p p' l l' u u' index block hblock rivals hrivals r h =>
    refine ⟨hx.collect hblock hrivals h, ?_⟩
    obtain ⟨-, rfl⟩ := collect_cases hblock h
    cases r with
    | error e => exact ⟨rfl, rfl, rfl⟩
    | ok handle =>
      obtain ⟨pending, he⟩ := submitAll_eq (p.without index) l'.store ((p.without index).ahead index)
      rw [proceed, he]
      exact ⟨rfl, rfl, rfl⟩

section

/-- In a crowd that rests a load is a load alone. -/
theorem crowd_seenAs (block : Block) (split : Split Binary64) :
    (crowd block split fun _ w => w).SeenAs (fun _ => ()) .alone := by
  refine ⟨fun moment l u => ?_, fun _ _ => rfl⟩
  cases moment <;> rfl

theorem exists_loadAmong_crowd (l : Loader) (u : Users) (index : Nat) (block : Block)
    (split : Split Binary64) : ∃ u', Loader.loadAmong (crowd block split fun _ w => w) index block
      split (l, u) = ((l.load index block split).1, (l.load index block split).2, u') := by
  rcases hload : Loader.loadAmong (crowd block split fun _ w => w) index block split (l, u) with
    ⟨r, l', u'⟩
  have halone := Loader.loadAmong_seen (crowd_seenAs block split) hload
  rw [Loader.loadAmong_alone (Prod.eta (l.load index block split)).symm] at halone
  cases halone
  exact ⟨u', rfl⟩

theorem Run.ofWork (p : Prefetcher) (l : Loader) (u : Users) (index : Nat) :
    ∃ u', Run (p, l, u) ((p.work l index).1, (p.work l index).2, u') := by
  rcases hblock : p.blocks[index]? with _ | block <;>
    rcases hpending : p.pending.find? index with _ | _ | r <;>
    simp only [Prefetcher.work, hblock, hpending]
  case some.some.waiting =>
    obtain ⟨u', hload⟩ := exists_loadAmong_crowd l u index block p.split
    exact ⟨u', .work hblock hpending _ (fun _ w => .rest w) hload l.depot.notices⟩
  all_goals exact ⟨u, .rest _⟩

end

theorem sound_start {p : Prefetcher} (hp : p.pending = .empty) (depot : Depot) (blocks : Nat)
    (own : Split Binary64) : p.Sound (Scene.start depot blocks own) := by
  constructor
  case store =>
    have hmaps : p.maps = 0 := by
      rw [maps, hp]
      rfl
    rw [hmaps]
    exact BlockStore.sound_empty blocks
  case within => simp [hp]
  case serves => simp [hp]

instance : DecidableEq Submitted
  | .waiting, .waiting => .isTrue rfl
  | .finished r, .finished r' => decidable_of_iff (r = r') (by simp)
  | .waiting, .finished _ | .finished _, .waiting => .isFalse nofun

end Prefetcher

end TieredWeights
