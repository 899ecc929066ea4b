import TieredWeights.Proofs.LoadOutcome
import TieredWeights.Proofs.Recording

/-!
# Races for a slot

Whatever the others do at the moments of a load, the load itself only ever fills its slot when the
slot is empty, or takes from it the map that it has found there and whose names are not the block's.
It tells maps apart by name, and a map's name is not used again: a map that came in between is left
alone, whatever it binds. The log of a load shows this, and which of its commits found the slot
taken; these are all but the last, or all, and then there are as many as a load may try.
-/
namespace TieredWeights

/-- Faults that say that others were faster. -/
def Fault.IsRace : Fault → Prop
  | .alreadyPopulated _ | .commitContention .. => True
  | _ => False

theorem Fault.IsStorage.not_isRace {e : Fault} (h : e.IsStorage) : ¬ e.IsRace := by
  cases e <;> simp_all [IsStorage, IsRace]

namespace Entry

/-- The attempt that begins with an entry. -/
def attempt? (e : Entry) : Option Nat :=
  match e.moment with
  | .attempted k => some k
  | _ => none

/-- What the slot of a block holds when the commit that follows an entry comes to store. -/
def met? (index : Nat) (e : Entry) : Option (Option MapId) :=
  match e.moment with
  | .approved _ => some (e.left.store.held.find? index)
  | _ => none

end Entry

namespace Loader

open Scene

/-- What a load does to the slots of its own, after a moment at which the others left `l`. -/
inductive OwnStep (index : Nat) (block : Block) (log : List Entry) :
    Moment → Loader → Loader → Prop
  | rests {moment : Moment} {l l' : Loader} (held : l'.store.held = l.store.held) :
      OwnStep index block log moment l l'
  /-- A new map fills the empty slot. -/
  | stores {k : Nat} {m : MapId} {l l' : Loader} (vacant : l.store.held.find? index = none)
      (new : l.store.map? m = none) (held : l'.store.held = l.store.held.insert index m) :
      OwnStep index block log (.approved k) l l'
  /-- The slot still holds the map that the attempt has found there, of other names. -/
  | dismisses {k : Nat} {m : MapId} {found checked l l' : Loader}
      (here : ⟨.attempted k, found, checked⟩ ∈ log)
      (met : checked.store.held.find? index = some m) (other : ¬ checked.HoldsBlock index block m)
      (still : l.store.held.find? index = some m)
      (held : l'.store.held = l.store.held.erase index) :
      OwnStep index block log (.consulted k) l l'

/-- The way of a load from `start` through the moments of its log: what the others find is what its
last own step has left. -/
inductive Course (index : Nat) (block : Block) (start : Loader) : List Entry → Loader → Prop
  | start {l : Loader} (held : l.store.held = start.store.held) : Course index block start [] l
  | step {log : List Entry} {moment : Moment} {found left l : Loader}
      (before : Course index block start log found)
      (own : OwnStep index block (log ++ [⟨moment, found, left⟩]) moment left l) :
      Course index block start (log ++ [⟨moment, found, left⟩]) l

variable {company : Company Users} {permits : Permits} {index : Nat} {block : Block} {plan : Plan}
  {start l l' : Loader} {m : MapId} {maps maps' : Multiset MapId} {attempted : List Nat}
  {met met' : List (Option MapId)} {w w' : Loader × (Users × List Entry)} {log : List Entry}

theorem OwnStep.of_held {moment : Moment} {left : Loader}
    (h : OwnStep index block log moment left l) (hheld : l'.store.held = l.store.held) :
    OwnStep index block log moment left l' := by
  cases h with
  | rests held => exact .rests (hheld.trans held)
  | stores vacant new held => exact .stores vacant new (hheld.trans held)
  | dismisses here met other still held =>
    exact .dismisses here met other still (hheld.trans held)

theorem Course.of_held (h : Course index block start log l)
    (hheld : l'.store.held = l.store.held) : Course index block start log l' := by
  cases h with
  | start held => exact .start (hheld.trans held)
  | step before own => exact .step before (own.of_held hheld)

/-- A load on its way, which holds `maps` for the time being: the attempts that it has begun, and
what its slot held whenever it came to store. -/
structure Racing (index : Nat) (block : Block) (start : Loader) (maps : Multiset MapId)
    (attempted : List Nat) (met : List (Option MapId)) (w : Loader × (Users × List Entry)) :
    Prop where
  store : w.1.store.Sound (maps + w.2.1.maps)
  course : Course index block start w.2.2 w.1
  attempts : w.2.2.filterMap Entry.attempt? = attempted
  stores : w.2.2.filterMap (Entry.met? index) = met

namespace Racing

/-- Own work that leaves the slots alone. -/
theorem of_held {x : Users × List Entry} (h : Racing index block start maps attempted met (l, x))
    (hheld : l'.store.held = l.store.held) (hs : l'.store.Sound (maps' + x.1.maps)) :
    Racing index block start maps' attempted met (l', x) :=
  ⟨hs, h.course.of_held hheld, h.attempts, h.stores⟩

/-- The others keep the store sound. -/
theorem act (h : Racing index block start maps attempted met w)
    (hfair : ∀ moment w, Refines permits w (company.act moment w)) (moment : Moment) :
    (company.recorded.act moment w).1.store.Sound
      (maps + (company.recorded.act moment w).2.1.maps) :=
  (hfair moment (w.1, w.2.1) 0 maps h.store).1

/-- A moment passes, and the load takes a step of its own. -/
theorem step (h : Racing index block start maps attempted met w) {moment : Moment}
    {log : List Entry} {u : Users} (hact : company.recorded.act moment w = (l, (u, log)))
    (hown : OwnStep index block log moment l l') (hs : l'.store.Sound (maps' + u.maps)) :
    Racing index block start maps' (attempted ++ [⟨moment, w.1, l⟩].filterMap Entry.attempt?)
      (met ++ [⟨moment, w.1, l⟩].filterMap (Entry.met? index)) (l', (u, log)) := by
  cases hact
  constructor
  case store => exact hs
  case course => exact .step h.course hown
  case attempts => rw [List.filterMap_append, h.attempts]
  case stores => rw [List.filterMap_append, h.stores]

/-- So does a moment that begins no attempt and precedes no store. -/
theorem pass (h : Racing index block start maps attempted met w) {moment : Moment}
    {log : List Entry} {u : Users} (hact : company.recorded.act moment w = (l, (u, log)))
    (hattempt : Entry.attempt? ⟨moment, w.1, l⟩ = none)
    (hmet : Entry.met? index ⟨moment, w.1, l⟩ = none)
    (hown : OwnStep index block log moment l l') (hs : l'.store.Sound (maps' + u.maps)) :
    Racing index block start maps' attempted met (l', (u, log)) := by
  have hstep := h.step hact hown hs
  rwa [List.filterMap_cons_none hattempt, List.filterMap_cons_none hmet, List.filterMap_nil,
    List.filterMap_nil, List.append_nil, List.append_nil] at hstep

/-- The moment before a store. -/
theorem approve (h : Racing index block start maps attempted met w) {attempt : Nat}
    {log : List Entry} {u : Users}
    (hact : company.recorded.act (.approved attempt) w = (l, (u, log)))
    (hown : OwnStep index block log (.approved attempt) l l')
    (hs : l'.store.Sound (maps' + u.maps)) :
    Racing index block start maps' attempted (met ++ [l.store.held.find? index])
      (l', (u, log)) := by
  have hstep : Racing index block start maps' (attempted ++ [])
      (met ++ [l.store.held.find? index]) (l', (u, log)) := h.step hact hown hs
  rwa [List.append_nil] at hstep

/-- The moment at which an attempt begins. -/
theorem attempt (h : Racing index block start maps attempted met w)
    (hfair : ∀ moment w, Refines permits w (company.act moment w)) (attempt : Nat) :
    Racing index block start maps (attempted ++ [attempt]) met
      (company.recorded.act (.attempted attempt) w) := by
  have hstep : Racing index block start maps (attempted ++ [attempt]) (met ++ [])
      (company.recorded.act (.attempted attempt) w) :=
    h.step rfl (.rests rfl) (h.act hfair (.attempted attempt))
  rwa [List.append_nil] at hstep

end Racing

/-- A map is dismissed from its slot, or no longer there; a block out of range is no race. -/
theorem clearBlockIf_cases (l : Loader) (index : Nat) (m : MapId) :
    ((l.clearBlockIf index m).2.store.held = l.store.held ∨
      l.store.held.find? index = some m ∧
        (l.clearBlockIf index m).2.store.held = l.store.held.erase index) ∧
    ∀ e, (l.clearBlockIf index m).1 = .error e → ¬ e.IsRace := by
  have hstore : (l.clearBlockIf index m).2.store = (l.store.clearIf index m).2.2 := rfl
  constructor
  · rw [hstore]
    rcases BlockStore.clearIf_cases l.store index m with he | ⟨hheld, he⟩
    · exact .inl (by rw [he])
    · exact .inr ⟨hheld, by rw [he, BlockStore.empty_held]⟩
  · intro e he
    unfold clearBlockIf BlockStore.clearIf BlockStore.held? at he
    split_ifs at he <;> simp at he
    · split_ifs at he
    · subst he
      exact id

/-- The others may come between the check of an attempt and its dismissal; the map dismissed is the
one that was checked. -/
theorem Racing.dismiss (h : Racing index block start {m} attempted met w)
    (hfair : ∀ moment w, Refines permits w (company.act moment w)) {attempt : Nat}
    {found checked : Loader} (hhere : ⟨.attempted attempt, found, checked⟩ ∈ w.2.2)
    (hmet : checked.store.held.find? index = some m)
    (hother : ¬ checked.HoldsBlock index block m) :
    Racing index block start 0 attempted met
      (((company.recorded.act (.consulted attempt) w).1.clearBlockIf index m).2.dropMap m,
        (company.recorded.act (.consulted attempt) w).2) := by
  have hs := h.act hfair (.consulted attempt)
  obtain ⟨hslots, -⟩ := clearBlockIf_cases (company.recorded.act (.consulted attempt) w).1 index m
  have hcleared := (hs.clearIf index m).1
  rw [Multiset.singleton_add] at hcleared
  have hdropped := hcleared.drop.1
  rw [← zero_add (Users.maps _)] at hdropped
  refine h.pass rfl rfl rfl ?_ hdropped
  have hkept : ∀ l : Loader, (l.dropMap m).store.held = l.store.held :=
    fun l => BlockStore.drop_held l.store m
  rcases hslots with hsame | ⟨hstill, herased⟩
  · exact .rests ((hkept _).trans hsame)
  · exact .dismisses (List.mem_append_left _ hhere) hmet hother hstill ((hkept _).trans herased)

/-- The check of an attempt. -/
theorem consultStore_race (hfair : ∀ moment w, Refines permits w (company.act moment w))
    {attempt : Nat} {r : Except Fault (Option Handle)} {found : Loader}
    (h : Racing index block start 0 attempted met w)
    (hhere : ⟨.attempted attempt, found, w.1⟩ ∈ w.2.2)
    (hr : consultStore company.recorded index block attempt w = (r, w')) :
    Racing index block start (consulted r) attempted met w' ∧
      ((∃ e, r = .error e ∧ ¬ e.IsRace) ∨ r = .ok none ∨
        ∃ m, r = .ok (some ⟨index, m, .holderHit⟩) ∧ w.1.HoldsBlock index block m ∧
          w'.2.2 = w.2.2) := by
  obtain ⟨l, u, log⟩ := w
  unfold consultStore at hr
  rcases loadMap_cases l index with ⟨-, hload⟩ | ⟨-, ⟨-, hload⟩ | ⟨m, hheld, hload⟩⟩ <;>
    simp only [hload] at hr
  · cases hr
    exact ⟨h, .inl ⟨_, rfl, id⟩⟩
  · cases hr
    refine ⟨?_, .inr (.inl rfl)⟩
    exact h.pass rfl rfl rfl (.rests rfl) (h.act hfair (.consulted attempt))
  · obtain ⟨y, hy⟩ := h.store.find?_held hheld
    have hmap := BlockStore.map?_of_find? hy
    have hretain := (h.store.retain hy).1
    rw [zero_add, ← Multiset.singleton_add] at hretain
    simp only [BlockStore.map?_retain, hmap, Option.getD_some] at hr
    split_ifs at hr with hmatch
    · cases hr
      have hholds : l.HoldsBlock index block m := (holdsBlock_iff hheld hmap).2 ⟨rfl, hmatch⟩
      exact ⟨h.of_held rfl hretain, .inr (.inr ⟨m, rfl, hholds, rfl⟩)⟩
    · have hother : ¬ l.HoldsBlock index block m :=
        fun hholds => hmatch ((holdsBlock_iff hheld hmap).1 hholds).2
      have hnoted : Racing index block start {m} attempted met
          (note { l with store := l.store.retain m }
            (.mismatch index block.names y.parameters.keys), (u, log)) := h.of_held rfl hretain
      have hdismissed := hnoted.dismiss hfair hhere hheld hother
      revert hr hdismissed
      generalize company.recorded.act (.consulted attempt) _ = w₁
      intro hr hdismissed
      have hfault := (clearBlockIf_cases w₁.1 index m).2
      rcases hclear : w₁.1.clearBlockIf index m with ⟨e | b, l'⟩ <;>
        simp only [hclear] at hr hdismissed hfault
      · cases hr
        exact ⟨hdismissed, .inl ⟨e, rfl, hfault e rfl⟩⟩
      · cases hr
        refine ⟨?_, .inr (.inl rfl)⟩
        exact hdismissed.pass rfl rfl rfl (.rests rfl) (hdismissed.act hfair (.dismissed attempt))

/-- By induction on what is yet to be gathered. -/
theorem gather_race (hfair : ∀ moment w, Refines permits w (company.act moment w))
    {before : Nat} {rest : List (String × Tensor)} {g : Gathered} {r : Except Fault Gathered}
    (h : Racing index block start maps attempted met w)
    (hr : gather company.recorded plan before rest g w = (r, w')) :
    Racing index block start maps attempted met w' ∧ ∀ e, r = .error e → ¬ e.IsRace := by
  induction rest generalizing before g w with
  | nil =>
    cases hr
    exact ⟨h, fun e he => by cases he⟩
  | cons x rest ih =>
    obtain ⟨name, t⟩ := x
    rw [gather] at hr
    split_ifs at hr with hcancelled
    · cases hr
      refine ⟨h.of_held rfl h.store, ?_⟩
      rintro e ⟨⟩
      exact id
    · have hadmitted : Racing index block start maps attempted met
          (company.recorded.act (.admitted before) w) :=
        h.pass rfl rfl rfl (.rests rfl) (h.act hfair (.admitted before))
      revert hr hadmitted
      generalize company.recorded.act (.admitted before) w = w₁
      intro hr hadmitted
      cases htier : plan.tierOf? name with
      | none =>
        simp only [htier] at hr
        cases hr
        refine ⟨hadmitted.of_held rfl hadmitted.store, ?_⟩
        rintro e ⟨⟩
        exact id
      | some tier =>
        simp only [htier] at hr
        rcases hresolve : w₁.1.cache.resolve t tier with ⟨e | p, c⟩ <;> simp only [hresolve] at hr
        · cases hr
          refine ⟨hadmitted.of_held rfl hadmitted.store, ?_⟩
          rintro e ⟨⟩
          have hstorage : e.IsStorage := (Cache.resolveAmid_fault hresolve).1
          exact hstorage.not_isRace
        · have hresolved : Racing index block start maps attempted met
              ({ w₁.1 with cache := c }, w₁.2) := hadmitted.of_held rfl hadmitted.store
          refine ih ?_ hr
          exact hresolved.pass rfl rfl rfl (.rests rfl)
            (hresolved.act hfair (.resolved (before + 1)))

/-- References are stored in an empty slot, as a map that is new; they are released if the slot is
taken or there is none. -/
theorem storeMap_cases (hs : l.store.Sound maps) (index : Nat)
    (parameters : Table String PlacementId) :
    (∃ m, l.store.held.find? index = some m ∧ l.storeMap index parameters =
        (.error (.alreadyPopulated index), l.releaseAll parameters.values)) ∨
      l.store.held.find? index = none ∧
        (l.storeMap index parameters =
            (.error (.blockOutOfRange index l.store.size), l.releaseAll parameters.values) ∨
          l.store.map? l.store.mapsMade = none ∧
            ∃ store, l.storeMap index parameters = (.ok l.store.mapsMade, { l with store }) ∧
              store.Sound (l.store.mapsMade ::ₘ maps) ∧
                store.held = l.store.held.insert index l.store.mapsMade) := by
  by_cases hindex : index < l.store.size
  · cases hheld : l.store.held.find? index with
    | some m =>
      refine .inl ⟨m, rfl, ?_⟩
      simp [storeMap, BlockStore.store, BlockStore.held?, hindex, hheld]
    | none =>
      refine .inr ⟨rfl, .inr ⟨?_, ?_⟩⟩
      · rw [BlockStore.map?, hs.find?_mapsMade, Option.map_none]
      · have hstore := BlockStore.store_vacant hindex hheld parameters
        rcases hs.store hstore with ⟨e, he, -⟩ | ⟨-, -, -, hs', -, hheld', -⟩
        · cases he
        · exact ⟨_, by rw [storeMap, hstore], hs', hheld'⟩
  · have hnone : l.store.held.find? index = none := by
      cases hheld : l.store.held.find? index with
      | none => rfl
      | some m => exact absurd (hs.within index m hheld) hindex
    refine .inr ⟨hnone, .inl ?_⟩
    simp [storeMap, BlockStore.store, BlockStore.held?, hindex]

/-- How an attempt ends, and what its slot held when it came to store. -/
inductive Committed (index attempt : Nat) (met : List (Option MapId)) (l : Loader)
    (log : List Entry) : Except Fault (Option Handle) → List (Option MapId) → Prop
  | failed {e : Fault} (he : ¬ e.IsRace) : Committed index attempt met l log (.error e) met
  | refused {e : Fault} (he : ¬ e.IsRace) :
      Committed index attempt met l log (.error e) (met ++ [none])
  | taken (m : MapId) : Committed index attempt met l log (.ok none) (met ++ [some m])
  | stored {m : MapId} {placed reused : Nat} {found left : Loader}
      (last : log.getLast? = some ⟨.approved attempt, found, left⟩)
      (new : left.store.map? m = none)
      (held : l.store.held = left.store.held.insert index m) :
      Committed index attempt met l log (.ok (some ⟨index, m, .loaded placed reused attempt⟩))
        (met ++ [none])

/-- The others may come between the last check of an attempt and its store. -/
theorem commit_race (hfair : ∀ moment w, Refines permits w (company.act moment w)) {attempt : Nat}
    {g : Gathered} {r : Except Fault (Option Handle)}
    (h : Racing index block start 0 attempted met w)
    (hr : commit company.recorded index attempt g w = (r, w')) :
    ∃ met', Racing index block start (consulted r) attempted met' w' ∧
      Committed index attempt met w'.1 w'.2.2 r met' := by
  unfold commit at hr
  split_ifs at hr with hcancelled
  · cases hr
    exact ⟨met, h.of_held rfl h.store, .failed id⟩
  · have hs := h.act hfair (.approved attempt)
    rcases hact : company.recorded.act (.approved attempt) w with ⟨l, u, log⟩
    rw [hact, zero_add] at hs
    simp only [hact] at hr
    -- Whatever refuses the map, the references it would have held are given up.
    have hreleased : Racing index block start 0 attempted (met ++ [l.store.held.find? index])
        (l.releaseAll g.parameters.values, (u, log)) :=
      h.approve hact (.rests rfl) (by rwa [zero_add])
    rcases storeMap_cases hs index g.parameters with
      ⟨m, hheld, hstore⟩ | ⟨hheld, hstore | ⟨hnew, store, hstore, hs', hheld'⟩⟩ <;>
      simp only [hstore] at hr
    · cases hr
      rw [hheld] at hreleased
      refine ⟨_, ?_, .taken m⟩
      exact hreleased.pass rfl rfl rfl (.rests rfl) (hreleased.act hfair (.refused attempt))
    · cases hr
      rw [hheld] at hreleased
      exact ⟨_, hreleased, .refused id⟩
    · cases hr
      rw [← Multiset.singleton_add] at hs'
      have hstored : Racing index block start {l.store.mapsMade} attempted
          (met ++ [l.store.held.find? index])
          (Loader.countLoaded { l with store } g.placed g.reused, (u, log)) :=
        h.approve hact (.stores hheld hnew hheld') hs'
      rw [hheld] at hstored
      have hlog : log.getLast? = some ⟨.approved attempt, w.1, l⟩ := by
        cases hact
        exact List.getLast?_concat
      exact ⟨_, hstored, .stored hlog hnew hheld'⟩

/-- How a load ends, and what its slot held whenever it came to store. -/
inductive Settled (index : Nat) (block : Block) (l : Loader) (log : List Entry) :
    Except Fault Handle → List (Option MapId) → Prop
  | failed {e : Fault} {taken : List MapId} (he : ¬ e.IsRace)
      (few : taken.length < commitAttempts) :
      Settled index block l log (.error e) (taken.map some)
  | refused {e : Fault} {taken : List MapId} (he : ¬ e.IsRace) :
      Settled index block l log (.error e) (taken.map some ++ [none])
  | contended {taken : List MapId} (all : taken.length = commitAttempts) :
      Settled index block l log (.error (.commitContention index commitAttempts)) (taken.map some)
  | hit {m : MapId} {found left : Loader} {taken : List MapId}
      (last : log.getLast? = some ⟨.attempted (taken.length + 1), found, left⟩)
      (holds : left.HoldsBlock index block m) (few : taken.length < commitAttempts) :
      Settled index block l log (.ok ⟨index, m, .holderHit⟩) (taken.map some)
  | stored {m : MapId} {placed reused : Nat} {found left : Loader} {taken : List MapId}
      (last : log.getLast? = some ⟨.approved (taken.length + 1), found, left⟩)
      (new : left.store.map? m = none)
      (held : l.store.held = left.store.held.insert index m) :
      Settled index block l log (.ok ⟨index, m, .loaded placed reused (taken.length + 1)⟩)
        (taken.map some ++ [none])

/-- Every attempt but the last has found the slot taken. By induction on the attempts that remain. -/
theorem attempts_race (hfair : ∀ moment w, Refines permits w (company.act moment w))
    {remaining before : Nat} {taken : List MapId} {r : Except Fault Handle}
    (hremaining : taken.length + remaining = commitAttempts)
    (h : Racing index block start 0 (List.range' 1 taken.length) (taken.map some) w)
    (hr : attempts company.recorded index block plan remaining before w = (r, w')) :
    ∃ maps n met, n ≤ commitAttempts ∧ Racing index block start maps (List.range' 1 n) met w' ∧
      Settled index block w'.1 w'.2.2 r met := by
  induction remaining generalizing before taken w with
  | zero =>
    cases hr
    exact ⟨0, taken.length, _, by omega, h.of_held rfl h.store, .contended hremaining⟩
  | succ remaining ih =>
    have hattempt : commitAttempts - remaining = taken.length + 1 := by omega
    have hfew : taken.length < commitAttempts := by omega
    rw [attempts_succ, hattempt] at hr
    split_ifs at hr with hcancelled
    · cases hr
      exact ⟨0, taken.length, _, by omega, h, .failed id hfew⟩
    · have hattempted := h.attempt hfair (taken.length + 1)
      rw [Nat.add_comm, ← List.range'_1_concat] at hattempted
      rcases hact : company.recorded.act (.attempted (taken.length + 1)) w with ⟨l, u, log⟩
      have hlog : log = w.2.2 ++ [⟨.attempted (taken.length + 1), w.1, l⟩] := by
        cases hact
        rfl
      have hhere : ⟨.attempted (taken.length + 1), w.1, l⟩ ∈ log := by simp [hlog]
      rw [Nat.add_comm 1, hact] at hattempted
      rw [hact] at hr
      rcases hconsult : consultStore company.recorded index block (taken.length + 1) (l, (u, log))
        with ⟨r₁, w₁⟩
      obtain ⟨h₁, ⟨e, rfl, he⟩ | rfl | ⟨m, rfl, hholds, hsame⟩⟩ :=
        consultStore_race hfair hattempted hhere hconsult <;> simp only [hconsult] at hr
      · cases hr
        exact ⟨_, _, _, by omega, h₁, .failed he hfew⟩
      · rcases hg : gather company.recorded plan before block.parameters {} w₁ with ⟨e | g, w₂⟩ <;>
          obtain ⟨h₂, hfault⟩ := gather_race hfair h₁ hg <;> simp only [hg] at hr
        · cases hr
          exact ⟨_, _, _, by omega, h₂, .failed (hfault _ rfl) hfew⟩
        · rcases hc : commit company.recorded index (taken.length + 1) g w₂ with ⟨r₃, w₃⟩
          obtain ⟨met', h₃, hcommitted⟩ := commit_race hfair h₂ hc
          simp only [hc] at hr
          cases hcommitted with
          | failed he =>
            cases hr
            exact ⟨_, _, _, by omega, h₃, .failed he hfew⟩
          | refused he =>
            cases hr
            exact ⟨_, _, _, by omega, h₃, .refused he⟩
          | taken m =>
            have hmore : (taken ++ [m]).length + remaining = commitAttempts := by
              rw [List.length_append, List.length_singleton]
              omega
            have hnext : Racing index block start 0 (List.range' 1 (taken ++ [m]).length)
                ((taken ++ [m]).map some) w₃ := by
              rw [List.length_append, List.length_singleton, List.map_append]
              exact h₃
            exact ih hmore hnext hr
          | stored last new held =>
            cases hr
            exact ⟨_, _, _, by omega, h₃, .stored last new held⟩
      · cases hr
        have hlast : w'.2.2.getLast? = some ⟨.attempted (taken.length + 1), w.1, l⟩ := by
          rw [hsame.trans hlog, List.getLast?_concat]
        exact ⟨_, _, _, by omega, h₁, .hit hlast hholds hfew⟩

/-- What the log of a load shows that started at `start`, returned `r` and left `l`. -/
structure Race (index : Nat) (block : Block) (start : Loader) (r : Except Fault Handle) (l : Loader)
    (log : List Entry) : Prop where
  course : Course index block start log l
  attempts : ∃ n ≤ commitAttempts, log.filterMap Entry.attempt? = List.range' 1 n
  settled : ∀ b, r ≠ .error (.alreadyPopulated b)
  /-- The slot held the map when the last attempt checked it. -/
  hit : ∀ handle, r = .ok handle → handle.outcome = .holderHit → handle.block = index ∧
    ∃ k found left, log.getLast? = some ⟨.attempted k, found, left⟩ ∧
      left.HoldsBlock index block handle.map
  /-- The last commit found the slot empty and put the map there, the others found it taken. -/
  loaded : ∀ handle placed reused k, r = .ok handle → handle.outcome = .loaded placed reused k →
    handle.block = index ∧ ∃ (taken : List MapId) (found left : Loader), taken.length + 1 = k ∧
      log.filterMap (Entry.met? index) = taken.map some ++ [none] ∧
        log.getLast? = some ⟨.approved k, found, left⟩ ∧ left.store.map? handle.map = none ∧
          l.store.held = left.store.held.insert index handle.map
  contended : ∀ b n, r = .error (.commitContention b n) ↔ b = index ∧ n = commitAttempts ∧
    ∃ taken : List MapId, taken.length = commitAttempts ∧
      log.filterMap (Entry.met? index) = taken.map some

variable {r : Except Fault Handle}

/-- A load is contended if all the attempts that it may make have found the slot taken. -/
theorem Settled.contended_iff (h : Settled index block l log r met) (b n : Nat) :
    r = .error (.commitContention b n) ↔ b = index ∧ n = commitAttempts ∧
      ∃ taken : List MapId, taken.length = commitAttempts ∧ met = taken.map some := by
  -- Fewer than all attempts, or a last one that found the slot empty.
  have hfew : ∀ {taken taken' : List MapId}, taken.length < commitAttempts →
      taken'.length = commitAttempts → taken.map some ≠ taken'.map some := by
    intro taken taken' hlt hall hsame
    have hlength := congrArg List.length hsame
    simp only [List.length_map] at hlength
    omega
  have hnone : ∀ taken taken' : List MapId, taken.map some ++ [none] ≠ taken'.map some := by
    intro taken taken' hsame
    have hmem : (none : Option MapId) ∈ taken'.map some := by simp [← hsame]
    simp at hmem
  constructor
  · rintro rfl
    cases h with
    | failed he few => exact absurd trivial he
    | refused he => exact absurd trivial he
    | contended all => exact ⟨rfl, rfl, _, all, rfl⟩
  · rintro ⟨rfl, rfl, taken, hall, hmet⟩
    cases h with
    | failed he few => exact absurd hmet (hfew few hall)
    | refused he => exact absurd hmet (hnone _ _)
    | contended all => rfl
    | hit last holds few => exact absurd hmet (hfew few hall)
    | stored last new held => exact absurd hmet (hnone _ _)

theorem Racing.race {n : Nat} {u : Users} (hn : n ≤ commitAttempts)
    (h : Racing index block start maps (List.range' 1 n) met (l, (u, log)))
    (hsettled : Settled index block l log r met) : Race index block start r l log := by
  constructor
  case course => exact h.course
  case attempts => exact ⟨n, hn, h.attempts⟩
  case settled =>
    rintro b rfl
    cases hsettled with
    | failed he few => exact he trivial
    | refused he => exact he trivial
  case hit =>
    rintro handle rfl hout
    cases hsettled with
    | hit last holds few => exact ⟨rfl, _, _, _, last, holds⟩
    | stored last new held => cases hout
  case loaded =>
    rintro handle placed reused k rfl hout
    cases hsettled with
    | hit last holds few => cases hout
    | stored last new held =>
      cases hout
      exact ⟨rfl, _, _, _, rfl, h.stores, last, new, held⟩
  case contended =>
    intro b n
    rw [h.stores]
    exact hsettled.contended_iff b n

end Loader

open Loader Scene in
/-- A load in company of users who do at its moments whatever users can, in every scene that users
bring about. It has a log, and the log shows how the race for the slot went. -/
theorem load_races {permits : Permits} {depot : Depot} {blocks : Nat} {own split : Split Binary64}
    {w : Scene} {company : Company Users} {index : Nat} {block : Block} {r : Except Fault Handle}
    {l : Loader} {u : Users} (h : Run permits (start depot blocks own) w) (hd : depot.Sound 0)
    (hacts : ∀ moment w, Run permits w (company.act moment w))
    (hload : loadAmong company index block split w = (r, (l, u))) :
    ∃ log, loadAmong company.recorded index block split (w.1, (w.2, [])) = (r, (l, (u, log))) ∧
      Race index block w.1 r l log := by
  obtain ⟨log, hrecorded⟩ := exists_recorded company hload
  refine ⟨log, hrecorded, ?_⟩
  have hw := h.sound_start hd
  have hfair : ∀ moment w, Refines permits w (company.act moment w) :=
    fun moment w => (hacts moment w).refines
  have hstart : Racing index block w.1 0 [] [] (w.1, (w.2, [])) :=
    ⟨by simpa using hw.store, .start rfl, rfl, rfl⟩
  unfold loadAmong at hrecorded
  cases hbrackets : Brackets.ofSplit split with
  | error e =>
    simp only [hbrackets] at hrecorded
    cases hrecorded
    have hnone : ([] : List MapId).length < commitAttempts := by decide
    exact Racing.race (Nat.zero_le _) hstart (.failed id hnone)
  | ok brackets =>
    simp only [hbrackets] at hrecorded
    have hcounted : Racing index block w.1 0 [] []
        ({ w.1 with reuse := { w.1.reuse with blockLoads := w.1.reuse.blockLoads + 1 } },
          (w.2, [])) := hstart.of_held rfl hstart.store
    have hstarted := hcounted.pass rfl rfl rfl (.rests rfl) (hcounted.act hfair .started)
    have hnone : ([] : List MapId).length + commitAttempts = commitAttempts := Nat.zero_add _
    obtain ⟨maps, n, met, hn, hracing, hsettled⟩ :=
      attempts_race hfair hnone hstarted hrecorded
    exact hracing.race hn hsettled

open Scene in
/-- Users who are always faster: they store a map without names just before the load does. -/
def sampleRivals : Company Users where
  act moment w :=
    match moment with
    | .approved _ => ((w.1.storeMap 0 .empty).2, w.2.and 0 (stored (w.1.storeMap 0 .empty).1))
    | _ => w
  cancelled _ := false

theorem sampleRivals_run {permits : Permits} (moment : Moment) (w : Scene) :
    Scene.Run permits w (sampleRivals.act moment w) := by
  cases moment with
  | approved k =>
    have hstore : Scene.Run permits (w.1, w.2.and (Table.values (.empty : Table String PlacementId)) 0)
        (sampleRivals.act (.approved k) w) := .storeMap 0 .empty rfl
    have hempty : ((Table.values (.empty : Table String PlacementId) : Multiset PlacementId)) = 0 := rfl
    have hnone : w.2.and 0 0 = w.2 := by simp [Users.and]
    rwa [hempty, hnone] at hstore
  | _ => exact .rest w

open Loader Scene in
/-- Each time, the load dismisses the users' map and finds the next one in its place. -/
theorem load_races_sample : ∃ l u log,
    loadAmong sampleRivals 0 sampleBlock sampleSplit (start sampleDepot 1 sampleSplit) =
      (.error (.commitContention 0 4), (l, u)) ∧
    Race 0 sampleBlock (start sampleDepot 1 sampleSplit).1 (.error (.commitContention 0 4)) l log ∧
    ∃ taken : List MapId, taken.length = 4 ∧ log.filterMap (Entry.met? 0) = taken.map some := by
  have hr : (loadAmong sampleRivals 0 sampleBlock sampleSplit (start sampleDepot 1 sampleSplit)).1 =
    .error (.commitContention 0 4) := by decide +kernel
  rcases hload : loadAmong sampleRivals 0 sampleBlock sampleSplit
    (start sampleDepot 1 sampleSplit) with ⟨r, l, u⟩
  rw [hload] at hr
  subst hr
  have hrun : Run {} (start sampleDepot 1 sampleSplit) (start sampleDepot 1 sampleSplit) := .rest _
  obtain ⟨log, -, hrace⟩ := load_races hrun sampleDepot_sound sampleRivals_run hload
  obtain ⟨-, -, htaken⟩ := (hrace.contended 0 4).1 rfl
  exact ⟨l, u, log, rfl, hrace, htaken⟩

end TieredWeights
