import TieredWeights.Proofs.Pool.AsMap
import TieredWeights.Proofs.Pool.InMemory

/-!
# Twin families

Two families of pools are twins if their pools are made in the same order, of the same tiers and
capacities, and are asked the same, but those of one keep their buffers in a folder that they share
and those of the other in memory. The folder has no file in it at first, nobody else touches it, and the
system refuses nothing that is done to its files.

The twins cannot be told apart by their answers: a pool of the one is always the pool of the other
read into memory. In the folder stands just one file for each buffer that is out.
-/
namespace TieredWeights

namespace Files

variable {f : Files} {dir : Path}

theorem mem_list {name : String} {c : Content} :
    (name, c) ∈ f.list dir ↔ f.contents.find? (dir ++ [name]) = some c := by
  rw [← Table.mem_toList, list, List.mem_filterMap]
  constructor
  · rintro ⟨⟨path, c'⟩, hmem, hname⟩
    simp only [isIn, Bool.and_eq_true, decide_eq_true_eq] at hname
    split_ifs at hname with hin
    obtain ⟨last, hlast, hpair⟩ := Option.map_eq_some_iff.1 hname
    cases hpair
    rwa [← hin.1, List.dropLast_append_getLast? _ hlast]
  · intro hmem
    exact ⟨_, hmem, by simp [isIn]⟩

theorem nodup_list (f : Files) (dir : Path) : (f.list dir).Nodup := by
  refine (Table.nodup_toList f.contents).filterMap ?_
  rintro ⟨path, c⟩ ⟨path', c'⟩ entry hentry hentry'
  simp only [isIn, Bool.and_eq_true, decide_eq_true_eq, Option.mem_def] at hentry hentry'
  split_ifs at hentry hentry' with hin hin'
  obtain ⟨last, hlast, rfl⟩ := Option.map_eq_some_iff.1 hentry
  obtain ⟨last', hlast', hpair⟩ := Option.map_eq_some_iff.1 hentry'
  obtain ⟨rfl, rfl⟩ := Prod.mk.inj hpair
  rw [← List.dropLast_append_getLast? _ hlast, ← List.dropLast_append_getLast? _ hlast', hin.1,
    hin'.1]

end Files

/-- The name of the file that holds a buffer of a pool that spills, in a process of the number given. -/
def Buffer.spillName (process : Nat) (b : Buffer) : String :=
  spillFileName b.tier.display process b.pool b.slot b.generation

/-- The counts of a pool that anyone can ask for. -/
def Pool.counts (p : Pool) : Nat × Nat × Nat × Nat := (p.used, p.live, p.allocations, p.releases)

@[simp] theorem Pool.counts_inMemory (p : Pool) (f : Files) :
    (p.inMemory f).counts = p.counts := by
  simp only [counts, inMemory_used, inMemory_live]
  rfl

/-- The buffers that were issued and not taken back, with the numbers of their pools. -/
def live (past : List Served) : List (Nat × Buffer) :=
  (issued past).filter fun x => x ∉ released past

/-- The runs of twins: what each family has served, and what it has become. -/
inductive Twins (dir : Path) : List Served → PoolFamily → List Served → PoolFamily → Prop
  | start (d e : Depot) (hobliging : d.files.Obliging) (hempty : d.files.list dir = [])
      (hprocess : e.process = d.process) (hmade : e.poolsMade = d.poolsMade) :
      Twins dir [] ⟨d, .empty⟩ [] ⟨e, .empty⟩
  | join {past past' : List Served} {files memory : PoolFamily} {tier : Tier}
      {capacity : Option Nat} {written : String} {p q : Pool} {d e : Depot}
      (h : Twins dir past files past' memory)
      (hfile : files.depot.newPool tier capacity (some written) = (.ok p, d))
      (hdir : ∀ folder ∈ p.spill, folder.path = dir)
      (hmemory : memory.depot.newPool tier capacity none = (.ok q, e)) :
      Twins dir past ⟨d, files.pools.insert p.id p⟩ past' ⟨e, memory.pools.insert q.id q⟩
  | serve {past past' : List Served} {files memory : PoolFamily} {k : Nat} {p p' q q' : Pool}
      {f g : Files} {request : Pool.Request} {reply reply' : Except Fault Pool.Reply}
      (h : Twins dir past files past' memory)
      (hp : files.pools.find? k = some p) (hq : memory.pools.find? k = some q)
      (hissued : ∀ b ∈ request.buffer?, ∃ j, (j, b) ∈ issued past)
      (hfits : ∀ n type, request = .allocate n type → p.Represents n)
      (hfile : p.serve files.depot.files request = (reply, p', f))
      (hmemory : q.serve memory.depot.files request = (reply', q', g)) :
      Twins dir (⟨k, request, reply⟩ :: past)
        ⟨{ files.depot with files := f }, files.pools.insert k p'⟩
        (⟨k, request, reply'⟩ :: past')
        ⟨{ memory.depot with files := g }, memory.pools.insert k q'⟩
  | elsewhere {past past' : List Served} {files memory : PoolFamily} {d e : Depot}
      (h : Twins dir past files past' memory) (hobliging : d.files.Obliging)
      (hprocess : d.process = files.depot.process ∧ e.process = memory.depot.process)
      (hfiles : ∀ name, d.files.contents.find? (dir ++ [name]) =
        files.depot.files.contents.find? (dir ++ [name]))
      (hlater : files.depot.poolsMade ≤ d.poolsMade) (hmade : e.poolsMade = d.poolsMade) :
      Twins dir past ⟨d, files.pools⟩ past' ⟨e, memory.pools⟩

/-- What holds of twins: the pools of the one are those of the other read into memory, and every
file in the folder is at a path of one of the pools. -/
structure TwinsSound (dir : Path) (past : List Served) (files : PoolFamily) (past' : List Served)
    (memory : PoolFamily) : Prop where
  same : past' = past
  sound : files.Sound past
  nodup : (issued past).Nodup
  answered : ∀ s ∈ past, ∀ e, s.reply ≠ .error (.io e)
  obliging : files.depot.files.Obliging
  process : memory.depot.process = files.depot.process
  processed : ∀ k p, files.pools.find? k = some p → p.process = files.depot.process
  numbered : memory.depot.poolsMade = files.depot.poolsMade
  spills : ∀ k p, files.pools.find? k = some p → ∃ folder, p.spill = some folder ∧ folder.path = dir
  tidy : ∀ k p, files.pools.find? k = some p → p.Tidy files.depot.files
  pools : ∀ k, memory.pools.find? k =
    (files.pools.find? k).map fun p => p.inMemory files.depot.files
  owned : ∀ name c, files.depot.files.contents.find? (dir ++ [name]) = some c →
    ∃ k p i g, files.pools.find? k = some p ∧ p.spillPath? i g = some (dir ++ [name])

namespace TwinsSound

variable {dir : Path} {past past' : List Served} {files memory : PoolFamily} {k : Nat} {p : Pool}

/-- The paths of a pool that spills to the folder are in the folder. -/
theorem path_in (h : TwinsSound dir past files past' memory) (hp : files.pools.find? k = some p)
    {i g : Nat} {path : Path} (hpath : p.spillPath? i g = some path) :
    path = dir ++ [p.spillName i g] := by
  obtain ⟨folder, hspill, rfl⟩ := h.spills k p hp
  simpa [Pool.spillPath?, hspill, eq_comm] using hpath

theorem start (d e : Depot) (hobliging : d.files.Obliging) (hempty : d.files.list dir = [])
    (hprocess : e.process = d.process) (hmade : e.poolsMade = d.poolsMade) :
    TwinsSound dir [] ⟨d, .empty⟩ [] ⟨e, .empty⟩ where
  same := rfl
  sound := (Session.start d (hobliging .write)).sound
  nodup := List.nodup_nil
  answered := by simp
  obliging := hobliging
  process := hprocess
  processed := by simp
  numbered := hmade
  spills := by simp
  tidy := by simp
  pools := by simp
  owned name c hc := by
    rw [← Files.mem_list, hempty] at hc
    cases hc

/-- No file is at a path of a pool that is yet to be made. -/
theorem vacant (h : TwinsSound dir past files past' memory) {tier : Tier} {capacity : Nat}
    {folder : Folder} (hdir : folder.path = dir) (i g : Nat) (path : Path)
    (hpath : Pool.spillPath?
      { tier, id := files.depot.poolsMade + 1, capacity, spill := some folder,
        process := files.depot.process } i g = some path) :
    files.depot.files.contents.find? path = none := by
  have hin : path = dir ++ [path.getLast?.getD ""] := by
    simp only [Pool.spillPath?, Option.map_some, Option.some.injEq] at hpath
    simp [← hpath, hdir]
  by_contra hfile
  obtain ⟨c, hc⟩ := Option.ne_none_iff_exists'.1 hfile
  rw [hin] at hc
  obtain ⟨k, p, i', g', hp, hown⟩ := h.owned _ c hc
  rw [← hin] at hown
  have hid := (Pool.spillPath?_inj hpath hown).1
  have hmade := h.sound.made k p hp
  have hnumber := (h.sound.follows k p hp).number
  simp only at hid
  omega

theorem join {tier : Tier} {capacity : Option Nat} {written : String} {q : Pool} {d e : Depot}
    (h : TwinsSound dir past files past' memory)
    (hfile : files.depot.newPool tier capacity (some written) = (.ok p, d))
    (hdir : ∀ folder ∈ p.spill, folder.path = dir)
    (hmemory : memory.depot.newPool tier capacity none = (.ok q, e)) :
    TwinsSound dir past ⟨d, files.pools.insert p.id p⟩ past' ⟨e, memory.pools.insert q.id q⟩ := by
  have hsound := h.sound.join hfile
  obtain ⟨⟨spill, rfl⟩, folders, rfl⟩ := Depot.newPool_eq_ok hfile
  obtain ⟨folder, rfl⟩ : ∃ folder, spill = some folder := by
    simp only [Depot.newPool] at hfile
    split at hfile
    · cases hfile
    · cases hfile
      exact ⟨_, rfl⟩
  cases hmemory
  have hfolder : folder.path = dir := hdir folder rfl
  constructor
  case same => exact h.same
  case sound => exact hsound
  case nodup => exact h.nodup
  case answered => exact h.answered
  case obliging => exact h.obliging
  case process => exact h.process
  case processed =>
    intro k p hp
    rw [Table.find?_insert] at hp
    split_ifs at hp with hk
    · cases hp
      rfl
    · exact h.processed k p hp
  case numbered => simp only [h.numbered]
  case spills =>
    intro k p hp
    rw [Table.find?_insert] at hp
    split_ifs at hp with hk
    · cases hp
      exact ⟨folder, rfl, hfolder⟩
    · exact h.spills k p hp
  case tidy =>
    intro k p hp
    rw [Table.find?_insert] at hp
    split_ifs at hp with hk
    · cases hp
      exact Pool.tidy_new (fun _ => h.obliging) fun i g path => h.vacant hfolder i g path
    · exact (h.tidy k p hp).of_files rfl fun _ _ _ _ => rfl
  case pools =>
    intro k
    rw [Table.find?_insert, Table.find?_insert]
    by_cases hk : k = files.depot.poolsMade + 1
    · simp [hk, h.numbered, h.process, Pool.inMemory_new]
    · simp only [h.numbered, hk, if_false, h.pools k]
      cases hp : files.pools.find? k with
      | none => rfl
      | some p =>
        rw [Option.map_some, Option.map_some]
        exact congrArg some ((h.tidy k p hp).inMemory_congr fun _ _ _ _ => rfl).symm
  case owned =>
    intro name c hc
    obtain ⟨k, p, i, g, hp, hpath⟩ := h.owned name c hc
    have hk : k ≠ files.depot.poolsMade + 1 := by
      have hle := h.sound.made k p hp
      omega
    exact ⟨k, p, i, g, by rw [Table.find?_insert_ne _ _ hk, hp], hpath⟩

/-- Nothing longer than a buffer is read from it. -/
theorem size_le (h : TwinsSound dir past files past' memory) (hp : files.pools.find? k = some p)
    {j : Nat} {b : Buffer} (hb : (j, b) ∈ issued past) {old : ByteArray}
    (hread : p.read files.depot.files b = .ok old) : old.size ≤ b.length := by
  have hfollows := h.sound.follows k p hp
  have hheld := (hfollows.read_iff (h.sound.issued_or_foreign hb k)).1 hread
  exact (hfollows.reads b old hheld).1.le

/-- A buffer is issued once. -/
theorem nodup_issued_cons (h : TwinsSound dir past files past' memory)
    (hp : files.pools.find? k = some p) {p' : Pool} {f : Files} {request : Pool.Request}
    {reply : Except Fault Pool.Reply}
    (hserve : p.serve files.depot.files request = (reply, p', f)) :
    (issued (⟨k, request, reply⟩ :: past)).Nodup := by
  cases hissue : Served.issue? ⟨k, request, reply⟩ with
  | none => simpa [issued, hissue] using h.nodup
  | some x =>
    rw [issued, List.filterMap_cons_some hissue, List.nodup_cons]
    refine ⟨?_, h.nodup⟩
    cases reply with
    | error e => cases hissue
    | ok answer =>
      cases answer with
      | bytes _ => cases hissue
      | done => cases hissue
      | buffer b =>
        cases hissue
        cases request with
        | allocate n type =>
          rcases ha : p.allocate files.depot.files n type with ⟨e | c, q, g⟩ <;>
            simp only [Pool.serve, ha] at hserve <;> cases hserve
          exact h.sound.fresh hp ha k
        | copyIn c bytes =>
          rcases hc : p.copyIn files.depot.files c bytes with ⟨e | u, q, g⟩ <;>
            simp only [Pool.serve, hc] at hserve <;> cases hserve
        | read c =>
          rcases hr : p.read files.depot.files c with e | bytes <;>
            simp only [Pool.serve, hr] at hserve <;> cases hserve
        | release c =>
          rcases hr : p.release files.depot.files c with ⟨e | u, q, g⟩ <;>
            simp only [Pool.serve, hr] at hserve <;> cases hserve

theorem serve {p' q q' : Pool} {f g : Files} {request : Pool.Request}
    {reply reply' : Except Fault Pool.Reply} (h : TwinsSound dir past files past' memory)
    (hp : files.pools.find? k = some p) (hq : memory.pools.find? k = some q)
    (hissued : ∀ b ∈ request.buffer?, ∃ j, (j, b) ∈ issued past)
    (hfits : ∀ n type, request = .allocate n type → p.Represents n)
    (hfile : p.serve files.depot.files request = (reply, p', f))
    (hmemory : q.serve memory.depot.files request = (reply', q', g)) :
    TwinsSound dir (⟨k, request, reply⟩ :: past)
      ⟨{ files.depot with files := f }, files.pools.insert k p'⟩ (⟨k, request, reply'⟩ :: past')
      ⟨{ memory.depot with files := g }, memory.pools.insert k q'⟩ := by
  have hfollows := h.sound.follows k p hp
  have htidy := h.tidy k p hp
  obtain ⟨out, lost, hs, -⟩ := hfollows.sound
  have hq' : q = p.inMemory files.depot.files := by
    have hpools := h.pools k
    rw [hp, hq] at hpools
    exact Option.some.inj hpools
  obtain ⟨hanswer, htidy'⟩ := htidy.serve_inMemory hs hfits
    (fun b hb old hold => by
      obtain ⟨j, hj⟩ := hissued b hb
      exact h.size_le hp hj hold) hfile memory.depot.files
  rw [← hq', hmemory] at hanswer
  cases hanswer
  obtain ⟨-, slot, generation, htouch⟩ := hfollows.serve (fun b hb => by
    obtain ⟨j, hj⟩ := hissued b hb
    exact h.sound.issued_or_foreign hj k) hfile
  -- The one path that is touched is none of another pool's.
  have hother : ∀ j q, files.pools.find? j = some q → j ≠ k → ∀ i g path,
      q.spillPath? i g = some path →
      f.contents.find? path = files.depot.files.contents.find? path := by
    intro j q hq hj i g path hpath
    refine htouch.files path fun hpath' => hj ?_
    have hid := (Pool.spillPath?_inj hpath hpath').1
    rwa [(h.sound.follows j q hq).number, hfollows.number] at hid
  constructor
  case same => rw [h.same]
  case sound => exact h.sound.serve hp hissued hfile
  case nodup => exact h.nodup_issued_cons hp hfile
  case answered =>
    intro s hs e
    rcases List.mem_cons.1 hs with rfl | hs
    · have hne := p.serve_inMemory_ne_io files.depot.files memory.depot.files request e
      rwa [← hq', hmemory] at hne
    · exact h.answered s hs e
  case obliging => exact h.obliging.of_refuses htouch.refuses
  case process => exact h.process
  case processed =>
    intro j q hq
    rw [Table.find?_insert] at hq
    split_ifs at hq with hj
    · cases hq
      rw [htouch.process]
      exact h.processed k p hp
    · exact h.processed j q hq
  case numbered => exact h.numbered
  case spills =>
    intro j q hq
    rw [Table.find?_insert] at hq
    split_ifs at hq with hj
    · cases hq
      rw [htouch.spill]
      exact h.spills k p hp
    · exact h.spills j q hq
  case tidy =>
    intro j q hq
    rw [Table.find?_insert] at hq
    split_ifs at hq with hj
    · cases hq
      exact htidy'
    · exact (h.tidy j q hq).of_files htouch.refuses (hother j q hq hj)
  case pools =>
    intro j
    rw [Table.find?_insert, Table.find?_insert]
    by_cases hj : j = k
    · simp [hj]
    · simp only [hj, if_false, h.pools j]
      cases hq : files.pools.find? j with
      | none => rfl
      | some q => simp [(h.tidy j q hq).inMemory_congr (hother j q hq hj)]
  case owned =>
    intro name c hc
    by_cases hpath : p.spillPath? slot generation = some (dir ++ [name])
    · exact ⟨k, p', slot, generation, by simp, by rw [htouch.spillPath?, hpath]⟩
    · simp only [htouch.files _ hpath] at hc
      obtain ⟨j, r, i, g, hr, hpath'⟩ := h.owned name c hc
      by_cases hj : j = k
      · subst hj
        rw [hp] at hr
        cases hr
        exact ⟨j, p', i, g, by simp, by rw [htouch.spillPath?, hpath']⟩
      · exact ⟨j, r, i, g, by rw [Table.find?_insert_ne _ _ hj, hr], hpath'⟩

theorem elsewhere {d e : Depot} (h : TwinsSound dir past files past' memory)
    (hobliging : d.files.Obliging)
    (hprocess : d.process = files.depot.process ∧ e.process = memory.depot.process)
    (hfiles : ∀ name, d.files.contents.find? (dir ++ [name]) =
      files.depot.files.contents.find? (dir ++ [name]))
    (hlater : files.depot.poolsMade ≤ d.poolsMade) (hmade : e.poolsMade = d.poolsMade) :
    TwinsSound dir past ⟨d, files.pools⟩ past' ⟨e, memory.pools⟩ := by
  have hpaths : ∀ k p, files.pools.find? k = some p → ∀ i g path,
      p.spillPath? i g = some path →
      d.files.contents.find? path = files.depot.files.contents.find? path := by
    intro k p hp i g path hpath
    rw [h.path_in hp hpath]
    exact hfiles _
  constructor
  case same => exact h.same
  case sound =>
    refine ⟨hobliging .write, fun k p hp => ?_, fun k p hp => (h.sound.made k p hp).trans hlater,
      h.sound.asked⟩
    exact (h.sound.follows k p hp).of_files (hobliging .write) fun b path _ => hpaths k p hp _ _ path
  case nodup => exact h.nodup
  case answered => exact h.answered
  case obliging => exact hobliging
  case process => rw [hprocess.1, hprocess.2, h.process]
  case processed =>
    intro k p hp
    rw [hprocess.1]
    exact h.processed k p hp
  case numbered => exact hmade
  case spills => exact h.spills
  case tidy =>
    intro k p hp
    have hrefuses : d.files.refuses = files.depot.files.refuses := by
      funext deed path
      rw [hobliging, h.obliging]
    exact (h.tidy k p hp).of_files hrefuses (hpaths k p hp)
  case pools =>
    intro k
    rw [h.pools k]
    cases hp : files.pools.find? k with
    | none => rfl
    | some p => simp [(h.tidy k p hp).inMemory_congr (hpaths k p hp)]
  case owned =>
    intro name c hc
    simp only [hfiles name] at hc
    exact h.owned name c hc

theorem mem_live (h : TwinsSound dir past files past' memory) (hp : files.pools.find? k = some p)
    (b : Buffer) : (k, b) ∈ live past ↔ (holds k past b).isSome := by
  simp [live, (h.sound.follows k p hp).bound b]

/-- A file of its own holds a buffer that is out. -/
theorem file_of_live (h : TwinsSound dir past files past' memory) {b : Buffer}
    (hb : (k, b) ∈ live past) : ∃ p c, files.pools.find? k = some p ∧
      (b.spillName files.depot.process, c) ∈ files.depot.files.list dir ∧
      p.read files.depot.files b = .ok c.bytes := by
  have hissued : (k, b) ∈ issued past := (List.mem_filter.1 hb).1
  obtain ⟨s, hs, hissue⟩ := List.mem_filterMap.1 hissued
  obtain ⟨p, hp⟩ := h.sound.asked s hs
  rw [Served.pool_of_issue? hissue] at hp
  obtain ⟨out, lost, hsound, hout⟩ := (h.sound.follows k p hp).sound
  have hmem : b ∈ out := (hout b).2 ((h.mem_live hp b).1 hb)
  obtain ⟨x, hbacking, -, hbacks⟩ := hsound.backing hmem
  obtain ⟨c, hc⟩ := (h.tidy k p hp).content hbacking
  have howns := Pool.owns_iff.1 (hsound.issued b hmem)
  refine ⟨p, c, hp, ?_, Pool.read_eq_ok.2 ⟨x, c, hbacking, hc, rfl⟩⟩
  cases x with
  | memory _ =>
    obtain ⟨folder, hspill, -⟩ := h.spills k p hp
    rw [Pool.spill_of_backs_memory hbacks] at hspill
    cases hspill
  | file path =>
    have hname : b.spillName files.depot.process = p.spillName b.slot b.generation := by
      rw [Buffer.spillName, Pool.spillName, howns.1, howns.2, h.processed k p hp]
    rw [Files.mem_list, hname, ← h.path_in hp hbacks]
    exact hc

/-- Every file in the folder holds a buffer that is out. -/
theorem live_of_file (h : TwinsSound dir past files past' memory) {name : String} {c : Content}
    (hfile : (name, c) ∈ files.depot.files.list dir) :
    ∃ x ∈ live past, x.2.spillName files.depot.process = name := by
  have hc := Files.mem_list.1 hfile
  obtain ⟨k, p, i, g, hp, hpath⟩ := h.owned name c hc
  obtain ⟨out, lost, hsound, hout⟩ := (h.sound.follows k p hp).sound
  have hslot := ((h.tidy k p hp).stands i g _ hpath).1 (by rw [hc]; rfl)
  obtain ⟨b, hmem, rfl, rfl⟩ := hsound.exists_of_backed hslot
  have howns := Pool.owns_iff.1 (hsound.issued b hmem)
  have hname : name = p.spillName b.slot b.generation := by
    simpa using h.path_in hp hpath
  refine ⟨(k, b), (h.mem_live hp b).2 ((hout b).1 hmem), ?_⟩
  rw [hname, Buffer.spillName, Pool.spillName, howns.1, howns.2, h.processed k p hp]

/-- No two buffers that are out have one file. -/
theorem live_inj (h : TwinsSound dir past files past' memory) {x y : Nat × Buffer}
    (hx : x ∈ live past) (hy : y ∈ live past)
    (hname : x.2.spillName files.depot.process = y.2.spillName files.depot.process) : x = y := by
  obtain ⟨k, b⟩ := x
  obtain ⟨j, c⟩ := y
  obtain ⟨hpool, hslot, -⟩ := spillFileName_inj hname
  have hb := h.sound.pool_of_issued (List.mem_filter.1 hx).1
  have hc := h.sound.pool_of_issued (List.mem_filter.1 hy).1
  simp only at hpool hslot hb hc
  obtain rfl : k = j := by omega
  obtain ⟨p, -, hp, -⟩ := h.file_of_live hx
  obtain ⟨out, lost, hsound, hout⟩ := (h.sound.follows k p hp).sound
  have hmem : b ∈ out := (hout b).2 ((h.mem_live hp b).1 hx)
  have hmem' : c ∈ out := (hout c).2 ((h.mem_live hp c).1 hy)
  rw [Multiset.inj_on_of_nodup_map hsound.apart b hmem c hmem' hslot]

/-- In the folder stands one file for each buffer that is out, and what is read from the buffer is
what the file has in it. -/
theorem list_perm (h : TwinsSound dir past files past' memory) :
    ((files.depot.files.list dir).map fun file => (file.1, some (Except.ok file.2.bytes))).Perm
      ((live past).map fun x => (x.2.spillName files.depot.process,
        (files.pools.find? x.1).map fun p => p.read files.depot.files x.2)) := by
  rw [List.perm_ext_iff_of_nodup]
  · rintro ⟨name, bytes⟩
    simp only [List.mem_map, Prod.mk.injEq, Prod.exists]
    constructor
    · rintro ⟨_, c, hfile, rfl, rfl⟩
      obtain ⟨⟨k, b⟩, hlive, rfl⟩ := h.live_of_file hfile
      obtain ⟨p, c', hp, hfile', hread⟩ := h.file_of_live hlive
      have hc : c' = c := by
        rw [Files.mem_list] at hfile hfile'
        exact Option.some.inj (hfile'.symm.trans hfile)
      exact ⟨k, b, hlive, rfl, by rw [hp, Option.map_some, hread, hc]⟩
    · rintro ⟨k, b, hlive, rfl, rfl⟩
      obtain ⟨p, c, hp, hfile, hread⟩ := h.file_of_live hlive
      exact ⟨_, c, hfile, rfl, by rw [hp, Option.map_some, hread]⟩
  · refine (Files.nodup_list _ dir).map_on ?_
    rintro ⟨name, c⟩ hfile ⟨name', c'⟩ hfile' heq
    obtain rfl : name = name' := (Prod.mk.inj heq).1
    rw [Files.mem_list] at hfile hfile'
    rw [Option.some.inj (hfile.symm.trans hfile')]
  · refine (h.nodup.filter _).map_on fun x hx y hy heq => ?_
    exact h.live_inj hx hy (Prod.mk.inj heq).1

end TwinsSound

theorem Twins.sound {dir : Path} {past past' : List Served} {files memory : PoolFamily}
    (h : Twins dir past files past' memory) : TwinsSound dir past files past' memory := by
  induction h with
  | start d e hobliging hempty hprocess hmade => exact .start d e hobliging hempty hprocess hmade
  | join _ hfile hdir hmemory ih => exact ih.join hfile hdir hmemory
  | serve _ hp hq hissued hfits hfile hmemory ih =>
    exact ih.serve hp hq hissued hfits hfile hmemory
  | elsewhere _ hobliging hprocess hfiles hlater hmade ih =>
    exact ih.elsewhere hobliging hprocess hfiles hlater hmade

/-- Pools that share a folder answer as pools in memory do and count as these do, and no file ever
stands in their way. At any moment the folder has in it one file for each buffer that is out, with
the bytes that are read from the buffer, and so nothing once all buffers are taken back. -/
theorem spilling_pools_agree {dir : Path} {past past' : List Served} {files memory : PoolFamily}
    (h : Twins dir past files past' memory) :
    past' = past ∧
      (∀ s ∈ past, ∀ e, s.reply ≠ .error (.io e)) ∧
      (∀ k, (memory.pools.find? k).map Pool.counts = (files.pools.find? k).map Pool.counts) ∧
      ((files.depot.files.list dir).map fun file => (file.1, some (Except.ok file.2.bytes))).Perm
        ((live past).map fun x => (x.2.spillName files.depot.process,
          (files.pools.find? x.1).map fun p => p.read files.depot.files x.2)) ∧
      ((∀ x ∈ issued past, x ∈ released past) → files.depot.files.list dir = []) := by
  have hsound := h.sound
  refine ⟨hsound.same, hsound.answered, fun k => ?_, hsound.list_perm, fun hreleased => ?_⟩
  · rw [hsound.pools k, Option.map_map]
    congr 1
    funext p
    exact p.counts_inMemory _
  · have hlive : live past = [] := by
      simpa [live] using hreleased
    have hperm := hsound.list_perm
    rw [hlive, List.map_nil, List.perm_nil, List.map_eq_nil_iff] at hperm
    exact hperm

/-- The pools of `sampleFamily`, sharing a folder. -/
def sampleSpilling (generation : Nat) (held : Option Content) : PoolFamily where
  depot :=
    { poolsMade := 2
      files :=
        { folders := [["spill"]]
          contents := match held with
            | none => .empty
            | some c => .insert .empty ["spill", (sampleUse generation).spillName 0] c } }
  pools :=
    let folder : Option Folder := some (.named "spill" ["spill"])
    (Table.empty.insert 2 { tier := .host, id := 2, spill := folder }).insert 1
      { tier := .host, id := 1, spill := folder
        slots := #[⟨generation,
          held.map fun _ => .file ["spill", (sampleUse generation).spillName 0]⟩]
        used := if held.isSome then 2 else 0
        free := if held.isSome then [] else [0]
        allocations := generation
        releases := if held.isSome then generation - 1 else generation }

theorem twins_sampleServed : Twins ["spill"] sampleServed (sampleSpilling 2 (some (.zeros 2)))
    sampleServed (sampleFamily 2 (some (.memory (.zeros 2)))) := by
  have hone := Twins.join (.start {} {} (fun _ _ => rfl) rfl rfl rfl)
    (rfl : Depot.newPool {} .host none (some "spill") = (.ok _, _))
    (by rintro folder ⟨⟩; rfl) (rfl : Depot.newPool {} .host none none = _)
  have htwo := hone.join
    (rfl : Depot.newPool { poolsMade := 1, files := { Files.empty with folders := [["spill"]] } }
      .host none (some "spill") = (.ok _, _))
    (by rintro folder ⟨⟩; rfl) (rfl : Depot.newPool { poolsMade := 1 } .host none none = _)
  have hfirst : Twins ["spill"] (sampleServed.drop 3) (sampleSpilling 1 (some (.zeros 2)))
      (sampleServed.drop 3) (sampleFamily 1 (some (.memory (.zeros 2)))) :=
    htwo.serve rfl rfl (by simp [Pool.Request.buffer?]) (by
      rintro n type ⟨⟩ -
      exact ⟨by decide, by rintro folder ⟨⟩; decide +kernel⟩) rfl rfl
  have hwritten : Twins ["spill"] (sampleServed.drop 2)
      (sampleSpilling 1 (some (.written ⟨#[7, 7]⟩))) (sampleServed.drop 2)
      (sampleFamily 1 (some (.memory (.written ⟨#[7, 7]⟩)))) :=
    hfirst.serve rfl rfl (by rintro b ⟨⟩; exact ⟨1, List.mem_cons_self⟩)
      (by rintro n type ⟨⟩) rfl rfl
  have hreleased : Twins ["spill"] (sampleServed.drop 1) (sampleSpilling 1 none)
      (sampleServed.drop 1) (sampleFamily 1 none) :=
    hwritten.serve rfl rfl (by rintro b ⟨⟩; exact ⟨1, List.mem_cons_self⟩)
      (by rintro n type ⟨⟩) rfl rfl
  exact hreleased.serve rfl rfl (by simp [Pool.Request.buffer?]) (by
      rintro n type ⟨⟩ -
      exact ⟨by decide, by rintro folder ⟨⟩; decide +kernel⟩) rfl rfl

theorem spilling_pools_agree_reused :
    Twins ["spill"] sampleServed (sampleSpilling 2 (some (.zeros 2))) sampleServed
      (sampleFamily 2 (some (.memory (.zeros 2)))) ∧
    (live sampleServed).map (fun x => x.2.spillName 0) = ["host-0-1-0-2.bin"] ∧
    ((sampleSpilling 2 (some (.zeros 2))).depot.files.list ["spill"]).length = 1 := by
  have hagree := spilling_pools_agree twins_sampleServed
  refine ⟨twins_sampleServed, by decide +kernel, ?_⟩
  simpa using (hagree.2.2.2.1).length_eq.trans (by decide : _ = 1)

end TieredWeights
