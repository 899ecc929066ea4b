import TieredWeights.Proofs.Pool.Runs
import TieredWeights.Proofs.Pool.Spare

/-!
# Failed allocations

An allocation that fails changes no count and no buffer, and the pool that it leaves answers ever
after as the pool that was never asked. One thing only can tell the two apart: where a size is
refused, the file was made before and stays behind, empty. It stands at the path of the slot that
the pool uses next, so as long as it is there nothing more is handed out.
-/
namespace TieredWeights

/-- A file is refused without a trace, or its size is refused and it stays behind. -/
theorem Files.createIn_error {f f' : Files} {folder : Folder} {name : String} {n : Nat} {e : IoFault}
    (h : f.createIn folder name n = (.error e, f')) :
    f' = f ∧ e ≠ .sizeOutOfRange ∨ e = .sizeOutOfRange ∧
      f.contents.find? (folder.path ++ [name]) = none ∧
      f' = { f with contents := f.contents.insert (folder.path ++ [name]) (.zeros 0) } ∧
      ∀ m ≤ sizeLimit, (f.createIn folder name m).1 = .ok (folder.path ++ [name]) := by
  unfold createIn at h ⊢
  by_cases hroute : Route.textLimit < folder.routeSize name
  · simp only [hroute, if_true] at h
    cases h
    exact .inl ⟨rfl, by simp⟩
  by_cases hfile : f.isFile (folder.path ++ [name]) = true
  · simp only [hroute, if_false, create, hfile, if_true, Except.map] at h
    cases h
    exact .inl ⟨rfl, by simp⟩
  cases hrefuses : f.refuses .create (folder.path ++ [name]) with
  | some refusal =>
    simp only [hroute, if_false, create, hfile, hrefuses, Except.map] at h
    cases h
    exact .inl ⟨rfl, by simp⟩
  | none =>
    by_cases hsize : sizeLimit < n
    · simp only [hroute, hfile, hrefuses, hsize, if_true, if_false, create, Except.map] at h
      cases h
      refine .inr ⟨rfl, ?_, rfl, fun m hm => ?_⟩
      · simpa [isFile, Table.contains] using hfile
      · simp [hroute, create, hfile, hrefuses, Nat.not_lt.2 hm, Except.map]
    · simp only [hroute, hfile, hrefuses, hsize, if_false, create, Except.map] at h
      cases h

/-- Where a file stands none is made. -/
theorem Files.createIn_taken {f : Files} {folder : Folder} {name : String}
    (h : (f.contents.find? (folder.path ++ [name])).isSome) (n : Nat) :
    ∃ e, (f.createIn folder name n).1 = .error e := by
  have hfile : f.isFile (folder.path ++ [name]) = true := h
  unfold createIn
  split_ifs
  · exact ⟨_, rfl⟩
  · exact ⟨.alreadyExists, by simp [create, hfile, Except.map]⟩

namespace Pool

/-- The path of the next buffer's file, if the pool spills. -/
def nextPath? (p : Pool) : Option Path :=
  p.spillPath? p.takeSlot.1 (p.takeSlot.2.generationOf p.takeSlot.1 + 1)

/-- A file has stayed behind at the path of the next buffer, where there was none. -/
structure LeavesFile (p : Pool) (f f' : Files) (path : Path) : Prop where
  next : p.nextPath? = some path
  vacant : f.contents.find? path = none
  left : f' = { f with contents := f.contents.insert path (.zeros 0) }

variable {p p' : Pool} {f f' : Files} {past : List Served} {lost : List Nat} {n : Nat}
  {type : ElementType} {e : Fault}

/-- A failed allocation leaves a spare slot at most, and no file, or one whose size was refused. -/
theorem allocate_error (ha : p.allocate f n type = (.error e, p', f')) (he : e.isPanic = false) :
    p.Spares p' ∧ (f' = f ∧ e ≠ .io .sizeOutOfRange ∨ e = .io .sizeOutOfRange ∧
      (∃ path, p.LeavesFile f f' path) ∧ p.Takes f 0) := by
  by_cases hroom : p.capacity - p.used < n
  · rw [allocate_full hroom] at ha
    cases ha
    exact ⟨.inl rfl, .inl ⟨rfl, nofun⟩⟩
  rw [allocate_of_room hroom] at ha
  cases hspill : p.spill with
  | none =>
    simp only [hspill] at ha
    split at ha
    · cases ha
      cases he
    · cases ha
  | some folder =>
    simp only [hspill] at ha
    rcases hc : f.createIn folder (p.spillName p.takeSlot.1
      (p.takeSlot.2.generationOf p.takeSlot.1 + 1)) n with ⟨e' | path, g⟩ <;> simp only [hc] at ha
    · cases ha
      refine ⟨p.spares_putBack_takeSlot, ?_⟩
      rcases Files.createIn_error hc with ⟨rfl, he⟩ | ⟨rfl, hvacant, hleft, hcreates⟩
      · exact .inl ⟨rfl, fun h => he (Fault.io.inj h)⟩
      · refine .inr ⟨rfl, ⟨_, ⟨by simp [nextPath?, spillPath?, hspill], hvacant, hleft⟩⟩, ?_⟩
        refine ⟨Nat.zero_le _, fun _ => Nat.zero_le _, fun folder' hspill' => ?_⟩
        rw [hspill, Option.some.injEq] at hspill'
        subst hspill'
        exact ⟨_, hcreates 0 (Nat.zero_le _)⟩
    · cases ha

/-- Where the next file is to stand and one stands, nothing is handed out. -/
theorem allocate_blocked {path : Path} (hpath : p.nextPath? = some path)
    (hfile : (f.contents.find? path).isSome) (n : Nat) (type : ElementType) :
    ∃ e, (p.allocate f n type).1 = .error e := by
  by_cases hroom : p.capacity - p.used < n
  · rw [allocate_full hroom]
    exact ⟨_, rfl⟩
  rw [allocate_of_room hroom]
  cases hspill : p.spill with
  | none => simp [nextPath?, spillPath?, hspill] at hpath
  | some folder =>
    simp only [nextPath?, spillPath?, hspill, Option.map_some, Option.some.injEq] at hpath
    subst hpath
    obtain ⟨e, he⟩ := Files.createIn_taken hfile n
    rcases hc : f.createIn folder (p.spillName p.takeSlot.1
      (p.takeSlot.2.generationOf p.takeSlot.1 + 1)) n with ⟨e' | path, g⟩
    · exact ⟨.io e', by simp only [hc]⟩
    · rw [hc] at he
      cases he

theorem Spares.allocate {q : Pool} (hq : p.Spares q) (h : p.FreeInRange) (f : Files) (n : Nat)
    (type : ElementType) : (q.allocate f n type).1 = (p.allocate f n type).1 := by
  rcases hq with rfl | rfl
  · rfl
  · obtain ⟨q, hq, -⟩ := allocate_padded h f n type
    rw [hq]

/-- What is out reads the same, whatever a failed allocation left. -/
theorem Ledger.read_of_failed {out : Multiset Buffer} {b : Buffer} (h : p.Ledger past out lost)
    (ha : p.allocate f n type = (.error e, p', f')) (he : e.isPanic = false) (hb : b ∈ out) :
    p'.read f' b = p.read f b := by
  obtain ⟨hspares, ⟨rfl, -⟩ | ⟨-, ⟨path, hnext, -, rfl⟩, -⟩⟩ := allocate_error ha he
  · exact hspares.read f' b
  rw [hspares.read]
  obtain ⟨k, hk, -, hbacks⟩ := h.sound.backing hb
  unfold read
  rw [hk]
  cases k with
  | memory c => rfl
  | file path' =>
    have hne : path' ≠ path := by
      rintro rfl
      have hslot := (spillPath?_inj hbacks hnext).2.1
      exact h.sound.slot_ne_nextBuffer n type hb hslot
    have hfind := Table.find?_insert_ne f.contents (.zeros 0) hne
    have hread : Files.read { f with contents := f.contents.insert path (.zeros 0) } path' =
        f.read path' := by
      unfold Files.read
      rw [hfind]
      rfl
    simp only [hread]

end Pool

/-- An allocation that returns with a fault is as if it was never asked for, if the files are the same
afterwards: no count and no buffer has changed, all answers ever after are the same, and what failed
succeeds with the same buffer once it can. It leaves the files as they were unless a size was refused,
and just then it is noticed: a file stays behind, and while it is there nothing is handed out. -/
theorem failed_allocation_unnoticed_iff {past : List Served} {p p' : Pool} {f f' : Files} {n : Nat}
    {type : ElementType} {e : Fault} (h : Pool.Run past p)
    (ha : p.allocate f n type = (.error e, p', f')) (hreturns : e.isPanic = false) :
    p'.counts = p.counts ∧
      (∀ b, (p.id, b) ∈ live past → p'.read f' b = p.read f b) ∧
      (∀ g script, p'.answers g script = p.answers g script) ∧
      (∀ g, p.Takes g n → (p'.allocate g n type).1 = .ok (p.nextBuffer n type)) ∧
      (f' = f ↔ e ≠ .io .sizeOutOfRange) ∧
      ((∀ script, p'.answers f' script = p.answers f script) ↔ e ≠ .io .sizeOutOfRange) ∧
      (e = .io .sizeOutOfRange → ∃ path, p.LeavesFile f f' path ∧
        ∀ g, (g.contents.find? path).isSome → ∀ m type',
          ∃ e', (p'.allocate g m type').1 = .error e') := by
  obtain ⟨out, lost, hledger⟩ := h.ledger
  have hfree := hledger.sound.freeInRange
  obtain ⟨hspares, hfiles⟩ := Pool.allocate_error ha hreturns
  have hanswers : ∀ g script, p'.answers g script = p.answers g script := hspares.answers hfree
  have hblocked : ∀ path, p.LeavesFile f f' path → ∀ g, (g.contents.find? path).isSome →
      ∀ m type', ∃ e', (p'.allocate g m type').1 = .error e' := by
    intro path hleaves g hg m type'
    rw [hspares.allocate hfree]
    exact Pool.allocate_blocked hleaves.next hg m type'
  refine ⟨hspares.counts, fun b hb => ?_, hanswers, fun g hg => ?_, ?_, ?_, fun he => ?_⟩
  · exact hledger.read_of_failed ha hreturns (hledger.mem_live.1 hb)
  · rw [hspares.allocate hfree]
    exact hg.allocate type
  · rcases hfiles with ⟨rfl, he⟩ | ⟨he, ⟨path, hleaves⟩, -⟩
    · exact iff_of_true rfl he
    · refine iff_of_false (fun hsame => ?_) (not_not_intro he)
      have hfind := hleaves.vacant
      rw [← hsame, hleaves.left, Table.find?_insert_self] at hfind
      cases hfind
  · rcases hfiles with ⟨rfl, he⟩ | ⟨he, ⟨path, hleaves⟩, htakes⟩
    · exact iff_of_true (hanswers f') he
    · refine iff_of_false (fun hsame => ?_) (not_not_intro he)
      -- The next thing asked for is an empty buffer.
      have hone := congrArg Prod.fst (hsame [(id, .allocate 0 type)])
      obtain ⟨e', he'⟩ := hblocked path hleaves f' (by simp [hleaves.left]) 0 type
      have hok := htakes.allocate type
      simp [Pool.answers, Pool.serve, he', hok, Except.map] at hone
  · rcases hfiles with ⟨-, hne⟩ | ⟨-, ⟨path, hleaves⟩, -⟩
    · exact absurd he hne
    · exact ⟨path, hleaves, hblocked path hleaves⟩

/-- A pool that spills to a folder. -/
def spillingPool : Pool := { tier := .disk, id := 1, spill := some (.named "spill" ["spill"]) }

/-- Its folder, with the file of its first buffer or without. -/
def spillFolder (planted : Option Content) : Files where
  folders := [["spill"]]
  contents := match planted with
    | none => .empty
    | some c => .insert .empty ["spill", "disk-0-1-0-1.bin"] c

theorem run_spillingPool : Pool.Run [] spillingPool := by
  have hnew : Depot.newPool {} .disk none (some "spill") = (.ok spillingPool, _) := rfl
  exact .start (by rintro n ⟨⟩) hnew

/-- A foreign file stands in the way, and nobody notices that something was asked for. -/
theorem failed_allocation_unnoticed_planted : Pool.Run [] spillingPool ∧
    (spillingPool.allocate (spillFolder (some (.zeros 3))) 4 .u8).1 = .error (.io .alreadyExists) ∧
    ∀ script, (spillingPool.allocate (spillFolder (some (.zeros 3))) 4 .u8).2.1.answers
      (spillFolder (some (.zeros 3))) script =
        spillingPool.answers (spillFolder (some (.zeros 3))) script := by
  have ha : spillingPool.allocate (spillFolder (some (.zeros 3))) 4 .u8 =
      (.error (.io .alreadyExists), _, _) := rfl
  exact ⟨run_spillingPool, rfl, (failed_allocation_unnoticed_iff run_spillingPool ha rfl).2.2.1 _⟩

/-- The file system refuses the size, and the file of no bytes that stays behind is in the way of
the buffer of four bytes that would have been handed out. -/
theorem leftover_file_blocks_pool : Pool.Run [] spillingPool ∧
    ∃ p', spillingPool.allocate (spillFolder none) (twoTo 63) .u8 =
        (.error (.io .sizeOutOfRange), p', spillFolder (some (.zeros 0))) ∧
      (spillFolder none).list ["spill"] = [] ∧
      (spillFolder (some (.zeros 0))).list ["spill"] = [("disk-0-1-0-1.bin", .zeros 0)] ∧
      (p'.allocate (spillFolder (some (.zeros 0))) 4 .u8).1 = .error (.io .alreadyExists) ∧
      (spillingPool.allocate (spillFolder none) 4 .u8).1 = .ok ⟨.disk, 1, 0, 1, 4, .u8⟩ :=
  ⟨run_spillingPool, _, rfl, rfl, rfl, rfl, rfl⟩

end TieredWeights
