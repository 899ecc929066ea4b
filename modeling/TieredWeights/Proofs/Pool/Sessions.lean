import Mathlib.Logic.Function.Basic
import TieredWeights.Depot
import TieredWeights.Proofs.Pool.Reading

/-!
# Sessions with several pools

A session makes pools, several of one tier perhaps, and asks them for buffers, for writes, reads and
releases, with any buffer that one of them ever issued. What was served is kept, the last first, and
`holds` computes from it what a plain map from buffers to bytes would hold: an allocation binds its
buffer to zero bytes, a write binds it to the bytes written, a release unbinds it, and what is
refused does nothing.
-/
namespace TieredWeights

namespace Pool

/-- What can be asked of a pool. -/
inductive Request where
  | allocate (n : Nat) (type : ElementType)
  | copyIn (b : Buffer) (bytes : ByteArray)
  | read (b : Buffer)
  | release (b : Buffer)

/-- What a pool gives back when it does what it is asked. -/
inductive Reply where
  | buffer (b : Buffer)
  | bytes (bytes : ByteArray)
  | done

/-- The buffer that a request is about, if it has one yet. -/
def Request.buffer? : Request → Option Buffer
  | allocate _ _ => none
  | copyIn b _ => some b
  | read b => some b
  | release b => some b

/-- A request put to a pool. -/
def serve (p : Pool) (f : Files) : Request → Except Fault Reply × Pool × Files
  | .allocate n type =>
    let (result, rest) := p.allocate f n type
    (result.map .buffer, rest)
  | .copyIn b bytes =>
    let (result, rest) := p.copyIn f b bytes
    (result.map fun _ => .done, rest)
  | .read b => ((p.read f b).map .bytes, p, f)
  | .release b =>
    let (result, rest) := p.release f b
    (result.map fun _ => .done, rest)

end Pool

/-- A request that a pool, given by its number, has answered. -/
structure Served where
  pool : Nat
  request : Pool.Request
  reply : Except Fault Pool.Reply

/-- The buffer that an answer brings. -/
def Served.issue? (s : Served) : Option (Nat × Buffer) :=
  match s.reply with
  | .ok (.buffer b) => some (s.pool, b)
  | _ => none

/-- The buffer that was taken back. -/
def Served.release? (s : Served) : Option (Nat × Buffer) :=
  match s.request, s.reply with
  | .release b, .ok _ => some (s.pool, b)
  | _, _ => none

/-- Every buffer that was ever issued, with the number of its pool. -/
def issued (past : List Served) : List (Nat × Buffer) := past.filterMap Served.issue?

/-- Every buffer that was ever taken back, with the number of its pool. -/
def released (past : List Served) : List (Nat × Buffer) := past.filterMap Served.release?

/-- What becomes of a map from buffers to bytes when a request is served. -/
def Served.rebind (s : Served) (held : Buffer → Option ByteArray) : Buffer → Option ByteArray :=
  match s.request, s.reply with
  | .allocate n _, .ok (.buffer b) => Function.update held b (some (zeroBytes n))
  | .copyIn b bytes, .ok _ => Function.update held b (some bytes)
  | .release b, .ok _ => Function.update held b none
  | _, _ => held

/-- What the buffers of a pool hold, as a plain map, after what was served. -/
def holds (k : Nat) : List Served → Buffer → Option ByteArray
  | [] => fun _ => none
  | s :: past => if s.pool = k then s.rebind (holds k past) else holds k past

/-- Pools by their numbers, and what they were made of: the files, and the count of pools made. -/
structure PoolFamily where
  depot : Depot
  pools : Table Nat Pool

/-- The runs of a session, on a system that refuses no write to a file. Pools join at any time; others
may do with the files what they like, apart from the spill files of buffers that are held. -/
inductive Session : List Served → PoolFamily → Prop
  | start (depot : Depot) (hwrites : ∀ path, depot.files.refuses .write path = none) :
      Session [] ⟨depot, .empty⟩
  | join {past : List Served} {family : PoolFamily} {tier : Tier} {capacity : Option Nat}
      {spill : Option String} {p : Pool} {depot : Depot} (h : Session past family)
      (hnew : family.depot.newPool tier capacity spill = (.ok p, depot)) :
      Session past ⟨depot, family.pools.insert p.id p⟩
  | serve {past : List Served} {family : PoolFamily} {k : Nat} {p p' : Pool} {files : Files}
      {request : Pool.Request} {reply : Except Fault Pool.Reply} (h : Session past family)
      (hp : family.pools.find? k = some p)
      (hissued : ∀ b ∈ request.buffer?, ∃ j, (j, b) ∈ issued past)
      (hserve : p.serve family.depot.files request = (reply, p', files)) :
      Session (⟨k, request, reply⟩ :: past)
        ⟨{ family.depot with files }, family.pools.insert k p'⟩
  | elsewhere {past : List Served} {family : PoolFamily} {files : Files} (h : Session past family)
      (hwrites : ∀ path, files.refuses .write path = none)
      (hfiles : ∀ k p b path, family.pools.find? k = some p → (holds k past b).isSome →
        p.spillPath? b.slot b.generation = some path →
        files.contents.find? path = family.depot.files.contents.find? path) :
      Session past ⟨{ family.depot with files }, family.pools⟩

theorem mem_issued_cons {s : Served} {past : List Served} {x : Nat × Buffer} :
    x ∈ issued (s :: past) ↔ s.issue? = some x ∨ x ∈ issued past := by
  unfold issued
  cases h : s.issue? <;> simp [h, eq_comm]

theorem mem_released_cons {s : Served} {past : List Served} {x : Nat × Buffer} :
    x ∈ released (s :: past) ↔ s.release? = some x ∨ x ∈ released past := by
  unfold released
  cases h : s.release? <;> simp [h, eq_comm]

theorem Served.pool_of_issue? {s : Served} {x : Nat × Buffer} (h : s.issue? = some x) :
    s.pool = x.1 := by
  unfold issue? at h
  split at h
  · cases h
    rfl
  · cases h

theorem Served.pool_of_release? {s : Served} {x : Nat × Buffer} (h : s.release? = some x) :
    s.pool = x.1 := by
  unfold release? at h
  split at h
  · cases h
    rfl
  · cases h

/-- A pool that was asked nothing has issued nothing, taken nothing back and holds nothing. -/
theorem not_asked {past : List Served} {k : Nat} (h : ∀ s ∈ past, s.pool ≠ k) (b : Buffer) :
    (k, b) ∉ issued past ∧ (k, b) ∉ released past ∧ holds k past b = none := by
  induction past with
  | nil => simp [issued, released, holds]
  | cons s past ih =>
    have hs : s.pool ≠ k := h s List.mem_cons_self
    obtain ⟨hissued, hreleased, hholds⟩ := ih fun s' hs' => h s' (List.mem_cons_of_mem s hs')
    refine ⟨?_, ?_, ?_⟩
    · rw [mem_issued_cons]
      rintro (hb | hb)
      · exact hs (Served.pool_of_issue? hb)
      · exact hissued hb
    · rw [mem_released_cons]
      rintro (hb | hb)
      · exact hs (Served.pool_of_release? hb)
      · exact hreleased hb
    · simpa [holds, hs] using hholds

/-- Two histories tell the same of a pool. -/
structure SameFor (k : Nat) (past past' : List Served) : Prop where
  issued : ∀ b, (k, b) ∈ TieredWeights.issued past' ↔ (k, b) ∈ TieredWeights.issued past
  released : ∀ b, (k, b) ∈ TieredWeights.released past' ↔ (k, b) ∈ TieredWeights.released past
  holds : TieredWeights.holds k past' = TieredWeights.holds k past

/-- What one pool serves is nothing to the others. -/
theorem sameFor_of_ne {s : Served} {k : Nat} (h : s.pool ≠ k) (past : List Served) :
    SameFor k past (s :: past) where
  issued b := by
    rw [mem_issued_cons, or_iff_right]
    exact fun hb => h (Served.pool_of_issue? hb)
  released b := by
    rw [mem_released_cons, or_iff_right]
    exact fun hb => h (Served.pool_of_release? hb)
  holds := if_neg h

/-- What is refused does nothing. -/
theorem sameFor_error (k : Nat) (request : Pool.Request) (e : Fault) (past : List Served) :
    SameFor k past (⟨k, request, .error e⟩ :: past) where
  issued b := by simp [mem_issued_cons, Served.issue?]
  released b := by
    rw [mem_released_cons, or_iff_right]
    cases request <;> simp [Served.release?]
  holds := by cases request <;> simp [holds, Served.rebind]

/-- A read does nothing. -/
theorem sameFor_read (k : Nat) (b : Buffer) (r : Except Fault ByteArray) (past : List Served) :
    SameFor k past (⟨k, .read b, r.map .bytes⟩ :: past) where
  issued c := by cases r <;> simp [mem_issued_cons, Served.issue?, Except.map]
  released c := by simp [mem_released_cons, Served.release?]
  holds := by simp [holds, Served.rebind]

/-- A request about one buffer binds it to bytes, or unbinds it. -/
structure Rebinds (k : Nat) (past : List Served) (b : Buffer) (v : Option ByteArray) (s : Served) :
    Prop where
  issued : ∀ c, (k, c) ∈ TieredWeights.issued (s :: past) ↔
    c = b ∨ (k, c) ∈ TieredWeights.issued past
  released : ∀ c, (k, c) ∈ TieredWeights.released (s :: past) ↔
    c = b ∧ v = none ∨ (k, c) ∈ TieredWeights.released past
  holds : TieredWeights.holds k (s :: past) = Function.update (TieredWeights.holds k past) b v

theorem rebinds_allocate (k n : Nat) (type : ElementType) (b : Buffer) (past : List Served) :
    Rebinds k past b (some (zeroBytes n)) ⟨k, .allocate n type, .ok (.buffer b)⟩ where
  issued := by simp [mem_issued_cons, Served.issue?, eq_comm]
  released := by simp [mem_released_cons, Served.release?]
  holds := by simp [holds, Served.rebind]

theorem rebinds_copyIn {k : Nat} {b : Buffer} {past : List Served} (h : (k, b) ∈ issued past)
    (bytes : ByteArray) : Rebinds k past b (some bytes) ⟨k, .copyIn b bytes, .ok .done⟩ where
  issued c := by
    have himp : c = b → (k, c) ∈ issued past := fun hcb => hcb ▸ h
    simpa [mem_issued_cons, Served.issue?] using himp
  released := by simp [mem_released_cons, Served.release?]
  holds := by simp [holds, Served.rebind]

theorem rebinds_release {k : Nat} {b : Buffer} {past : List Served} (h : (k, b) ∈ issued past) :
    Rebinds k past b none ⟨k, .release b, .ok .done⟩ where
  issued c := by
    have himp : c = b → (k, c) ∈ issued past := fun hcb => hcb ▸ h
    simpa [mem_issued_cons, Served.issue?] using himp
  released := by simp [mem_released_cons, Served.release?, eq_comm]
  holds := by simp [holds, Served.rebind]

namespace Files

/-- Making folders adds folders at most. -/
theorem exists_makeLast (f : Files) (r : Route) :
    ∃ folders, (f.makeLast r).2 = { f with folders } := by
  unfold makeLast
  split
  · exact ⟨_, rfl⟩
  · split_ifs <;> exact ⟨_, rfl⟩

theorem exists_makeAlong (f : Files) (r : Route) (passed : List Route) :
    ∃ folders, (f.makeAlong r passed).2 = { f with folders } := by
  induction passed generalizing f r with
  | nil => exact exists_makeLast f r
  | cons next rest ih =>
    unfold makeAlong
    obtain ⟨folders, hlast⟩ := exists_makeLast f r
    split
    · rename_i g hg
      rw [hg] at hlast
      obtain rfl : g = { f with folders } := hlast
      obtain ⟨folders', halong⟩ := ih { f with folders } next
      split
      · rename_i e g' hg'
        rw [hg'] at halong
        exact ⟨folders', halong⟩
      · rename_i path g' hg'
        rw [hg'] at halong
        obtain rfl : g' = { f with folders := folders' } := halong
        exact exists_makeLast _ r
    · exact ⟨folders, hlast⟩

theorem exists_makeFolder (f : Files) (written : String) :
    ∃ folders, (f.makeFolder written).2 = { f with folders } := by
  unfold makeFolder
  split
  · exact ⟨_, rfl⟩
  · split
    · exact ⟨_, rfl⟩
    · exact exists_makeAlong f _ _

end Files

/-- A new pool has a new number and no slots, and nothing but folders is made for it. -/
theorem Depot.newPool_eq_ok {d d' : Depot} {tier : Tier} {capacity : Option Nat}
    {spill : Option String} {p : Pool} (h : d.newPool tier capacity spill = (.ok p, d')) :
    (∃ folder, p =
      { tier, id := d.poolsMade + 1, capacity := capacity.getD unbounded, spill := folder,
        process := d.process }) ∧
      ∃ folders, d' = { d with files := { d.files with folders }, poolsMade := d.poolsMade + 1 } := by
  unfold newPool at h
  cases spill with
  | none =>
    cases h
    exact ⟨⟨none, rfl⟩, _, rfl⟩
  | some folder =>
    obtain ⟨folders, hfiles⟩ := Files.exists_makeFolder d.files folder
    rcases hm : d.files.makeFolder folder with ⟨e | path, files⟩ <;> simp only [hm] at h hfiles
    · cases h
    · cases h
      subst hfiles
      exact ⟨⟨some (.named folder path), rfl⟩, folders, rfl⟩

end TieredWeights
