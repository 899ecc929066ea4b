import TieredWeights.Proofs.Pool.Follows

/-!
# Pools as maps

In a session every pool answers as the map `holds` from buffers to bytes: it reads what the map
holds, it takes writes and releases of exactly the buffers that the map binds, and a refusal counts
nothing. All pools of a family are in step with their maps at once, because a pool of another number
neither owns a buffer nor has a file of its name.
-/
namespace TieredWeights

/-- A family of pools that has been asked for what `past` tells: each of them is in step with its
map, and the next number is nobody's. -/
structure PoolFamily.Sound (family : PoolFamily) (past : List Served) : Prop where
  writes : ∀ path, family.depot.files.refuses .write path = none
  follows : ∀ k p, family.pools.find? k = some p → p.Follows family.depot.files k past
  made : ∀ k p, family.pools.find? k = some p → k ≤ family.depot.poolsMade
  asked : ∀ s ∈ past, ∃ p, family.pools.find? s.pool = some p

namespace PoolFamily

variable {family : PoolFamily} {past : List Served}

/-- A buffer carries the number of the pool that issued it. -/
theorem Sound.pool_of_issued (h : family.Sound past) {k : Nat} {b : Buffer}
    (hb : (k, b) ∈ issued past) : b.pool = k := by
  obtain ⟨s, hs, hissue⟩ := List.mem_filterMap.1 hb
  obtain ⟨p, hp⟩ := h.asked s hs
  rw [Served.pool_of_issue? hissue] at hp
  have howns := Pool.owns_iff.1 ((h.follows k p hp).owned b hb)
  exact howns.2.trans (h.follows k p hp).number

/-- A buffer that some pool issued was issued by this one, or does not carry its number. -/
theorem Sound.issued_or_foreign (h : family.Sound past) {j : Nat} {b : Buffer}
    (hb : (j, b) ∈ issued past) (k : Nat) : (k, b) ∈ issued past ∨ b.pool ≠ k := by
  by_cases hjk : j = k
  · exact .inl (hjk ▸ hb)
  · exact .inr (by rwa [h.pool_of_issued hb])

theorem Sound.join {tier : Tier} {capacity : Option Nat} {spill : Option String} {p : Pool}
    {depot : Depot} (h : family.Sound past)
    (hnew : family.depot.newPool tier capacity spill = (.ok p, depot)) :
    Sound ⟨depot, family.pools.insert p.id p⟩ past := by
  obtain ⟨⟨folder, rfl⟩, folders, rfl⟩ := Depot.newPool_eq_ok hnew
  have hnobody : ∀ s ∈ past, s.pool ≠ family.depot.poolsMade + 1 := fun s hs he => by
    obtain ⟨p, hp⟩ := h.asked s hs
    have hle := h.made _ p hp
    omega
  constructor
  case writes => exact h.writes
  case follows =>
    intro k q hq
    rw [Table.find?_insert] at hq
    split_ifs at hq with hk
    · cases hq
      subst hk
      exact Pool.follows_new h.writes hnobody
    · exact (h.follows k q hq).of_files h.writes fun _ _ _ _ => rfl
  case made =>
    intro k q hq
    rw [Table.find?_insert] at hq
    split_ifs at hq with hk
    · exact Nat.le_of_eq hk
    · exact Nat.le_succ_of_le (h.made k q hq)
  case asked =>
    intro s hs
    obtain ⟨q, hq⟩ := h.asked s hs
    exact ⟨q, by rw [Table.find?_insert_ne _ _ (hnobody s hs), hq]⟩

theorem Sound.serve {k : Nat} {p p' : Pool} {files : Files} {request : Pool.Request}
    {reply : Except Fault Pool.Reply} (h : family.Sound past)
    (hp : family.pools.find? k = some p)
    (hissued : ∀ b ∈ request.buffer?, ∃ j, (j, b) ∈ issued past)
    (hserve : p.serve family.depot.files request = (reply, p', files)) :
    Sound ⟨{ family.depot with files }, family.pools.insert k p'⟩
      (⟨k, request, reply⟩ :: past) := by
  have hfollows := h.follows k p hp
  have hbuffer : ∀ b ∈ request.buffer?, (k, b) ∈ issued past ∨ b.pool ≠ k := fun b hb => by
    obtain ⟨j, hj⟩ := hissued b hb
    exact h.issued_or_foreign hj k
  obtain ⟨hfollows', slot, generation, htouch⟩ := hfollows.serve hbuffer hserve
  constructor
  case writes => exact hfollows'.writes
  case follows =>
    intro j q hq
    rw [Table.find?_insert] at hq
    split_ifs at hq with hj
    · cases hq
      subst hj
      exact hfollows'
    · have hother := h.follows j q hq
      refine (hother.of_files hfollows'.writes fun b path _ hpath =>
        htouch.files path fun hpath' => hj ?_).of_same (sameFor_of_ne (Ne.symm hj) past)
      have hid := (Pool.spillPath?_inj hpath hpath').1
      rwa [hother.number, hfollows.number] at hid
  case made =>
    intro j q hq
    rw [Table.find?_insert] at hq
    split_ifs at hq with hj
    · rw [hj]
      exact h.made k p hp
    · exact h.made j q hq
  case asked =>
    intro s hs
    by_cases hk : s.pool = k
    · exact ⟨p', by simp [hk]⟩
    · rcases List.mem_cons.1 hs with rfl | hs
      · exact absurd rfl hk
      · obtain ⟨q, hq⟩ := h.asked s hs
        exact ⟨q, by rw [Table.find?_insert_ne _ _ hk, hq]⟩

end PoolFamily

theorem Session.sound {past : List Served} {family : PoolFamily} (h : Session past family) :
    family.Sound past := by
  induction h with
  | start depot hwrites => exact ⟨hwrites, by simp, by simp, by simp⟩
  | join _ hnew ih => exact ih.join hnew
  | serve _ hp hissued hserve ih => exact ih.serve hp hissued hserve
  | elsewhere _ hwrites hfiles ih =>
    refine ⟨hwrites, fun k p hp => ?_, ih.made, ih.asked⟩
    exact (ih.follows k p hp).of_files hwrites fun b path => hfiles k p b path hp

namespace Pool

/-- A refusal counts nothing and hands nothing out. -/
theorem serve_error {p p' : Pool} {f f' : Files} {request : Request} {e : Fault}
    (h : p.serve f request = (.error e, p', f')) (he : e.isPanic = false) :
    p'.used = p.used ∧ p'.live = p.live ∧ p'.allocations = p.allocations ∧
      p'.releases = p.releases ∧ p'.capacity = p.capacity := by
  cases request with
  | allocate n type =>
    rcases ha : p.allocate f n type with ⟨e' | b, q, g⟩ <;> simp only [serve, ha] at h <;> cases h
    rcases allocate_cases ha with ⟨e, -, -, rfl | rfl⟩ | ⟨-, hpanic, -⟩ | ⟨k, hok, -⟩
    · simp
    · unfold takeSlot putBack live
      cases p.free <;> simp
    · cases hpanic
      cases he
    · cases hok
  | copyIn b bytes =>
    rcases hc : p.copyIn f b bytes with ⟨e' | u, q, g⟩ <;> simp only [serve, hc] at h <;> cases h
    simp [(copyIn_error hc).1]
  | read b =>
    simp only [serve, Prod.mk.injEq] at h
    simp [h.2.1]
  | release b =>
    rcases hr : p.release f b with ⟨e' | notices, q, g⟩ <;> simp only [serve, hr] at h <;> cases h
    simp [(release_error hr).1]

/-- A pool answers as the map `holds` does, which binds the buffers that the pool issued and has not
taken back. Whoever issued a buffer, the pool reads, writes and releases it just if it is bound
here; what it hands out was never issued before; and a call that returns with a refusal counts
nothing. -/
structure ActsAsMap (p : Pool) (f : Files) (k : Nat) (past : List Served) : Prop where
  bound : ∀ b, (holds k past b).isSome ↔ (k, b) ∈ issued past ∧ (k, b) ∉ released past
  allocate : ∀ n type b p' f', p.allocate f n type = (.ok b, p', f') →
    b.length = n ∧ ∀ j, (j, b) ∉ issued past
  read : ∀ j b, (j, b) ∈ issued past → ∀ bytes,
    (p.read f b = .ok bytes ↔ holds k past b = some bytes)
  copyIn : ∀ j b, (j, b) ∈ issued past → ∀ bytes,
    ((p.copyIn f b bytes).1 = .ok () ↔ bytes.size = b.length ∧ (holds k past b).isSome)
  release : ∀ j b, (j, b) ∈ issued past →
    ((∃ notices, (p.release f b).1 = .ok notices) ↔ (holds k past b).isSome)
  refusal : ∀ request e p' f', p.serve f request = (.error e, p', f') → e.isPanic = false →
    p'.used = p.used ∧ p'.live = p.live ∧ p'.allocations = p.allocations ∧
      p'.releases = p.releases ∧ p'.capacity = p.capacity

end Pool

namespace PoolFamily

variable {family : PoolFamily} {past : List Served} {k : Nat} {p : Pool}

/-- A buffer that a pool hands out was issued by no pool before. -/
theorem Sound.fresh {n : Nat} {type : ElementType} {b : Buffer} {p' : Pool} {files : Files}
    (h : family.Sound past) (hp : family.pools.find? k = some p)
    (ha : p.allocate family.depot.files n type = (.ok b, p', files)) (j : Nat) :
    (j, b) ∉ issued past := by
  have hfollows := h.follows k p hp
  intro hb
  obtain ⟨out, lost, hs, -⟩ := hfollows.sound
  have hpool : b.pool = k := by
    rw [(hs.allocate ha).1]
    exact hfollows.number
  have hjk : j = k := (h.pool_of_issued hb).symm.trans hpool
  exact hfollows.fresh ha (hjk ▸ hb)

theorem Sound.actsAsMap (h : family.Sound past) (hp : family.pools.find? k = some p) :
    p.ActsAsMap family.depot.files k past := by
  have hfollows := h.follows k p hp
  constructor
  case bound => exact hfollows.bound
  case allocate =>
    intro n type b p' f' ha
    obtain ⟨out, lost, hs, -⟩ := hfollows.sound
    exact ⟨by simp [(hs.allocate ha).1], h.fresh hp ha⟩
  case read => exact fun j b hb bytes => hfollows.read_iff (h.issued_or_foreign hb k)
  case copyIn => exact fun j b hb bytes => hfollows.copyIn_iff (h.issued_or_foreign hb k)
  case release => exact fun j b hb => hfollows.release_iff (h.issued_or_foreign hb k)
  case refusal => exact fun request e p' f' => Pool.serve_error

/-- What is asked about other buffers, or refused, does not change what the map holds for one. -/
theorem Sound.holds_cons {p' : Pool} {files : Files} {request : Pool.Request}
    {reply : Except Fault Pool.Reply} (h : family.Sound past)
    (hp : family.pools.find? k = some p)
    (hserve : p.serve family.depot.files request = (reply, p', files)) {i : Nat} {b : Buffer}
    (hb : (i, b) ∈ issued past)
    (hother : request.buffer? ≠ some b ∨ ∃ e, reply = .error e) (j : Nat) :
    holds j (⟨k, request, reply⟩ :: past) b = holds j past b := by
  by_cases hk : k = j
  · subst hk
    cases reply with
    | error e => rw [(sameFor_error k request e past).holds]
    | ok answer =>
      have hne : request.buffer? ≠ some b := hother.resolve_right (by simp)
      cases request with
      | allocate n type =>
        rcases ha : p.allocate family.depot.files n type with ⟨e | c, q, g⟩ <;>
          simp only [Pool.serve, ha] at hserve <;> cases hserve
        have hcb : b ≠ c := fun he => h.fresh hp ha i (he ▸ hb)
        simp [holds, Served.rebind, hcb]
      | copyIn c bytes =>
        have hcb : b ≠ c := fun he => hne (by simp [Pool.Request.buffer?, he])
        simp [holds, Served.rebind, hcb]
      | read c => simp [holds, Served.rebind]
      | release c =>
        have hcb : b ≠ c := fun he => hne (by simp [Pool.Request.buffer?, he])
        simp [holds, Served.rebind, hcb]
  · rw [(sameFor_of_ne hk past).holds]

end PoolFamily

/-- At any moment of any session every pool acts as its map. And whatever a pool is asked next,
unless it is a deed on `b` itself that is done, no pool reads anything else from `b` than before. -/
theorem pools_act_as_maps {past : List Served} {family : PoolFamily} (h : Session past family)
    {k : Nat} {p : Pool} (hp : family.pools.find? k = some p) :
    p.ActsAsMap family.depot.files k past ∧
      ∀ j q q' files request reply, family.pools.find? j = some q →
        (∀ c ∈ request.buffer?, ∃ i, (i, c) ∈ issued past) →
        q.serve family.depot.files request = (reply, q', files) →
        ∀ i b, (i, b) ∈ issued past → request.buffer? ≠ some b ∨ (∃ e, reply = .error e) →
        ∀ p', (family.pools.insert j q').find? k = some p' →
        ∀ bytes, p'.read files b = .ok bytes ↔ p.read family.depot.files b = .ok bytes := by
  have hsound := h.sound
  refine ⟨hsound.actsAsMap hp, ?_⟩
  intro j q q' files request reply hq hissued hserve i b hb hother p' hp' bytes
  have hnext := (Session.serve h hq hissued hserve).sound
  have hb' : (i, b) ∈ issued (⟨j, request, reply⟩ :: past) := mem_issued_cons.2 (.inr hb)
  have hholds := hsound.holds_cons hq hserve hb hother k
  calc p'.read files b = .ok bytes
      ↔ holds k (⟨j, request, reply⟩ :: past) b = some bytes :=
        (hnext.actsAsMap hp').read i b hb' bytes
    _ ↔ holds k past b = some bytes := by rw [hholds]
    _ ↔ p.read family.depot.files b = .ok bytes := ((hsound.actsAsMap hp).read i b hb bytes).symm

/-- A pool that uses its only slot for two bytes again and again, beside a pool of its tier. -/
def sampleFamily (generation : Nat) (backing : Option Backing) : PoolFamily where
  depot := { poolsMade := 2 }
  pools := (Table.empty.insert 2 { tier := .host, id := 2 }).insert 1
    { tier := .host, id := 1, slots := #[⟨generation, backing⟩]
      used := if backing.isSome then 2 else 0
      free := if backing.isSome then [] else [0]
      allocations := generation
      releases := if backing.isSome then generation - 1 else generation }

/-- The buffer of a use of the slot. -/
def sampleUse (generation : Nat) : Buffer := ⟨.host, 1, 0, generation, 2, .u8⟩

/-- The slot is used, written and released, and used again. -/
def sampleServed : List Served :=
  [⟨1, .allocate 2 .u8, .ok (.buffer (sampleUse 2))⟩, ⟨1, .release (sampleUse 1), .ok .done⟩,
    ⟨1, .copyIn (sampleUse 1) ⟨#[7, 7]⟩, .ok .done⟩,
    ⟨1, .allocate 2 .u8, .ok (.buffer (sampleUse 1))⟩]

theorem session_sampleServed :
    Session sampleServed (sampleFamily 2 (some (.memory (.zeros 2)))) := by
  have hone := Session.join (.start {} fun _ => rfl) (rfl : Depot.newPool {} .host none none = _)
  have htwo := hone.join (rfl : Depot.newPool { poolsMade := 1 } .host none none = _)
  have hfirst : Session (sampleServed.drop 3) (sampleFamily 1 (some (.memory (.zeros 2)))) :=
    htwo.serve rfl (by simp [Pool.Request.buffer?]) rfl
  have hwritten : Session (sampleServed.drop 2)
      (sampleFamily 1 (some (.memory (.written ⟨#[7, 7]⟩)))) :=
    hfirst.serve rfl (by rintro b ⟨⟩; exact ⟨1, List.mem_cons_self⟩) rfl
  have hreleased : Session (sampleServed.drop 1) (sampleFamily 1 none) :=
    hwritten.serve rfl (by rintro b ⟨⟩; exact ⟨1, List.mem_cons_self⟩) rfl
  exact hreleased.serve rfl (by simp [Pool.Request.buffer?]) rfl

theorem pools_act_as_maps_reused : ∃ family p, Session sampleServed family ∧
    family.pools.find? 1 = some p ∧ (sampleUse 1).slot = (sampleUse 2).slot ∧
    p.read family.depot.files (sampleUse 2) = .ok (zeroBytes 2) ∧
    (∀ bytes, p.read family.depot.files (sampleUse 1) ≠ .ok bytes) := by
  have hp : (sampleFamily 2 (some (.memory (.zeros 2)))).pools.find? 1 = some _ := rfl
  have hmaps := (pools_act_as_maps session_sampleServed hp).1
  have hfirst : holds 1 sampleServed (sampleUse 1) = none := by decide
  refine ⟨_, _, session_sampleServed, hp, rfl, ?_, fun bytes hread => ?_⟩
  · exact (hmaps.read 1 _ List.mem_cons_self _).2 (by decide)
  · rw [hmaps.read 1 _ (List.mem_cons_of_mem _ List.mem_cons_self), hfirst] at hread
    cases hread

end TieredWeights
