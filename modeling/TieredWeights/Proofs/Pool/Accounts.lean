import TieredWeights.Proofs.Pool.Runs

/-!
# The accounts of a pool

What a pool counts agrees at any moment with what it has served. The bytes in use are those of the
buffers that were issued and not taken back; the slots without a backing are listed as free, each
once, but for those that were lost to calls that asked for more memory than there can be. So no sum
of the pool leaves the range of a word and no difference falls below zero, and a pool that keeps its
buffers in memory refuses an allocation for want of room only.
-/
namespace TieredWeights

namespace Pool

/-- The counts of a pool are those of what it has served, and its free list is that of its slots but
for the slots that were lost, one to each panic. -/
structure Accounts (p : Pool) (past : List Served) (lost : List Nat) : Prop where
  used : p.used = sumOf ((TieredWeights.live past).map (·.2.length))
  within : p.used ≤ p.capacity
  live : p.live = (TieredWeights.live past).length + lost.length
  issued : p.allocations = (TieredWeights.issued past).length
  released : p.releases = (TieredWeights.released past).length
  balance : p.allocations = p.releases + (TieredWeights.live past).length
  vacant_nodup : (p.free ++ lost).Nodup
  vacant_iff : ∀ i, i ∈ p.free ++ lost ↔ ∃ g, p.slots[i]? = some ⟨g, none⟩
  free_le : p.free.length ≤ p.slots.size
  panicked : lost.length = panics past
  quiet : p.NeverOverflows → lost = []

/-- What the pool counts next is within the range of a word, and nothing is taken from less. -/
structure StaysInRange (p : Pool) (past : List Served) : Prop where
  available : p.used ≤ p.capacity
  allocate : ∀ f n type b, (p.allocate f n type).1 = .ok b → p.used + n ≤ wordMax
  release : ∀ f b notices, (p.id, b) ∈ issued past ∨ ¬ p.owns b →
    (p.release f b).1 = .ok notices → b.length ≤ p.used

/-- The pool grants what it has room for if a piece of memory can be so large. It refuses what it
has no room for and tells the room it has; what is too large for memory takes a slot and panics. -/
structure AdmitsByRoom (p : Pool) : Prop where
  granted : ∀ f n type, (∃ b, (p.allocate f n type).1 = .ok b) ↔
    n ≤ p.capacity - p.used ∧ n ≤ memoryLimit
  refused : ∀ f n type, ¬ n ≤ p.capacity - p.used →
    p.allocate f n type = (.error (.outOfCapacity p.tier n (p.capacity - p.used)), p, f)
  panics : ∀ f n type, n ≤ p.capacity - p.used → ¬ n ≤ memoryLimit →
    p.allocate f n type = (.error .capacityOverflow, p.takeSlot.2, f)

variable {p : Pool} {past : List Served} {out : Multiset Buffer} {lost : List Nat}

theorem Ledger.used_eq (h : p.Ledger past out lost) :
    p.used = sumOf ((TieredWeights.live past).map (·.2.length)) := by
  have hlengths : ((TieredWeights.live past).map (·.2.length) : Multiset Nat) =
      out.map Buffer.length := by
    rw [← Multiset.map_coe, h.live_eq, Multiset.map_map]
    rfl
  rw [h.sound.used, sumOf_eq_sum, ← Multiset.sum_coe, hlengths]

theorem Ledger.accounts (h : p.Ledger past out lost) : p.Accounts past lost := by
  have hcounted := h.sound.counted
  have hlive : (TieredWeights.live past).length = out.card := by
    rw [← Multiset.coe_card, h.live_eq, Multiset.card_map]
  have hissued : (issued past).length = (released past).length + out.card := by
    rw [← Multiset.coe_card, h.balance, Multiset.card_add, Multiset.card_map, Multiset.coe_card]
  constructor
  case used => exact h.used_eq
  case within => exact h.sound.within
  case live => rw [hlive, h.sound.live_eq_add]
  case issued => rw [hissued, hcounted, h.releases]
  case released => exact h.releases
  case balance => rw [hlive, hcounted]
  case vacant_nodup => exact h.sound.free_nodup
  case vacant_iff => exact fun _ => h.sound.mem_free_iff
  case free_le =>
    have hsize := h.sound.size
    rw [List.length_append] at hsize
    omega
  case panicked => exact h.panicked
  case quiet => exact h.quiet

theorem Ledger.staysInRange (h : p.Ledger past out lost) : p.StaysInRange past := by
  constructor
  case available => exact h.sound.within
  case allocate =>
    intro f n type b hb
    have ha : p.allocate f n type = (.ok b, (p.allocate f n type).2) := Prod.ext hb rfl
    have hword := h.word
    have hwithin := h.sound.within
    rcases allocate_cases ha with ⟨e, he, -⟩ | ⟨-, he, -⟩ | ⟨k, -, hn, -⟩
    · cases he
    · cases he
    · omega
  case release =>
    intro f b notices hb hr
    obtain ⟨k, hk⟩ := exists_backing_of_release hr
    obtain ⟨rest, rfl⟩ := Multiset.exists_cons_of_mem (h.mem_of_backing hb hk)
    rw [h.sound.used, Multiset.map_cons, Multiset.sum_cons]
    exact Nat.le_add_right _ _

theorem admitsByRoom (hspill : p.spill = none) : p.AdmitsByRoom := by
  have hrefused (f : Files) (n : Nat) (type : ElementType) (hroom : ¬ n ≤ p.capacity - p.used) :
      p.allocate f n type = (.error (.outOfCapacity p.tier n (p.capacity - p.used)), p, f) :=
    allocate_full (Nat.lt_of_not_le hroom) f type
  have hpanics (f : Files) (n : Nat) (type : ElementType) (hroom : n ≤ p.capacity - p.used)
      (hlarge : ¬ n ≤ memoryLimit) :
      p.allocate f n type = (.error .capacityOverflow, p.takeSlot.2, f) :=
    allocate_of_overflows ⟨hspill, hroom, Nat.lt_of_not_le hlarge⟩ f type
  constructor
  case granted =>
    intro f n type
    by_cases hroom : n ≤ p.capacity - p.used
    · by_cases hlarge : n ≤ memoryLimit
      · have htakes : p.Takes f n := ⟨hroom, fun _ => hlarge, by simp [hspill]⟩
        simp only [hroom, hlarge, and_self, iff_true]
        exact ⟨_, htakes.allocate type⟩
      · simp [hpanics f n type hroom hlarge, hlarge]
    · simp [hrefused f n type hroom, hroom]
  case refused => exact hrefused
  case panics => exact hpanics

end Pool

/-- At any moment of any run, whatever was asked for and refused, the accounts of a pool agree with
what it has served, and what it reckons next stays in range. In memory it admits just what it has
room for, up to what memory can be. -/
theorem pool_accounts_balance {past : List Served} {p : Pool} (h : Pool.Run past p) :
    ∃ lost, p.Accounts past lost ∧ p.StaysInRange past ∧ (p.spill = none → p.AdmitsByRoom) := by
  obtain ⟨out, lost, hledger⟩ := h.ledger
  exact ⟨lost, hledger.accounts, hledger.staysInRange, Pool.admitsByRoom⟩

/-- A pool of four bytes that has used each of its slots once. -/
def fourBytes (slots : Array Slot) (used releases : Nat) (free : List Nat) : Pool :=
  { tier := .host, id := 1, capacity := 4, used, slots, free, allocations := slots.size, releases }

/-- It is asked for three bytes, for two more, for the three back, and for them once again. -/
def fourBytesServed : List Served :=
  [⟨1, .release ⟨.host, 1, 0, 1, 3, .u8⟩, .error (.invalidHandle .host)⟩,
    ⟨1, .release ⟨.host, 1, 0, 1, 3, .u8⟩, .ok .done⟩,
    ⟨1, .allocate 2 .u8, .error (.outOfCapacity .host 2 1)⟩,
    ⟨1, .allocate 3 .u8, .ok (.buffer ⟨.host, 1, 0, 1, 3, .u8⟩)⟩]

theorem run_fourBytes : Pool.Run fourBytesServed (fourBytes #[⟨1, none⟩] 0 1 [0]) := by
  have hnew : Depot.newPool {} .host (some 4) none = (.ok (fourBytes #[] 0 0 []), _) := rfl
  have hstart : Pool.Run [] (fourBytes #[] 0 0 []) := .start (by rintro n ⟨⟩; decide) hnew
  have hissued : Pool.Run (fourBytesServed.drop 3)
      (fourBytes #[⟨1, some (.memory (.zeros 3))⟩] 3 0 []) :=
    hstart.serve (by simp [Pool.Request.buffer?]) (f := .empty) rfl
  have hrefused : Pool.Run (fourBytesServed.drop 2)
      (fourBytes #[⟨1, some (.memory (.zeros 3))⟩] 3 0 []) :=
    hissued.serve (by simp [Pool.Request.buffer?]) (f := .empty) rfl
  have hreleased : Pool.Run (fourBytesServed.drop 1) (fourBytes #[⟨1, none⟩] 0 1 [0]) :=
    hrefused.serve (by rintro b ⟨⟩; exact .inl List.mem_cons_self) (f := .empty) rfl
  exact hreleased.serve (by rintro b ⟨⟩; exact .inl List.mem_cons_self) (f := .empty) rfl

theorem pool_accounts_balance_fourBytes : ∃ p, Pool.Run fourBytesServed p ∧
    p.Accounts fourBytesServed [] ∧ p.used = 0 ∧ p.live = 0 ∧ p.allocations = 1 ∧ p.free = [0] ∧
    ∀ f, ¬ ∃ b, (p.allocate f 5 .u8).1 = .ok b := by
  obtain ⟨lost, haccounts, -, hmemory⟩ := pool_accounts_balance run_fourBytes
  obtain rfl := haccounts.quiet (.inr (by decide))
  refine ⟨_, run_fourBytes, haccounts, rfl, rfl, rfl, rfl, fun f hb => ?_⟩
  have hroom := (((hmemory rfl).granted f 5 .u8).1 hb).1
  revert hroom
  decide

/-- A pool without a limit has room for more bytes than a piece of memory can have. It grants them to
nobody, and the slot that it took for them is neither in use nor free. -/
theorem slot_lost_without_limit : ∃ p p' : Pool,
    Pool.Run [] p ∧ p.capacity = unbounded ∧ p.spill = none ∧ twoTo 63 ≤ p.capacity - p.used ∧
    p.allocate .empty (twoTo 63) .u8 = (.error .capacityOverflow, p', .empty) ∧
    Pool.Run [⟨1, .allocate (twoTo 63) .u8, .error .capacityOverflow⟩] p' ∧
    p'.slots[0]? = some ⟨0, none⟩ ∧ p'.free = [] ∧ p'.live = 1 ∧
    p'.allocations = 0 ∧ p'.releases = 0 := by
  have hnew : Depot.newPool {} .host none none = (.ok ({ tier := .host, id := 1 } : Pool), _) := rfl
  have hstart : Pool.Run [] { tier := .host, id := 1 } := .start (by simp) hnew
  have hoverflows : Pool.Overflows { tier := .host, id := 1 } (twoTo 63) :=
    ⟨rfl, by decide, by decide⟩
  have hlost := Pool.allocate_of_overflows hoverflows .empty .u8
  refine ⟨_, _, hstart, rfl, rfl, hoverflows.room, hlost, ?_, rfl, rfl, rfl, rfl, rfl⟩
  exact hstart.serve (by simp [Pool.Request.buffer?]) (by rw [Pool.serve, hlost]; rfl)

end TieredWeights
