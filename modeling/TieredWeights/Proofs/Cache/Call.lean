import TieredWeights.Proofs.Cache.Maker

/-!
# Calls of the cache

Every way of resolving a key is a `call` with a maker, which brings the buffer if the key has no
placement. `Called` lists what a call can do: share the registered placement, fail, or register a
new one. Between the two steps of a call the slot of its key stays open, whatever the maker purges;
so a call of a sound cache with an honest maker does one of these and keeps the cache sound.
-/
namespace TieredWeights.Cache

/-- Resolve a key with a maker. -/
def call (c : Cache) (key : Key) (make : Maker) : Except Fault Resolved × Cache :=
  match c.consult key with
  | (.error e, c) => (.error e, c)
  | (.ok (.hit p), c) => (.ok ⟨p, false⟩, c)
  | (.ok (.vacant ticket), c) =>
    match (make c).2.settle ticket (make c).1 with
    | (.error e, c) => (.error e, c)
    | (.ok p, c) => (.ok ⟨p, true⟩, c)

/-- A maker as a caller brings it to `resolveWith`. -/
def place {σ : Type} (make : Maker) (w : Cache × σ) : Except Fault Buffer × (Cache × σ) :=
  ((make w.1).1, (make w.1).2, w.2)

theorem resolveWith_eq_call {σ : Type} (c : Cache) (x : σ) (key : Key) (make : Maker) :
    resolveWith key (place make) (c, x) = ((c.call key make).1, (c.call key make).2, x) := by
  unfold resolveWith call place
  rcases c.consult key with ⟨e | p | ticket, c'⟩
  · rfl
  · rfl
  · simp only
    rcases (make c').2.settle ticket (make c').1 with ⟨e | p, c''⟩ <;> rfl

theorem resolveAmid_eq_call (c : Cache) (tamper : Files → Files) (t : Tensor) (tier : Tier) :
    c.resolveAmid (fun d => { d with files := tamper d.files }) t tier =
      c.call ⟨t.identity, tier⟩ (.ofTensor t tamper tier) := rfl

theorem resolve_eq_call (c : Cache) (t : Tensor) (tier : Tier) :
    c.resolve t tier = c.call ⟨t.identity, tier⟩ (.ofTensor t id tier) := rfl

variable {purged tampered : Prop} {c c' c'' : Cache} {held : Multiset PlacementId}
  {loose : Multiset Buffer} {p : PlacementId} {q : Placement} {key : Key} {make : Maker}

/-- What a call that finds no placement does to the registrations. Those of other keys stay, unless
the maker purges them with their placements. -/
structure Missed (purged : Prop) (c : Cache) (key : Key) (registered : Option PlacementId)
    (c' : Cache) : Prop where
  vacant : c.registered? key = none
  self : c'.registered? key = registered
  kept : ∀ k p, c.registered? k = some p → c'.registered? k = some p ∨ purged ∧ c'.find? p = none
  other : ∀ k p, k ≠ key → c'.registered? k = some p → c.registered? k = some p
  hits : c'.hits = c.hits
  misses : c'.misses = c.misses + 1

theorem Missed.registered?_eq {registered : Option PlacementId}
    (h : c.Missed purged key registered c') (hno : ¬ purged) {k : Key} (hk : k ≠ key) :
    c'.registered? k = c.registered? k :=
  Option.ext fun p =>
    ⟨h.other k p hk, fun hp => (h.kept k p hp).resolve_right fun hgone => hno hgone.1⟩

/-- What a call can do. -/
inductive Called (purged : Prop) (c : Cache) (key : Key) (make : Maker) :
    Except Fault Resolved → Cache → Prop
  | hit {p : PlacementId} {q : Placement} (registered : c.registered? key = some p)
      (found : c.find? p = some q) (own : q.key = key) :
      Called purged c key make (.ok ⟨p, false⟩) { c.retain p with hits := c.hits + 1 }
  | failed {e : Fault} {c' : Cache} (missed : c.Missed purged key none c')
      (made : c'.placementsMade = c.placementsMade) : Called purged c key make (.error e) c'
  | placed {b : Buffer} {c' : Cache} (missed : c.Missed purged key (some c.placementsMade) c')
      (made : c'.placementsMade = c.placementsMade + 1)
      (found : c'.find? c.placementsMade = some ⟨key, b, 2⟩)
      (brought : ∃ c₁ held loose c₂, c₁.Sound held loose ∧ make c₁ = (.ok b, c₂) ∧
        c'.depot = c₂.depot) :
      Called purged c key make (.ok ⟨c.placementsMade, true⟩) c'

/-- A miss that leaves a slot for its key. -/
def opened (c : Cache) (key : Key) (slot : KeySlot) (slotsMade : Nat) : Cache :=
  { c with slots := c.slots.insert key slot, slotsMade, misses := c.misses + 1 }

theorem consult_hit (h : c.registered? key = some p) :
    c.consult key = (.ok (.hit p), { c.retain p with hits := c.hits + 1 }) := by
  obtain ⟨slot, hslot, hp⟩ := Option.bind_eq_some_iff.1 h
  simp only [consult, slotOf, hslot, hp]

/-- A key without a placement that nobody places has a slot to place into, if its tier is there. -/
theorem consult_vacant (hidle : ∀ slot, c.slots.find? key = some slot → slot.placing = 0)
    (h : c.registered? key = none) :
    ∃ slot : KeySlot, ∃ n, slot.registered = none ∧ slot.placing = 0 ∧ c.consult key =
      match c.depot.pools.find? key.tier with
      | none => (.error (.unknownTier key.tier), c.opened key slot n)
      | some _ => (.ok (.vacant ⟨key, slot.id⟩), c.opened key { slot with placing := 1 } n) := by
  cases hslot : c.slots.find? key with
  | some slot =>
    have hnone : slot.registered = none := by rwa [registered?, hslot] at h
    have hzero := hidle slot hslot
    refine ⟨slot, c.slotsMade, hnone, hzero, ?_⟩
    rw [opened, Table.insert_eq_self hslot]
    cases ht : c.depot.pools.find? key.tier <;>
      simp only [consult, opened, slotOf, hslot, hnone, ht, hzero, Nat.zero_add]
  | none =>
    refine ⟨⟨c.slotsMade, none, 0⟩, c.slotsMade + 1, rfl, rfl, ?_⟩
    cases ht : c.depot.pools.find? key.tier <;>
      simp only [consult, opened, slotOf, hslot, ht, Table.insert_insert, Nat.zero_add]

theorem Quiet.consult_vacant (hq : c.Quiet) (h : c.registered? key = none) :
    ∃ slot : KeySlot, ∃ n, slot.registered = none ∧ slot.placing = 0 ∧ c.consult key =
      match c.depot.pools.find? key.tier with
      | none => (.error (.unknownTier key.tier), c.opened key slot n)
      | some _ => (.ok (.vacant ⟨key, slot.id⟩), c.opened key { slot with placing := 1 } n) :=
  Cache.consult_vacant (hq key) h

/-- A key that a slot is opened for has no placement registered, and opening it makes none. -/
theorem vacant_of_consult {ticket : Ticket} (h : c.consult key = (.ok (.vacant ticket), c')) :
    c.registered? key = none ∧ c'.placements = c.placements := by
  cases hkey : c.registered? key with
  | some p =>
    rw [consult_hit hkey] at h
    cases h
  | none =>
    unfold consult slotOf at h
    cases hslot : c.slots.find? key with
    | none =>
      simp only [hslot] at h
      split at h <;> cases h
      exact ⟨rfl, rfl⟩
    | some slot =>
      have hnone : slot.registered = none := by rwa [registered?, hslot] at hkey
      simp only [hslot, hnone] at h
      split at h <;> cases h
      exact ⟨rfl, rfl⟩

section

variable {slot : KeySlot}

theorem slotOfTicket?_eq (h : c.slots.find? key = some slot) :
    c.slotOfTicket? ⟨key, slot.id⟩ = some slot := by
  rw [slotOfTicket?, h, Option.filter_some, if_pos (decide_eq_true rfl)]

/-- A ticket is left before anything else is settled. -/
theorem leave_eq (h : c.slots.find? key = some slot) : c.leave ⟨key, slot.id⟩ =
    { c with slots := c.slots.insert key { slot with placing := slot.placing - 1 } } := by
  rw [leave, slotOfTicket?_eq h]

theorem register_eq (slot : KeySlot) (h : c.slots.find? key = some slot) (b : Buffer) :
    c.register ⟨key, slot.id⟩ b = (c.placementsMade, { c with
      placements := c.placements.insert c.placementsMade ⟨key, b, 2⟩
      slots := c.slots.insert key { slot with registered := some c.placementsMade }
      placementsMade := c.placementsMade + 1 }) := by
  rw [register, slotOfTicket?_eq h]
  rfl

theorem registered?_insert (hslots : c'.slots = c.slots.insert key slot) (k : Key) :
    c'.registered? k = if k = key then slot.registered else c.registered? k := by
  rw [registered?, hslots, Table.find?_insert]
  split_ifs <;> rfl

theorem registrationsOf_insert_vacant (h : c.registered? key = none) (slot : KeySlot) :
    registrationsOf (c.slots.insert key slot) =
      slot.registered.toList + registrationsOf c.slots := by
  have hself : ((c.slots.find? key).bind KeySlot.registered) = none := h
  rw [registrationsOf_insert, registrationsOf_eq c.slots key, hself]
  exact congrArg _ (zero_add _).symm

theorem Quiet.insert (hslots : c'.slots = c.slots.insert key slot) (hplacing : slot.placing = 0)
    (hc : ∀ k s, k ≠ key → c.slots.find? k = some s → s.placing = 0) : c'.Quiet := by
  intro k s hs
  rw [hslots, Table.find?_insert] at hs
  split_ifs at hs with hk
  · cases hs
    exact hplacing
  · exact hc k s hk hs

/-- A slot that has no registration is no matter of soundness. -/
theorem Sound.withSlot (tampered : Prop) (h : c.Sound held loose)
    (hvacant : c.registered? key = none) {slot : KeySlot} (hslot : slot.registered = none)
    (slotsMade misses : Nat) :
    Cache.Sound { c with slots := c.slots.insert key slot, slotsMade, misses } held loose ∧
      Later tampered c { c with slots := c.slots.insert key slot, slotsMade, misses } := by
  refine ⟨{ h with counted := fun p => ?_, keyed := fun k p hk => ?_ }, ?_⟩
  · rw [registrationsOf_insert_vacant hvacant, hslot]
    exact (h.counted p).trans (by simp)
  · rw [registered?_insert (c := c) rfl] at hk
    split_ifs at hk
    · rw [hslot] at hk
      cases hk
    · exact h.keyed k p hk
  · refine h.later (.refl _ _ (buffersOf c.placements)) le_rfl (fun p q hq => ?_) fun _ _ hnone => hnone
    exact .inl ⟨q, hq, rfl, rfl, mem_buffersOf hq⟩

/-- A new placement is referenced by its registration and by the caller. -/
theorem Sound.placed (tampered : Prop) {b : Buffer} (h : c.Sound held (b ::ₘ loose))
    (hvacant : c.registered? key = none) (hslot : slot.registered = some c.placementsMade)
    (hslots : c'.slots = c.slots.insert key slot)
    (hplacements : c'.placements = c.placements.insert c.placementsMade ⟨key, b, 2⟩)
    (hmade : c'.placementsMade = c.placementsMade + 1) (hdepot : c'.depot = c.depot)
    (htier : b.tier = key.tier) (hlength : b.length = key.identity.bytes) :
    c'.Sound (c.placementsMade ::ₘ held) loose ∧ Later tampered c c' := by
  have hfresh : c.find? c.placementsMade = none := by
    cases hp : c.find? c.placementsMade with
    | none => rfl
    | some q => exact absurd (h.numbered _ q hp) (Nat.lt_irrefl _)
  have hfind : ∀ p, c'.find? p =
      if p = c.placementsMade then some ⟨key, b, 2⟩ else c.find? p := fun p => by
    rw [find?, hplacements, Table.find?_insert, find?]
  refine ⟨h.of_find? hfind ?_ (hmade ▸ Nat.le_succ _) ?_ ?_ ?_, ?_⟩
  · rintro q' hq'
    cases hq'
    exact ⟨Nat.two_pos, hmade ▸ Nat.lt_succ_self _, htier, hlength⟩
  · have hd := h.depot
    rw [hdepot, hplacements, buffersOf_insert_new hfresh, Multiset.cons_add]
    rwa [Multiset.add_cons] at hd
  · intro p
    have hcount := h.counted p
    rw [hslots, registrationsOf_insert_vacant hvacant, hslot, Multiset.add_cons,
      Multiset.count_cons, add_assoc, Multiset.count_add]
    rw [references, hfind]
    split_ifs with hp
    · rw [hp, references_of_none hfresh] at hcount
      simp [hp, ← hcount]
    · have hzero : Multiset.count p (↑(some c.placementsMade).toList : Multiset PlacementId) = 0 :=
        Multiset.count_eq_zero.2 (by simpa using hp)
      rw [hzero, zero_add, ← hcount]
      rfl
  · intro k p hk
    rw [registered?_insert hslots] at hk
    split_ifs at hk with he
    · rw [hslot, Option.some.injEq] at hk
      exact ⟨⟨key, b, 2⟩, by rw [hfind, if_pos hk.symm], he.symm⟩
    · obtain ⟨q, hq, hkey⟩ := h.keyed k p hk
      exact ⟨q, by rw [hfind, if_neg (h.numbered p q hq).ne, hq], hkey⟩
  · have hl : Depot.Leaves tampered c.depot c'.depot (buffersOf c.placements) := by
      rw [hdepot]
      exact .refl _ _ _
    refine h.later hl (by omega) (fun p q hp => .inl ⟨q, ?_, rfl, rfl, mem_buffersOf hp⟩) ?_
    · rw [hfind, if_neg (h.numbered p q hp).ne, hp]
    · intro p hlt hnone
      rw [hfind, if_neg hlt.ne, hnone]

/-- What settling does to the slot of a key. -/
structure Settled (tampered : Prop) (c : Cache) (key : Key) (registered : Option PlacementId)
    (c' : Cache) : Prop where
  slots : ∃ slot : KeySlot, slot.registered = registered ∧ slot.placing = 0 ∧
    c'.slots = c.slots.insert key slot
  hits : c'.hits = c.hits
  misses : c'.misses = c.misses
  later : Later tampered c c'

/-- What is settled for the only ticket of a slot: an error or a buffer of the wrong length, which
goes back, or a buffer that is registered. -/
theorem Sound.settle (tampered : Prop) {brought : Except Fault Buffer}
    (h : c.Sound held (Depot.brought brought + loose)) (hslot : c.slots.find? key = some slot)
    (hregistered : slot.registered = none) (hplacing : slot.placing = 1)
    (htier : ∀ b ∈ Depot.brought brought, b.tier = key.tier) :
    (∃ e c', c.settle ⟨key, slot.id⟩ brought = (.error e, c') ∧ c.Settled tampered key none c' ∧
      c'.placementsMade = c.placementsMade ∧ c'.Sound held loose) ∨
    ∃ b c', brought = .ok b ∧ c.settle ⟨key, slot.id⟩ brought = (.ok c.placementsMade, c') ∧
      c.Settled tampered key (some c.placementsMade) c' ∧
      c'.placementsMade = c.placementsMade + 1 ∧
      c'.find? c.placementsMade = some ⟨key, b, 2⟩ ∧ c'.depot = c.depot ∧
      c'.Sound (c.placementsMade ::ₘ held) loose := by
  have hvacant : c.registered? key = none := by rw [registered?, hslot, Option.bind_some, hregistered]
  have hclosed : ({ slot with placing := 0 } : KeySlot).registered = none := hregistered
  obtain ⟨hleft, hl⟩ := h.withSlot tampered hvacant hclosed c.slotsMade c.misses
  unfold Cache.settle
  rw [leave_eq hslot, hplacing]
  cases brought with
  | error e =>
    rw [Depot.brought, zero_add] at hleft
    exact .inl ⟨e, _, rfl, ⟨⟨{ slot with placing := 0 }, hregistered, rfl, rfl⟩, rfl, rfl, hl⟩, rfl, hleft⟩
  | ok b =>
    rw [Depot.brought, Multiset.singleton_add] at h hleft
    have hb : b.tier = key.tier := htier b (Multiset.mem_singleton_self b)
    have hmem : b ∈ buffersOf c.placements + b ::ₘ loose := by simp
    obtain ⟨pool, hpool⟩ := h.depot.housed b hmem
    rw [hb] at hpool
    have howns : pool.owns b :=
      (h.depot.pools key.tier pool hpool).2.issued b (Depot.mem_onTier.2 ⟨hmem, hb⟩)
    simp only [hpool, howns, Bool.not_true, Bool.false_eq_true, if_false]
    by_cases hlength : b.length = key.identity.bytes
    · rw [if_neg (not_not.2 hlength),
        register_eq { slot with placing := 0 } (Table.find?_insert_self _ _ _), Table.insert_insert]
      refine .inr ⟨b, _, rfl, rfl, ⟨⟨_, rfl, rfl, rfl⟩, rfl, rfl, ?_⟩, rfl, ?_, rfl, ?_⟩
      · exact And.right (h.placed tampered hvacant rfl rfl rfl rfl rfl hb hlength)
      · exact Table.find?_insert_self _ _ _
      · exact And.left (h.placed tampered hvacant rfl rfl rfl rfl rfl hb hlength)
    · rw [if_pos hlength]
      rcases hr : c.depot.release key.tier b with ⟨r, d⟩
      have hd := hleft.depot
      rw [Multiset.add_cons] at hd
      obtain ⟨rfl, hs, hleaves, -⟩ := hd.release tampered hb hr
      refine .inl ⟨_, _, rfl, ⟨⟨{ slot with placing := 0 }, hregistered, rfl, rfl⟩, rfl, rfl, hl.trans ?_⟩, rfl,
        { hleft with depot := hs }⟩
      refine hleft.later hleaves le_rfl (fun p q hq => ?_) fun _ _ hnone => hnone
      exact .inl ⟨q, hq, rfl, rfl, Multiset.mem_add.2 (.inl (mem_buffersOf hq))⟩

end

/-- The reference that a call gives. -/
def given : Except Fault Resolved → Multiset PlacementId
  | .ok r => {r.placement}
  | .error _ => 0

/-- What a call leaves: a sound cache in which nobody is placing. -/
structure Ready (tampered : Prop) (c : Cache) (held : Multiset PlacementId)
    (loose : Multiset Buffer) (c' : Cache) : Prop where
  sound : c'.Sound held loose
  quiet : c'.Quiet
  later : Later tampered c c'

section

variable {slot : KeySlot} {slotsMade : Nat} {registered : Option PlacementId} {c₂ c₃ : Cache}

/-- Registrations after a call: while the slot of its key was open, others may have been purged. -/
theorem Settled.missed (hs : c₂.Settled tampered key registered c₃)
    (ht : Trimmed purged (c.opened key slot slotsMade) c₂)
    (h₁ : (c.opened key slot slotsMade).Sound held loose) (hslot : slot.registered = none)
    (hvacant : c.registered? key = none) : c.Missed purged key registered c₃ := by
  obtain ⟨slot', hslot', -, hslots'⟩ := hs.slots
  have hfirst : ∀ k, (c.opened key slot slotsMade).registered? k = c.registered? k := fun k => by
    rw [registered?_insert (c := c) rfl]
    split_ifs with hk
    · rw [hk, hslot, hvacant]
    · rfl
  have hlast : ∀ k, k ≠ key → c₃.registered? k = c₂.registered? k := fun k hk => by
    rw [registered?_insert hslots', if_neg hk]
  refine ⟨hvacant, ?_, fun k p hp => ?_, fun k p hk hp => ?_, ?_, ?_⟩
  · rw [registered?_insert hslots', if_pos rfl, hslot']
  · have hk : k ≠ key := fun hk => by rw [hk, hvacant] at hp; cases hp
    rw [← hfirst] at hp
    rw [hlast k hk]
    refine (ht.kept k p hp).imp_right fun hgone => ⟨hgone.1, hs.later.gone p ?_ hgone.2⟩
    obtain ⟨q, hq, -⟩ := h₁.keyed k p hp
    rw [ht.made]
    exact h₁.numbered p q hq
  · rw [hlast k hk] at hp
    rw [← hfirst]
    exact ht.registered hp
  · rw [hs.hits, ht.hits, opened]
  · rw [hs.misses, ht.misses, opened]

theorem Settled.quiet (hs : c₂.Settled tampered key registered c₃)
    (ht : Trimmed purged (c.opened key slot slotsMade) c₂) (hq : c.Quiet) : c₃.Quiet := by
  obtain ⟨slot', -, hplacing, hslots'⟩ := hs.slots
  refine .insert hslots' hplacing fun k s hk hsk => ?_
  have hsk' := ht.slots k s hsk
  rw [opened, Table.find?_insert_ne _ _ hk] at hsk'
  exact hq k s hsk'

/-- A call for a tier that is not there leaves the slot as if it had been settled at once. -/
theorem Sound.called_refused (h : c.Sound held loose) (hq : c.Quiet)
    (hvacant : c.registered? key = none) (hslot : slot.registered = none)
    (hplacing : slot.placing = 0) (slotsMade : Nat) (e : Fault) :
    Called purged c key make (.error e) (c.opened key slot slotsMade) ∧
      c.Ready tampered held loose (c.opened key slot slotsMade) := by
  have hself : (c.opened key slot slotsMade).slots.find? key = some slot :=
    Table.find?_insert_self _ _ _
  have hsettled : (c.opened key slot slotsMade).Settled tampered key none
      (c.opened key slot slotsMade) :=
    ⟨⟨slot, hslot, hplacing, (Table.insert_eq_self hself).symm⟩, rfl, rfl, .refl _ _⟩
  obtain ⟨hs, hl⟩ := h.withSlot tampered hvacant hslot slotsMade (c.misses + 1)
  exact ⟨.failed (hsettled.missed (.refl _ _) hs hslot hvacant) rfl, hs,
    hsettled.quiet (.refl purged _) hq, hl⟩

/-- While the slot of a key is open an honest maker does its deeds, and what it brings is settled. -/
theorem Sound.called_opened (h : c.Sound held loose) (hq : c.Quiet)
    (hm : make.Honest purged tampered key.tier) (hvacant : c.registered? key = none)
    (hslot : slot.registered = none) (slotsMade : Nat) {c₁ : Cache}
    (hc₁ : c₁ = c.opened key { slot with placing := 1 } slotsMade) :
    (∃ e c', (make c₁).2.settle ⟨key, slot.id⟩ (make c₁).1 = (.error e, c') ∧
      Called purged c key make (.error e) c' ∧ c.Ready tampered held loose c') ∨
    ∃ c', (make c₁).2.settle ⟨key, slot.id⟩ (make c₁).1 = (.ok c.placementsMade, c') ∧
      Called purged c key make (.ok ⟨c.placementsMade, true⟩) c' ∧
        c.Ready tampered (c.placementsMade ::ₘ held) loose c' := by
  have hopen : ({ slot with placing := 1 } : KeySlot).registered = none := hslot
  obtain ⟨hs₁, hl₁⟩ := h.withSlot tampered hvacant hopen slotsMade (c.misses + 1)
  have hself : c₁.slots.find? key = some { slot with placing := 1 } := by
    rw [hc₁]
    exact Table.find?_insert_self _ _ _
  obtain ⟨⟨hs₂, htier⟩, hl₂, htrimmed⟩ := (hm c₁).sound (by rwa [hc₁, zero_add])
    fun b hb => absurd hb (Multiset.notMem_zero b)
  have hmade₁ : (make c₁).2.placementsMade = c.placementsMade := by
    rw [htrimmed.made, hc₁, opened]
  rcases hs₂.settle tampered (htrimmed.placing key _ hself Nat.one_ne_zero) hslot rfl htier with
    ⟨e, c₃, hsettle, hsettled, hmade, hs₃⟩ |
    ⟨b, c₃, hb, hsettle, hsettled, hmade, hfound, hdepot, hs₃⟩
  · subst hc₁
    refine .inl ⟨e, c₃, hsettle, .failed (hsettled.missed htrimmed hs₁ hopen hvacant) ?_, hs₃,
      hsettled.quiet htrimmed hq, hl₁.trans (hl₂.trans hsettled.later)⟩
    rw [hmade, hmade₁]
  · subst hc₁
    rw [hmade₁] at hsettle hsettled hmade hfound hs₃
    exact .inr ⟨c₃, hsettle, .placed (hsettled.missed htrimmed hs₁ hopen hvacant) hmade hfound
      ⟨_, held, loose, _, hs₁, Prod.ext hb rfl, hdepot⟩, hs₃, hsettled.quiet htrimmed hq,
      hl₁.trans (hl₂.trans hsettled.later)⟩

end

/-- A call of a sound cache with an honest maker shares, fails or places. -/
theorem Sound.called (h : c.Sound held loose) (hq : c.Quiet)
    (hm : make.Honest purged tampered key.tier) :
    Called purged c key make (c.call key make).1 (c.call key make).2 ∧
      c.Ready tampered (given (c.call key make).1 + held) loose (c.call key make).2 := by
  cases hreg : c.registered? key with
  | some p =>
    obtain ⟨q, hp, hkey⟩ := h.keyed key p hreg
    obtain ⟨hs, hl⟩ := h.retain tampered hp
    simp only [call, consult_hit hreg]
    rw [given, Multiset.singleton_add]
    exact ⟨.hit hreg hp hkey, { hs with }, hq, { hl with }⟩
  | none =>
    obtain ⟨slot, n, hslot, hplacing, hconsult⟩ := hq.consult_vacant hreg
    cases ht : c.depot.pools.find? key.tier with
    | none =>
      simp only [ht] at hconsult
      simp only [call, hconsult, given, zero_add]
      exact h.called_refused hq hreg hslot hplacing n _
    | some pool =>
      simp only [ht] at hconsult
      simp only [call, hconsult]
      rcases h.called_opened hq hm hreg hslot n rfl with
        ⟨e, c', hsettle, hcalled, hready⟩ | ⟨c', hsettle, hcalled, hready⟩
      · simp only [hsettle, given, zero_add]
        exact ⟨hcalled, hready⟩
      · simp only [hsettle, given, Multiset.singleton_add]
        exact ⟨hcalled, hready⟩

/-- A call that succeeds gives a placement of its key. -/
theorem Called.found {r : Resolved} (h : Called purged c key make (.ok r) c') :
    ∃ q, c'.find? r.placement = some q ∧ q.key = key := by
  cases h with
  | @hit p q registered found own =>
    refine ⟨{ q with references := q.references + 1 }, ?_, own⟩
    rw [retain_eq found]
    exact Table.find?_insert_self _ _ _
  | placed missed made found brought => exact ⟨_, found, rfl⟩

/-- A call makes one placement at most. -/
theorem Called.placementsMade_le {r : Except Fault Resolved} (h : Called purged c key make r c') :
    c'.placementsMade ≤ c.placementsMade + 1 := by
  cases h with
  | hit => exact Nat.le_succ _
  | failed _ made => exact made.trans_le (Nat.le_succ _)
  | placed _ made => exact made.le

/-- A placement that a call has made is of its key, registered, and in the buffer brought. -/
theorem Called.new {r : Except Fault Resolved} (h : Called purged c key make r c')
    (hmade : c.placementsMade < c'.placementsMade) :
    ∃ b, c'.find? c.placementsMade = some ⟨key, b, 2⟩ ∧
      c'.registered? key = some c.placementsMade ∧
      ∃ c₁ held loose c₂, c₁.Sound held loose ∧ make c₁ = (.ok b, c₂) ∧ c'.depot = c₂.depot := by
  cases h with
  | hit => exact absurd hmade (Nat.lt_irrefl _)
  | failed missed made => exact absurd hmade (by rw [made]; exact Nat.lt_irrefl _)
  | placed missed made found brought => exact ⟨_, found, missed.self, brought⟩

/-- A registration stays as long as its placement, also after a call. -/
theorem Called.kept {r : Except Fault Resolved} (h : Called purged c key make r c') {k : Key}
    (hp : c.registered? k = some p) : c'.registered? k = some p ∨ purged ∧ c'.find? p = none := by
  cases h with
  | hit registered found own => exact .inl hp
  | failed missed made => exact missed.kept k p hp
  | placed missed made found brought => exact missed.kept k p hp

/-- No two placements have one slot of a tier. -/
theorem Sound.slot_ne {p' : PlacementId} {q' : Placement} (h : c.Sound held loose)
    (hq : c.find? p = some q) (hq' : c.find? p' = some q') (hne : p ≠ p')
    (ht : q.buffer.tier = q'.buffer.tier) : q.buffer.slot ≠ q'.buffer.slot := by
  have hd := h.depot
  rw [buffersOf_erase hq', Multiset.cons_add] at hd
  have hrest : (c.placements.erase p').find? p = some q := by
    rw [Table.find?_erase_ne _ hne]
    exact hq
  exact hd.slot_ne (Multiset.mem_add.2 (.inl (mem_buffersOf hrest))) ht

end TieredWeights.Cache
