import TieredWeights.Proofs.Cache.Intact
import TieredWeights.Proofs.Cache.Stock
import TieredWeights.Proofs.Scene.Sound

/-!
# Buffers that are brought

Whoever places a key brings a buffer, and may bring any that he can have: one of his own or another
stray one, one that he has given back, one of a placement, one of another pool. The cache asks whether
the pool of the key issued it, and compares its length. So a buffer given back is registered if it has
the right length, though nothing can be read from it; one of a placement is registered a second time,
or given back under the placement if its length is wrong. These are the buffers that mislead a call:
in every state that is reached without any, a call does well just if it is not brought one.
-/
namespace TieredWeights

/-- What can be had from pools was handed out: it is out, or spent, or from another pool. -/
def Depot.Obtainable (d : Depot) (out : Multiset Buffer) (b : Buffer) : Prop :=
  b ∈ out ∨ d.Spent b ∨ ∀ pool, d.pools.find? b.tier = some pool → ¬ pool.owns b

theorem Depot.isLive_of_read {d : Depot} {b : Buffer} {bytes : ByteArray}
    (h : d.read b.tier b = .ok bytes) : d.IsLive b := by
  unfold read at h
  cases hpool : d.pools.find? b.tier with
  | none =>
    rw [hpool] at h
    cases h
  | some pool =>
    rw [hpool] at h
    obtain ⟨k, c, hk, -⟩ := Pool.read_eq_ok.1 h
    exact ⟨pool, k, hpool, hk⟩

namespace Cache

/-- Whoever places a key has done errands with buffers of his own, of which he leaves `own`, and brings
a fault or any buffer that he can have. -/
structure Placing (c : Cache) (stray own : Multiset Buffer) (brought : Except Fault Buffer)
    (d : Depot) : Prop where
  errands : Depot.Errands c.depot 0 d own
  obtainable : ∀ b, brought = .ok b → d.Obtainable (buffersOf c.placements + (own + stray)) b

/-- A buffer that the pool of a key issued misleads a call if it is a placement's already, or if it is
spent but has the length that is asked for. -/
def Misleads (c : Cache) (d : Depot) (key : Key) (b : Buffer) : Prop :=
  (∃ pool, d.pools.find? key.tier = some pool ∧ pool.owns b) ∧
    ((∃ p q, c.find? p = some q ∧ q.buffer = b) ∨ d.Spent b ∧ b.length = key.identity.bytes)

/-- The buffers that stay stray when one is brought for a tier: all others, or all if it is of another
tier. -/
def remaining (loose : Multiset Buffer) (tier : Tier) : Except Fault Buffer → Multiset Buffer
  | .ok b => if b.tier = tier then loose.erase b else loose
  | .error _ => loose

/-- What users can do to a cache over new pools: they take and release references, forget placements,
do errands with stray buffers, and resolve keys with buffers that do not mislead. -/
inductive Reached (depot : Depot) : Cache → Multiset PlacementId → Multiset Buffer → Prop
  | start : Reached depot (.ofDepot depot) 0 0
  | retain {c : Cache} {held : Multiset PlacementId} {stray : Multiset Buffer} {p : PlacementId}
      (h : Reached depot c held stray) (hp : p ∈ registrationsOf c.slots + held) :
      Reached depot (c.retain p) (p ::ₘ held) stray
  | release {c : Cache} {held : Multiset PlacementId} {stray : Multiset Buffer} {p : PlacementId}
      (h : Reached depot c (p ::ₘ held) stray) : Reached depot (c.release p) held stray
  | purge {c : Cache} {held : Multiset PlacementId} {stray : Multiset Buffer}
      (h : Reached depot c held stray) : Reached depot c.purge.2 held stray
  | invalidate {c : Cache} {held : Multiset PlacementId} {stray : Multiset Buffer}
      (h : Reached depot c held stray) (tier : Tier) : Reached depot (c.invalidate tier).2 held stray
  | clear {c : Cache} {held : Multiset PlacementId} {stray : Multiset Buffer}
      (h : Reached depot c held stray) : Reached depot c.clear held stray
  | errands {c : Cache} {held : Multiset PlacementId} {stray stray' : Multiset Buffer} {d : Depot}
      (h : Reached depot c held stray) (he : Depot.Errands c.depot stray d stray') :
      Reached depot (c.onto d) held stray'
  | hit {c c' : Cache} {held : Multiset PlacementId} {stray : Multiset Buffer} {key : Key}
      {p : PlacementId} (h : Reached depot c held stray) (hhit : c.consult key = (.ok (.hit p), c')) :
      Reached depot c' (p ::ₘ held) stray
  | refused {c c' : Cache} {held : Multiset PlacementId} {stray : Multiset Buffer} {key : Key}
      {e : Fault} (h : Reached depot c held stray) (hrefused : c.consult key = (.error e, c')) :
      Reached depot c' held stray
  | resolve {c : Cache} {held : Multiset PlacementId} {stray own : Multiset Buffer} {key : Key}
      {σ : Type} {place : Cache × σ → Except Fault Buffer × (Cache × σ)} {x x' : σ}
      {brought : Except Fault Buffer} {d : Depot} (h : Reached depot c held stray)
      (hkey : c.registered? key = none) (htier : (c.depot.pools.find? key.tier).isSome)
      (hplace : place ((c.consult key).2, x) = (brought, (c.consult key).2.onto d, x'))
      (hplacing : Placing c stray own brought d)
      (hhonest : ∀ b, brought = .ok b → ¬ c.Misleads d key b) :
      Reached depot (resolveWith key place (c, x)).2.1
        (given (resolveWith key place (c, x)).1 + held) (remaining (own + stray) key.tier brought)

/-- Every placement still reads the same bytes. -/
def Keeps (c c' : Cache) : Prop := ∀ p bytes, c.read p = .ok bytes → c'.read p = .ok bytes

/-- A call has done well for a key that had no placement: it has registered a placement that reads as
many bytes as the key has, in a buffer that no other placement has; or it has failed and left the key
to be resolved with a tensor, if there is room. In both cases the placements still read the same. -/
inductive DoneWell (c : Cache) (key : Key) : Except Fault Resolved → Cache → Prop
  | placed {c' : Cache} {p : PlacementId} {q : Placement} {bytes : ByteArray} (keeps : c.Keeps c')
      (registered : c'.registered? key = some p) (found : c'.find? p = some q) (own : q.key = key)
      (read : c'.read p = .ok bytes) (size : bytes.size = key.identity.bytes)
      (apart : ∀ p' q', p' ≠ p → c'.find? p' = some q' → q'.buffer.tier = q.buffer.tier →
        q'.buffer.slot ≠ q.buffer.slot) : DoneWell c key (.ok ⟨p, true⟩) c'
  | failed {c' : Cache} {e : Fault} (keeps : c.Keeps c') (vacant : c'.registered? key = none)
      (retry : ∀ t : Tensor, t.identity = key.identity → c'.depot.Takes key.tier t.bytes.size →
        ∃ r, (c'.resolve t key.tier).1 = .ok r) : DoneWell c key (.error e) c'

variable {c c' : Cache} {held : Multiset PlacementId} {stray own loose : Multiset Buffer}
  {key : Key} {slot : KeySlot} {d d' : Depot} {b : Buffer} {brought : Except Fault Buffer}
  {p : PlacementId} {q : Placement} {pool : Pool}

theorem exists_of_mem_buffersOf (h : b ∈ buffersOf c.placements) :
    ∃ p q, c.find? p = some q ∧ q.buffer = b := by
  obtain ⟨q, hq, rfl⟩ := Multiset.mem_map.1 h
  obtain ⟨p, hp⟩ := Table.mem_values.1 (Multiset.mem_coe.1 hq)
  exact ⟨p, q, hp, rfl⟩

theorem keeps_of_leaves (h : c.Sound held stray)
    (hl : Depot.Leaves False c.depot c'.depot (buffersOf c.placements))
    (hfind : ∀ p q, c.find? p = some q → c'.find? p = some q) : c.Keeps c' := by
  intro p bytes hread
  obtain ⟨q, hq, hread⟩ := read_eq_ok.1 hread
  refine read_eq_ok.2 ⟨q, hfind p q hq, ?_⟩
  have htier := (h.fits p q hq).1
  rw [← htier] at hread ⊢
  exact hl.reads id _ (mem_buffersOf hq) bytes hread

/-- What is done while a key is placed leaves a cache intact. -/
theorem Placing.intact (hp : Placing c stray own brought d) (h : c.Intact held stray) :
    (c.onto d).Intact held (own + stray) ∧
      Depot.Leaves False c.depot d (buffersOf c.placements + stray) := by
  have hd := h.sound.depot
  have hw := h.whole
  rw [← zero_add (buffersOf c.placements + stray)] at hd hw
  obtain ⟨hd', hw', hleaves⟩ := hp.errands.sound hd hw
  rw [add_left_comm] at hd' hw'
  exact ⟨h.withDepot hd' hw', hleaves⟩

/-- A pool takes no buffer back that is spent. -/
theorem release_spent (hpool : d.pools.find? b.tier = some pool) (hspent : d.Spent b) :
    ∃ e, d.release b.tier b = (.error e, d) := by
  cases hb : pool.backing b with
  | ok k => exact absurd ⟨pool, k, hpool, hb⟩ hspent.not_isLive
  | error e =>
    refine ⟨e, ?_⟩
    simp only [Depot.release, hpool, Pool.release, hb, Table.insert_eq_self hpool]

/-- A call fails and leaves its slot open, or a stray buffer becomes a placement's, unless it is misled. -/
theorem Intact.settled (h : (c.onto d).Intact held loose) (hplacing : slot.placing = 0) (slotsMade : Nat)
    (hpool : d.pools.find? key.tier = some pool)
    (hobtainable : ∀ b, brought = .ok b → d.Obtainable (buffersOf c.placements + loose) b)
    (hhonest : ∀ b, brought = .ok b → ¬ c.Misleads d key b) :
    (∃ e d', ((c.onto d).opened key { slot with placing := 1 } slotsMade).settle ⟨key, slot.id⟩
        brought = (.error e, (c.onto d').opened key slot slotsMade) ∧
      (c.onto d').Intact held (remaining loose key.tier brought) ∧
      Depot.Leaves False d d' (buffersOf c.placements)) ∨
    ∃ b stray, brought = .ok b ∧ loose = b ::ₘ stray ∧ b.tier = key.tier ∧
      b.length = key.identity.bytes ∧
      ((c.onto d).opened key { slot with placing := 1 } slotsMade).settle ⟨key, slot.id⟩ brought =
        (.ok c.placementsMade, (c.onto d).entered key slot slotsMade b) := by
  rw [settle_opened c hplacing slotsMade hpool]
  have hd : d.Sound (buffersOf c.placements + loose) := h.sound.depot
  cases brought with
  | error e => exact .inl ⟨e, d, rfl, h, .refl _ _ _⟩
  | ok b =>
    -- A buffer that is not a stray one of the tier is left where it is.
    have hother : (b.tier = key.tier → b ∉ loose) →
        (c.onto d).Intact held (remaining loose key.tier (.ok b)) := fun hb => by
      simp only [remaining]
      split_ifs with htier
      · rwa [Multiset.erase_of_notMem (hb htier)]
      · exact h
    by_cases howns : pool.owns b
    · have htier : b.tier = key.tier := hd.tier_of_owns hpool howns
      have hissued : ∃ pool, d.pools.find? key.tier = some pool ∧ pool.owns b := ⟨pool, hpool, howns⟩
      simp only [howns, if_true]
      rcases hobtainable b rfl with hout | hspent | hforeign
      · rcases Multiset.mem_add.1 hout with hused | hloose
        · exact absurd ⟨hissued, .inl (exists_of_mem_buffersOf hused)⟩ (hhonest b rfl)
        · obtain ⟨stray, rfl⟩ := Multiset.exists_cons_of_mem hloose
          by_cases hlength : b.length = key.identity.bytes
          · exact .inr ⟨b, stray, rfl, rfl, htier, hlength, by rw [if_pos hlength]⟩
          · rw [Multiset.add_cons] at hd
            rcases hr : d.release key.tier b with ⟨r, d'⟩
            obtain ⟨rfl, hs, hleaves, -⟩ := hd.release False htier hr
            have hw := h.whole
            rw [Multiset.add_cons] at hw
            have hw' := hleaves.whole (Depot.whole_cons.1 hw).2
            refine .inl ⟨_, d', by rw [if_neg hlength], ?_, hleaves.weaken (Multiset.le_add_right _ _)⟩
            rw [remaining, if_pos htier, Multiset.erase_cons_head]
            exact h.withDepot hs hw'
      · have hlength : b.length ≠ key.identity.bytes := fun hlength =>
          hhonest b rfl ⟨hissued, .inr ⟨hspent, hlength⟩⟩
        have hstray : b ∉ loose := fun hb =>
          hspent.not_isLive (hd.isLive (Multiset.mem_add.2 (.inr hb)))
        rw [← htier] at hpool
        obtain ⟨e, hr⟩ := release_spent hpool hspent
        rw [htier] at hr
        exact .inl ⟨e, d, by rw [if_neg hlength, hr], hother fun _ => hstray, .refl _ _ _⟩
      · rw [← htier] at hpool
        exact absurd howns (hforeign pool hpool)
    · have hstray : b.tier = key.tier → b ∉ loose := fun htier hb => howns
        ((hd.pools key.tier pool hpool).2.issued b
          (Depot.mem_onTier.2 ⟨Multiset.mem_add.2 (.inr hb), htier⟩))
      simp only [howns, Bool.false_eq_true, if_false]
      exact .inl ⟨_, d, rfl, hother hstray, .refl _ _ _⟩

/-- A key without a placement has its slot opened, placed into and settled. -/
theorem resolveWith_vacant {σ : Type} {place : Cache × σ → Except Fault Buffer × (Cache × σ)} {x x' : σ}
    (hq : c.Quiet) (hkey : c.registered? key = none) (htier : (c.depot.pools.find? key.tier).isSome)
    (hplace : place ((c.consult key).2, x) = (brought, (c.consult key).2.onto d, x')) :
    ∃ slot : KeySlot, ∃ n, slot.registered = none ∧ slot.placing = 0 ∧ ∀ r c',
      ((c.onto d).opened key { slot with placing := 1 } n).settle ⟨key, slot.id⟩ brought = (r, c') →
        resolveWith key place (c, x) = (r.map fun p => ⟨p, true⟩, c', x') := by
  obtain ⟨slot, n, hslot, hplacing, hconsult⟩ := hq.consult_vacant hkey
  obtain ⟨pool, hpool⟩ := Option.isSome_iff_exists.1 htier
  simp only [hpool] at hconsult
  refine ⟨slot, n, hslot, hplacing, fun r c' hsettle => ?_⟩
  rw [hconsult] at hplace
  have honto : (c.opened key { slot with placing := 1 } n).onto d =
      (c.onto d).opened key { slot with placing := 1 } n := rfl
  simp only [resolveWith, hconsult, hplace, honto, hsettle]
  cases r <;> rfl

/-- A tensor comes in, if its pool takes it. -/
theorem Intact.resolve_ok {t : Tensor} {tier : Tier} (h : c.Intact held stray)
    (hkey : c.registered? ⟨t.identity, tier⟩ = none) (htakes : c.depot.Takes tier t.bytes.size) :
    ∃ r, (c.resolve t tier).1 = .ok r := by
  obtain ⟨slot, n, hslot, -, hconsult⟩ := h.quiet.consult_vacant hkey
  obtain ⟨pool, hpool, -, hwrites⟩ := id htakes
  obtain ⟨b, d₁, hallocate⟩ := htakes.allocate t.type
  obtain ⟨d', hplace, hlength, -⟩ := h.sound.depot.placeTensor_allocated hpool hwrites hallocate
  simp only [hpool] at hconsult
  have hopen : ({ slot with placing := 1 } : KeySlot).registered = none := hslot
  have hs := (h.sound.withSlot False hkey hopen n (c.misses + 1)).1
  obtain ⟨c₁, hsettle, -⟩ := hs.settle_placed (Table.find?_insert_self _ _ _) hplace hlength
  have hplace' : (c.opened ⟨t.identity, tier⟩ { slot with placing := 1 } n).depot.placeTensor tier t id =
      (.ok b, d') := hplace
  have hsettle' : Cache.settle { c.opened ⟨t.identity, tier⟩ { slot with placing := 1 } n with depot := d' }
      ⟨⟨t.identity, tier⟩, slot.id⟩ (.ok b) = (.ok c.placementsMade, c₁) := hsettle
  simp only [resolve, resolveAmid, hconsult, hplace', hsettle']
  exact ⟨_, rfl⟩

/-- What a call does that is not misled. -/
theorem Intact.doneWell {σ : Type} {place : Cache × σ → Except Fault Buffer × (Cache × σ)} {x x' : σ}
    (h : c.Intact held stray) (hkey : c.registered? key = none)
    (htier : (c.depot.pools.find? key.tier).isSome)
    (hplace : place ((c.consult key).2, x) = (brought, (c.consult key).2.onto d, x'))
    (hplacing : Placing c stray own brought d)
    (hhonest : ∀ b, brought = .ok b → ¬ c.Misleads d key b) :
    (resolveWith key place (c, x)).2.1.Intact (given (resolveWith key place (c, x)).1 + held)
        (remaining (own + stray) key.tier brought) ∧
      c.DoneWell key (resolveWith key place (c, x)).1 (resolveWith key place (c, x)).2.1 := by
  obtain ⟨honto, hleaves⟩ := hplacing.intact h
  have hleaves := hleaves.weaken (Multiset.le_add_right (buffersOf c.placements) stray)
  obtain ⟨pool, hpool⟩ := Option.isSome_iff_exists.1 ((hleaves.tiers key.tier).trans htier)
  obtain ⟨slot, n, hslot, hzero, hresolve⟩ := resolveWith_vacant h.quiet hkey htier hplace
  rcases honto.settled hzero n hpool hplacing.obtainable hhonest with
    ⟨e, d', hsettle, hintact, hleaves'⟩ | ⟨b, rest, rfl, hloose, hbtier, hlength, hsettle⟩
  · rw [hresolve _ _ hsettle]
    have hopened := hintact.opened hkey hslot hzero n
    have hvacant : ((c.onto d').opened key slot n).registered? key = none := by
      rw [registered?_insert (c := c.onto d') rfl, if_pos rfl, hslot]
    refine ⟨by rwa [← zero_add held] at hopened, .failed ?_ hvacant fun t ht htakes => ?_⟩
    · exact keeps_of_leaves h.sound (hleaves.trans hleaves') fun _ _ hq => hq
    · obtain ⟨identity, tier⟩ := key
      cases ht
      exact hopened.resolve_ok hvacant htakes
  · rw [hresolve _ _ hsettle]
    rw [hloose] at honto ⊢
    have hentered := honto.entered hkey hzero n hbtier hlength
    have hfound := find?_entered key slot n b (c.onto d)
    have hregistered := registered?_entered key slot n b (c.onto d)
    obtain ⟨bytes, hread, hsize⟩ := hentered.whole b (Multiset.mem_add.2 (.inl (mem_buffersOf hfound)))
    rw [hbtier] at hread
    refine ⟨?_, .placed ?_ hregistered hfound rfl ?_ (hsize.trans hlength) fun p' q' hne hq' ht => ?_⟩
    · rw [remaining, if_pos hbtier, Multiset.erase_cons_head]
      exact hentered
    · refine keeps_of_leaves h.sound hleaves fun p q hq => ?_
      exact honto.sound.find?_entered_of_find? key slot n b hq
    · exact read_eq_ok.2 ⟨_, hfound, hread⟩
    · exact hentered.sound.slot_ne hq' hfound hne ht

/-- A call that is misled does not do well: it registers a buffer that cannot be read or that another
placement has, or it takes the buffer of another placement back. -/
theorem Intact.misled {σ : Type} {place : Cache × σ → Except Fault Buffer × (Cache × σ)} {x x' : σ}
    (h : c.Intact held stray) (hkey : c.registered? key = none)
    (htier : (c.depot.pools.find? key.tier).isSome)
    (hplace : place ((c.consult key).2, x) = (.ok b, (c.consult key).2.onto d, x'))
    (hplacing : Placing c stray own (.ok b) d) (hmisled : c.Misleads d key b) :
    ¬ c.DoneWell key (resolveWith key place (c, x)).1 (resolveWith key place (c, x)).2.1 := by
  obtain ⟨honto, hleaves⟩ := hplacing.intact h
  obtain ⟨slot, n, hslot, hzero, hresolve⟩ := resolveWith_vacant h.quiet hkey htier hplace
  obtain ⟨⟨pool, hpool, howns⟩, hcase⟩ := hmisled
  have hd : d.Sound (buffersOf c.placements + (own + stray)) := honto.sound.depot
  have hbtier : b.tier = key.tier := hd.tier_of_owns hpool howns
  have hsettle := settle_opened c hzero n hpool (.ok b)
  simp only [howns, if_true] at hsettle
  by_cases hlength : b.length = key.identity.bytes
  · rw [if_pos hlength] at hsettle
    rw [hresolve _ _ hsettle]
    have hfound : ((c.onto d).entered key slot n b).find? c.placementsMade = some ⟨key, b, 2⟩ :=
      find?_entered key slot n b (c.onto d)
    rintro (@⟨_, _, q, bytes, -, -, hq, -, hread, -, hapart⟩ | _)
    rw [hfound, Option.some.injEq] at hq
    subst hq
    rcases hcase with ⟨p₀, q₀, hq₀, rfl⟩ | ⟨hspent, -⟩
    · have hne := (h.sound.numbered p₀ q₀ hq₀).ne
      have hq₀' := honto.sound.find?_entered_of_find? key slot n q₀.buffer hq₀
      exact hapart p₀ q₀ hne hq₀' rfl rfl
    · obtain ⟨q, hq, hread⟩ := read_eq_ok.1 hread
      rw [hfound, Option.some.injEq] at hq
      subst hq
      have hread' : d.read b.tier b = .ok bytes := by
        rw [hbtier]
        exact hread
      exact hspent.not_isLive (Depot.isLive_of_read hread')
  · rw [if_neg hlength] at hsettle
    obtain ⟨p₀, q₀, hq₀, rfl⟩ := hcase.resolve_right fun hspent => hlength hspent.2
    rw [buffersOf_erase hq₀, Multiset.cons_add] at hd
    rcases hr : d.release key.tier q₀.buffer with ⟨r, d'⟩
    obtain ⟨rfl, -, -, hspent⟩ := hd.release False hbtier hr
    rw [hr] at hsettle
    rw [hresolve _ _ hsettle]
    rintro (_ | ⟨hkeeps, -, -⟩)
    obtain ⟨bytes, hread, -⟩ := h.whole q₀.buffer (Multiset.mem_add.2 (.inl (mem_buffersOf hq₀)))
    rw [(h.sound.fits p₀ q₀ hq₀).1] at hread
    obtain ⟨q, hq, hread'⟩ := read_eq_ok.1 (hkeeps p₀ bytes (read_eq_ok.2 ⟨q₀, hq₀, hread⟩))
    have hsame : q₀ = q := Option.some.inj (hq₀.symm.trans hq)
    subst hsame
    rw [← (h.sound.fits p₀ q₀ hq₀).1] at hread'
    exact hspent.not_isLive (Depot.isLive_of_read hread')

/-- What is reached is intact. -/
theorem Reached.intact {depot : Depot} (h : Reached depot c held stray) (hd : depot.Sound 0) :
    c.Intact held stray := by
  induction h with
  | start => exact .ofDepot hd
  | retain _ hp ih => exact ih.retain hp
  | release _ ih => exact ih.release
  | purge _ ih => exact ih.purge
  | invalidate _ tier ih => exact ih.invalidate tier
  | clear _ ih => exact ih.clear
  | errands _ he ih => exact ih.errands he
  | hit _ hhit ih => exact ih.hit hhit
  | refused _ hrefused ih => exact ih.refused hrefused
  | resolve _ hkey htier hplace hplacing hhonest ih =>
    exact (ih.doneWell hkey htier hplace hplacing hhonest).1

/-- In every state that is reached without a misled call, a call for a key without a placement does
well just if the buffer that it is brought does not mislead it. -/
theorem resolve_doneWell_iff {depot : Depot} (hd : depot.Sound 0) (h : Reached depot c held stray)
    (hkey : c.registered? key = none) (htier : (c.depot.pools.find? key.tier).isSome) {σ : Type}
    {place : Cache × σ → Except Fault Buffer × (Cache × σ)} {x x' : σ}
    (hplace : place ((c.consult key).2, x) = (brought, (c.consult key).2.onto d, x'))
    (hplacing : Placing c stray own brought d) :
    c.DoneWell key (resolveWith key place (c, x)).1 (resolveWith key place (c, x)).2.1 ↔
      ∀ b, brought = .ok b → ¬ c.Misleads d key b := by
  have hc := h.intact hd
  constructor
  · rintro hwell b rfl hmisled
    exact hc.misled hkey htier hplace hplacing hmisled hwell
  · intro hhonest
    exact (hc.doneWell hkey htier hplace hplacing hhonest).2

section

open Scene (sampleDepot sampleTensor sampleDepot_sound)

def sampleKey : Key := ⟨sampleTensor.identity, .host⟩

def sampleAllocation : Except Fault Buffer × Depot := sampleDepot.allocate .host 4 .f32

def sampleBuffer : Buffer := ⟨.host, 1, 0, 1, 4, .f32⟩

theorem sampleAllocation_eq : sampleAllocation = (.ok sampleBuffer, sampleAllocation.2) :=
  Prod.ext (by decide +kernel) rfl

theorem sampleAllocation_errands : Depot.Errands sampleDepot 0 sampleAllocation.2 {sampleBuffer} :=
  .single (.on (.allocate sampleAllocation_eq) (fun _ h => absurd h (Multiset.notMem_zero _)) 0)

/-- Whoever brings a buffer when he has done his errands. -/
def bringing (b : Buffer) (d : Depot) (w : Cache × Unit) : Except Fault Buffer × (Cache × Unit) :=
  (.ok b, w.1.onto d, w.2)

/-- A buffer that has just been allocated does well. -/
theorem fresh_buffer_doneWell :
    let (r, c, _) := resolveWith sampleKey (bringing sampleBuffer sampleAllocation.2)
      (.ofDepot sampleDepot, ())
    (Cache.ofDepot sampleDepot).DoneWell sampleKey r c := by
  have hsound := (sampleDepot_sound.allocate False sampleAllocation_eq).1
  have hmem : sampleBuffer ∈ sampleBuffer ::ₘ (0 : Multiset Buffer) := Multiset.mem_cons_self _ _
  have htier : (sampleDepot.pools.find? sampleKey.tier).isSome := by decide +kernel
  have hplace : bringing sampleBuffer sampleAllocation.2
      (((Cache.ofDepot sampleDepot).consult sampleKey).2, ()) =
        (.ok sampleBuffer, ((Cache.ofDepot sampleDepot).consult sampleKey).2.onto sampleAllocation.2, ()) :=
    rfl
  have hplacing : Placing (.ofDepot sampleDepot) 0 {sampleBuffer} (.ok sampleBuffer)
      sampleAllocation.2 := by
    refine ⟨sampleAllocation_errands, fun b hb => .inl ?_⟩
    cases hb
    exact hmem
  refine (resolve_doneWell_iff sampleDepot_sound .start rfl htier hplace hplacing).2 ?_
  rintro b hb ⟨-, ⟨p, q, hq, -⟩ | ⟨hspent, -⟩⟩ <;> cases hb
  · cases hq
  · exact hspent.not_isLive (hsound.isLive hmem)

/-- The pools after a buffer has been given back. -/
def spentDepot : Depot := (sampleAllocation.2.release .host sampleBuffer).2

/-- A buffer that was given back is registered, though it cannot be read. -/
theorem spent_buffer_registered :
    Reached sampleDepot ((Cache.ofDepot sampleDepot).onto spentDepot) 0 0 ∧
      spentDepot.Spent sampleBuffer ∧
      let (r, c, _) := resolveWith sampleKey (bringing sampleBuffer spentDepot)
        ((Cache.ofDepot sampleDepot).onto spentDepot, ())
      r = .ok ⟨0, true⟩ ∧ ¬ ((Cache.ofDepot sampleDepot).onto spentDepot).DoneWell sampleKey r c := by
  have hsound := (sampleDepot_sound.allocate False sampleAllocation_eq).1
  have hspent := (hsound.release False rfl (Prod.eta _).symm).2.2.2
  have hback : Depot.Step False .host (sampleAllocation.2, {sampleBuffer}) (spentDepot, 0) :=
    .giveBack rfl
  have hown : ∀ b ∈ ({sampleBuffer} : Multiset Buffer), b.tier = .host := by simp [sampleBuffer]
  have hreached : Reached sampleDepot ((Cache.ofDepot sampleDepot).onto spentDepot) 0 0 :=
    .errands .start (sampleAllocation_errands.tail (.on hback hown 0))
  have htier : (spentDepot.pools.find? sampleKey.tier).isSome := by decide +kernel
  have hplace : bringing sampleBuffer spentDepot
      ((((Cache.ofDepot sampleDepot).onto spentDepot).consult sampleKey).2, ()) = (.ok sampleBuffer,
        (((Cache.ofDepot sampleDepot).onto spentDepot).consult sampleKey).2.onto spentDepot, ()) := rfl
  have hplacing : Placing ((Cache.ofDepot sampleDepot).onto spentDepot) 0 0 (.ok sampleBuffer)
      spentDepot := by
    refine ⟨.refl, fun b hb => .inr (.inl ?_)⟩
    cases hb
    exact hspent
  have howns : ∃ pool, spentDepot.pools.find? sampleKey.tier = some pool ∧ pool.owns sampleBuffer := by
    rw [← Option.any_eq_true]
    decide +kernel
  have hlength : sampleBuffer.length = sampleKey.identity.bytes := by decide +kernel
  refine ⟨hreached, hspent, by decide +kernel, ?_⟩
  exact (hreached.intact sampleDepot_sound).misled rfl htier hplace hplacing
    ⟨howns, .inr ⟨hspent, hlength⟩⟩

end

end Cache

end TieredWeights
