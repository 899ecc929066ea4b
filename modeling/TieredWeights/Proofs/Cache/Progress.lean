import TieredWeights.Proofs.Conservation

/-!
# Progress of a caller

A caller that resolves keys one after another leaves the placements of others as they are and
registers what was not registered before. `Progress` records which keys it has resolved and how many
it has tried. References given up are no matter of progress: what the caller has placed stays
registered.
-/
namespace TieredWeights.Cache

variable {c c' c'' : Cache} {held : Multiset PlacementId} {loose : Multiset Buffer} {key : Key}
  {keys keys' : List Key} {tried tried' : Nat} {make : Maker} {p : PlacementId} {q : Placement}

/-- The keys are registered, and no others that were not before; nothing registered has gone. -/
structure Progress (c : Cache) (keys : List Key) (tried : Nat) (c' : Cache) : Prop where
  later : Later False c c'
  kept : ∀ key p, c.registered? key = some p → c'.registered? key = some p
  new : ∀ key p, c'.registered? key = some p →
    c.registered? key = some p ∨ key ∈ keys ∧ c.placementsMade ≤ p
  all : ∀ key ∈ keys, (c'.registered? key).isSome
  tried : c'.hits + c'.misses = c.hits + c.misses + tried

namespace Progress

/-- Changes to placements alone are no matter of progress, as long as these last. -/
theorem of_later (hl : Later False c c') (hslots : c'.slots = c.slots) (hhits : c'.hits = c.hits)
    (hmisses : c'.misses = c.misses) : Progress c [] 0 c' := by
  have hsame : ∀ key, c'.registered? key = c.registered? key := fun key => by
    rw [registered?, hslots, registered?]
  constructor
  case later => exact hl
  case kept => simp [hsame]
  case new => exact fun key p hp => .inl (by rwa [← hsame])
  case all => simp
  case tried => omega

theorem refl (c : Cache) : Progress c [] 0 c := of_later (.refl _ c) rfl rfl rfl

theorem trans (h : Progress c keys tried c') (h' : Progress c' keys' tried' c'') :
    Progress c (keys ++ keys') (tried + tried') c'' := by
  constructor
  case later => exact h.later.trans h'.later
  case kept => exact fun key p hp => h'.kept key p (h.kept key p hp)
  case new =>
    intro key p hp
    rcases h'.new key p hp with hp' | ⟨hkey, hmade⟩
    · rcases h.new key p hp' with hp'' | ⟨hkey, hmade⟩
      · exact .inl hp''
      · exact .inr ⟨List.mem_append_left _ hkey, hmade⟩
    · exact .inr ⟨List.mem_append_right _ hkey, h.later.made.trans hmade⟩
  case all =>
    intro key hkey
    rcases List.mem_append.1 hkey with hkey | hkey
    · obtain ⟨p, hp⟩ := Option.isSome_iff_exists.1 (h.all key hkey)
      rw [h'.kept key p hp]
      rfl
    · exact h'.all key hkey
  case tried =>
    have htried := h.tried
    have htried' := h'.tried
    omega

end Progress

/-- Registrations after a call that found none. -/
theorem Missed.progress {registered : Option PlacementId}
    (h : c.Missed False key registered c') (hl : Later False c c')
    (hnew : ∀ p ∈ registered, c.placementsMade ≤ p) :
    Progress c (if registered.isSome then [key] else []) 1 c' := by
  constructor
  case later => exact hl
  case kept => exact fun k p hp => (h.kept k p hp).resolve_right And.left
  case new =>
    intro k p hp
    by_cases hk : k = key
    · subst hk
      have hself : registered = some p := h.self.symm.trans hp
      exact .inr ⟨by simp [hself], hnew p hself⟩
    · exact .inl (h.other k p hk hp)
  case all =>
    intro k hk
    cases registered with
    | none => simp at hk
    | some p =>
      have hkey : k = key := by simpa using hk
      rw [hkey, h.self]
      rfl
  case tried =>
    have hhits := h.hits
    have hmisses := h.misses
    omega

/-- A call that succeeds resolves its key. -/
theorem Called.progress {r : Resolved} (h : Called False c key make (.ok r) c')
    (hl : Later False c c') : Progress c [key] 1 c' := by
  cases h with
  | @hit p q registered found own =>
    constructor
    case later => exact hl
    case kept => exact fun _ _ hp => hp
    case new => exact fun _ _ hp => .inl hp
    case all =>
      intro k hk
      have hsome : (c.registered? key).isSome := by simp [registered]
      rw [List.mem_singleton.1 hk]
      exact hsome
    case tried => exact Nat.add_right_comm _ _ _
  | placed missed made found brought =>
    exact missed.progress hl (by simp)

/-- A call that fails resolves nothing, and its key stays unregistered. -/
theorem Called.progress_error {e : Fault} (h : Called False c key make (.error e) c')
    (hl : Later False c c') : Progress c [] 1 c' ∧ c'.registered? key = none := by
  cases h with
  | failed missed made => exact ⟨missed.progress hl (by simp), missed.self⟩

/-- The registrations of placements that were there before count as they did. -/
theorem Progress.registrationCount_eq {held' : Multiset PlacementId} {loose' : Multiset Buffer}
    (h : Progress c keys tried c') (hc : c.Sound held' loose') (hs : c'.Sound held loose)
    (hq : c.find? p = some q) : c'.registrationCount p = c.registrationCount p := by
  have hold : c'.registered? q.key = some p ↔ c.registered? q.key = some p := by
    constructor
    · intro hp
      refine (h.new q.key p hp).resolve_right fun hnew => ?_
      exact absurd (hc.numbered p q hq) (Nat.not_lt.2 hnew.2)
    · exact h.kept q.key p
  rcases h.later.kept p q hq with ⟨q', hq', hkey, -⟩ | ⟨hnone, -⟩
  · simp only [registrationCount, hq', hq, hkey, hold]
  · have hnot : c.registered? q.key ≠ some p := fun hp => by
      obtain ⟨q', hq', -⟩ := hs.keyed q.key p (hold.2 hp)
      rw [hnone] at hq'
      cases hq'
    simp [registrationCount, hnone, hq, hnot]

@[simp] theorem releaseAll_hits (c : Cache) (ps : List PlacementId) :
    (c.releaseAll ps).hits = c.hits := by
  obtain ⟨_, _, he⟩ := releaseAll_eq c ps
  rw [he]

@[simp] theorem releaseAll_misses (c : Cache) (ps : List PlacementId) :
    (c.releaseAll ps).misses = c.misses := by
  obtain ⟨_, _, he⟩ := releaseAll_eq c ps
  rw [he]

/-- References given up are no matter of progress. -/
theorem Sound.progress_releaseAll {ps : List PlacementId} (hs : c.Sound (↑ps + held) loose)
    (hquiet : c.Quiet) : (c.releaseAll ps).Sound held loose ∧ (c.releaseAll ps).Quiet ∧
      Progress c [] 0 (c.releaseAll ps) := by
  obtain ⟨hs', hl⟩ := hs.releaseAll False
  obtain ⟨placements, depot, he⟩ := releaseAll_eq c ps
  have hslots : (c.releaseAll ps).slots = c.slots := by rw [he]
  refine ⟨hs', ?_, .of_later hl hslots (by simp) (by simp)⟩
  intro key slot hslot
  rw [hslots] at hslot
  exact hquiet key slot hslot

end TieredWeights.Cache
