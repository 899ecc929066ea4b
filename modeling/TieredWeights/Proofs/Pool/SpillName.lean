import TieredWeights.Proofs.Pool.Operations

/-!
# Names of spill files

The name of a spill file tells its pool, its slot and its generation: the three numbers are cut off
from the right at the last dashes, and decimal numerals tell their numbers. Pools with different
numbers therefore never share a file, whatever their folders are, and what one buffer reads is
untouched by work on another.
-/
namespace TieredWeights

/-- A text is parted at its last separator in one way. -/
theorem append_sep_inj {α : Type} {sep : α} {a b c d : List α} (hb : sep ∉ b) (hd : sep ∉ d)
    (h : a ++ sep :: b = c ++ sep :: d) : a = c ∧ b = d := by
  rcases List.append_eq_append_iff.1 h with ⟨e, rfl, he⟩ | ⟨e, rfl, he⟩
  · cases e with
    | nil => exact ⟨by simp, by simpa using he⟩
    | cons x e =>
      obtain ⟨-, rfl⟩ := List.cons.inj he
      exact absurd (by simp) hb
  · cases e with
    | nil => exact ⟨by simp, by simpa using he.symm⟩
    | cons x e =>
      obtain ⟨-, rfl⟩ := List.cons.inj he
      exact absurd (by simp) hd

theorem dash_notMem_toDigits (n : Nat) : '-' ∉ Nat.toDigits 10 n := fun h => by
  have hdigit := Nat.isDigit_of_mem_toDigits (by decide) (by decide) h
  revert hdigit
  decide

theorem toDigits_injective {m n : Nat} (h : Nat.toDigits 10 m = Nat.toDigits 10 n) : m = n := by
  rw [← Nat.ofDigitChars_toDigits (b := 10) (n := m) (by decide) (by decide), h,
    Nat.ofDigitChars_toDigits (by decide) (by decide)]

theorem exists_toList_spillFileName (tier : String) (process pool slot generation : Nat) :
    ∃ t, (spillFileName tier process pool slot generation).toList =
      (((t ++ '-' :: Nat.toDigits 10 pool) ++ '-' :: Nat.toDigits 10 slot) ++
        '-' :: Nat.toDigits 10 generation) ++ ".bin".toList := by
  refine ⟨(String.ofList (tier.toList.map fun c => if c = ':' then '_' else c)).toList ++
    '-' :: Nat.toDigits 10 process, ?_⟩
  have hs : ∀ s : String, toString s = s := fun _ => rfl
  simp [spillFileName, hs, Nat.toList_repr]

/-- The name of a spill file tells whose it is. -/
theorem spillFileName_inj {tier tier' : String}
    {process process' pool pool' slot slot' generation generation' : Nat}
    (h : spillFileName tier process pool slot generation =
      spillFileName tier' process' pool' slot' generation') :
    pool = pool' ∧ slot = slot' ∧ generation = generation' := by
  obtain ⟨t, ht⟩ := exists_toList_spillFileName tier process pool slot generation
  obtain ⟨t', ht'⟩ := exists_toList_spillFileName tier' process' pool' slot' generation'
  have hlist := congrArg String.toList h
  rw [ht, ht', List.append_left_inj] at hlist
  obtain ⟨hlist, hgeneration⟩ :=
    append_sep_inj (dash_notMem_toDigits _) (dash_notMem_toDigits _) hlist
  obtain ⟨hlist, hslot⟩ := append_sep_inj (dash_notMem_toDigits _) (dash_notMem_toDigits _) hlist
  obtain ⟨-, hpool⟩ := append_sep_inj (dash_notMem_toDigits _) (dash_notMem_toDigits _) hlist
  exact ⟨toDigits_injective hpool, toDigits_injective hslot, toDigits_injective hgeneration⟩

namespace Pool

theorem spillPath?_inj {p q : Pool} {i j g g' : Nat} {x : Path}
    (hp : p.spillPath? i g = some x) (hq : q.spillPath? j g' = some x) :
    p.id = q.id ∧ i = j ∧ g = g' := by
  simp only [spillPath?, Option.map_eq_some_iff] at hp hq
  obtain ⟨folder, -, rfl⟩ := hp
  obtain ⟨folder', -, he⟩ := hq
  obtain ⟨-, hname⟩ := List.append_inj' he (by simp)
  rw [List.cons.injEq, spillName, spillName] at hname
  exact spillFileName_inj hname.1.symm

end Pool

end TieredWeights
