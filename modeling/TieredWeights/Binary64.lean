import TieredWeights.Text.Numeral

/-!
# Binary64 numbers

Shares, percentages and midpoints are binary floating-point numbers of 64 bits. Every finite
magnitude is a whole number of units of 2⁻¹⁰⁷⁴, so an operation is computed exactly on units and
rounded once, to the nearest number and between two nearest ones to the even one.

A magnitude is held as its rank among all magnitudes: 0 is zero, 1 the smallest positive number,
and `infinityRank` stands after the largest finite one. Order of magnitudes is order of ranks,
and rounding is monotone in the exact value.
-/
namespace TieredWeights

/-- How many bits a magnitude has below its leading one. -/
def fractionBits : Nat := 52

/-- How many units of 2⁻¹⁰⁷⁴ make one. -/
def unitsPerOne : Nat := twoTo 1074

/-- The rank after the largest finite magnitude. -/
def infinityRank : Nat := 2047 * twoTo fractionBits

/-- A quotient rounded to the nearest whole number, half-way cases to the even one. -/
def nearestEven (n d : Nat) : Nat :=
  let q := n / d
  let r := n % d
  if 2 * r < d ∨ (2 * r = d ∧ q % 2 = 0) then q else q + 1

/-- The power of two by which the significand of a rank is scaled. -/
def rankScale (r : Nat) : Nat := r / twoTo fractionBits - 1

/-- The significand of a rank. -/
def rankSignificand (r : Nat) : Nat := r - rankScale r * twoTo fractionBits

/-- The magnitude of a rank, in units. -/
def rankUnits (r : Nat) : Nat := rankSignificand r * twoTo (rankScale r)

/-- The rank nearest to `n / d` units, with `b` bits below the leading one. -/
def roundedRank (b n d : Nat) : Nat :=
  let scale := (n / d).log2 - b
  scale * twoTo b + nearestEven n (d * twoTo scale)

/-- A number: a sign and the rank of a magnitude, which may be infinite. What is no number at all
has a sign too, which only its bits show. -/
inductive Binary64 where
  | nan (negative : Bool)
  | signed (negative : Bool) (rank : Fin (infinityRank + 1))
  deriving DecidableEq

namespace Binary64

/-- A magnitude of `n / d` units with a sign, rounded. -/
def ofUnits (negative : Bool) (n d : Nat) : Binary64 :=
  .signed negative ⟨min infinityRank (roundedRank fractionBits n d), by omega⟩

/-- Zero with a sign. -/
def signedZero (negative : Bool) : Binary64 := .signed negative ⟨0, by omega⟩

def zero : Binary64 := signedZero false

def infinity (negative : Bool) : Binary64 := .signed negative ⟨infinityRank, by omega⟩

def ofNat (n : Nat) : Binary64 := ofUnits false (n * unitsPerOne) 1

/-- The quotient of two whole numbers, rounded once. -/
def ofRatio (negative : Bool) (n d : Nat) : Binary64 := ofUnits negative (n * unitsPerOne) d

instance (n : Nat) : OfNat Binary64 n := ⟨ofNat n⟩

def isFinite : Binary64 → Bool
  | .nan _ => false
  | .signed _ r => r.val < infinityRank

/-- The signed rank, by which numbers compare; both zeros have signed rank 0. -/
def key? : Binary64 → Option Int
  | .nan _ => none
  | .signed true r => some (-(r.val : Int))
  | .signed false r => some r.val

/-- The comparison `x ≤ y`, which fails when one of the two is no number. -/
def le (x y : Binary64) : Bool :=
  match x.key?, y.key? with
  | some a, some b => a ≤ b
  | _, _ => false

def lt (x y : Binary64) : Bool :=
  match x.key?, y.key? with
  | some a, some b => a < b
  | _, _ => false

instance : LE Binary64 := ⟨fun x y => x.le y = true⟩
instance : LT Binary64 := ⟨fun x y => x.lt y = true⟩
instance (x y : Binary64) : Decidable (x ≤ y) := inferInstanceAs (Decidable (x.le y = true))
instance (x y : Binary64) : Decidable (x < y) := inferInstanceAs (Decidable (x.lt y = true))

def neg : Binary64 → Binary64
  | .nan s => .nan !s
  | .signed s r => .signed (!s) r

/-- The exact value of a finite number, as a whole number of units. -/
def units (negative : Bool) (r : Nat) : Int :=
  if negative then -(rankUnits r : Int) else rankUnits r

/-- What an operation gives where it has no result. -/
def noResult : Binary64 := .nan false

/-- Sum. Opposite infinities have none; a sum that is exactly zero is negative only if both
numbers are. -/
def add : Binary64 → Binary64 → Binary64
  | .signed s r, .signed s' r' =>
    if r.val = infinityRank then
      if r'.val = infinityRank ∧ s ≠ s' then noResult else .signed s r
    else if r'.val = infinityRank then .signed s' r'
    else
      let sum := units s r + units s' r'
      if sum = 0 then signedZero (s && s')
      else ofUnits (sum < 0) sum.natAbs 1
  | _, _ => noResult

def sub (x y : Binary64) : Binary64 := x.add y.neg

/-- Product. Zero times infinity has none. -/
def mul : Binary64 → Binary64 → Binary64
  | .signed s r, .signed s' r' =>
    if r.val = infinityRank ∨ r'.val = infinityRank then
      if r.val = 0 ∨ r'.val = 0 then noResult else infinity (s != s')
    else ofUnits (s != s') (rankUnits r * rankUnits r') unitsPerOne
  | _, _ => noResult

/-- Quotient. Zero by zero and infinity by infinity have none; a positive magnitude by zero is
infinite. -/
def div : Binary64 → Binary64 → Binary64
  | .signed s r, .signed s' r' =>
    if r.val = infinityRank then
      if r'.val = infinityRank then noResult else infinity (s != s')
    else if r'.val = infinityRank then signedZero (s != s')
    else if r'.val = 0 then
      if r.val = 0 then noResult else infinity (s != s')
    else ofUnits (s != s') (rankUnits r * unitsPerOne) (rankUnits r')
  | _, _ => noResult

instance : Add Binary64 := ⟨add⟩
instance : Sub Binary64 := ⟨sub⟩
instance : Mul Binary64 := ⟨mul⟩
instance : Div Binary64 := ⟨div⟩
instance : Neg Binary64 := ⟨neg⟩

/-- The 64 bits of the interchange format, most significant first; one pattern for each sign stands
for all that is no number. -/
def toBits : Binary64 → Nat
  | .nan s => (if s then twoTo 63 else 0) + 0x7ff8 * twoTo 48
  | .signed s r => (if s then twoTo 63 else 0) + r.val

/-- The number of an interchange pattern. -/
def ofBits (bits : Nat) : Binary64 :=
  let negative : Bool := bits / twoTo 63 % 2 = 1
  let rank := bits % twoTo 63
  if h : rank ≤ infinityRank then .signed negative ⟨rank, by omega⟩ else .nan negative

/-- The whole part of a positive number, no more than a machine word holds; 0 for a negative
number and for no number. -/
def toWord (limit : Nat) : Binary64 → Nat
  | .nan _ => 0
  | .signed true _ => 0
  | .signed false r =>
    if r.val = infinityRank then limit else min limit (rankUnits r / unitsPerOne)

/-- The bits of the nearest number of 32 bits: 23 of them below the leading one, and units of
2⁻¹⁴⁹. -/
def toSingleBits : Binary64 → Nat
  | .nan s => (if s then twoTo 31 else 0) + 0x7fc00000
  | .signed s r =>
    let top := 255 * twoTo 23
    let rank := if r.val = infinityRank then top
      else min top (roundedRank 23 (rankUnits r) (twoTo 925))
    (if s then twoTo 31 else 0) + rank

/-- A number of 32 bits as a number of 64 bits, which holds it exactly. -/
def ofSingleBits (bits : Nat) : Binary64 :=
  let rank := bits % twoTo 31
  let negative : Bool := bits / twoTo 31 % 2 = 1
  let scale := rank / twoTo 23 - 1
  if 255 * twoTo 23 < rank then .nan negative
  else if rank = 255 * twoTo 23 then infinity negative
  else ofUnits negative ((rank - scale * twoTo 23) * twoTo scale * twoTo 925) 1

/-- The nearest number that 32 bits hold. -/
def toSingle (x : Binary64) : Binary64 := ofSingleBits x.toSingleBits

end Binary64

end TieredWeights
