import TieredWeights.Binary64

/-!
# Numbers as decimal texts

The decimals that read back as a given number fill an interval around it, whose ends belong to it
when the significand is even. The shortest of them stand on the coarsest grid of powers of ten
that meets the interval; the one nearest to the number is chosen. Two notations write the digits:
`display` in positions only, `exponential` with a power of ten for large and small numbers. With a
fixed count of places after the point a number is written by its exact value rounded to them,
half-way cases to the even digit.
-/
namespace TieredWeights.Binary64

/-- `digits · 10^power`. -/
structure DecimalDigits where
  digits : Nat
  power : Int
  deriving DecidableEq, Repr

/-- How two equally near decimals are told apart. -/
inductive Tie where
  | up
  | toEven
  deriving DecidableEq

/-- Half-units of 2⁻¹⁰⁷⁵ on either side of which decimals read back as the number of rank `r`. -/
def lowerBound (r : Nat) : Nat := rankUnits (r - 1) + rankUnits r

def upperBound (r : Nat) : Nat := rankUnits r + rankUnits (r + 1)

/-- The step `10^power` of a grid, and the factor by which half-units are scaled to compare with
whole steps. -/
def gridStep (power : Int) : Nat × Nat :=
  if 0 ≤ power then (tenTo power.toNat * (2 * unitsPerOne), 1)
  else (2 * unitsPerOne, tenTo (-power).toNat)

/-- The point of a grid nearest to the number of rank `r` among those that read back as it. -/
def onGrid? (tie : Tie) (r : Nat) (power : Int) : Option Nat :=
  let (step, factor) := gridStep power
  let value := 2 * rankUnits r * factor
  let inside (p : Nat) : Bool :=
    let lo := lowerBound r * factor
    let hi := upperBound r * factor
    (lo < p * step ∧ p * step < hi) ∨ (r % 2 = 0 ∧ (p * step = lo ∨ p * step = hi))
  let below := value / step
  let above := below + 1
  match inside below, inside above with
  | true, true =>
    let down := value - below * step
    let up := above * step - value
    if down < up then some below
    else if up < down then some above
    else if tie = .toEven ∧ below % 2 = 0 then some below
    else some above
  | true, false => some below
  | false, true => some above
  | false, false => none

/-- The finest grid that can be needed: its step is below the smallest positive number. -/
def finestPower : Int := -343

/-- The coarsest grid, from `10^(finestPower + n)` down, that has a point reading back. -/
def coarsest (tie : Tie) (r : Nat) : Nat → DecimalDigits
  | 0 => ⟨(onGrid? tie r finestPower).getD 0, finestPower⟩
  | n + 1 =>
    match onGrid? tie r (finestPower + n + 1) with
    | some p => ⟨p, finestPower + n + 1⟩
    | none => coarsest tie r n

/-- The shortest digits that read back as the positive finite number of rank `r`. -/
def shortest (tie : Tie) (r : Nat) : DecimalDigits := coarsest tie r 652

def zeros (n : Nat) : String := String.ofList (List.replicate n '0')

/-- Digits written by their positions, with a point only where places follow it. -/
def DecimalDigits.positional (d : DecimalDigits) : String :=
  let ds := Nat.toDigits 10 d.digits
  if 0 ≤ d.power then String.ofList ds ++ zeros d.power.toNat
  else
    let places := (-d.power).toNat
    if places < ds.length then
      String.ofList (ds.take (ds.length - places)) ++ "." ++
        String.ofList (ds.drop (ds.length - places))
    else "0." ++ zeros (places - ds.length) ++ String.ofList ds

def signText (negative : Bool) : String := if negative then "-" else ""

/-- A number as its shortest digits in positions. -/
def display : Binary64 → String
  | .nan _ => "NaN"
  | .signed s r =>
    signText s ++
      (if r.val = infinityRank then "inf"
      else if r.val = 0 then "0"
      else (shortest .up r).positional)

/-- Digits with the point after the first of them and a power of ten with its sign. -/
def DecimalDigits.exponential (d : DecimalDigits) : String :=
  let ds := Nat.toDigits 10 d.digits
  let power : Int := d.power + ds.length - 1
  let lead := String.ofList (ds.take 1)
  let tail := if ds.length = 1 then "" else "." ++ String.ofList (ds.drop 1)
  lead ++ tail ++ (if 0 ≤ power then "e+" else "e-") ++ toString power.natAbs

/-- A finite number as a data format writes it: in positions, with at least one place, while the
point stands within 16 digits and 5 places, and with a power of ten beyond. -/
def exponential : Binary64 → Option String
  | .nan _ => none
  | .signed s r =>
    if r.val = infinityRank then none
    else if r.val = 0 then some (signText s ++ "0.0")
    else
      let d := shortest .toEven r
      let point : Int := d.power + (Nat.toDigits 10 d.digits).length
      some <| signText s ++
        (if 16 < point ∨ point ≤ -5 then d.exponential
        else if 0 ≤ d.power then d.positional ++ ".0"
        else d.positional)

/-- The exact value in steps of `10^-places`, rounded. -/
def scaledTo (places r : Nat) : Nat := nearestEven (rankUnits r * tenTo places) unitsPerOne

/-- A text filled on the left with zeros up to a width. -/
def padZeros (width : Nat) (s : String) : String := zeros (width - s.length) ++ s

def fixed (places : Nat) : Binary64 → String
  | .nan _ => "NaN"
  | .signed s r =>
    signText s ++
      (if r.val = infinityRank then "inf"
      else
        let n := scaledTo places r
        toString (n / tenTo places) ++ "." ++ padZeros places (toString (n % tenTo places)))

end TieredWeights.Binary64
