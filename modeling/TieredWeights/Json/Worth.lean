import TieredWeights.Json
import TieredWeights.Binary64.Decimal

/-!
# What a numeral is worth

A numeral is worth a machine word if it has neither sign, point nor power. It is worth a binary
number by a rule of its own: digits are gathered into a significand of one machine word, digits
beyond it count by their position alone, and the significand is scaled by a power of ten with a
rounding at every step. The result may lie next to the nearest number instead of being it.
-/
namespace TieredWeights.Json.Numeral

/-- The machine word of a numeral without sign, point and power. -/
def toWord? (n : Numeral) : Option Nat :=
  if n.negative ∨ n.places.isSome ∨ n.power.isSome then none
  else (Text.appendDigits 0 n.whole).toOption

/-- Append whole digits to a significand while it stays a machine word, and count the others. -/
def gatherWhole (n : Nat) : List Char → Nat × Nat
  | [] => (n, 0)
  | c :: rest =>
    if 10 * n + Text.digitValue c ≤ wordMax then gatherWhole (10 * n + Text.digitValue c) rest
    else (n, rest.length + 1)

/-- Append places to a significand while it stays a machine word, and count those appended. -/
def gatherPlaces (n : Nat) : List Char → Nat × Nat
  | [] => (n, 0)
  | c :: rest =>
    if 10 * n + Text.digitValue c ≤ wordMax then
      let (m, count) := gatherPlaces (10 * n + Text.digitValue c) rest
      (m, count + 1)
    else (n, 0)

/-- The largest power of ten below infinity. -/
def largestPower : Nat := 308

/-- A magnitude times a power of ten, in steps of at most `largestPower` and rounded at each. An
infinite one is refused. -/
def scale (x : Binary64) (power : Int) : Option Binary64 :=
  if power.natAbs ≤ largestPower then
    let factor := Binary64.ofNat (tenTo power.natAbs)
    if power < 0 then some (x / factor)
    else if (x * factor).isFinite then some (x * factor)
    else none
  else if x = .zero then some x
  else if 0 ≤ power then none
  else scale (x / .ofNat (tenTo largestPower)) (power + largestPower)
termination_by power.natAbs
decreasing_by simp only [largestPower] at *; omega

/-- The largest power that a numeral may name. -/
def powerLimit : Nat := twoTo 31 - 1

/-- A significand times ten to the power written, with the point `shift` places to the right. -/
def magnitude? (m : Nat) (shift : Int) : Option (Bool × List Char) → Option Binary64
  | none => scale (.ofNat m) shift
  | some (negative, digits) =>
    let power := Binary64.digitsValue digits
    if powerLimit < power then
      if m ≠ 0 ∧ !negative then none else some .zero
    else scale (.ofNat m) (if negative then shift - power else shift + power)

def toBinary64? (n : Numeral) : Option Binary64 :=
  let (m, beyond) := gatherWhole 0 n.whole
  let (m, places) := gatherPlaces m (n.places.getD [])
  (magnitude? m (beyond - places) n.power).map fun x => if n.negative then -x else x

end TieredWeights.Json.Numeral
