import TieredWeights.Binary64
import TieredWeights.Text.Numeral

/-!
# Numbers read from decimal text

A decimal text has an optional sign, digits with at most one point among or beside them, and an
optional power of ten; `inf`, `infinity` and `nan` are read in any case of letters. The number
read is the one nearest to the decimal value, half-way cases to the even one.
-/
namespace TieredWeights.Binary64

/-- Digits as a whole number. -/
def digitsValue (ds : List Char) : Nat := ds.foldl (fun n c => 10 * n + Text.digitValue c) 0

/-- The number nearest to `± m · 10^e`. Decimal values beyond `10^310` are infinite and those
below `10^-330` are zero without being computed. -/
def ofDecimal (negative : Bool) (m : Nat) (e : Int) : Binary64 :=
  if m = 0 then signedZero negative
  else
    let length : Int := (Nat.toDigits 10 m).length
    if length + e > 310 then infinity negative
    else if length + e < -330 then signedZero negative
    else if 0 ≤ e then ofRatio negative (m * tenTo e.toNat) 1
    else ofRatio negative m (tenTo (-e).toNat)

/-- A sign at the front of a text. -/
def takeSign : List Char → Bool × List Char
  | '-' :: rest => (true, rest)
  | '+' :: rest => (false, rest)
  | rest => (false, rest)

/-- The power of ten that ends a decimal text, 0 if there is none. -/
def readPower : List Char → Option Int
  | [] => some 0
  | c :: rest =>
    if c = 'e' ∨ c = 'E' then
      let (negative, digits) := takeSign rest
      if digits ≠ [] ∧ digits.all Char.isDigit then
        let n : Int := digitsValue digits
        some (if negative then -n else n)
      else none
    else none

/-- An unsigned decimal: digits, a point with more digits, and a power of ten. -/
def readUnsigned (negative : Bool) (s : List Char) : Option Binary64 :=
  let whole := s.takeWhile Char.isDigit
  let rest := s.dropWhile Char.isDigit
  let (places, tail) :=
    match rest with
    | '.' :: after => (after.takeWhile Char.isDigit, after.dropWhile Char.isDigit)
    | _ => ([], rest)
  if whole = [] ∧ places = [] then none
  else (readPower tail).map fun power =>
    ofDecimal negative (digitsValue (whole ++ places)) (power - places.length)

def read (s : List Char) : Option Binary64 :=
  let (negative, rest) := takeSign s
  let word := rest.map Char.toLower
  if word = "inf".toList ∨ word = "infinity".toList then some (infinity negative)
  else if word = "nan".toList then some (.nan negative)
  else readUnsigned negative rest

end TieredWeights.Binary64
