/-!
# Numbers and their texts

Counts and sizes are machine words: whole numbers up to `wordMax`. A numeral is an optional plus
sign and one or more decimal digits; `readWord` reads it from the left and stops at the first
character that is no digit or that makes the number too large.

Bytes are written as pairs of hexadecimal digits in small letters, and numbers filled with zeros to
a fixed count of such digits. Digits are read in capital letters too.
-/
namespace TieredWeights

/-- Two to a power. -/
abbrev twoTo (n : Nat) : Nat := Nat.pow 2 n

/-- Ten to a power. -/
abbrev tenTo (n : Nat) : Nat := Nat.pow 10 n

def sumOf : List Nat → Nat
  | [] => 0
  | n :: rest => n + sumOf rest

@[simp] theorem sumOf_append (l m : List Nat) : sumOf (l ++ m) = sumOf l + sumOf m := by
  induction l with
  | nil => simp [sumOf]
  | cons n rest ih => simp [sumOf, ih, Nat.add_assoc]

/-- The largest machine word. -/
def wordMax : Nat := twoTo 64 - 1

namespace Text

/-- Why a text is no machine word. -/
inductive NumeralFault where
  | empty
  | invalidDigit
  | tooLarge
  deriving DecidableEq, Repr

def NumeralFault.message : NumeralFault → String
  | .empty => "cannot parse integer from empty string"
  | .invalidDigit => "invalid digit found in string"
  | .tooLarge => "number too large to fit in target type"

def digitValue (c : Char) : Nat := c.toNat - '0'.toNat

/-- Append decimal digits to a number, as long as it stays a machine word. -/
def appendDigits (n : Nat) : List Char → Except NumeralFault Nat
  | [] => .ok n
  | c :: rest =>
    if c.isDigit then
      if 10 * n + digitValue c ≤ wordMax then appendDigits (10 * n + digitValue c) rest
      else .error .tooLarge
    else .error .invalidDigit

def readWord : List Char → Except NumeralFault Nat
  | [] => .error .empty
  | ['+'] => .error .invalidDigit
  | '+' :: digits => appendDigits 0 digits
  | digits => appendDigits 0 digits

/-- The last `width` hexadecimal digits of a number, and more if it has more. -/
def hexWord (width n : Nat) : String :=
  let digits := Nat.toDigits 16 n
  String.ofList (List.replicate (width - digits.length) '0' ++ digits)

def hex (bytes : ByteArray) : String :=
  "".intercalate (bytes.toList.map fun b => hexWord 2 b.toNat)

def hexDigit? (c : Char) : Option Nat :=
  if c.isDigit then some (c.toNat - '0'.toNat)
  else if 'a' ≤ c ∧ c ≤ 'f' then some (c.toNat - 'a'.toNat + 10)
  else if 'A' ≤ c ∧ c ≤ 'F' then some (c.toNat - 'A'.toNat + 10)
  else none

def readPairs : List Char → Option (List UInt8)
  | [] => some []
  | [_] => none
  | a :: b :: rest => do
    let high ← hexDigit? a
    let low ← hexDigit? b
    some ((high * 16 + low).toUInt8 :: (← readPairs rest))

/-- The bytes that pairs of digits write. -/
def readHex (s : String) : Option ByteArray := (readPairs s.toList).map fun l => ⟨l.toArray⟩

end Text

end TieredWeights
