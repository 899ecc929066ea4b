import TieredWeights.Tier
import TieredWeights.Binary64.Shortest

/-!
# Splits

A split gives each of three tiers a share of a block's bytes: the disk, the host and one
accelerator. Shares need not sum to a hundred; normalized they are percentages. What a split means
is stated for any arithmetic of shares, so that the rounded arithmetic of a run and exact rational
arithmetic read the same definitions.
-/
namespace TieredWeights

/-- An arithmetic in which shares and midpoints are reckoned. -/
class ShareArithmetic (α : Type) extends Add α, Sub α, Mul α, Div α, LE α, LT α where
  ofNat : Nat → α
  isFinite : α → Bool
  /-- How far beyond a bound a midpoint may lie and still count as on it. -/
  tolerance : α
  [decLE : DecidableLE α]
  [decLT : DecidableLT α]

attribute [reducible, instance] ShareArithmetic.decLE ShareArithmetic.decLT

/-- Rounded arithmetic, in which a run reckons. -/
instance : ShareArithmetic Binary64 where
  ofNat := Binary64.ofNat
  isFinite := Binary64.isFinite
  tolerance := Binary64.ofRatio false 1 (tenTo 9)

/-- The shares of the disk, the host and the accelerator of an index. -/
structure Split (α : Type) where
  disk : α
  host : α
  accel : α
  accelerator : Nat := 0
  deriving DecidableEq

/-- Why shares cannot be normalized. -/
inductive ShareFault where
  | unusable
  | allZero
  deriving DecidableEq, Repr

namespace Split

section

variable {α : Type} [ShareArithmetic α]

local instance (n : Nat) : OfNat α n := ⟨ShareArithmetic.ofNat n⟩

/-- The shares in canonical order of their tiers. -/
def shares (s : Split α) : List (Tier × α) :=
  [(.disk, s.disk), (.host, s.host), (.accelerator s.accelerator, s.accel)]

/-- The sum of the shares, added in canonical order. -/
def total (s : Split α) : α := s.disk + s.host + s.accel

/-- Shares are finite and not negative, and one of them is positive. -/
def check (s : Split α) : Except ShareFault Unit :=
  if s.shares.any fun x => !ShareArithmetic.isFinite x.2 || decide (x.2 < 0) then .error .unusable
  else if s.total ≤ 0 then .error .allZero
  else .ok ()

/-- The shares as percentages of their sum. -/
def percentages (s : Split α) : List (Tier × α) :=
  let scale : α := 100 / s.total
  s.shares.map fun x => (x.1, x.2 * scale)

def normalized (s : Split α) : Except ShareFault (List (Tier × α)) :=
  s.check.map fun _ => s.percentages

end

/-- Everything on accelerator 0. -/
def default : Split Binary64 := ⟨0, 0, 100, 0⟩

instance : Inhabited (Split Binary64) := ⟨default⟩

def display (s : Split Binary64) : String :=
  s!"disk {s.disk.display}% / host {s.host.display}% / " ++
    s!"{(Tier.accelerator s.accelerator).display} {s.accel.display}%"

end Split

/-- Why a text or a triple of numbers is no split. -/
inductive SplitFault where
  | notAccelerator (device : String)
  | wrongCount (text : String)
  | notNumber (part : String)
  | unusable (split : Split Binary64)
  | allZero
  | other (reason : String)
  deriving DecidableEq

namespace SplitFault

def message : SplitFault → String
  | notAccelerator device => s!"'{device}' is not an accelerator"
  | wrongCount text =>
    s!"expected three comma-separated shares (disk,host,accel), got '{text}'"
  | notNumber part => s!"'{part}' is not a number"
  | unusable split => s!"shares must be finite and non-negative, got {split.display}"
  | allZero => "all shares are zero"
  | other reason => reason

/-- The fault of a split whose shares have one. -/
def ofShares (split : Split Binary64) : ShareFault → SplitFault
  | .unusable => unusable split
  | .allZero => allZero

end SplitFault

/-- A split whose shares can be normalized. -/
def Split.validate (s : Split Binary64) : Except SplitFault Unit :=
  s.check.mapError (SplitFault.ofShares s)

end TieredWeights
