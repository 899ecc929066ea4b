import TieredWeights.Fault
import TieredWeights.Binary64.Decimal

/-!
# Written splits

A split is written as three shares with commas between them, in canonical order of the tiers, and
perhaps an at sign and the accelerator that receives the last share: `30,30,40@accel:1`.
-/
namespace TieredWeights.Split

/-- The accelerator named after the at sign. -/
def readAccelerator (device : String) : Except Fault Nat := do
  let tier ← Tier.read device
  match tier.acceleratorIndex? with
  | some i => .ok i
  | none => .error (.invalidSplit (.notAccelerator device))

def readShare (part : List Char) : Except Fault Binary64 :=
  match Binary64.read part with
  | some x => .ok x
  | none => .error (.invalidSplit (.notNumber (String.ofList part)))

/-- Three shares, read from the left and validated together. -/
def readShares (text : String) (shares : List Char) (accelerator : Nat) :
    Except Fault (Split Binary64) :=
  match (Text.pieces ',' shares).map Text.trim with
  | [disk, host, accel] => do
    let split : Split Binary64 :=
      ⟨← readShare disk, ← readShare host, ← readShare accel, accelerator⟩
    match split.validate with
    | .ok () => .ok split
    | .error fault => .error (.invalidSplit fault)
  | _ => .error (.invalidSplit (.wrongCount text))

def read (text : String) : Except Fault (Split Binary64) :=
  match Text.cut '@' text.toList with
  | none => readShares text text.toList 0
  | some (shares, device) => do
    let accelerator ← readAccelerator (String.ofList device)
    readShares text shares accelerator

end TieredWeights.Split
