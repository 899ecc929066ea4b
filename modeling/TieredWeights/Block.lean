import TieredWeights.Table
import TieredWeights.Tensor

/-!
# Blocks

The parameters of one structural block, such as a layer, in the order in which they are placed. No
two have the same name.
-/
namespace TieredWeights

structure Block where
  parameters : List (String × Tensor)
  distinct : (parameters.map (·.1)).Nodup

namespace Block

def empty : Block := ⟨[], .nil⟩

instance : Inhabited Block := ⟨empty⟩

/-- The block with one more parameter at its end. -/
def push (b : Block) (name : String) (t : Tensor) : Except Fault Block :=
  if h : name ∈ b.parameters.map (·.1) then .error (.duplicateParameter name)
  else .ok ⟨b.parameters ++ [(name, t)], by
    rw [List.map_append, List.nodup_append]
    refine ⟨b.distinct, by simp, fun x hx y hy hxy => ?_⟩
    simp only [List.map_cons, List.map_nil, List.mem_singleton] at hy
    exact h (hy ▸ hxy ▸ hx)⟩

/-- Parameters pushed one after another. -/
def pushAll (b : Block) : List (String × Tensor) → Except Fault Block
  | [] => .ok b
  | (name, t) :: rest =>
    match b.push name t with
    | .error e => .error e
    | .ok b => b.pushAll rest

def ofParameters (parameters : List (String × Tensor)) : Except Fault Block :=
  empty.pushAll parameters

def get? (b : Block) (name : String) : Option Tensor :=
  (b.parameters.find? fun p => p.1 = name).map (·.2)

/-- The names in ascending order. -/
def names (b : Block) : List String :=
  (b.parameters.map (·.1)).mergeSort fun a b => compare a b ≠ .gt

/-- Names and byte counts in block order, as a plan takes them. -/
def sizes (b : Block) : List (String × Nat) := b.parameters.map fun p => (p.1, p.2.bytes.size)

def totalBytes (b : Block) : Nat := sumOf (b.sizes.map (·.2))

def size (b : Block) : Nat := b.parameters.length

theorem parameters_of_push {b b' : Block} {name : String} {t : Tensor}
    (h : b.push name t = .ok b') : b'.parameters = b.parameters ++ [(name, t)] := by
  unfold push at h
  split at h
  · cases h
  · cases h
    rfl

end Block

end TieredWeights
