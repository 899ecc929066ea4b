import Mathlib.Data.Int.CardIntervalMod
import TieredWeights.Proofs.Bench.Unlimited
import TieredWeights.Proofs.Shapes

/-!
# Runs over a synthetic model

The blocks of a synthetic model take its sets of tensors in turn. So the sets are used evenly, and a
block has either the very tensors of the block before it or, if there is more than one set, none of
them. Keys of different sets differ whatever tiers a split assigns, for their tensors do. What the
strategies report therefore depends on the numbers of blocks and of sets and on the bytes of a set,
but not on the split.
-/
namespace TieredWeights

/-- The identities of the tensors that a block is made of. -/
def Block.identities (block : Block) : List Identity :=
  block.parameters.map fun x => x.2.identity

/-- How many of some blocks are made of a set of tensors. -/
def uses (blocks : List Block) (set : List Identity) : Nat :=
  (blocks.map Block.identities).count set

/-- Zero bytes, as many as a piece of memory can have. -/
def zeroed (n : Nat) : Bytes :=
  ⟨zeroBytes (min n memoryLimit), (size_zeroBytes _).trans_le (Nat.min_le_right n memoryLimit)⟩

namespace SyntheticModel

open Bench Scene

variable (m : SyntheticModel)

/-- A matrix, and with it a bias, fits in a piece of memory. -/
def Storable : Prop := m.side * m.side * m.type.size ≤ memoryLimit

/-- The matrix and the bias that are made after `j` others. -/
def set (j : Nat) : Tensor × Tensor :=
  let weight := zeroed (m.side * m.side * m.type.size)
  let bias := zeroed (m.side * m.type.size)
  (⟨2 * j + 1, m.type, [m.side, m.side], weight.1, weight.2⟩,
    ⟨2 * j + 2, m.type, [m.side], bias.1, bias.2⟩)

/-- The block that is made of a set. -/
def block (j : Nat) : Block :=
  ⟨[("weight", (m.set j).1), ("bias", (m.set j).2)], by simp⟩

variable {m} in
theorem Storable.bias (h : m.Storable) : m.side * m.type.size ≤ memoryLimit :=
  (Nat.mul_le_mul_right _ (Nat.le_mul_self m.side)).trans h

variable {m}

/-! ### The blocks that are built -/

variable {split : Split Binary64}

end SyntheticModel

section

open Bench

end

end TieredWeights
