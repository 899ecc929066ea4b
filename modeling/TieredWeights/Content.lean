import TieredWeights.Text.Numeral

/-!
# Contents

What a buffer or a file holds. A new one holds zero bytes, which are counted and not stored, so a
large one costs nothing until it is written. A content is read through `bytes`; `size_bytes` and
`bytes_overwrite` say that its size and its writes are those of these bytes.
-/
namespace TieredWeights

/-- The most bytes that a piece of memory can have. -/
def memoryLimit : Nat := twoTo 63 - 1

/-- Bytes in memory. -/
abbrev Bytes := { b : ByteArray // b.size ≤ memoryLimit }

theorem memoryLimit_le_wordMax : memoryLimit ≤ wordMax := by decide

/-- `n` zero bytes. -/
def zeroBytes (n : Nat) : ByteArray := n.repeat (·.push 0) (.emptyWithCapacity n)

@[simp] theorem size_zeroBytes (n : Nat) : (zeroBytes n).size = n := by
  suffices h : ∀ k (b : ByteArray), (Nat.repeat (·.push 0) k b).size = b.size + k by
    rw [zeroBytes, h]
    exact Nat.zero_add n
  intro k b
  induction k with
  | zero => rfl
  | succ k ih => rw [Nat.repeat, ByteArray.size_push, ih, Nat.add_assoc]

/-- Bytes written over the beginning of others; what lies beyond them stays. -/
def overlay (bytes old : ByteArray) : ByteArray := bytes ++ old.extract bytes.size old.size

theorem overlay_of_size_le {bytes old : ByteArray} (h : old.size ≤ bytes.size) :
    overlay bytes old = bytes := by
  apply ByteArray.ext
  rw [overlay, ByteArray.data_append, ByteArray.data_extract,
    Array.extract_empty_of_stop_le_start h, Array.append_empty]

inductive Content where
  /-- Zero bytes that nothing was written over. -/
  | zeros (n : Nat)
  | written (bytes : ByteArray)

namespace Content

def bytes : Content → ByteArray
  | zeros n => zeroBytes n
  | written b => b

def size : Content → Nat
  | zeros n => n
  | written b => b.size

/-- Bytes written over the beginning of a content; what lies beyond them stays. -/
def overwrite (c : Content) (b : ByteArray) : Content :=
  .written (if c.size ≤ b.size then b else overlay b c.bytes)

@[simp] theorem size_bytes (c : Content) : c.bytes.size = c.size := by
  cases c <;> simp [bytes, size]

theorem bytes_overwrite (c : Content) (b : ByteArray) :
    (c.overwrite b).bytes = overlay b c.bytes := by
  by_cases h : c.size ≤ b.size
  · rw [overlay_of_size_le (by rwa [size_bytes])]
    simp [overwrite, bytes, h]
  · simp [overwrite, bytes, h]

theorem size_overwrite_of_le {c : Content} {b : ByteArray} (h : b.size ≤ c.size) :
    (c.overwrite b).size = c.size := by
  rw [← size_bytes, bytes_overwrite, overlay, ByteArray.size_append, ByteArray.size_extract,
    size_bytes]
  omega

end Content

end TieredWeights
