import Mathlib.Algebra.BigOperators.Ring.List
import Mathlib.Algebra.Order.BigOperators.GroupWithZero.List
import Mathlib.Algebra.Order.Ring.Nat
import Mathlib.Data.List.TakeWhile
import TieredWeights.Tensor

/-!
# Shapes and the bytes they take

A tensor's dimensions are multiplied from the left, and the shape is refused as soon as a product on
the way is no machine word. Of a shape without a zero every product on the way divides the last one,
so it is refused just if its bytes cannot be counted. A zero makes the last product zero whatever
came before it: a shape whose zero comes only after dimensions that multiply past the largest word is
refused although it takes no bytes at all, and is accepted once its zero is put in front.
-/
namespace TieredWeights

/-- A zero that comes too late: the dimensions before it multiply past the largest machine word. -/
def LateZero (shape : List Nat) : Prop :=
  0 ∈ shape ∧ wordMax < (shape.takeWhile (· ≠ 0)).prod

instance (shape : List Nat) : Decidable (LateZero shape) :=
  inferInstanceAs (Decidable (_ ∧ _))

theorem LateZero.prod_eq {shape : List Nat} (h : LateZero shape) : shape.prod = 0 :=
  List.prod_eq_zero h.1

/-- With a zero in front nothing can come before it. -/
theorem not_lateZero_cons_zero (rest : List Nat) : ¬ LateZero (0 :: rest) := by
  simp [LateZero, wordMax, twoTo]

theorem one_le_wordMax : 1 ≤ wordMax := by decide

theorem checkedElements_zero (shape : List Nat) : checkedElements 0 shape = some 0 := by
  induction shape with
  | nil => rfl
  | cons d rest ih => simp [checkedElements, ih]

/-- What the multiplication from the left comes to: the product of all dimensions, unless that is no
machine word or a zero comes too late. -/
theorem checkedElements_eq {n : Nat} (hn : n ≤ wordMax) (shape : List Nat) :
    checkedElements n shape =
      if n * shape.prod ≤ wordMax ∧
          ¬ (0 ∈ shape ∧ wordMax < n * (shape.takeWhile (· ≠ 0)).prod) then
        some (n * shape.prod)
      else none := by
  induction shape generalizing n with
  | nil => simp [checkedElements, hn]
  | cons d rest ih =>
    rcases Nat.eq_zero_or_pos d with rfl | hd
    · simp [checkedElements, checkedElements_zero, hn]
    have hd' : (0 : Nat) ≠ d := hd.ne
    by_cases hnd : n * d ≤ wordMax
    · rw [checkedElements, if_pos hnd, ih hnd]
      simp [hd', hd.ne', Nat.mul_assoc]
    · -- a product past the largest word stays there, as far as the next zero
      have hbefore : wordMax < n * (d * (rest.takeWhile (· ≠ 0)).prod) := by
        have hpos : 0 < (rest.takeWhile (· ≠ 0)).prod :=
          List.prod_pos fun m hm => Nat.pos_of_ne_zero (by simpa using List.mem_takeWhile_imp hm)
        rw [← Nat.mul_assoc]
        exact lt_of_lt_of_le (by omega) (Nat.le_mul_of_pos_right _ hpos)
      have hwhole (h : 0 ∉ rest) : wordMax < n * (d * rest.prod) := by
        have htake : rest.takeWhile (· ≠ 0) = rest :=
          List.takeWhile_eq_self_iff.mpr fun m hm =>
            decide_eq_true (ne_of_mem_of_not_mem hm h)
        rwa [htake] at hbefore
      rw [checkedElements, if_neg hnd, if_neg]
      rintro ⟨hle, hlate⟩
      by_cases h0 : 0 ∈ rest
      · exact hlate ⟨by simp [h0], by simpa [hd.ne'] using hbefore⟩
      · have := hwhole h0
        rw [List.prod_cons] at hle
        omega

/-- Multiplying an accepted shape from the left never leaves the machine words. -/
theorem prod_take_le_of_checkedElements {n m : Nat} {shape : List Nat} (hn : n ≤ wordMax)
    (h : checkedElements n shape = some m) (k : Nat) : n * (shape.take k).prod ≤ wordMax := by
  induction shape generalizing n k with
  | nil => simpa using hn
  | cons d rest ih =>
    simp only [checkedElements] at h
    split at h
    case isFalse => cases h
    case isTrue hnd =>
      cases k with
      | zero => simpa using hn
      | succ k => simpa [Nat.mul_assoc] using ih hnd h k

/-- The bytes of a shape: those of all its elements, unless they cannot be counted or a zero comes
too late. -/
theorem shapeBytes_eq (type : ElementType) (shape : List Nat) :
    shapeBytes type shape =
      if shape.prod * type.size ≤ wordMax ∧ ¬ LateZero shape then .ok (shape.prod * type.size)
      else .error (.config (.shape type shape)) := by
  have hle : shape.prod ≤ shape.prod * type.size :=
    Nat.le_mul_of_pos_right _ (by cases type <;> decide)
  have helements : checkedElements 1 shape =
      if shape.prod ≤ wordMax ∧ ¬ LateZero shape then some shape.prod else none := by
    have h := checkedElements_eq one_le_wordMax shape
    simp only [Nat.one_mul] at h
    exact h
  rw [shapeBytes, helements]
  by_cases hlate : LateZero shape
  · simp [hlate]
  by_cases hfits : shape.prod * type.size ≤ wordMax
  · simp [hlate, hfits, hle.trans hfits, ElementType.storageBytes?, Nat.mul_comm type.size]
  by_cases helem : shape.prod ≤ wordMax <;>
    simp [hlate, hfits, helem, ElementType.storageBytes?, Nat.mul_comm type.size]

theorem Tensor.elements_eq (t : Tensor) : t.elements = t.shape.prod :=
  List.prod_eq_foldl.symm

/-- A tensor whose elements can be counted: no product on the way leaves the machine words, and the
bytes are those of its elements. -/
structure Tensor.Counted (t : Tensor) : Prop where
  onTheWay : ∀ k, (t.shape.take k).prod ≤ wordMax
  elements : t.elements = t.shape.prod
  bytes : t.bytes.size = t.elements * t.type.size

namespace Issuer

variable {s : Issuer} {type : ElementType} {shape : List Nat} {bytes : Bytes} {t : Tensor}
  {e : Fault}

/-- What a tensor made of given bytes is, and why it was not refused. -/
theorem ofBytes_eq_ok_iff :
    (s.ofBytes type shape bytes).1 = .ok t ↔
      shapeBytes type shape = .ok bytes.1.size ∧ t = (s.issue type shape bytes).1 := by
  rw [ofBytes]
  cases h : shapeBytes type shape with
  | error e => simp
  | ok n =>
    by_cases hn : bytes.1.size = n
    · simp [hn, eq_comm]
    · simp [hn, Ne.symm hn]

theorem zeros_of_le {n : Nat} (h : shapeBytes type shape = .ok n) (hn : n ≤ memoryLimit) :
    s.zeros type shape = (.ok (s.issue type shape ⟨zeroBytes n, by simpa using hn⟩).1,
      (s.issue type shape ⟨zeroBytes n, by simpa using hn⟩).2) := by
  rw [zeros, h]
  simp [hn]

/-- More zeros than a piece of memory can hold are not made, but an id has been taken. -/
theorem zeros_of_lt {n : Nat} (h : shapeBytes type shape = .ok n) (hn : memoryLimit < n) :
    s.zeros type shape = (.error .capacityOverflow, ⟨s.issued + 1⟩) := by
  rw [zeros, h]
  simp [Nat.not_le.2 hn]

theorem zeros_of_error (h : shapeBytes type shape = .error e) :
    s.zeros type shape = (.error e, s) := by
  rw [zeros, h]

/-- A refused construction issues no source id. -/
theorem ofBytes_refused (h : (s.ofBytes type shape bytes).1 = .error e) :
    (s.ofBytes type shape bytes).2 = s := by
  rw [ofBytes] at h ⊢
  cases hb : shapeBytes type shape with
  | error e => rfl
  | ok n =>
    simp only [hb] at h ⊢
    split at h
    case isTrue hn => simp [hn]
    case isFalse => cases h

theorem zeros_refused (he : e.isPanic = false) (h : (s.zeros type shape).1 = .error e) :
    (s.zeros type shape).2 = s := by
  cases hb : shapeBytes type shape with
  | error e' => rw [zeros_of_error hb]
  | ok n =>
    rcases Nat.lt_or_ge memoryLimit n with hn | hn
    · rw [zeros_of_lt hb hn] at h
      cases h
      cases he
    · rw [zeros_of_le hb hn] at h
      cases h

/-- A tensor issued with the bytes of its shape can be counted. -/
theorem counted_issue (h : shapeBytes type shape = .ok bytes.1.size) :
    (s.issue type shape bytes).1.Counted where
  onTheWay k := by
    cases hc : checkedElements 1 shape with
    | none => simp [shapeBytes, hc] at h
    | some m =>
      have hk := prod_take_le_of_checkedElements one_le_wordMax hc k
      rwa [Nat.one_mul] at hk
  elements := Tensor.elements_eq _
  bytes := by
    rw [shapeBytes_eq] at h
    split at h
    case isTrue =>
      rw [Tensor.elements_eq]
      exact (Except.ok.inj h).symm
    case isFalse => cases h

theorem exists_of_zeros (h : (s.zeros type shape).1 = .ok t) :
    ∃ bytes, shapeBytes type shape = .ok bytes.1.size ∧ t = (s.issue type shape bytes).1 := by
  cases hb : shapeBytes type shape with
  | error e =>
    rw [zeros_of_error hb] at h
    cases h
  | ok n =>
    rcases Nat.lt_or_ge memoryLimit n with hn | hn
    · rw [zeros_of_lt hb hn] at h
      cases h
    · rw [zeros_of_le hb hn] at h
      exact ⟨⟨zeroBytes n, by simpa using hn⟩, by simp, (Except.ok.inj h).symm⟩

/-- What the bytes of a shape are to decide, for every byte string and every issuer: the shape is
accepted just with the bytes of all its elements, refused just if a machine word cannot count them,
and empty as soon as one of its dimensions is zero. Zeros are not made if a machine word can count
them and memory not hold them. -/
structure Decides (s : Issuer) (type : ElementType) (shape : List Nat) : Prop where
  accepted : ∀ bytes : Bytes,
    (∃ t, (s.ofBytes type shape bytes).1 = .ok t) ↔ shape.prod * type.size = bytes.1.size
  refused :
    (s.zeros type shape).1 = .error (.config (.shape type shape)) ↔
      wordMax < shape.prod * type.size
  panics :
    (s.zeros type shape).1 = .error .capacityOverflow ↔
      memoryLimit < shape.prod * type.size ∧ shape.prod * type.size ≤ wordMax
  empty : 0 ∈ shape → ∃ t, (s.zeros type shape).1 = .ok t ∧ t.bytes.size = 0

/-- A shape whose zeros do not come too late is refused or has its bytes. -/
theorem shapeBytes_of_not_lateZero (type : ElementType) (h : ¬ LateZero shape) :
    shapeBytes type shape = if shape.prod * type.size ≤ wordMax then .ok (shape.prod * type.size)
      else .error (.config (.shape type shape)) := by
  simp [shapeBytes_eq, h]

theorem decides_of_not_lateZero (h : ¬ LateZero shape) : Decides s type shape := by
  have hbytes := shapeBytes_of_not_lateZero type h
  constructor
  case accepted =>
    intro bytes
    simp only [ofBytes_eq_ok_iff, exists_and_left, exists_eq, and_true, hbytes]
    constructor
    · intro hok
      split at hok
      case isTrue => exact Except.ok.inj hok
      case isFalse => cases hok
    · intro hfits
      rw [hfits, if_pos (bytes.2.trans memoryLimit_le_wordMax)]
  case refused =>
    split at hbytes
    case isTrue hle =>
      rcases Nat.lt_or_ge memoryLimit (shape.prod * type.size) with hn | hn
      · simp [zeros_of_lt hbytes hn, hle]
      · simp [zeros_of_le hbytes hn, hle]
    case isFalse hlt => simp [zeros_of_error hbytes, Nat.lt_of_not_le hlt]
  case panics =>
    split at hbytes
    case isTrue hle =>
      rcases Nat.lt_or_ge memoryLimit (shape.prod * type.size) with hn | hn
      · simp [zeros_of_lt hbytes hn, hle, hn]
      · simp [zeros_of_le hbytes hn, Nat.not_lt.2 hn]
    case isFalse hlt => simp [zeros_of_error hbytes, hlt]
  case empty =>
    intro h0
    have hprod : shape.prod * type.size = 0 := by rw [List.prod_eq_zero h0, Nat.zero_mul]
    rw [hprod, if_pos (Nat.zero_le _)] at hbytes
    exact ⟨_, congrArg Prod.fst (zeros_of_le hbytes (Nat.zero_le _)), size_zeroBytes 0⟩

/-- A zero that comes too late refuses the shape with any bytes. -/
theorem refused_of_lateZero (h : LateZero shape) :
    (∀ bytes, s.ofBytes type shape bytes = (.error (.config (.shape type shape)), s)) ∧
      s.zeros type shape = (.error (.config (.shape type shape)), s) := by
  have hbytes : shapeBytes type shape = .error (.config (.shape type shape)) := by
    simp [shapeBytes_eq, h]
  exact ⟨fun bytes => by simp [ofBytes, hbytes], zeros_of_error hbytes⟩

/-- A shape decides by the bytes it takes exactly if none of its zeros comes too late. One whose zero
does is refused with any bytes, the empty ones that it takes included. So the order of the dimensions
matters only there, and every shape with a zero has an order in which it is accepted. What is
accepted can always be counted, and what is refused issues no source id. -/
theorem decides_iff (s : Issuer) (type : ElementType) (shape : List Nat) :
    (Decides s type shape ↔ ¬ LateZero shape) ∧
      (LateZero shape → shape.prod = 0 ∧
        (∀ bytes, s.ofBytes type shape bytes = (.error (.config (.shape type shape)), s)) ∧
        s.zeros type shape = (.error (.config (.shape type shape)), s)) ∧
      (∀ other, shape.Perm other → ¬ LateZero shape → ¬ LateZero other →
        ∀ bytes, (∃ t, (s.ofBytes type shape bytes).1 = .ok t) ↔
          ∃ t, (s.ofBytes type other bytes).1 = .ok t) ∧
      (0 ∈ shape → ∃ other, shape.Perm other ∧ ¬ LateZero other) ∧
      (∀ bytes t, (s.ofBytes type shape bytes).1 = .ok t ∨ (s.zeros type shape).1 = .ok t →
        t.Counted) ∧
      (∀ bytes e, (s.ofBytes type shape bytes).1 = .error e →
        (s.ofBytes type shape bytes).2 = s) ∧
      ∀ e, e.isPanic = false → (s.zeros type shape).1 = .error e →
        (s.zeros type shape).2 = s := by
  refine ⟨⟨fun hd hlate => ?_, decides_of_not_lateZero⟩,
    fun hlate => ⟨hlate.prod_eq, refused_of_lateZero hlate⟩, ?_, ?_, ?_,
    fun bytes e => ofBytes_refused, fun e => zeros_refused⟩
  · obtain ⟨t, ht, -⟩ := hd.empty hlate.1
    rw [(refused_of_lateZero hlate).2] at ht
    cases ht
  · intro other hperm hshape hother bytes
    rw [(decides_of_not_lateZero hshape).accepted, (decides_of_not_lateZero hother).accepted,
      hperm.prod_eq]
  · intro h0
    exact ⟨_, List.perm_cons_erase h0, not_lateZero_cons_zero _⟩
  · rintro bytes t (hmade | hmade)
    · obtain ⟨hbytes, rfl⟩ := ofBytes_eq_ok_iff.mp hmade
      exact counted_issue hbytes
    · obtain ⟨n, hbytes, rfl⟩ := exists_of_zeros hmade
      exact counted_issue hbytes

/-- A shape that takes no bytes is refused for them, and accepted with its zero in front. -/
theorem late_zero_refused :
    [2 ^ 63, 3, 0].prod * ElementType.u8.size = ByteArray.empty.size ∧
      (({} : Issuer).ofBytes .u8 [2 ^ 63, 3, 0] ⟨.empty, Nat.zero_le _⟩).1 =
        .error (.config (.shape .u8 [2 ^ 63, 3, 0])) ∧
      (({} : Issuer).zeros .u8 [2 ^ 63, 3, 0]).1 = .error (.config (.shape .u8 [2 ^ 63, 3, 0])) ∧
      (({} : Issuer).ofBytes .u8 [0, 2 ^ 63, 3] ⟨.empty, Nat.zero_le _⟩).1 =
        .ok ⟨1, .u8, [0, 2 ^ 63, 3], .empty, Nat.zero_le _⟩ := by
  have hlate : LateZero [2 ^ 63, 3, 0] := by decide
  refine ⟨rfl, ?_, ?_, rfl⟩
  · rw [(refused_of_lateZero hlate).1]
  · rw [(refused_of_lateZero hlate).2]

end Issuer

end TieredWeights
