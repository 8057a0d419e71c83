import Mathlib.Algebra.Order.Floor.Div
import MiniPush.Basic
import MiniPush.Foundation.Bits

/-!
The read-state bitmap: the server packs the states of a block into bytes, the client unpacks them.
-/

namespace MiniPush.Store

open Foundation

/-- Pack a Boolean slice into bytes, most significant bit first. -/
def boolSliceToBytes (slice : List Bool) : Bytes :=
  let numBytes := slice.length / 8 + if slice.length % 8 > 0 then 1 else 0
  slice.zipIdx.foldl
    (fun byteSlice p => if p.1 then Bits.setBit byteSlice p.2 else byteSlice)
    (List.replicate numBytes 0)

/-- The client's unpacking: entry `i * 8 + j` is bit `7 - j` of byte `i`. -/
def byteArrayToBoolArray (byteArray : Bytes) : List Bool :=
  byteArray.flatMap fun b => (List.range 8).map fun j => decide (b.toNat &&& 1 <<< (7 - j) ≠ 0)

private theorem length_foldl_setBit (entries : List (Bool × ℕ)) (bytes : Bytes) :
    (entries.foldl (fun acc p => if p.1 then Bits.setBit acc p.2 else acc) bytes).length =
      bytes.length := by
  induction entries generalizing bytes with
  | nil => rfl
  | cons p entries ih =>
    rw [List.foldl_cons, ih]
    split <;> simp

theorem length_boolSliceToBytes (slice : List Bool) :
    (boolSliceToBytes slice).length = (slice.length + 7) / 8 := by
  rw [boolSliceToBytes, length_foldl_setBit, List.length_replicate]
  split <;> omega

theorem bitAt_boolSliceToBytes (slice : List Bool) (k : ℕ) :
    Bits.bitAt (boolSliceToBytes slice) k = slice.getD k false := by
  have hroom : 0 + slice.length ≤
      8 * (List.replicate (slice.length / 8 + if slice.length % 8 > 0 then 1 else 0)
        (0 : UInt8)).length := by
    rw [List.length_replicate]
    split <;> omega
  rw [boolSliceToBytes, Bits.bitAt_foldl_setBit slice 0 hroom, Bits.bitAt_replicate_zero]
  simp

theorem length_byteArrayToBoolArray (byteArray : Bytes) :
    (byteArrayToBoolArray byteArray).length = 8 * byteArray.length := by
  simp [byteArrayToBoolArray, List.length_flatMap, Nat.mul_comm]

theorem byteArrayToBoolArray_cons (b : UInt8) (rest : Bytes) :
    byteArrayToBoolArray (b :: rest) =
      ((List.range 8).map fun j => b.toNat.testBit (7 - j)) ++ byteArrayToBoolArray rest := by
  simp only [byteArrayToBoolArray, List.flatMap_cons, Bits.and_shiftLeft_ne_zero_iff,
    Bool.decide_eq_true]

theorem getD_byteArrayToBoolArray (byteArray : Bytes) (k : ℕ) :
    (byteArrayToBoolArray byteArray).getD k false = Bits.bitAt byteArray k := by
  induction byteArray generalizing k with
  | nil => simp [byteArrayToBoolArray, Bits.bitAt]
  | cons b rest ih =>
    rw [byteArrayToBoolArray_cons]
    by_cases hk : k < 8
    · have hdiv : k / 8 = 0 := by omega
      have hmod : k % 8 = k := by omega
      rw [List.getD_append _ _ _ _ (by simpa using hk)]
      simp [Bits.bitAt, hdiv, hmod, hk]
    · have hdiv : k / 8 = (k - 8) / 8 + 1 := by omega
      have hmod : k % 8 = (k - 8) % 8 := by omega
      rw [List.getD_append_right _ _ _ _ (by simpa using hk)]
      simp only [List.length_map, List.length_range, ih, Bits.bitAt, hdiv, hmod,
        List.getD_cons_succ]

/-- Unpacking the packed states and keeping as many bits as there were states gives them back. -/
theorem take_byteArrayToBoolArray_boolSliceToBytes (slice : List Bool) :
    (byteArrayToBoolArray (boolSliceToBytes slice)).take slice.length = slice := by
  apply List.ext_getElem
  · rw [List.length_take, length_byteArrayToBoolArray, length_boolSliceToBytes]
    omega
  · intro k hk hk'
    have hlong : k < (byteArrayToBoolArray (boolSliceToBytes slice)).length := by
      rw [List.length_take] at hk
      omega
    have hbit := getD_byteArrayToBoolArray (boolSliceToBytes slice) k
    rw [bitAt_boolSliceToBytes, List.getD_eq_getElem _ _ hlong, List.getD_eq_getElem _ _ hk'] at hbit
    rw [List.getElem_take, hbit]

theorem boolSliceToBytes_byteArrayToBoolArray (byteArray : Bytes) :
    boolSliceToBytes (byteArrayToBoolArray byteArray) = byteArray := by
  apply Bits.eq_of_bitAt
  · rw [length_boolSliceToBytes, length_byteArrayToBoolArray]
    omega
  · intro k _
    rw [bitAt_boolSliceToBytes, getD_byteArrayToBoolArray]

/-- Packing and unpacking: the bytes are as many as the states need, the bits after the states are
clear, the client's reading gives the states back, and every byte string is the packing of what the
client reads off it. -/
theorem bitmap_codec (bs : List Bool) (byteArray : Bytes) :
    (boolSliceToBytes bs).length = bs.length ⌈/⌉ 8 ∧
    (∀ k, bs.length ≤ k → Bits.bitAt (boolSliceToBytes bs) k = false) ∧
    (byteArrayToBoolArray (boolSliceToBytes bs)).take bs.length = bs ∧
    boolSliceToBytes (byteArrayToBoolArray byteArray) = byteArray := by
  refine ⟨?_, ?_, take_byteArrayToBoolArray_boolSliceToBytes bs,
    boolSliceToBytes_byteArrayToBoolArray byteArray⟩
  · rw [length_boolSliceToBytes, Nat.ceilDiv_eq_add_pred_div]
    rfl
  · intro k hk
    rw [bitAt_boolSliceToBytes]
    exact List.getD_eq_default _ _ hk

end MiniPush.Store
