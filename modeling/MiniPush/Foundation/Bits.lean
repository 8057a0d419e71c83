import Mathlib.Data.List.Basic
import Mathlib.Data.Nat.Bitwise

/-!
Byte strings read as bit strings, the most significant bit of each byte first.
-/

namespace Foundation.Bits

/-- Bit `k` of a byte string; positions beyond its end are clear. -/
def bitAt (bytes : List UInt8) (k : ℕ) : Bool :=
  (bytes.getD (k / 8) 0).toNat.testBit (7 - k % 8)

def setBit (bytes : List UInt8) (k : ℕ) : List UInt8 :=
  bytes.modify (k / 8) (· ||| UInt8.ofNat (1 <<< (7 - k % 8)))

theorem and_shiftLeft_ne_zero_iff (n i : ℕ) : n &&& 1 <<< i ≠ 0 ↔ n.testBit i = true := by
  rw [Nat.one_shiftLeft, Nat.and_two_pow]
  cases n.testBit i <;> simp

@[simp] theorem length_setBit (bytes : List UInt8) (k : ℕ) :
    (setBit bytes k).length = bytes.length := by
  simp [setBit]

private theorem toNat_mask {i : ℕ} (h : i < 8) : (UInt8.ofNat (1 <<< i)).toNat = 2 ^ i := by
  have hlt : 2 ^ i < 2 ^ 8 := Nat.pow_lt_pow_right (by omega) h
  rw [Nat.one_shiftLeft, UInt8.toNat_ofNat', Nat.mod_eq_of_lt hlt]

theorem bitAt_setBit {bytes : List UInt8} {k : ℕ} (hk : k / 8 < bytes.length) (j : ℕ) :
    bitAt (setBit bytes k) j = (bitAt bytes j || decide (j = k)) := by
  simp only [bitAt, setBit, List.getD_eq_getElem?_getD, List.getElem?_modify]
  by_cases hx : k / 8 = j / 8
  · have hj : j / 8 < bytes.length := hx ▸ hk
    have hbit : decide (7 - k % 8 = 7 - j % 8) = decide (j = k) := by
      rw [decide_eq_decide]
      omega
    simp [hx, hj, Nat.testBit_or, toNat_mask (show 7 - k % 8 < 8 by omega), Nat.testBit_two_pow, hbit]
  · have hne : j ≠ k := fun h => hx (by rw [h])
    simp [hx, hne]

theorem bitAt_replicate_zero (n k : ℕ) : bitAt (List.replicate n 0) k = false := by
  have hzero : (List.replicate n (0 : UInt8)).getD (k / 8) 0 = 0 := by
    rw [List.getD_eq_getElem?_getD, List.getElem?_replicate]
    split <;> rfl
  rw [bitAt, hzero]
  exact Nat.zero_testBit _

private theorem byte_ext {a b : UInt8} (h : ∀ i < 8, a.toNat.testBit i = b.toNat.testBit i) :
    a = b := by
  apply UInt8.toNat_inj.mp
  apply Nat.eq_of_testBit_eq
  intro i
  by_cases hi : i < 8
  · exact h i hi
  · have hpow : 2 ^ 8 ≤ 2 ^ i := Nat.pow_le_pow_right (by omega) (by omega)
    rw [Nat.testBit_lt_two_pow (lt_of_lt_of_le a.toNat_lt hpow),
      Nat.testBit_lt_two_pow (lt_of_lt_of_le b.toNat_lt hpow)]

theorem eq_of_bitAt {a b : List UInt8} (hlen : a.length = b.length)
    (h : ∀ k < 8 * a.length, bitAt a k = bitAt b k) : a = b := by
  apply List.ext_getElem hlen
  intro x hxa hxb
  apply byte_ext
  intro i hi
  have hdiv : (8 * x + (7 - i)) / 8 = x := by omega
  have hmod : 7 - (8 * x + (7 - i)) % 8 = i := by omega
  have hbit := h (8 * x + (7 - i)) (by omega)
  simpa only [bitAt, hdiv, hmod, List.getD_eq_getElem _ _ hxa, List.getD_eq_getElem _ _ hxb] using hbit

/-- Setting the bits of a Boolean list, from position `i` on, one after another. -/
theorem bitAt_foldl_setBit (slice : List Bool) (i : ℕ) {bytes : List UInt8}
    (hlen : i + slice.length ≤ 8 * bytes.length) (k : ℕ) :
    bitAt ((slice.zipIdx i).foldl (fun acc p => if p.1 then setBit acc p.2 else acc) bytes) k =
      (bitAt bytes k || (decide (i ≤ k) && slice.getD (k - i) false)) := by
  induction slice generalizing i bytes with
  | nil => simp
  | cons v rest ih =>
    have hlen' : i + 1 + rest.length ≤ 8 * bytes.length := by
      rw [List.length_cons] at hlen
      omega
    rw [List.zipIdx_cons, List.foldl_cons]
    have hbit : ∀ j, bitAt (if v then setBit bytes i else bytes) j =
        (bitAt bytes j || (v && decide (j = i))) := by
      intro j
      cases v with
      | false => simp
      | true => simpa using bitAt_setBit (by omega) j
    have hkeep : (if v then setBit bytes i else bytes).length = bytes.length := by
      split <;> simp
    rw [ih (i + 1) (by rw [hkeep]; exact hlen'), hbit, Bool.or_assoc]
    congr 1
    rcases Nat.lt_trichotomy k i with hlt | heq | hgt
    · have h1 : ¬i ≤ k := by omega
      have h2 : ¬i + 1 ≤ k := by omega
      have h3 : k ≠ i := by omega
      simp [h1, h2, h3]
    · simp [heq]
    · have h1 : k - i = (k - (i + 1)) + 1 := by omega
      have h2 : k ≠ i := by omega
      have h3 : i ≤ k := by omega
      have h4 : i + 1 ≤ k := by omega
      simp [h1, h2, h3, h4]

end Foundation.Bits
