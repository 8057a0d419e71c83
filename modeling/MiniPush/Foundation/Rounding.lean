import Mathlib.Data.Int.Log
import Mathlib.Data.Rat.Floor
import Mathlib.Tactic.Linarith

/-! Rounding to a binary floating-point format. What a proof about a comparison needs is that rounding is
monotone and exact on the numbers of the format; rounding to nearest, ties to even, is shown to be so. -/
namespace Foundation

/-- Rounding to `p` significant bits, without a bound on the exponent. -/
structure Rounding (p : ℕ) where
  round : ℚ → ℚ
  mono : Monotone round
  exact : ∀ m e : ℤ, |m| < 2 ^ p → round (m * 2 ^ e) = m * 2 ^ e

namespace Rounding
variable {p : ℕ} (R : Rounding p)

theorem round_intCast {m : ℤ} (h : |m| < 2 ^ p) : R.round m = m := by
  have := R.exact m 0 h
  simpa using this

theorem round_zero : R.round 0 = 0 := by
  have := R.round_intCast (m := 0) (by simp)
  simpa using this

theorem round_nonneg {x : ℚ} (h : 0 ≤ x) : 0 ≤ R.round x := by
  have := R.mono h
  rwa [R.round_zero] at this

/-- A bound that is a number of the format bounds the rounded value. -/
theorem round_le {x : ℚ} {m e : ℤ} (hm : |m| < 2 ^ p) (h : x ≤ m * 2 ^ e) : R.round x ≤ m * 2 ^ e := by
  have := R.mono h
  rwa [R.exact m e hm] at this

theorem le_round {x : ℚ} {m e : ℤ} (hm : |m| < 2 ^ p) (h : (m : ℚ) * 2 ^ e ≤ x) :
    (m : ℚ) * 2 ^ e ≤ R.round x := by
  have := R.mono h
  rwa [R.exact m e hm] at this

end Rounding

/-- The integer nearest to `y`, the even one of two. -/
def roundEven (y : ℚ) : ℤ :=
  if y - ⌊y⌋ < 1 / 2 then ⌊y⌋
  else if 1 / 2 < y - ⌊y⌋ then ⌊y⌋ + 1
  else if ⌊y⌋ % 2 = 0 then ⌊y⌋ else ⌊y⌋ + 1

theorem floor_le_roundEven (y : ℚ) : ⌊y⌋ ≤ roundEven y := by
  unfold roundEven
  split_ifs <;> omega

theorem roundEven_le_floor_add_one (y : ℚ) : roundEven y ≤ ⌊y⌋ + 1 := by
  unfold roundEven
  split_ifs <;> omega

@[simp] theorem roundEven_intCast (k : ℤ) : roundEven k = k := by
  simp [roundEven]

theorem roundEven_mono {x y : ℚ} (h : x ≤ y) : roundEven x ≤ roundEven y := by
  have hfloor := Int.floor_le_floor h
  rcases Int.lt_or_eq_of_le hfloor with hlt | heq
  · have hx := roundEven_le_floor_add_one x
    have hy := floor_le_roundEven y
    omega
  · -- In one unit interval the fractional parts decide.
    have hpart : x - ⌊y⌋ ≤ y - ⌊y⌋ := sub_le_sub_right h _
    unfold roundEven
    rw [heq]
    by_cases hy : y - ⌊y⌋ < 1 / 2
    · rw [if_pos hy, if_pos (hpart.trans_lt hy)]
    · by_cases hx : 1 / 2 < x - ⌊y⌋
      · rw [if_neg hy, if_pos (hx.trans_le hpart), if_neg hx.not_gt, if_pos hx]
      · rw [if_neg hy, if_neg hx]
        split_ifs <;> omega

def ulp (p : ℕ) (x : ℚ) : ℚ := 2 ^ (Int.log 2 x - p + 1)

theorem ulp_pos (p : ℕ) (x : ℚ) : 0 < ulp p x := zpow_pos (by norm_num) _

section Positive
variable {p : ℕ} {x y : ℚ}

theorem pow_mul_ulp (p : ℕ) (x : ℚ) : (2 ^ p : ℤ) * ulp p x = 2 ^ (Int.log 2 x + 1) := by
  unfold ulp
  push_cast
  rw [← zpow_natCast, ← zpow_add₀ (by norm_num)]
  congr 1
  ring

theorem pow_pred_mul_ulp (hp : 0 < p) (x : ℚ) : (2 ^ (p - 1) : ℤ) * ulp p x = 2 ^ Int.log 2 x := by
  unfold ulp
  push_cast
  rw [← zpow_natCast, ← zpow_add₀ (by norm_num)]
  congr 1
  omega

def roundPos (p : ℕ) (x : ℚ) : ℚ := roundEven (x / ulp p x) * ulp p x

theorem le_roundPos (hp : 0 < p) (hx : 0 < x) : 2 ^ Int.log 2 x ≤ roundPos p x := by
  have hlow : ((2 ^ (p - 1) : ℤ) : ℚ) ≤ x / ulp p x := by
    rw [le_div_iff₀ (ulp_pos p x), pow_pred_mul_ulp hp]
    exact Int.zpow_log_le_self (by norm_num) hx
  have hround := roundEven_mono hlow
  rw [roundEven_intCast] at hround
  rw [← pow_pred_mul_ulp hp]
  exact mul_le_mul_of_nonneg_right (by exact_mod_cast hround) (ulp_pos p x).le

theorem roundPos_le (p : ℕ) (x : ℚ) : roundPos p x ≤ 2 ^ (Int.log 2 x + 1) := by
  have hhigh : x / ulp p x ≤ ((2 ^ p : ℤ) : ℚ) := by
    rw [div_le_iff₀ (ulp_pos p x), pow_mul_ulp]
    exact (Int.lt_zpow_succ_log_self (by norm_num) x).le
  have hround := roundEven_mono hhigh
  rw [roundEven_intCast] at hround
  rw [← pow_mul_ulp p]
  exact mul_le_mul_of_nonneg_right (by exact_mod_cast hround) (ulp_pos p x).le

theorem roundPos_nonneg (hx : 0 ≤ x) : 0 ≤ roundPos p x := by
  have hround := roundEven_mono (show ((0 : ℤ) : ℚ) ≤ x / ulp p x by
    rw [Int.cast_zero]
    exact div_nonneg hx (ulp_pos p x).le)
  rw [roundEven_intCast] at hround
  exact mul_nonneg (by exact_mod_cast hround) (ulp_pos p x).le

theorem roundPos_mono (hp : 0 < p) (hx : 0 < x) (h : x ≤ y) : roundPos p x ≤ roundPos p y := by
  have hlog := Int.log_mono_right (b := 2) hx h
  rcases hlog.lt_or_eq with hlt | heq
  · calc roundPos p x ≤ 2 ^ (Int.log 2 x + 1) := roundPos_le p x
      _ ≤ 2 ^ Int.log 2 y := zpow_le_zpow_right₀ (by norm_num) (by omega)
      _ ≤ roundPos p y := le_roundPos hp (hx.trans_le h)
  · have hulp : ulp p x = ulp p y := by simp only [ulp, heq]
    unfold roundPos
    rw [hulp]
    have hround := roundEven_mono (div_le_div_of_nonneg_right h (ulp_pos p y).le)
    exact mul_le_mul_of_nonneg_right (by exact_mod_cast hround) (ulp_pos p y).le

theorem roundPos_exact {m e : ℤ} (hm : 0 < m) (hlt : m < 2 ^ p) :
    roundPos p (m * 2 ^ e) = m * 2 ^ e := by
  have hpow : (0 : ℚ) < 2 ^ e := zpow_pos (by norm_num) _
  have hpos : 0 < (m : ℚ) * 2 ^ e := mul_pos (by exact_mod_cast hm) hpow
  have hlog : Int.log 2 ((m : ℚ) * 2 ^ e) < p + e := by
    refine (Int.lt_zpow_iff_log_lt (b := 2) (by norm_num) hpos).mp ?_
    push_cast
    rw [zpow_add₀ (by norm_num), zpow_natCast]
    exact mul_lt_mul_of_pos_right (by exact_mod_cast hlt) hpow
  obtain ⟨k, hk⟩ : ∃ k : ℕ, e = Int.log 2 ((m : ℚ) * 2 ^ e) - p + 1 + k :=
    ⟨(e - (Int.log 2 ((m : ℚ) * 2 ^ e) - p + 1)).toNat, by omega⟩
  have hunits : (m : ℚ) * 2 ^ e / ulp p (m * 2 ^ e) = ((m * 2 ^ k : ℤ) : ℚ) := by
    rw [div_eq_iff (ulp_pos p _).ne']
    unfold ulp
    push_cast
    rw [mul_assoc, ← zpow_natCast, ← zpow_add₀ (by norm_num)]
    congr 2
    omega
  unfold roundPos
  rw [hunits, roundEven_intCast, ← hunits, div_mul_cancel₀ _ (ulp_pos p _).ne']

end Positive

def nearestEven (p : ℕ) (hp : 0 < p) : Rounding p where
  round x := if 0 < x then roundPos p x else if x < 0 then -roundPos p (-x) else 0
  mono x y h := by
    dsimp only
    split_ifs with hx hy hy' hx' hy hy' hy hy'
    · exact roundPos_mono hp hx h
    · linarith
    · linarith
    · have hneg := roundPos_nonneg (p := p) (x := -x) (by linarith)
      have hpos := roundPos_nonneg (p := p) hy.le
      linarith
    · have := roundPos_mono hp (x := -y) (y := -x) (by linarith) (by linarith)
      linarith
    · have := roundPos_nonneg (p := p) (x := -x) (by linarith)
      linarith
    · exact roundPos_nonneg hy.le
    · linarith
    · exact le_refl _
  exact m e hm := by
    have hpow : (0 : ℚ) < 2 ^ e := zpow_pos (by norm_num) _
    obtain ⟨hlo, hhi⟩ := abs_lt.mp hm
    rcases lt_trichotomy m 0 with hneg | rfl | hpos
    · have hm' : (m : ℚ) < 0 := by exact_mod_cast hneg
      have hx : (m : ℚ) * 2 ^ e < 0 := mul_neg_of_neg_of_pos hm' hpow
      have hround := roundPos_exact (p := p) (m := -m) (e := e) (by omega) (by omega)
      push_cast at hround
      rw [if_neg hx.not_gt, if_pos hx, ← neg_mul, hround, neg_mul, neg_neg]
    · simp
    · have hx : 0 < (m : ℚ) * 2 ^ e := mul_pos (by exact_mod_cast hpos) hpow
      rw [if_pos hx, roundPos_exact hpos hhi]

/-- The rounding of IEEE binary64, away from its largest and smallest exponents. -/
def binary64 : Rounding 53 := nearestEven 53 (by norm_num)

end Foundation
