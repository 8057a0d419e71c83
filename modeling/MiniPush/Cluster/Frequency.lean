import MiniPush.Cluster.Cache
import MiniPush.Foundation.Rounding

/-! The frequency test of `check`. The code divides in floating point; up to the time limit of the cache
rounding changes nothing. -/
namespace MiniPush
open Foundation

/-- `d.Seconds()`: the whole seconds and the rest are converted and added as `float64`. -/
def Time.seconds (R : Rounding 53) (d : ℤ) : ℚ :=
  R.round (R.round (d.tdiv second) + R.round (R.round (d.tmod second) / 10 ^ 9))

namespace Cluster

def storeCacheTTL : ℤ := 5 * Time.second

/-- `float64(counter) / dur.Seconds() <= 1`. Without a duration the quotient is an infinity with the
sign of the counter, or no number. -/
def lowFrequency (R : Rounding 53) (counter dur : ℤ) : Bool :=
  if Time.seconds R dur = 0 then counter < 0
  else R.round (R.round counter / Time.seconds R dur) ≤ 1

def UserSeq.due (R : Rounding 53) (now : ℤ) (v : UserSeq) : Bool :=
  let dur := Time.sub now v.cacheTime
  lowFrequency R v.counter dur || decide (dur > storeCacheTTL)

section Test
variable (R : Rounding 53) {counter dur : ℤ}

/-- Up to the time limit of the cache the two conversions are exact. -/
theorem seconds_eq (h0 : 0 ≤ dur) (h5 : dur ≤ storeCacheTTL) : Time.seconds R dur =
    R.round ((dur / Time.second : ℤ) + R.round ((dur % Time.second : ℤ) / 10 ^ 9)) := by
  unfold storeCacheTTL Time.second at h5
  have hwhole : |dur / Time.second| < 2 ^ 53 := by
    unfold Time.second
    rw [abs_lt]
    omega
  have hnano : |dur % Time.second| < 2 ^ 53 := by
    unfold Time.second
    rw [abs_lt]
    omega
  unfold Time.seconds
  rw [Int.tdiv_eq_ediv_of_nonneg h0, Int.tmod_eq_emod_of_nonneg h0, R.round_intCast hwhole,
    R.round_intCast hnano]

theorem le_seconds (h0 : 0 ≤ dur) (h5 : dur ≤ storeCacheTTL) :
    ((dur / Time.second : ℤ) : ℚ) ≤ Time.seconds R dur := by
  have hrest : (0 : ℚ) ≤ R.round (((dur % Time.second : ℤ) : ℚ) / 10 ^ 9) := by
    refine R.round_nonneg (div_nonneg ?_ (by norm_num))
    exact_mod_cast Int.emod_nonneg dur (by decide)
  have hwhole : |dur / Time.second| < 2 ^ 53 := by
    unfold storeCacheTTL Time.second at h5
    unfold Time.second
    rw [abs_lt]
    omega
  rw [seconds_eq R h0 h5, ← R.round_intCast hwhole]
  refine R.mono ?_
  rw [R.round_intCast hwhole]
  linarith

/-- The duration stays away from the next whole second: a nanosecond is many last places. -/
theorem seconds_le (h0 : 0 ≤ dur) (h5 : dur ≤ storeCacheTTL) :
    Time.seconds R dur ≤ ((dur / Time.second : ℤ) : ℚ) + 1 - 2 ^ (-30 : ℤ) := by
  have hlt : ((dur % Time.second : ℤ) : ℚ) ≤ 10 ^ 9 - 1 := by
    have : dur % Time.second ≤ 10 ^ 9 - 1 := by
      unfold Time.second
      omega
    exact_mod_cast this
  have hrest : R.round (((dur % Time.second : ℤ) : ℚ) / 10 ^ 9) ≤
      ((2 ^ 30 - 1 : ℤ) : ℚ) * 2 ^ (-30 : ℤ) := by
    refine R.round_le (by norm_num) ?_
    rw [div_le_iff₀ (by norm_num)]
    refine hlt.trans ?_
    norm_num
  have hsum : ((dur / Time.second : ℤ) : ℚ) + R.round (((dur % Time.second : ℤ) : ℚ) / 10 ^ 9) ≤
      (((dur / Time.second + 1) * 2 ^ 30 - 1 : ℤ) : ℚ) * 2 ^ (-30 : ℤ) := by
    refine (add_le_add_right hrest _).trans (le_of_eq ?_)
    push_cast
    norm_num
    ring
  rw [seconds_eq R h0 h5]
  refine (R.round_le ?_ hsum).trans (le_of_eq ?_)
  · unfold storeCacheTTL Time.second at h5
    unfold Time.second
    rw [abs_lt]
    omega
  · push_cast
    norm_num
    ring

/-- Up to the time limit of the cache the test in floating point is exact: at most one event a second. -/
theorem lowFrequency_iff (hc : 1 ≤ counter) (h0 : 0 ≤ dur) (h5 : dur ≤ storeCacheTTL) :
    lowFrequency R counter dur = true ↔ counter * Time.second ≤ dur := by
  have hlow := le_seconds R h0 h5
  have hhigh := seconds_le R h0 h5
  have hsmall : dur / Time.second ≤ 5 := by
    unfold storeCacheTTL Time.second at h5
    unfold Time.second
    omega
  have hwhole : counter * Time.second ≤ dur ↔ counter ≤ dur / Time.second := by
    unfold Time.second
    omega
  rw [hwhole]
  unfold lowFrequency
  constructor
  · intro h
    by_contra hlt
    -- The quotient exceeds 1 by more than rounding can take away.
    split_ifs at h with hzero
    · simp only [decide_eq_true_eq] at h
      omega
    · have hpos : 0 < Time.seconds R dur := by
        refine lt_of_le_of_ne ?_ (Ne.symm hzero)
        refine le_trans ?_ hlow
        exact_mod_cast Int.ediv_nonneg h0 (by decide)
      have hcount : ((dur / Time.second : ℤ) : ℚ) + 1 ≤ R.round counter := by
        have := R.le_round (x := counter) (m := dur / Time.second + 1) (e := 0) (by
          rw [abs_lt]
          have := Int.ediv_nonneg h0 (show (0 : ℤ) ≤ Time.second by decide)
          omega) (by
          rw [zpow_zero, mul_one]
          exact_mod_cast (show dur / Time.second + 1 ≤ counter by omega))
        simpa using this
      have hquot : ((2 ^ 33 + 1 : ℤ) : ℚ) * 2 ^ (-33 : ℤ) ≤ R.round counter / Time.seconds R dur := by
        rw [le_div_iff₀ hpos]
        have hn : ((dur / Time.second : ℤ) : ℚ) ≤ 5 := by exact_mod_cast hsmall
        calc ((2 ^ 33 + 1 : ℤ) : ℚ) * 2 ^ (-33 : ℤ) * Time.seconds R dur
            ≤ ((2 ^ 33 + 1 : ℤ) : ℚ) * 2 ^ (-33 : ℤ) *
                (((dur / Time.second : ℤ) : ℚ) + 1 - 2 ^ (-30 : ℤ)) :=
              mul_le_mul_of_nonneg_left hhigh (by norm_num)
          _ ≤ ((dur / Time.second : ℤ) : ℚ) + 1 := by
              norm_num
              linarith
          _ ≤ R.round counter := hcount
      have hround := R.le_round (m := 2 ^ 33 + 1) (e := -33) (by norm_num) hquot
      simp only [decide_eq_true_eq] at h
      have hone : (1 : ℚ) < ((2 ^ 33 + 1 : ℤ) : ℚ) * 2 ^ (-33 : ℤ) := by norm_num
      linarith
  · intro h
    have hpos : (1 : ℚ) ≤ Time.seconds R dur := by
      refine le_trans ?_ hlow
      exact_mod_cast (show 1 ≤ dur / Time.second by omega)
    rw [if_neg (by linarith), decide_eq_true_eq]
    have hexact : R.round counter = counter := R.round_intCast (by
      rw [abs_lt]
      omega)
    have hquot : R.round counter / Time.seconds R dur ≤ ((1 : ℤ) : ℚ) * 2 ^ (0 : ℤ) := by
      rw [div_le_iff₀ (by linarith), hexact]
      have : (counter : ℚ) ≤ ((dur / Time.second : ℤ) : ℚ) := by exact_mod_cast h
      norm_num
      linarith
    have := R.round_le (m := 1) (e := 0) (by norm_num) hquot
    simpa using this

end Test

/-- The test of `check`: at most one event a second since the entry was cached, or cached for more than
the time limit. -/
theorem UserSeq.due_iff (R : Rounding 53) {now : ℤ} {v : UserSeq} (hc : 1 ≤ v.counter)
    (hnow : v.cacheTime ≤ now) :
    v.due R now = true ↔ v.counter * Time.second ≤ now - v.cacheTime ∨ storeCacheTTL < now - v.cacheTime := by
  have hsub : Time.sub now v.cacheTime = min (2 ^ 63 - 1) (now - v.cacheTime) := by
    unfold Time.sub
    omega
  have hlimit : storeCacheTTL = 5000000000 := rfl
  unfold UserSeq.due
  dsimp only
  rw [Bool.or_eq_true, decide_eq_true_eq, hsub]
  by_cases h5 : now - v.cacheTime ≤ storeCacheTTL
  · rw [min_eq_right (by omega), lowFrequency_iff R hc (by omega) h5]
  · constructor
    · exact fun _ => .inr (by omega)
    · exact fun _ => .inr (by omega)

end Cluster
end MiniPush
