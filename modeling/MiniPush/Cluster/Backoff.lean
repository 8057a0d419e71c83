import Mathlib.Tactic.IntervalCases
import MiniPush.Cluster.Storage
import MiniPush.Foundation.Rounding

/-! The waits of `consumeLoop` between failed calls of Kafka and of the store. -/
namespace MiniPush.Cluster
open Foundation Store

def backoffMinInterval : ℤ := 1 * Time.second

def backoffMaxInterval : ℤ := 60 * Time.second

/-- Conversion of a `float64` to `int64`, which drops the fraction. -/
def truncate (x : ℚ) : ℤ := if x < 0 then ⌈x⌉ else ⌊x⌋

/-- `backoff`: half as long again, and from the start where that reaches the maximum. -/
def backoff (R : Rounding 53) (d : ℤ) : ℤ :=
  if d = 0 then backoffMinInterval
  else
    let d := truncate (R.round (R.round d * (3 / 2)))
    if d < backoffMaxInterval then d - d.tmod Time.millisecond else backoffMinInterval

theorem backoff_eq (R : Rounding 53) {d : ℤ} (h0 : 0 < d) (h1 : d < 2 ^ 51) :
    backoff R d = if d * 3 / 2 < backoffMaxInterval then d * 3 / 2 - d * 3 / 2 % Time.millisecond
      else backoffMinInterval := by
  have hd : R.round d = d := R.round_intCast (by rw [abs_lt]; omega)
  have hprod : R.round ((d : ℚ) * (3 / 2)) = (d * 3 : ℤ) / (2 : ℤ) := by
    have := R.exact (d * 3) (-1) (by rw [abs_lt]; omega)
    rw [zpow_neg_one] at this
    rw [show (d : ℚ) * (3 / 2) = ((d * 3 : ℤ) : ℚ) * 2⁻¹ by push_cast; ring, this]
    push_cast
    ring
  have htrunc : truncate (((d * 3 : ℤ) : ℚ) / (2 : ℤ)) = d * 3 / 2 := by
    unfold truncate
    have hpos : (0 : ℚ) ≤ ((d * 3 : ℤ) : ℚ) / (2 : ℤ) := by
      refine div_nonneg ?_ (by norm_num)
      exact_mod_cast (show 0 ≤ d * 3 by omega)
    rw [if_neg hpos.not_gt]
    exact Rat.floor_intCast_div_natCast (d * 3) 2
  unfold backoff
  rw [if_neg h0.ne', hd, hprod]
  dsimp only
  rw [htrunc, Int.tmod_eq_emod_of_nonneg (by omega)]

/-- The waits after one, two, … failures in a row, in milliseconds. -/
def schedule (n : ℕ) : ℤ :=
  match n % 11 with
  | 0 => 1000
  | 1 => 1500
  | 2 => 2250
  | 3 => 3375
  | 4 => 5062
  | 5 => 7593
  | 6 => 11389
  | 7 => 17083
  | 8 => 25624
  | 9 => 38436
  | _ => 57654

theorem backoff_zero (R : Rounding 53) : backoff R 0 = schedule 0 * Time.millisecond := rfl

theorem backoff_schedule (R : Rounding 53) (n : ℕ) :
    backoff R (schedule n * Time.millisecond) = schedule (n + 1) * Time.millisecond := by
  have hlt : n % 11 < 11 := Nat.mod_lt n (by decide)
  unfold schedule
  rw [Nat.add_mod]
  interval_cases n % 11 <;> rw [backoff_eq R (by decide) (by decide)] <;> decide

theorem schedule_bounds (n : ℕ) : 1000 ≤ schedule n ∧ schedule n < 60000 := by
  unfold schedule
  split <;> decide

/-- The variable `sleep` of `consumeLoop`. The code does not have `failures` and `waits`: the failures
since the last call that succeeded, and the waits begun, each with the failures before it. -/
structure Waits where
  sleep : ℤ
  failures : ℕ
  waits : List (ℕ × ℤ)

def Waits.succeed (r : Waits) : Waits := { r with sleep := 0, failures := 0 }

def Waits.fail (R : Rounding 53) (r : Waits) : Waits :=
  ⟨backoff R r.sleep, r.failures + 1, r.waits ++ [(r.failures, backoff R r.sleep)]⟩

/-- What the calls of `consumeLoop` do with `sleep`. A process that starts again has a new one. -/
def noteWait (R : Rounding 53) (s : Storage) : StorageLabel → Waits → Waits
  | .fetch, r => r.succeed
  | .fetchErr canceled, r => if canceled then r else r.fail R
  | .save env, r =>
    match s.pc with
    | .save _ e _ =>
      match (Store.save env e s.db).1 with
      | .ok _ => r.succeed
      | .error err => if err = .canceled ∨ isDupKeyError err then r else r.fail R
    | _ => r
  | .commit, r => r.succeed
  | .commitErr _ canceled, r => if canceled then r else r.fail R
  | .crash, r => r.succeed
  | _, r => r

def waitSystem (R : Rounding 53) (cfg : StorageConfig) : System (Storage × Waits) StorageLabel :=
  (storageSystem cfg).record ⟨0, 0, []⟩ (noteWait R)

structure Scheduled (r : Waits) : Prop where
  sleep : r.sleep = if r.failures = 0 then 0 else schedule (r.failures - 1) * Time.millisecond
  waits : ∀ p ∈ r.waits, p.2 = schedule p.1 * Time.millisecond

theorem Scheduled.succeed {r : Waits} (h : Scheduled r) : Scheduled r.succeed := ⟨rfl, h.waits⟩

theorem Scheduled.fail {r : Waits} (h : Scheduled r) (R : Rounding 53) : Scheduled (r.fail R) := by
  have hnext : backoff R r.sleep = schedule r.failures * Time.millisecond := by
    rw [h.sleep]
    split_ifs with hn
    · rw [hn, backoff_zero]
    · rw [backoff_schedule, Nat.sub_add_cancel (Nat.one_le_iff_ne_zero.mpr hn)]
  refine ⟨hnext, fun p hp => ?_⟩
  rcases List.mem_append.mp hp with hp | hp
  · exact h.waits p hp
  · rw [List.mem_singleton.mp hp]
    exact hnext

theorem Scheduled.note {r : Waits} (h : Scheduled r) (R : Rounding 53) (s : Storage) (l : StorageLabel) :
    Scheduled (noteWait R s l r) := by
  cases l with
  | fetch => exact h.succeed
  | commit => exact h.succeed
  | crash => exact h.succeed
  | fetchErr canceled =>
    simp only [noteWait]
    split_ifs
    · exact h
    · exact h.fail R
  | commitErr _ canceled =>
    simp only [noteWait]
    split_ifs
    · exact h
    · exact h.fail R
  | save env =>
    simp only [noteWait]
    split
    · split
      · exact h.succeed
      · split_ifs
        · exact h
        · exact h.fail R
    · exact h
  | _ => exact h

/-- In every run the waits follow one schedule, from the first failure after a success: they are whole
milliseconds from one second to less than a minute, and begin again after the eleventh failure. -/
theorem waits_follow_schedule (R : Rounding 53) (cfg : StorageConfig) {s : Storage × Waits}
    (h : (waitSystem R cfg).Reachable s) : ∀ p ∈ s.2.waits,
      p.2 = schedule p.1 * Time.millisecond ∧ backoffMinInterval ≤ p.2 ∧ p.2 < backoffMaxInterval := by
  have hs : Scheduled s.2 := by
    refine System.Reachable.invariant (I := fun s => Scheduled s.2) ?_ ?_ h
    · rintro ⟨_, _⟩ ⟨-, rfl⟩
      exact ⟨rfl, by simp⟩
    · rintro ⟨s, r⟩ l ⟨s', r'⟩ hi ht
      obtain ⟨-, rfl⟩ := System.record_step.mp ht
      exact hi.note R s l
  intro p hp
  have hwait := hs.waits p hp
  obtain ⟨hlo, hhi⟩ := schedule_bounds p.1
  refine ⟨hwait, ?_, ?_⟩ <;> rw [hwait]
  · unfold backoffMinInterval Time.second Time.millisecond
    omega
  · unfold backoffMaxInterval Time.second Time.millisecond
    omega

/-- Two failed fetches, and a failed `Save` after the third: its wait is a first one again. -/
theorem waits_follow_schedule_outage :
    ∃ s, (waitSystem binary64 sampleConfig).Reachable s ∧ s.2.waits.map Prod.fst = [0, 1, 0] ∧
      ∀ p ∈ s.2.waits, p.2 = schedule p.1 * Time.millisecond ∧ backoffMinInterval ≤ p.2 ∧
        p.2 < backoffMaxInterval := by
  have hrun : ((waitSystem binary64 sampleConfig).run (newStorage 0, ⟨0, 0, []⟩)
      [.fetchErr false, .fetchErr false, .fetch, .save { TxEnv.calm with begin := some .other }]).map
        (fun s => s.2.waits.map Prod.fst) = some [0, 1, 0] := by
    decide +kernel
  obtain ⟨s, hs, hwaits⟩ := Option.map_eq_some_iff.mp hrun
  have hreach : (waitSystem binary64 sampleConfig).Reachable s :=
    System.Reachable.run (.init ⟨⟨0, rfl⟩, rfl⟩) _ hs
  exact ⟨s, hreach, hwaits, waits_follow_schedule binary64 sampleConfig hreach⟩

end MiniPush.Cluster
