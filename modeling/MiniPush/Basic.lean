import Mathlib.Tactic.Linarith
import MiniPush.Foundation.Assoc

/-! Go values as the model uses them: fixed-width integers, maps, byte slices, instants
and durations. -/
namespace MiniPush

/-- Conversion to Go's `int32`, which wraps. -/
def int32 (x : ℤ) : ℤ := (x + 2 ^ 31) % 2 ^ 32 - 2 ^ 31

def int64 (x : ℤ) : ℤ := (x + 2 ^ 63) % 2 ^ 64 - 2 ^ 63

theorem int32_of_range {x : ℤ} (hl : -2 ^ 31 ≤ x) (hu : x < 2 ^ 31) : int32 x = x := by
  unfold int32
  omega

theorem int64_of_range {x : ℤ} (hl : -2 ^ 63 ≤ x) (hu : x < 2 ^ 63) : int64 x = x := by
  unfold int64
  omega

/-- Go's `map[κ]ν`. The order of the entries stands for one of the orders in which Go may
iterate over the map. -/
abbrev GoMap (κ ν : Type) := Foundation.Assoc κ ν

theorem GoMap.lookup_insert {κ ν : Type} [DecidableEq κ] (m : GoMap κ ν) (k k' : κ) (x : ν) :
    (m.insert k x).lookup k' = if k' = k then some x else m.lookup k' := by
  split_ifs with h
  · rw [h, AList.lookup_insert]
  · exact AList.lookup_insert_ne h

theorem GoMap.lookup_erase {κ ν : Type} [DecidableEq κ] (m : GoMap κ ν) (k k' : κ) :
    (m.erase k).lookup k' = if k' = k then none else m.lookup k' := by
  split_ifs with h
  · rw [h, AList.lookup_erase]
  · exact AList.lookup_erase_ne h

/-- Go's `[]byte`, and its `string`, which need not be valid UTF-8. -/
abbrev Bytes := List UInt8

namespace Time

/-- Durations and instants are counted in nanoseconds; instants start at the Unix epoch. -/
def millisecond : ℤ := 10 ^ 6

def second : ℤ := 10 ^ 9

def hour : ℤ := 3600 * second

/-- `t.Unix()`: whole seconds, rounded down. -/
def unix (t : ℤ) : ℤ := t / second

/-- The instants whose `UnixNano()` does not wrap, from 1677 to 2262. -/
def InNanos (t : ℤ) : Prop := -2 ^ 63 ≤ t ∧ t < 2 ^ 63

/-- `t.UnixNano()/1e6`: the nanoseconds wrap, the division drops the fraction. -/
def unixMilli (t : ℤ) : ℤ := (int64 t).tdiv millisecond

theorem unixMilli_of_inNanos {t : ℤ} (h : InNanos t) : unixMilli t = t.tdiv millisecond := by
  rw [unixMilli, int64_of_range h.1 h.2]

/-- `t.Sub(u)`, which saturates at the smallest and the largest `Duration`. -/
def sub (t u : ℤ) : ℤ := max (-2 ^ 63) (min (2 ^ 63 - 1) (t - u))

theorem sub_le_iff {t u d : ℤ} (hl : -2 ^ 63 ≤ d) (hu : d < 2 ^ 63 - 1) :
    sub t u ≤ d ↔ t - u ≤ d := by
  unfold sub
  omega

/-- A time zone. `startOfDay t` is `time.Date` of the calendar day of `t` at 00:00. A zone
that repeats its midnight, where the choice of `time.Date` is not documented, has the
earlier of the two here. -/
structure Location where
  startOfDay : ℤ → ℤ
  startOfDay_le : ∀ t, startOfDay t ≤ t
  startOfDay_mono : ∀ t u, t ≤ u → startOfDay t ≤ startOfDay u

def Location.fixed (offset : ℤ) : Location where
  startOfDay t := (t + offset) / (24 * hour) * (24 * hour) - offset
  startOfDay_le t := by
    unfold hour second
    omega
  startOfDay_mono t u h := by
    unfold hour second
    omega

end Time

/-- `GetDayBefore`: the midnight that begins the day `days + 1` days before `now`. -/
def getDayBefore (loc : Time.Location) (now days : ℤ) : ℤ :=
  let days := int32 (days + 1)
  let offset := int64 (int32 (days * 24) * Time.hour)
  loc.startOfDay (now + int64 (-offset))

/-- Where the duration fits its type the arithmetic of `GetDayBefore` does not wrap. -/
theorem getDayBefore_eq (loc : Time.Location) (now : ℤ) {days : ℤ} (h0 : -1 ≤ days)
    (h1 : days ≤ 106750) :
    getDayBefore loc now days = loc.startOfDay (now - (days + 1) * 24 * Time.hour) := by
  unfold getDayBefore
  dsimp only
  rw [int32_of_range (x := days + 1) (by omega) (by omega),
    int32_of_range (x := (days + 1) * 24) (by omega) (by omega)]
  unfold Time.hour Time.second
  rw [int64_of_range (x := (days + 1) * 24 * (3600 * 10 ^ 9)) (by omega) (by omega),
    int64_of_range (by omega) (by omega), sub_eq_add_neg]

theorem getDayBefore_le (loc : Time.Location) (now : ℤ) {days : ℤ} (h0 : -1 ≤ days)
    (h1 : days ≤ 106750) : getDayBefore loc now days ≤ now - (days + 1) * 24 * Time.hour := by
  rw [getDayBefore_eq loc now h0 h1]
  exact loc.startOfDay_le _

end MiniPush
