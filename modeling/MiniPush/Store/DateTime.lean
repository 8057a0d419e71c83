import MiniPush.Basic

/-! The `DATETIME(3)` columns of the schema and their comparison with integers. -/
namespace MiniPush.Store

/-- A `DATETIME(3)` value in UTC, as milliseconds since the Unix epoch, between the years
1 and 9999. -/
structure DateTime where
  ms : ℤ
  valid : -62135596800000 ≤ ms ∧ ms ≤ 253402300799999
  deriving DecidableEq

namespace DateTime

/-- Conversion of a bound `time.Time`: MySQL rounds to the precision of the column and
rejects what is out of range. -/
def ofTime? (t : ℤ) : Option DateTime :=
  let ms := (t + Time.millisecond / 2) / Time.millisecond
  if h : -62135596800000 ≤ ms ∧ ms ≤ 253402300799999 then some ⟨ms, h⟩ else none

def toTime (d : DateTime) : ℤ := d.ms * Time.millisecond

theorem ofTime?_ms {t : ℤ} {d : DateTime} (h : ofTime? t = some d) :
    d.ms = (t + Time.millisecond / 2) / Time.millisecond := by
  unfold ofTime? at h
  dsimp only at h
  split_ifs at h
  obtain rfl := Option.some.inj h
  rfl

theorem ofTime?_whole {m : ℤ} {d : DateTime} (h : ofTime? (m * Time.millisecond) = some d) :
    d.ms = m := by
  rw [ofTime?_ms h]
  unfold Time.millisecond
  omega

theorem isSome_ofTime?_iff (ms : ℤ) : (ofTime? (ms * Time.millisecond)).isSome ↔
    -62135596800000 ≤ ms ∧ ms ≤ 253402300799999 := by
  have hround : (ms * Time.millisecond + Time.millisecond / 2) / Time.millisecond = ms := by
    unfold Time.millisecond
    omega
  unfold ofTime?
  simp only [hround]
  split_ifs with h
  · simp [h]
  · simp [h]

/-- Year, month and day of a day counted from the Unix epoch, in the Gregorian calendar. -/
def civil (days : ℤ) : ℤ × ℤ × ℤ :=
  let z := days + 719468
  let era := z / 146097
  let doe := z - era * 146097
  let yoe := (doe - doe / 1460 + doe / 36524 - doe / 146096) / 365
  let doy := doe - (365 * yoe + yoe / 4 - yoe / 100)
  let mp := (5 * doy + 2) / 153
  let day := doy - (153 * mp + 2) / 5 + 1
  let month := if mp < 10 then mp + 3 else mp - 9
  (yoe + era * 400 + (if month ≤ 2 then 1 else 0), month, day)

/-- The digits `YYYYMMDDhhmmss` of a date as a number. -/
def digits (d : DateTime) : ℤ :=
  let secs := d.ms / 1000
  let date := civil (secs / 86400)
  let clock := secs % 86400
  ((date.1 * 100 + date.2.1) * 100 + date.2.2) * 1000000 +
    (clock / 3600 * 100 + clock / 60 % 60) * 100 + clock % 60

end DateTime

/-- What a statement compares when it relates a date column to a bound integer `n`: the
number of the date, in thousandths, with `1000 * n`. No reading places a date before its
Unix time. -/
structure DateReading where
  number : DateTime → ℤ
  le_number : ∀ d, d.ms ≤ number d

namespace DateReading

def le (R : DateReading) (d : DateTime) (n : ℤ) : Bool := R.number d ≤ 1000 * n

def ge (R : DateReading) (d : DateTime) (n : ℤ) : Bool := 1000 * n ≤ R.number d

theorem ms_le_of_le (R : DateReading) {d : DateTime} {n : ℤ} (h : R.le d n = true) :
    d.ms ≤ 1000 * n :=
  (R.le_number d).trans (by simpa [le] using h)

private theorem civil_bounds (days : ℤ) (h : -719162 ≤ days) :
    1 ≤ (DateTime.civil days).1 ∧ 0 ≤ (DateTime.civil days).2.1 ∧
      0 ≤ (DateTime.civil days).2.2 ∧ (0 ≤ days → 1000 ≤ (DateTime.civil days).1) := by
  unfold DateTime.civil
  dsimp only
  split_ifs <;> omega

private theorem digits_bounds (d : DateTime) : 10 ^ 10 ≤ d.digits ∧ d.ms / 1000 < d.digits := by
  obtain ⟨hlo, hhi⟩ := d.valid
  obtain ⟨hy, hm, hd, hy'⟩ := civil_bounds (d.ms / 1000 / 86400) (by omega)
  unfold DateTime.digits
  dsimp only
  by_cases hn : 0 ≤ d.ms / 1000 / 86400
  · have := hy' hn
    omega
  · omega

/-- MySQL's own reading: a date is the number its digits spell. -/
def yyyymmddhhmmss : DateReading where
  number d := d.digits * 1000 + d.ms % 1000
  le_number d := by
    have := (digits_bounds d).2
    omega

/-- The digits of a date have eleven places at least. -/
theorem le_yyyymmddhhmmss (d : DateTime) : 10 ^ 13 ≤ yyyymmddhhmmss.number d := by
  have := digits_bounds d
  simp only [yyyymmddhhmmss]
  omega

end DateReading
end MiniPush.Store
