import Mathlib.Data.List.Nodup

/-! Relational tables with a primary key. The key constraint is a field of the table, so
every operation has to preserve it. -/
namespace Foundation

/-- Rows in insertion order, no two with the same key. -/
structure Table {κ ρ : Type*} (key : ρ → κ) where
  rows : List ρ
  nodup : (rows.map key).Nodup

namespace Table
variable {κ ρ : Type*} {key : ρ → κ}

@[ext] theorem ext {T U : Table key} (h : T.rows = U.rows) : T = U := by
  cases T; cases U; simp_all

def empty : Table key := ⟨[], by simp⟩

@[simp] theorem rows_empty : (empty : Table key).rows = [] := rfl

theorem eq_of_key_eq (T : Table key) {r s : ρ} (hr : r ∈ T.rows) (hs : s ∈ T.rows)
    (h : key r = key s) : r = s :=
  List.inj_on_of_nodup_map T.nodup hr hs h

/-- A condition that fixes the key holds for at most one row. -/
theorem countP_le_one (T : Table key) {p : ρ → Bool} {k : κ} (hp : ∀ r, p r = true → key r = k) :
    T.rows.countP p ≤ 1 := by
  classical
  have hkey : T.rows.countP p ≤ T.rows.countP fun r => key r == k :=
    List.countP_mono_left fun r _ hr => beq_iff_eq.mpr (hp r hr)
  have hcount : (T.rows.map key).count k = T.rows.countP fun r => key r == k := by
    rw [List.count, List.countP_map]
    rfl
  have hone := List.nodup_iff_count_le_one.mp T.nodup k
  omega

section Keyed
variable [DecidableEq κ]

def find? (T : Table key) (k : κ) : Option ρ := T.rows.find? fun r => key r = k

theorem find?_eq_some_iff {T : Table key} {k : κ} {r : ρ} :
    T.find? k = some r ↔ r ∈ T.rows ∧ key r = k := by
  constructor
  · intro h
    exact ⟨List.mem_of_find?_eq_some h, by simpa using List.find?_some h⟩
  · rintro ⟨hr, hk⟩
    cases hf : T.find? k with
    | none =>
      have := List.find?_eq_none.mp hf r hr
      simp [hk] at this
    | some s =>
      have hs : s ∈ T.rows ∧ key s = k :=
        ⟨List.mem_of_find?_eq_some hf, by simpa using List.find?_some hf⟩
      rw [T.eq_of_key_eq hs.1 hr (hs.2.trans hk.symm)]

theorem find?_eq_none_iff {T : Table key} {k : κ} :
    T.find? k = none ↔ ∀ r ∈ T.rows, key r ≠ k := by
  simp [find?, List.find?_eq_none]

/-- Insertion of a row, refused when its key is taken. -/
def insert? (T : Table key) (r : ρ) : Option (Table key) :=
  if h : T.find? (key r) = none then
    some ⟨T.rows ++ [r], by
      rw [List.map_append, List.nodup_append]
      refine ⟨T.nodup, by simp, ?_⟩
      intro k hk k' hk' he
      obtain ⟨s, hs, rfl⟩ := List.mem_map.mp hk
      obtain rfl : k' = key r := by simpa using hk'
      exact find?_eq_none_iff.mp h s hs he⟩
  else none

theorem insert?_eq_some_iff {T U : Table key} {r : ρ} :
    T.insert? r = some U ↔ T.find? (key r) = none ∧ U.rows = T.rows ++ [r] := by
  unfold insert?
  split_ifs with h
  · simp only [Option.some.injEq, h, true_and]
    exact ⟨fun he => he ▸ rfl, fun he => ext he.symm⟩
  · simp [h]

theorem insert?_eq_none_iff {T : Table key} {r : ρ} :
    T.insert? r = none ↔ ∃ s ∈ T.rows, key s = key r := by
  unfold insert?
  split_ifs with h
  · simp only [false_iff, not_exists, not_and]
    exact fun s hs => find?_eq_none_iff.mp h s hs
  · simp only [true_iff]
    obtain ⟨s, hs⟩ := Option.ne_none_iff_exists'.mp h
    exact ⟨s, find?_eq_some_iff.mp hs⟩

end Keyed

def filter (p : ρ → Bool) (T : Table key) : Table key :=
  ⟨T.rows.filter p, (T.nodup.sublist ((List.filter_sublist).map key))⟩

@[simp] theorem rows_filter (p : ρ → Bool) (T : Table key) :
    (T.filter p).rows = T.rows.filter p := rfl

theorem mem_filter {p : ρ → Bool} {T : Table key} {r : ρ} :
    r ∈ (T.filter p).rows ↔ r ∈ T.rows ∧ p r = true := by
  simp

/-- In-place change of the rows that satisfy `p`, with the key left alone. -/
def update (p : ρ → Bool) (f : ρ → ρ) (hf : ∀ r, key (f r) = key r) (T : Table key) :
    Table key :=
  ⟨T.rows.map fun r => if p r then f r else r, by
    have : (key ∘ fun r => if p r then f r else r) = key := by
      funext r
      simp only [Function.comp]
      split_ifs <;> simp [hf]
    rw [List.map_map, this]
    exact T.nodup⟩

@[simp] theorem rows_update (p : ρ → Bool) (f : ρ → ρ) (hf : ∀ r, key (f r) = key r)
    (T : Table key) : (T.update p f hf).rows = T.rows.map fun r => if p r then f r else r := rfl

theorem mem_update {p : ρ → Bool} {f : ρ → ρ} {hf : ∀ r, key (f r) = key r}
    {T : Table key} {s : ρ} :
    s ∈ (T.update p f hf).rows ↔ ∃ r ∈ T.rows, (if p r then f r else r) = s := by
  simp

end Table
end Foundation
