import Mathlib.Data.List.NodupEquivFin
import Mathlib.Order.Monotone.Basic
import Mathlib.Tactic.Linarith

/-! Lists of times whose elements keep a distance, except that one of them may be late: what such a
list can have in a window of time. -/
namespace Foundation

/-- Any two times with `k` others between them are `k` distances apart. -/
def Spaced (d : ℤ) (ts : List ℤ) : Prop :=
  ∀ (i k : ℕ) (t u : ℤ), ts[i]? = some t → ts[i + 1 + k]? = some u → t + k * d ≤ u

namespace Spaced
variable {d : ℤ} {ts : List ℤ}

theorem nil (d : ℤ) : Spaced d [] := by
  intro i k t u h
  simp at h

/-- A time after the list must keep its distance from every earlier one. -/
theorem append (h : Spaced d ts) {u : ℤ}
    (hu : ∀ i k t, ts[i]? = some t → i + 1 + k = ts.length → t + k * d ≤ u) : Spaced d (ts ++ [u]) := by
  intro i k t v ht hv
  obtain ⟨hlt, -⟩ := List.getElem?_eq_some_iff.mp hv
  rw [List.length_append, List.length_singleton] at hlt
  rw [List.getElem?_append_left (by omega)] at ht
  rcases Nat.lt_or_ge (i + 1 + k) ts.length with hin | hend
  · rw [List.getElem?_append_left hin] at hv
    exact h i k t v ht hv
  · have hlen : i + 1 + k = ts.length := by omega
    rw [hlen, List.getElem?_concat_length] at hv
    obtain rfl := Option.some.inj hv
    exact hu i k t ht hlen

theorem sublist (h : Spaced d ts) (hd : 0 ≤ d) {ws : List ℤ} (hsub : ws.Sublist ts) : Spaced d ws := by
  obtain ⟨f, hf⟩ := List.sublist_iff_exists_orderEmbedding_getElem?_eq.mp hsub
  intro i k t u ht hu
  rw [hf] at ht hu
  -- The places in the longer list are at least as far apart.
  have hplace := f.strictMono.add_le_nat (1 + k) i
  obtain ⟨m, hm⟩ : ∃ m, f (i + 1 + k) = f i + 1 + (k + m) :=
    ⟨f (i + 1 + k) - (f i + 1 + k), by
      rw [show 1 + k + i = i + 1 + k by omega] at hplace
      omega⟩
  rw [hm] at hu
  have hspace := h (f i) (k + m) t u ht hu
  have hm0 : 0 ≤ (m : ℤ) * d := mul_nonneg (Int.natCast_nonneg m) hd
  push_cast at hspace
  linarith [add_mul (k : ℤ) m d]

/-- A window of time holds at most two more elements than distances fit into it. -/
theorem window (h : Spaced d ts) (hd : 0 ≤ d) {a b : ℤ} (hab : a ≤ b) :
    (ts.countP fun t => a ≤ t ∧ t ≤ b) * d ≤ b - a + 2 * d := by
  rw [List.countP_eq_length_filter]
  have hws := h.sublist hd (List.filter_sublist (p := fun t => decide (a ≤ t ∧ t ≤ b)))
  have hin : ∀ t ∈ ts.filter fun t => decide (a ≤ t ∧ t ≤ b), a ≤ t ∧ t ≤ b := by
    intro t ht
    simpa using (List.mem_filter.mp ht).2
  revert hws hin
  generalize ts.filter (fun t => decide (a ≤ t ∧ t ≤ b)) = ws
  intro hws hin
  rcases Nat.lt_or_ge ws.length 2 with hshort | hlong
  · have hle : (ws.length : ℤ) * d ≤ 2 * d :=
      mul_le_mul_of_nonneg_right (by omega) hd
    linarith
  · obtain ⟨k, hk⟩ : ∃ k, ws.length = k + 2 := ⟨ws.length - 2, by omega⟩
    have hfirst : ws[0]? = some ws[0] := List.getElem?_eq_getElem (by omega)
    have hlast : ws[0 + 1 + k]? = some ws[0 + 1 + k] := List.getElem?_eq_getElem (by omega)
    have hspace := hws 0 k _ _ hfirst hlast
    have h0 := (hin _ (List.mem_of_getElem? hfirst)).1
    have h1 := (hin _ (List.mem_of_getElem? hlast)).2
    rw [hk]
    push_cast
    linarith [add_mul (k : ℤ) 2 d]

end Spaced
end Foundation
