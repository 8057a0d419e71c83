import Mathlib.Data.List.Count
import Mathlib.Data.List.Sort
import Mathlib.Data.Nat.Notation
import Mathlib.Order.Lattice

/-! Sorting that may leave equal elements in any order, and the selection of the first elements of
a sorted list. -/
namespace Foundation

/-- A way to sort lists by a key. -/
structure Sorting {α β : Type*} [LinearOrder β] (key : α → β) where
  sort : List α → List α
  perm : ∀ l, (sort l).Perm l
  sorted : ∀ l, (sort l).Pairwise fun a b => key a ≤ key b

namespace Sorting
variable {α β : Type*} [LinearOrder β] {key : α → β}

/-- The sorting that keeps equal elements in their order. -/
def stable (key : α → β) : Sorting key where
  sort l := l.mergeSort fun a b => key a ≤ key b
  perm l := List.mergeSort_perm l _
  sorted l := by
    have h : (l.mergeSort fun a b => key a ≤ key b).Pairwise fun a b => decide (key a ≤ key b) := by
      apply List.pairwise_mergeSort
      · intro a b c hab hbc
        simp only [decide_eq_true_eq] at hab hbc ⊢
        exact le_trans hab hbc
      · intro a b
        simp only [Bool.or_eq_true, decide_eq_true_eq]
        exact le_total _ _
    simpa using h

section ThenBy
variable {γ : Type*} [LinearOrder γ] (key : α → β) (tie : α → γ)

def LeThen (a b : α) : Prop := key a < key b ∨ key a = key b ∧ tie a ≤ tie b

instance : DecidableRel (LeThen key tie) := fun _ _ => inferInstanceAs (Decidable (_ ∨ _))

instance : IsTrans α (LeThen key tie) where
  trans a b c := by
    rintro (hab | ⟨hab, htab⟩) (hbc | ⟨hbc, htbc⟩)
    · exact .inl (hab.trans hbc)
    · exact .inl (hbc ▸ hab)
    · exact .inl (hab ▸ hbc)
    · exact .inr ⟨hab.trans hbc, htab.trans htbc⟩

instance : Std.Total (LeThen key tie) where
  total a b := by
    rcases lt_trichotomy (key a) (key b) with h | h | h
    · exact .inl (.inl h)
    · exact (le_total (tie a) (tie b)).imp (fun ht => .inr ⟨h, ht⟩) fun ht => .inr ⟨h.symm, ht⟩
    · exact .inr (.inl h)

/-- The sorting that orders equal elements by a second key. -/
def thenBy : Sorting key where
  sort l := l.insertionSort (LeThen key tie)
  perm l := List.perm_insertionSort _ l
  sorted l := (List.pairwise_insertionSort (LeThen key tie) l).imp fun h =>
    h.elim le_of_lt fun h => h.1.le

variable {key tie}

/-- Lists with the same elements, up to what the keys ignore, are sorted alike. -/
theorem map_sort_thenBy {f : α → α} (hkey : ∀ a, key (f a) = key a) (htie : ∀ a, tie (f a) = tie a)
    {l l' : List α} (hperm : (l.map f).Perm (l'.map f))
    (hinj : ∀ a ∈ l.map f, ∀ b ∈ l.map f, tie a = tie b → a = b) :
    ((thenBy key tie).sort l).map f = ((thenBy key tie).sort l').map f := by
  have hle : ∀ a b, LeThen key tie a b ↔ LeThen key tie (f a) (f b) := by
    intro a b
    rw [LeThen, LeThen, hkey, hkey, htie, htie]
  have hmap : ∀ m : List α, ((thenBy key tie).sort m).map f =
      (m.map f).insertionSort (LeThen key tie) :=
    fun m => List.map_insertionSort _ _ f m fun a _ b _ => hle a b
  rw [hmap, hmap]
  refine List.Perm.eq_of_pairwise ?_ (List.pairwise_insertionSort (LeThen key tie) _)
    (List.pairwise_insertionSort (LeThen key tie) _) ?_
  · intro a b ha hb hab hba
    rw [List.mem_insertionSort] at ha hb
    apply hinj a ha b (hperm.mem_iff.mpr hb)
    rcases hab with hlt | ⟨he, htab⟩
    · rcases hba with hlt' | ⟨he', -⟩
      · exact absurd hlt' hlt.not_gt
      · exact absurd he' hlt.ne'
    · rcases hba with hlt' | ⟨-, htba⟩
      · exact absurd he hlt'.ne'
      · exact le_antisymm htab htba
  · exact (List.perm_insertionSort _ _).trans (hperm.trans (List.perm_insertionSort _ _).symm)

end ThenBy

variable (S : Sorting key) (n : ℕ) (l : List α)

def first : List α := (S.sort l).take n

def rest : List α := (S.sort l).drop n

theorem first_append_rest_perm : (S.first n l ++ S.rest n l).Perm l := by
  rw [first, rest, List.take_append_drop]
  exact S.perm l

theorem length_first : (S.first n l).length = min n l.length := by
  rw [first, List.length_take, (S.perm l).length_eq]

theorem length_rest : (S.rest n l).length = l.length - n := by
  rw [rest, List.length_drop, (S.perm l).length_eq]

variable {S n l}

theorem mem_or_mem {a : α} : a ∈ l ↔ a ∈ S.first n l ∨ a ∈ S.rest n l := by
  rw [← (S.first_append_rest_perm n l).mem_iff, List.mem_append]

theorem first_le_rest {a b : α} (ha : a ∈ S.first n l) (hb : b ∈ S.rest n l) : key a ≤ key b := by
  have h := S.sorted l
  rw [← List.take_append_drop n (S.sort l), List.pairwise_append] at h
  exact h.2.2 a ha b hb

theorem notMem_rest (hl : l.Nodup) {a : α} (ha : a ∈ S.first n l) : a ∉ S.rest n l := by
  have h := (S.first_append_rest_perm n l).nodup_iff.mpr hl
  exact (List.nodup_append.mp h).2.2 a ha a |> fun h hb => h hb rfl

theorem countP_lt_of_mem_first {a : α} (ha : a ∈ S.first n l) :
    l.countP (fun c => key c < key a) < n := by
  have hrest : (S.rest n l).countP (fun c => key c < key a) = 0 := by
    rw [List.countP_eq_zero]
    intro c hc
    simpa using first_le_rest ha hc
  have hfirst : (S.first n l).countP (fun c => key c < key a) < (S.first n l).length := by
    rw [List.countP_lt_length_iff]
    exact ⟨a, ha, by simp⟩
  have hlen := S.length_first n l
  rw [← (S.first_append_rest_perm n l).countP_eq, List.countP_append, hrest]
  omega

/-- Fewer elements come after one of the others than there are others. -/
theorem countP_lt_of_mem_rest {b : α} (hb : b ∈ S.rest n l) :
    l.countP (fun c => key b < key c) < l.length - n := by
  have hfirst : (S.first n l).countP (fun c => key b < key c) = 0 := by
    rw [List.countP_eq_zero]
    intro c hc
    simpa using first_le_rest hc hb
  have hrest : (S.rest n l).countP (fun c => key b < key c) < (S.rest n l).length := by
    rw [List.countP_lt_length_iff]
    exact ⟨b, hb, by simp⟩
  rw [← (S.first_append_rest_perm n l).countP_eq, List.countP_append, hfirst, Nat.zero_add,
    ← S.length_rest n l]
  exact hrest

section ThenBy
variable {γ : Type*} [LinearOrder γ] {tie : α → γ}

private theorem leThen_of_mem {a b : α} (ha : a ∈ (thenBy key tie).first n l)
    (hb : b ∈ (thenBy key tie).rest n l) : LeThen key tie a b := by
  have h := List.pairwise_insertionSort (LeThen key tie) l
  rw [← List.take_append_drop n (l.insertionSort _), List.pairwise_append] at h
  exact h.2.2 a ha b hb

/-- Ties can be broken so that an element is among the first ones, if fewer than `n` have smaller keys. -/
theorem mem_first_thenBy {a : α} (ha : a ∈ l) (htie : ∀ c ∈ l, tie c ≤ tie a → c = a)
    (hcount : l.countP (fun c => key c < key a) < n) : a ∈ (thenBy key tie).first n l := by
  by_contra hnot
  have hrest : a ∈ (thenBy key tie).rest n l := (mem_or_mem.mp ha).resolve_left hnot
  have hbefore : ∀ c ∈ (thenBy key tie).first n l, key c < key a := by
    intro c hc
    rcases leThen_of_mem hc hrest with hlt | ⟨-, hle⟩
    · exact hlt
    · exact absurd (htie c (mem_or_mem.mpr (.inl hc)) hle ▸ hc) hnot
  have hall : ((thenBy key tie).first n l).countP (fun c => key c < key a) = min n l.length := by
    rw [← (thenBy key tie).length_first, List.countP_eq_length]
    simpa using hbefore
  have hpos := List.length_pos_of_mem hrest
  rw [length_rest] at hpos
  rw [← ((thenBy key tie).first_append_rest_perm n l).countP_eq, List.countP_append, hall] at hcount
  omega

/-- Ties can be broken so that an element is not among the first ones, if few enough have greater keys. -/
theorem mem_rest_thenBy {b : α} (hb : b ∈ l) (htie : ∀ c ∈ l, tie b ≤ tie c → c = b)
    (hcount : l.countP (fun c => key b < key c) < l.length - n) : b ∈ (thenBy key tie).rest n l := by
  by_contra hnot
  have hfirst : b ∈ (thenBy key tie).first n l := (mem_or_mem.mp hb).resolve_right hnot
  have hafter : ∀ c ∈ (thenBy key tie).rest n l, key b < key c := by
    intro c hc
    rcases leThen_of_mem hfirst hc with hlt | ⟨-, hle⟩
    · exact hlt
    · exact absurd (htie c (mem_or_mem.mpr (.inr hc)) hle ▸ hc) hnot
  have hall : ((thenBy key tie).rest n l).countP (fun c => key b < key c) = l.length - n := by
    rw [← (thenBy key tie).length_rest, List.countP_eq_length]
    simpa using hafter
  rw [← ((thenBy key tie).first_append_rest_perm n l).countP_eq, List.countP_append, hall] at hcount
  omega

end ThenBy
end Sorting
end Foundation
