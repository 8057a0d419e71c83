import Mathlib.Data.List.AList

/-! Finite maps as association lists: their values, changes of all values at once, restriction to
some of the entries, and maps built from a list by a key. -/
namespace Foundation

/-- A finite map. The order of the entries has no meaning. -/
abbrev Assoc (κ ν : Type*) := AList fun _ : κ => ν

namespace Assoc
variable {κ ν ν' α : Type*}

def values (m : Assoc κ ν) : List ν := m.entries.map fun e => e.2

def mapValues (f : κ → ν → ν') (m : Assoc κ ν) : Assoc κ ν' :=
  ⟨m.entries.map fun e => ⟨e.1, f e.1 e.2⟩, by
    have hkeys : (m.entries.map fun e => (⟨e.1, f e.1 e.2⟩ : Sigma fun _ => ν')).keys = m.keys := by
      simp [List.keys, AList.keys, Function.comp_def]
    rw [List.NodupKeys, hkeys]
    exact m.keys_nodup⟩

def filter (p : κ → ν → Bool) (m : Assoc κ ν) : Assoc κ ν :=
  ⟨m.entries.filter fun e => p e.1 e.2, m.nodupKeys.sublist List.filter_sublist⟩

theorem keys_filter (p : κ → Bool) (m : Assoc κ ν) :
    (filter (fun k _ => p k) m).keys = m.keys.filter p := by
  simp only [AList.keys, List.keys, filter, List.filter_map]
  rfl

theorem mem_keys_filter {p : κ → Bool} {m : Assoc κ ν} {k : κ} :
    k ∈ (filter (fun k _ => p k) m).keys ↔ k ∈ m.keys ∧ p k = true := by
  rw [keys_filter, List.mem_filter]

theorem values_mapValues (f : ν → ν') (m : Assoc κ ν) :
    values (mapValues (fun _ => f) m) = (values m).map f := by
  simp [values, mapValues]

section Keyed
variable [DecidableEq κ]

theorem mem_values {m : Assoc κ ν} {v : ν} : v ∈ values m ↔ ∃ k, m.lookup k = some v := by
  simp only [values, List.mem_map, ← Option.mem_def, AList.mem_lookup_iff]
  constructor
  · rintro ⟨⟨k, v⟩, he, rfl⟩
    exact ⟨k, he⟩
  · rintro ⟨k, he⟩
    exact ⟨⟨k, v⟩, he, rfl⟩

theorem lookup_mapValues (f : κ → ν → ν') (m : Assoc κ ν) (k : κ) :
    (mapValues f m).lookup k = (m.lookup k).map (f k) := by
  ext v
  rw [Option.map_eq_some_iff]
  simp only [← Option.mem_def, AList.mem_lookup_iff, mapValues, List.mem_map]
  constructor
  · rintro ⟨⟨k, w⟩, he, h⟩
    cases h
    exact ⟨w, he, rfl⟩
  · rintro ⟨w, he, rfl⟩
    exact ⟨⟨k, w⟩, he, rfl⟩

theorem lookup_filter (p : κ → ν → Bool) (m : Assoc κ ν) (k : κ) :
    (filter p m).lookup k = (m.lookup k).filter (p k) := by
  ext v
  rw [Option.filter_eq_some_iff]
  simp only [← Option.mem_def, AList.mem_lookup_iff, filter, List.mem_filter]

/-- The elements of a list by their keys; the last one wins. -/
def ofList (key : ν → κ) (l : List ν) : Assoc κ ν :=
  l.foldl (fun m v => m.insert (key v) v) ∅

private theorem lookup_ofList_loop {key : ν → κ} {l : List ν} {m : Assoc κ ν} {k : κ} {v : ν}
    (h : (l.foldl (fun m v => m.insert (key v) v) m).lookup k = some v) :
    (v ∈ l ∧ key v = k) ∨ m.lookup k = some v := by
  induction l generalizing m with
  | nil => exact .inr h
  | cons w l ih =>
    rcases ih h with hl | hm
    · exact .inl ⟨List.mem_cons_of_mem _ hl.1, hl.2⟩
    · by_cases hk : k = key w
      · subst hk
        rw [AList.lookup_insert] at hm
        obtain rfl := Option.some.inj hm
        exact .inl ⟨List.mem_cons_self, rfl⟩
      · rw [AList.lookup_insert_ne hk] at hm
        exact .inr hm

theorem mem_of_mem_ofList {key : ν → κ} {l : List ν} {v : ν} (h : v ∈ values (ofList key l)) :
    v ∈ l := by
  obtain ⟨k, hk⟩ := mem_values.mp h
  exact ((lookup_ofList_loop hk).resolve_right (by simp)).1

theorem nodup_map_values_ofList (key : ν → κ) (l : List ν) : ((values (ofList key l)).map key).Nodup := by
  have hkeys : (values (ofList key l)).map key = (ofList key l).keys := by
    rw [values, List.map_map, AList.keys, List.keys]
    apply List.map_congr_left
    rintro ⟨k, v⟩ he
    exact ((lookup_ofList_loop (AList.mem_lookup_iff.mpr he)).resolve_right (by simp)).2
  rw [hkeys]
  exact (ofList key l).keys_nodup

private theorem mem_ofList_loop {key : ν → κ} {l : List ν} {m : Assoc κ ν} {k : κ}
    (h : (∃ v ∈ l, key v = k) ∨ k ∈ m) : k ∈ l.foldl (fun m v => m.insert (key v) v) m := by
  induction l generalizing m with
  | nil => simpa using h
  | cons w l ih =>
    apply ih
    rcases h with ⟨v, hv, rfl⟩ | hm
    · rcases List.mem_cons.mp hv with rfl | hv
      · exact .inr ((AList.mem_insert m).mpr (.inl rfl))
      · exact .inl ⟨v, hv, rfl⟩
    · exact .inr ((AList.mem_insert m).mpr (.inr hm))

theorem lookup_ofList {key : ν → κ} {l : List ν}
    (hinj : ∀ a ∈ l, ∀ b ∈ l, key a = key b → a = b) {k : κ} {v : ν} :
    (ofList key l).lookup k = some v ↔ v ∈ l ∧ key v = k := by
  constructor
  · intro h
    exact (lookup_ofList_loop h).resolve_right (by simp)
  · rintro ⟨hv, rfl⟩
    have hmem : key v ∈ ofList key l := mem_ofList_loop (.inl ⟨v, hv, rfl⟩)
    obtain ⟨w, hw⟩ := Option.isSome_iff_exists.mp (AList.lookup_isSome.mpr hmem)
    obtain ⟨hl, hk⟩ := (lookup_ofList_loop hw).resolve_right (by simp)
    rw [hw, hinj w hl v hv hk]

def groupBy (key : α → κ) (val : α → ν) (l : List α) : Assoc κ (List ν) :=
  l.foldl (fun m a => m.insert (key a) ((m.lookup (key a)).getD [] ++ [val a])) ∅

private theorem groupBy_loop (key : α → κ) (val : α → ν) (l : List α) (m : Assoc κ (List ν)) (k : κ) :
    (l.foldl (fun m a => m.insert (key a) ((m.lookup (key a)).getD [] ++ [val a])) m).lookup k =
      if l.filter (fun a => key a = k) = [] then m.lookup k
      else some ((m.lookup k).getD [] ++ (l.filter fun a => key a = k).map val) := by
  induction l generalizing m with
  | nil => simp
  | cons a l ih =>
    rw [List.foldl_cons, ih]
    by_cases hk : key a = k
    · subst hk
      rw [AList.lookup_insert, Option.getD_some, List.filter_cons_of_pos (by simp),
        if_neg (List.cons_ne_nil _ _), List.map_cons]
      split_ifs with hl
      · simp [hl]
      · simp
    · rw [AList.lookup_insert_ne (Ne.symm hk), List.filter_cons_of_neg (by simpa using hk)]

theorem lookup_groupBy (key : α → κ) (val : α → ν) (l : List α) (k : κ) :
    (groupBy key val l).lookup k =
      if l.filter (fun a => key a = k) = [] then none
      else some ((l.filter fun a => key a = k).map val) := by
  rw [groupBy, groupBy_loop]
  simp

end Keyed
end Assoc
end Foundation
