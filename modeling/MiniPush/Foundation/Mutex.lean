import Mathlib.Data.Nat.Notation
import Mathlib.Logic.Function.Basic
import Mathlib.Tactic.SplitIfs

/-! Mutexes and reader-writer locks, after those of Go's `sync` package. -/
namespace Foundation

/-- A family of mutexes. `owner i` is the goroutine that holds mutex `i`; `held g` is the mutex that `g`
holds, with its position in the critical section. A goroutine holds one mutex at most. -/
structure Locks (ι γ α : Type*) where
  owner : ι → Option γ
  held : γ → Option (ι × α)
  consistent : ∀ i g, owner i = some g ↔ ∃ a, held g = some (i, a)

namespace Locks
variable {ι γ α : Type*}

def free : Locks ι γ α := ⟨fun _ => none, fun _ => none, by simp⟩

variable (L : Locks ι γ α)

theorem owner_of_held {i : ι} {g : γ} {a : α} (h : L.held g = some (i, a)) : L.owner i = some g :=
  (L.consistent i g).mpr ⟨a, h⟩

/-- Mutual exclusion. -/
theorem eq_of_held {i : ι} {g g' : γ} {a b : α} (h : L.held g = some (i, a))
    (h' : L.held g' = some (i, b)) : g = g' := by
  have hg := L.owner_of_held h
  rw [L.owner_of_held h'] at hg
  exact (Option.some.inj hg).symm

theorem held_ne_of_owner_eq_none {i : ι} (h : L.owner i = none) (g : γ) (a : α) :
    L.held g ≠ some (i, a) := by
  intro hheld
  rw [L.owner_of_held hheld] at h
  cases h

def holder (i : ι) : Option α := (L.owner i).bind fun g => (L.held g).map Prod.snd

theorem holder_eq_some_iff {i : ι} {a : α} : L.holder i = some a ↔ ∃ g, L.held g = some (i, a) := by
  unfold holder
  constructor
  · intro h
    obtain ⟨g, ho, hmap⟩ := Option.bind_eq_some_iff.mp h
    obtain ⟨b, hheld⟩ := (L.consistent i g).mp ho
    rw [hheld] at hmap
    obtain rfl : b = a := Option.some.inj hmap
    exact ⟨g, hheld⟩
  · rintro ⟨g, hheld⟩
    rw [L.owner_of_held hheld, Option.bind_some, hheld]
    rfl

section Move
variable [DecidableEq ι] [DecidableEq γ]

/-- The mutex that `g` needs next is free or its own. -/
def admits (g : γ) : Option (ι × α) → Bool
  | none => true
  | some (i, _) => (L.owner i).all (· = g)

private theorem move_consistent {g : γ} {next : Option (ι × α)} (h : L.admits g next = true) (i : ι)
    (g' : γ) :
    (if next.map Prod.fst = some i then some g else if L.owner i = some g then none else L.owner i) =
      some g' ↔ ∃ a, Function.update L.held g next g' = some (i, a) := by
  have hnext : next.map Prod.fst = some i ↔ ∃ a, next = some (i, a) := by
    rw [Option.map_eq_some_iff]
    constructor
    · rintro ⟨⟨_, a⟩, hp, rfl⟩
      exact ⟨a, hp⟩
    · rintro ⟨a, ha⟩
      exact ⟨(i, a), ha, rfl⟩
  by_cases hg : g' = g
  · rw [hg, Function.update_self, ← hnext]
    split_ifs with hi ho
    · exact iff_of_true rfl hi
    · exact iff_of_false (by simp) hi
    · exact iff_of_false ho hi
  · rw [Function.update_of_ne hg, ← L.consistent i g']
    split_ifs with hi ho
    · obtain ⟨a, rfl⟩ := hnext.mp hi
      refine iff_of_false (fun he => hg (Option.some.inj he).symm) fun he => ?_
      simp only [admits, he, Option.all_some, decide_eq_true_eq] at h
      exact hg h
    · rw [ho]
      exact iff_of_false (by simp) fun he => hg (Option.some.inj he).symm
    · exact Iff.rfl

/-- The goroutine `g` enters a critical section, moves on inside it, or leaves it. -/
def move? (g : γ) (next : Option (ι × α)) : Option (Locks ι γ α) :=
  if h : L.admits g next = true then
    some
      { owner i := if next.map Prod.fst = some i then some g else if L.owner i = some g then none
          else L.owner i
        held := Function.update L.held g next
        consistent := L.move_consistent h }
  else none

variable {L}

theorem held_of_move? {g : γ} {next : Option (ι × α)} {L' : Locks ι γ α}
    (h : L.move? g next = some L') : L'.held = Function.update L.held g next := by
  unfold move? at h
  split_ifs at h
  obtain rfl := Option.some.inj h
  rfl

theorem exists_move? {g : γ} {next : Option (ι × α)}
    (h : ∀ i a, next = some (i, a) → L.owner i = none ∨ L.owner i = some g) :
    ∃ L', L.move? g next = some L' := by
  have hadmits : L.admits g next = true := by
    cases next with
    | none => rfl
    | some p =>
      rcases h p.1 p.2 rfl with ho | ho
      · simp [admits, ho]
      · simp [admits, ho]
  exact ⟨_, dif_pos hadmits⟩

end Move
end Locks

/-- A reader-writer lock. `Lock` announces the writer, which keeps new readers out, and returns when the
readers have left. -/
structure RWMutex (γ : Type*) where
  writer : Option γ
  readers : ℕ

namespace RWMutex
variable {γ : Type*}

def free : RWMutex γ := ⟨none, 0⟩

/-- `Lock`, up to the wait for the readers. -/
def lock? (m : RWMutex γ) (g : γ) : Option (RWMutex γ) :=
  if m.writer.isNone then some { m with writer := some g } else none

def granted (m : RWMutex γ) : Bool := m.readers = 0

def unlock (m : RWMutex γ) : RWMutex γ := { m with writer := none }

def rlock? (m : RWMutex γ) : Option (RWMutex γ) :=
  if m.writer.isNone then some { m with readers := m.readers + 1 } else none

def runlock (m : RWMutex γ) : RWMutex γ := { m with readers := m.readers - 1 }

end RWMutex
end Foundation
