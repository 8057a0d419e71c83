import Mathlib.Data.Fintype.Basic
import Mathlib.Data.Finset.Card
import Mathlib.Algebra.Order.BigOperators.Group.Finset

/-! A wait group whose workers add themselves to the counter after they were launched. -/
namespace Foundation

/-- Where a worker is: not launched, before its `Add`, between `Add` and `Done`, or after `Done`. -/
inductive WorkerPhase
  | absent
  | launched
  | running
  | finished
  deriving DecidableEq

/-- The steps that the wait group still expects of a worker. -/
def WorkerPhase.left : WorkerPhase → ℕ
  | .absent => 0
  | .launched => 2
  | .running => 1
  | .finished => 0

/-- The counter is the number of workers between `Add` and `Done`. -/
structure WaitGroup (ι : Type*) [Fintype ι] where
  counter : ℕ
  phase : ι → WorkerPhase
  counter_eq : counter = (Finset.univ.filter fun i => phase i = .running).card

namespace WaitGroup
variable {ι : Type*} [Fintype ι] {g : WaitGroup ι} {i : ι}

/-- Some workers are launched, and none of them has run yet. -/
def launch (workers : ι → Bool) : WaitGroup ι where
  counter := 0
  phase i := if workers i then .launched else .absent
  counter_eq := by
    rw [eq_comm, Finset.card_eq_zero, Finset.filter_eq_empty_iff]
    intro i _
    split_ifs
    · exact not_false
    · exact not_false

def add [DecidableEq ι] (g : WaitGroup ι) (i : ι) (hi : g.phase i = .launched) : WaitGroup ι where
  counter := g.counter + 1
  phase := Function.update g.phase i .running
  counter_eq := by
    have hset : (Finset.univ.filter fun j => Function.update g.phase i .running j = .running) =
        insert i (Finset.univ.filter fun j => g.phase j = .running) := by
      ext j
      by_cases hj : j = i
      · simp [hj]
      · simp [hj]
    rw [hset, Finset.card_insert_of_notMem (by simp [hi]), g.counter_eq]

def finish [DecidableEq ι] (g : WaitGroup ι) (i : ι) (hi : g.phase i = .running) : WaitGroup ι where
  counter := g.counter - 1
  phase := Function.update g.phase i .finished
  counter_eq := by
    have hset : (Finset.univ.filter fun j => Function.update g.phase i .finished j = .running) =
        (Finset.univ.filter fun j => g.phase j = .running).erase i := by
      ext j
      by_cases hj : j = i
      · simp [hj]
      · simp [hj]
    rw [hset, Finset.card_erase_of_mem (by simp [hi]), g.counter_eq]

def Settled (g : WaitGroup ι) : Prop := ∀ i, g.phase i = .absent ∨ g.phase i = .finished

def Started (g : WaitGroup ι) : Prop := ∀ i, g.phase i ≠ .launched

instance : Decidable g.Settled := inferInstanceAs (Decidable (∀ _, _))

instance : Decidable g.Started := inferInstanceAs (Decidable (∀ _, _))

theorem counter_eq_zero_iff : g.counter = 0 ↔ ∀ i, g.phase i ≠ .running := by
  rw [g.counter_eq, Finset.card_eq_zero, Finset.filter_eq_empty_iff]
  simp

/-- When `Wait` returns, the workers have finished exactly if all of them had started. -/
theorem settled_iff_started (h : g.counter = 0) : g.Settled ↔ g.Started := by
  have hrun := counter_eq_zero_iff.mp h
  constructor
  · intro hs i hi
    rcases hs i with ha | hf
    · simp [hi] at ha
    · simp [hi] at hf
  · intro hs i
    cases hp : g.phase i with
    | absent => exact .inl rfl
    | launched => exact absurd hp (hs i)
    | running => exact absurd hp (hrun i)
    | finished => exact .inr rfl

theorem Settled.not_launched (h : g.Settled) : g.phase i ≠ .launched := by
  intro hi
  rcases h i with ha | hf
  · simp [hi] at ha
  · simp [hi] at hf

theorem Settled.not_running (h : g.Settled) : g.phase i ≠ .running := by
  intro hi
  rcases h i with ha | hf
  · simp [hi] at ha
  · simp [hi] at hf

def left (g : WaitGroup ι) : ℕ := ∑ i, (g.phase i).left

private theorem sum_left_update_lt [DecidableEq ι] {phase : ι → WorkerPhase} {p : WorkerPhase}
    (h : p.left < (phase i).left) :
    ∑ j, (Function.update phase i p j).left < ∑ j, (phase j).left := by
  apply Finset.sum_lt_sum
  · intro j _
    by_cases hj : j = i
    · subst hj
      simpa using h.le
    · simp [hj]
  · exact ⟨i, Finset.mem_univ i, by simpa using h⟩

theorem left_add_lt [DecidableEq ι] (h : g.phase i = .launched) : (g.add i h).left < g.left :=
  sum_left_update_lt (by simp [h, WorkerPhase.left])

theorem left_finish_lt [DecidableEq ι] (h : g.phase i = .running) :
    (g.finish i h).left < g.left :=
  sum_left_update_lt (by simp [h, WorkerPhase.left])

end WaitGroup
end Foundation
