import Mathlib.Tactic.SplitIfs

/-! Labelled transition systems whose nondeterminism is carried by the labels, and
the invariant rules for the states their runs reach. -/
namespace Foundation

/-- A transition system. `step s l` is the state after `l`, or `none` when `l` is not
enabled in `s`. -/
structure System (σ ℓ : Type*) where
  init : σ → Prop
  step : σ → ℓ → Option σ

namespace System
variable {σ ℓ : Type*} (M : System σ ℓ)

/-- States reached by runs whose steps all meet the condition `ok`. -/
inductive ReachableVia (ok : σ → ℓ → Prop) : σ → Prop
  | init {s : σ} : M.init s → ReachableVia ok s
  | step {s t : σ} {l : ℓ} : ReachableVia ok s → ok s l → M.step s l = some t → ReachableVia ok t

def Reachable (s : σ) : Prop := M.ReachableVia (fun _ _ => True) s

variable {M} {ok : σ → ℓ → Prop}

/-- The invariant rule: what holds initially and survives every admitted step holds in
every reached state. -/
theorem ReachableVia.invariant {I : σ → Prop} (hinit : ∀ s, M.init s → I s)
    (hstep : ∀ s l t, I s → ok s l → M.step s l = some t → I t)
    {s : σ} (h : M.ReachableVia ok s) : I s := by
  induction h with
  | init hs => exact hinit _ hs
  | step _ hl ht ih => exact hstep _ _ _ ih hl ht

theorem ReachableVia.mono {ok' : σ → ℓ → Prop} (hok : ∀ s l, ok s l → ok' s l)
    {s : σ} (h : M.ReachableVia ok s) : M.ReachableVia ok' s := by
  induction h with
  | init hs => exact .init hs
  | step _ hl ht ih => exact .step ih (hok _ _ hl) ht

theorem ReachableVia.reachable {s : σ} (h : M.ReachableVia ok s) : M.Reachable s :=
  h.mono fun _ _ _ => trivial

theorem Reachable.step {s t : σ} {l : ℓ} (h : M.Reachable s) (ht : M.step s l = some t) :
    M.Reachable t :=
  ReachableVia.step h trivial ht

/-- The invariant rule for a system without side conditions on its steps. -/
theorem Reachable.invariant {I : σ → Prop} (hinit : ∀ s, M.init s → I s)
    (hstep : ∀ s l t, I s → M.step s l = some t → I t) {s : σ} (h : M.Reachable s) : I s :=
  ReachableVia.invariant hinit (fun s l t hi _ ht => hstep s l t hi ht) h

/-- The rule for a condition that is exact: if in good states a step keeps `P` exactly when it meets the
condition, then `P` holds in every run of steps that meet it, and fails after any other step. -/
theorem ReachableVia.exactly {I P : σ → Prop} (hinit : ∀ s, M.init s → I s ∧ P s)
    (hstep : ∀ s l t, I s → M.step s l = some t → I t)
    (hiff : ∀ s l t, I s → P s → M.step s l = some t → (P t ↔ ok s l))
    {s : σ} (h : M.ReachableVia ok s) : P s ∧ ∀ l t, M.step s l = some t → (P t ↔ ok s l) := by
  have hs : I s ∧ P s := by
    refine h.invariant (I := fun s => I s ∧ P s) hinit fun s l t hi hok ht => ?_
    exact ⟨hstep s l t hi.1 ht, (hiff s l t hi.1 hi.2 ht).mpr hok⟩
  exact ⟨hs.2, fun l t ht => hiff s l t hs.1 hs.2 ht⟩

variable (M)

/-- Execution of a list of labels, refusing the steps that fail the test `ok`. -/
def runVia (ok : σ → ℓ → Bool) : σ → List ℓ → Option σ
  | s, [] => some s
  | s, l :: ls => if ok s l then (M.step s l).bind fun t => runVia ok t ls else none

def run (s : σ) (ls : List ℓ) : Option σ := M.runVia (fun _ _ => true) s ls

variable {M}

theorem ReachableVia.runVia {p : σ → ℓ → Bool} (hp : ∀ s l, p s l = true → ok s l)
    {s t : σ} (hs : M.ReachableVia ok s) (ls : List ℓ)
    (h : M.runVia p s ls = some t) : M.ReachableVia ok t := by
  induction ls generalizing s with
  | nil =>
    obtain rfl : s = t := Option.some.inj h
    exact hs
  | cons l ls ih =>
    simp only [System.runVia] at h
    split_ifs at h with hl
    obtain ⟨u, hu, hrest⟩ := Option.bind_eq_some_iff.mp h
    exact ih (hs.step (hp s l hl) hu) hrest

theorem Reachable.run {s t : σ} (hs : M.Reachable s) (ls : List ℓ) (h : M.run s ls = some t) :
    M.Reachable t :=
  ReachableVia.runVia (p := fun _ _ => true) (fun _ _ _ => trivial) hs ls h

theorem run_cons (s : σ) (l : ℓ) (ls : List ℓ) :
    M.run s (l :: ls) = (M.step s l).bind fun t => M.run t ls := rfl

theorem exists_run_cons {P : σ → Prop} {s t : σ} {l : ℓ} (h : M.step s l = some t)
    (hrun : ∃ ls u, M.run t ls = some u ∧ P u) : ∃ ls u, M.run s ls = some u ∧ P u := by
  obtain ⟨ls, u, hu, hp⟩ := hrun
  refine ⟨l :: ls, u, ?_, hp⟩
  rw [run_cons, h]
  exact hu

theorem run_invariant {I : σ → Prop} (hstep : ∀ s l t, I s → M.step s l = some t → I t)
    {s t : σ} (hs : I s) (ls : List ℓ) (h : M.run s ls = some t) : I t := by
  induction ls generalizing s with
  | nil =>
    obtain rfl : s = t := Option.some.inj h
    exact hs
  | cons l ls ih =>
    rw [run_cons, Option.bind_eq_some_iff] at h
    obtain ⟨u, hu, hrest⟩ := h
    exact ih (hstep s l u hs hu) hrest

variable (M)

/-- The system with a record beside its state, which the steps write and never read. -/
def record {ρ : Type*} (start : ρ) (write : σ → ℓ → ρ → ρ) : System (σ × ρ) ℓ where
  init s := M.init s.1 ∧ s.2 = start
  step s l := (M.step s.1 l).map fun t => (t, write s.1 l s.2)

variable {M} {ρ : Type*} {start : ρ} {write : σ → ℓ → ρ → ρ}

theorem record_step {s : σ} {r : ρ} {l : ℓ} {t : σ × ρ} :
    (M.record start write).step (s, r) l = some t ↔
      M.step s l = some t.1 ∧ t.2 = write s l r := by
  obtain ⟨t, r'⟩ := t
  simp only [record, Option.map_eq_some_iff, Prod.mk.injEq]
  constructor
  · rintro ⟨_, h, rfl, rfl⟩
    exact ⟨h, rfl⟩
  · rintro ⟨h, rfl⟩
    exact ⟨t, h, rfl, rfl⟩

theorem Reachable.of_record {s : σ × ρ} (h : (M.record start write).Reachable s) : M.Reachable s.1 := by
  refine Reachable.invariant (I := fun s => M.Reachable s.1) ?_ ?_ h
  · intro s hs
    exact .init hs.1
  · intro s l t hs ht
    exact hs.step (record_step.mp ht).1

theorem exists_record {N : System (σ × ρ) ℓ}
    (hN : ∀ s r l, N.step (s, r) l = (M.step s l).map fun t => (t, write s l r))
    {ls : List ℓ} {s t : σ} (r : ρ) (h : M.run s ls = some t) :
    ∃ r', N.run (s, r) ls = some (t, r') := by
  induction ls generalizing s r with
  | nil =>
    obtain rfl : s = t := Option.some.inj h
    exact ⟨r, rfl⟩
  | cons l ls ih =>
    rw [run_cons, Option.bind_eq_some_iff] at h
    obtain ⟨u, hstep, hrest⟩ := h
    obtain ⟨r', hrun⟩ := ih (write s l r) hrest
    refine ⟨r', ?_⟩
    rw [run_cons, hN, hstep]
    exact hrun

variable (M)

def Stuck (s : σ) : Prop := ∀ l, M.step s l = none

variable {M}

/-- A system that can lower a measure in every state that is not yet as wanted has a run into such a
state. -/
theorem exists_run_until {I P : σ → Prop} (measure : σ → Nat)
    (hstep : ∀ s, I s → P s ∨ ∃ l t, M.step s l = some t ∧ I t ∧ measure t < measure s)
    {s : σ} (hs : I s) : ∃ ls t, M.run s ls = some t ∧ I t ∧ P t := by
  induction hn : measure s using Nat.strongRecOn generalizing s with
  | ind n ih =>
    rcases hstep s hs with hp | ⟨l, t, ht, hit, hlt⟩
    · exact ⟨[], s, rfl, hs, hp⟩
    · exact exists_run_cons ht (ih (measure t) (hn ▸ hlt) hit rfl)

/-- A system that can lower a measure in every state that is not stuck has a run into a
stuck state. -/
theorem exists_run_stuck {I : σ → Prop} (measure : σ → Nat)
    (hstep : ∀ s, I s → M.Stuck s ∨ ∃ l t, M.step s l = some t ∧ I t ∧ measure t < measure s)
    {s : σ} (hs : I s) : ∃ ls t, M.run s ls = some t ∧ I t ∧ M.Stuck t :=
  exists_run_until measure hstep hs

end System
end Foundation
