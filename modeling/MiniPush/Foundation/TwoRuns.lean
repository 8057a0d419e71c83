import MiniPush.Foundation.Transaction
import MiniPush.Foundation.Transition

/-! Two runs side by side, from states that an observer cannot tell apart: programs inside a
transaction, whole transactions, and runs of systems of which one leaves out the hidden steps. -/
namespace Foundation
namespace Tx
universe u
variable {σ ε : Type u} {α β : Type u} {R : σ → σ → Prop}

/-- Outcomes of a statement in the two runs: the same error, or the same result and related stores. -/
def Agree (R : σ → σ → Prop) : Except ε (α × σ) → Except ε (α × σ) → Prop
  | .ok r, .ok r' => r.1 = r'.1 ∧ R r.2 r'.2
  | .error e, .error e' => e = e'
  | _, _ => False

/-- Under the same faults the program has the same outcome in related stores, which stay related. -/
def Respects (R : σ → σ → Prop) (x : Tx σ ε α) : Prop :=
  ∀ s s', R s.db s'.db → s.faults = s'.faults →
    (x s).1 = (x s').1 ∧ R (x s).2.db (x s').2.db ∧ (x s).2.faults = (x s').2.faults

theorem Respects.pure (a : α) : Respects R (Pure.pure a : Tx σ ε α) :=
  fun _ _ hdb hfaults => ⟨rfl, hdb, hfaults⟩

theorem Respects.throw (e : ε) : Respects R (Tx.throw e : Tx σ ε α) :=
  fun _ _ hdb hfaults => ⟨rfl, hdb, hfaults⟩

theorem Respects.attempt {x : Tx σ ε α} (hx : Respects R x) : Respects R x.attempt := by
  intro s s' hdb hfaults
  obtain ⟨hres, hrest⟩ := hx s s' hdb hfaults
  rw [attempt_apply, attempt_apply]
  exact ⟨congrArg Except.ok hres, hrest⟩

theorem Respects.bind {x : Tx σ ε α} {f : α → Tx σ ε β} (hx : Respects R x)
    (hf : ∀ a, Respects R (f a)) : Respects R (x >>= f) := by
  intro s s' hdb hfaults
  obtain ⟨hres, hdb', hfaults'⟩ := hx s s' hdb hfaults
  rw [bind_apply, bind_apply]
  rcases hxs : x s with ⟨e | a, t⟩ <;> rcases hxs' : x s' with ⟨e' | a', t'⟩ <;>
    rw [hxs, hxs'] at hres hdb' hfaults'
  · obtain rfl := Except.error.inj hres
    exact ⟨rfl, hdb', hfaults'⟩
  · cases hres
  · cases hres
  · obtain rfl := Except.ok.inj hres
    exact hf a t t' hdb' hfaults'

/-- A statement strikes the same fault in both runs, or none. -/
theorem Respects.statement {f : σ → Except ε (α × σ)} (hf : ∀ db db', R db db' → Agree R (f db) (f db')) :
    Respects R (Tx.statement f) := by
  rintro ⟨db, faults⟩ ⟨db', faults'⟩ hdb hfaults
  obtain rfl : faults = faults' := hfaults
  rcases hfault : faults.headD none with _ | e
  · have hagree := hf db db' hdb
    cases hr : f db <;> cases hr' : f db' <;> rw [hr, hr'] at hagree
    · rw [statement_error_of_no_fault hfault hr, statement_error_of_no_fault hfault hr']
      exact ⟨congrArg Except.error hagree, hdb, rfl⟩
    · exact hagree.elim
    · exact hagree.elim
    · rw [statement_of_no_fault hfault hr, statement_of_no_fault hfault hr']
      exact ⟨congrArg Except.ok hagree.1, hagree.2, rfl⟩
  · cases faults with
    | nil => cases hfault
    | cons fault faults =>
      obtain rfl : fault = some e := hfault
      exact ⟨rfl, hdb, rfl⟩

/-- The loop rule: the two runs go through the same elements with the same accumulator. -/
theorem Respects.foldlM {γ : Type u} {f : β → γ → Tx σ ε β} (hf : ∀ b a, Respects R (f b a))
    (l : List γ) (b : β) : Respects R (l.foldlM f b) := by
  induction l generalizing b with
  | nil => exact .pure b
  | cons a l ih =>
    rw [List.foldlM_cons]
    exact .bind (hf b a) ih

end Tx

section
universe u
variable {σ ε α : Type u} {R : σ → σ → Prop}

/-- The transaction rule: in related stores a transaction has the same outcome. -/
theorem withTx_respects {body : Tx σ ε α} (h : Tx.Respects R body) (env : TxEnv ε) {db db' : σ}
    (hdb : R db db') : (withTx env body db).1 = (withTx env body db').1 ∧
      R (withTx env body db).2 (withTx env body db').2 := by
  unfold withTx
  cases env.begin with
  | some e => exact ⟨rfl, hdb⟩
  | none =>
    obtain ⟨hres, hrel, -⟩ := h ⟨db, env.faults⟩ ⟨db', env.faults⟩ hdb rfl
    dsimp only
    rcases hb : body ⟨db, env.faults⟩ with ⟨e | a, t⟩ <;>
      rcases hb' : body ⟨db', env.faults⟩ with ⟨e' | a', t'⟩ <;> rw [hb, hb'] at hres hrel
    · exact ⟨hres, hdb⟩
    · cases hres
    · cases hres
    · obtain rfl := Except.ok.inj hres
      cases env.commit with
      | done => exact ⟨rfl, hrel⟩
      | failed e => exact ⟨rfl, hdb⟩
      | unacknowledged e => exact ⟨rfl, hrel⟩

end

namespace System
variable {σ σ' ℓ ο : Type*}

/-- What an observer sees of a run. Labels that are not enabled are passed over. -/
def observe (M : System σ ℓ) (see : σ → ℓ → List ο) : σ → List ℓ → List ο
  | _, [] => []
  | s, l :: ls =>
    match M.step s l with
    | some t => see s l ++ observe M see t ls
    | none => observe M see s ls

/-- The unwinding conditions: a hidden step of `M` shows nothing and keeps the relation, and any other
step is possible in both systems or in neither, shows the same and keeps the relation. -/
structure Unwinding (M : System σ ℓ) (N : System σ' ℓ) (see : σ → ℓ → List ο) (see' : σ' → ℓ → List ο)
    (hidden : ℓ → Bool) (R : σ → σ' → Prop) : Prop where
  skip : ∀ s s' l t, R s s' → hidden l = true → M.step s l = some t → see s l = [] ∧ R t s'
  both : ∀ s s' l, R s s' → hidden l = false → see s l = see' s' l ∧
    (M.step s l = none ∧ N.step s' l = none ∨
      ∃ t t', M.step s l = some t ∧ N.step s' l = some t' ∧ R t t')

/-- Noninterference: the observer sees the same whether the hidden labels are there or not. -/
theorem Unwinding.observe_eq {M : System σ ℓ} {N : System σ' ℓ} {see : σ → ℓ → List ο}
    {see' : σ' → ℓ → List ο} {hidden : ℓ → Bool} {R : σ → σ' → Prop}
    (h : Unwinding M N see see' hidden R) {s : σ} {s' : σ'} (hs : R s s') (ls : List ℓ) :
    M.observe see s ls = N.observe see' s' (ls.filter fun l => !hidden l) := by
  induction ls generalizing s s' with
  | nil => rfl
  | cons l ls ih =>
    cases hl : hidden l with
    | true =>
      rw [List.filter_cons_of_neg (by simp [hl]), observe]
      cases hstep : M.step s l with
      | none => exact ih hs
      | some t =>
        obtain ⟨hsee, ht⟩ := h.skip s s' l t hs hl hstep
        simp only [hsee, List.nil_append]
        exact ih ht
    | false =>
      rw [List.filter_cons_of_pos (by simp [hl]), observe, observe]
      obtain ⟨hsee, ⟨hnone, hnone'⟩ | ⟨t, t', ht, ht', hrel⟩⟩ := h.both s s' l hs hl
      · rw [hnone, hnone']
        exact ih hs
      · rw [ht, ht', hsee]
        simp only [ih hrel]

end System
end Foundation
