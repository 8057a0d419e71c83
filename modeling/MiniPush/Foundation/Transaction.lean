import Mathlib.Tactic.SplitIfs

/-! Transactions against a store: statements that may fail, a client that may catch the
failures, and a commit whose outcome the client may not learn. Failures come from the
statement itself or from a list of faults chosen by the environment. -/
namespace Foundation

/-- The store as an open transaction sees it, and the faults waiting for its next
statements: entry `some e` makes the statement fail with `e`. -/
structure TxState (σ ε : Type*) where
  db : σ
  faults : List (Option ε)

/-- A client program run inside a transaction. -/
def Tx (σ ε α : Type*) := TxState σ ε → Except ε α × TxState σ ε

namespace Tx
universe u
variable {σ ε : Type u} {α β : Type u}

instance : Monad (Tx σ ε) where
  pure a := fun s => (.ok a, s)
  bind x f := fun s =>
    match x s with
    | (.ok a, t) => f a t
    | (.error e, t) => (.error e, t)

def throw (e : ε) : Tx σ ε α := fun s => (.error e, s)

/-- Run a program and hand its outcome, error or not, to the client. -/
def attempt (x : Tx σ ε α) : Tx σ ε (Except ε α) := fun s => (.ok (x s).1, (x s).2)

/-- One statement. A failing statement leaves the store as it was. -/
def statement (f : σ → Except ε (α × σ)) : Tx σ ε α := fun s =>
  match s.faults with
  | some e :: fs => (.error e, ⟨s.db, fs⟩)
  | fs =>
    match f s.db with
    | .ok (a, db) => (.ok a, ⟨db, fs.tail⟩)
    | .error e => (.error e, ⟨s.db, fs.tail⟩)

@[simp] theorem throw_apply (e : ε) (s : TxState σ ε) : (throw e : Tx σ ε α) s = (.error e, s) := rfl

@[simp] theorem attempt_apply (x : Tx σ ε α) (s : TxState σ ε) :
    attempt x s = (.ok (x s).1, (x s).2) := rfl

theorem bind_apply (x : Tx σ ε α) (f : α → Tx σ ε β) (s : TxState σ ε) :
    (x >>= f) s = match x s with
      | (.ok a, t) => f a t
      | (.error e, t) => (.error e, t) := rfl

theorem bind_of_ok {x : Tx σ ε α} {f : α → Tx σ ε β} {s t : TxState σ ε} {a : α}
    (h : x s = (.ok a, t)) : (x >>= f) s = f a t := by
  rw [bind_apply, h]

theorem bind_of_error {x : Tx σ ε α} {f : α → Tx σ ε β} {s t : TxState σ ε} {e : ε}
    (h : x s = (.error e, t)) : (x >>= f) s = (.error e, t) := by
  rw [bind_apply, h]

theorem statement_nil (f : σ → Except ε (α × σ)) (db : σ) :
    statement f ⟨db, []⟩ = match f db with
      | .ok (a, db') => (.ok a, ⟨db', []⟩)
      | .error e => (.error e, ⟨db, []⟩) := rfl

theorem statement_of_ok {f : σ → Except ε (α × σ)} {db db' : σ} {a : α} (h : f db = .ok (a, db')) :
    statement f ⟨db, []⟩ = (.ok a, ⟨db', []⟩) := by
  rw [statement_nil, h]

theorem statement_of_error {f : σ → Except ε (α × σ)} {db : σ} {e : ε} (h : f db = .error e) :
    statement f ⟨db, []⟩ = (.error e, ⟨db, []⟩) := by
  rw [statement_nil, h]

theorem statement_of_fault (f : σ → Except ε (α × σ)) (db : σ) (e : ε) (faults : List (Option ε)) :
    statement f ⟨db, some e :: faults⟩ = (.error e, ⟨db, faults⟩) := rfl

theorem statement_of_no_fault {f : σ → Except ε (α × σ)} {db db' : σ} {a : α}
    {faults : List (Option ε)} (hfault : faults.headD none = none) (h : f db = .ok (a, db')) :
    statement f ⟨db, faults⟩ = (.ok a, ⟨db', faults.tail⟩) := by
  cases faults with
  | nil => exact statement_of_ok h
  | cons fault faults =>
    obtain rfl : fault = none := hfault
    simp only [statement, h]

theorem statement_error_of_no_fault {f : σ → Except ε (α × σ)} {db : σ} {e : ε}
    {faults : List (Option ε)} (hfault : faults.headD none = none) (h : f db = .error e) :
    statement f ⟨db, faults⟩ = (.error e, ⟨db, faults.tail⟩) := by
  cases faults with
  | nil => exact statement_of_error h
  | cons fault faults =>
    obtain rfl : fault = none := hfault
    simp only [statement, h]

/-- Pre- and postconditions on the store, for the runs that succeed: what a failing run
leaves behind is rolled back. -/
def Triple (P : σ → Prop) (x : Tx σ ε α) (Q : α → σ → Prop) : Prop :=
  ∀ s a t, P s.db → x s = (.ok a, t) → Q a t.db

variable {P : σ → Prop} {Q : α → σ → Prop}

theorem Triple.pure (a : α) (h : ∀ db, P db → Q a db) : Triple P (Pure.pure a : Tx σ ε α) Q := by
  rintro s b t hs hr
  cases hr
  exact h s.db hs

theorem Triple.throw (e : ε) : Triple P (Tx.throw e) Q := by
  rintro s a t - hr
  cases hr

theorem Triple.mono {P' : σ → Prop} {x : Tx σ ε α} {Q' : α → σ → Prop}
    (h : Triple P x Q) (hP : ∀ db, P' db → P db) (hQ : ∀ a db, Q a db → Q' a db) :
    Triple P' x Q' :=
  fun s a t hs hr => hQ _ _ (h s a t (hP _ hs) hr)

/-- Sequencing: the second program runs only after a success of the first. -/
theorem Triple.bind {x : Tx σ ε α} {f : α → Tx σ ε β} {R : β → σ → Prop}
    (hx : Triple P x Q) (hf : ∀ a, Triple (Q a) (f a) R) : Triple P (x >>= f) R := by
  intro s b u hs hr
  rw [bind_apply] at hr
  rcases hxs : x s with ⟨_ | a, t⟩
  · rw [hxs] at hr
    cases hr
  · rw [hxs] at hr
    exact hf a t b u (hx s a t hs hxs) hr

theorem Triple.statement {f : σ → Except ε (α × σ)}
    (h : ∀ db a db', P db → f db = .ok (a, db') → Q a db') : Triple P (Tx.statement f) Q := by
  intro s a t hs hr
  unfold Tx.statement at hr
  split at hr
  · cases hr
  · cases hf : f s.db with
    | error e =>
      rw [hf] at hr
      cases hr
    | ok r =>
      rw [hf] at hr
      cases hr
      exact h _ _ _ hs hf

/-- An attempted statement either fails and changes nothing or takes the step `f`
describes. -/
theorem Triple.attempt {f : σ → Except ε (α × σ)} {R : Except ε α → σ → Prop}
    (herr : ∀ db e, P db → R (.error e) db)
    (hok : ∀ db a db', P db → f db = .ok (a, db') → R (.ok a) db') :
    Triple P (Tx.statement f).attempt R := by
  intro s r t hs hr
  rw [attempt_apply] at hr
  cases hr
  unfold Tx.statement
  split
  · exact herr _ _ hs
  · cases hf : f s.db with
    | error e => exact herr _ _ hs
    | ok r => exact hok _ _ _ hs hf

/-- The loop rule: `I done b` holds after the elements `done` with accumulator `b`. -/
theorem Triple.foldlM {γ : Type u} {I : List γ → β → σ → Prop} {f : β → γ → Tx σ ε β}
    (hstep : ∀ done a b, Triple (I done b) (f b a) (I (done ++ [a])))
    (done todo : List γ) (b : β) :
    Triple (I done b) (todo.foldlM f b) (I (done ++ todo)) := by
  induction todo generalizing done b with
  | nil => exact Triple.pure b fun db hdb => by simpa using hdb
  | cons a todo ih =>
    rw [List.foldlM_cons]
    refine Triple.bind (hstep done a b) fun b' => ?_
    simpa using ih (done ++ [a]) b'

/-- Pre- and postconditions with success: as long as no fault is pending the program succeeds. -/
def Total (P : σ → Prop) (x : Tx σ ε α) (Q : α → σ → Prop) : Prop :=
  ∀ db, P db → ∃ a db', x ⟨db, []⟩ = (.ok a, ⟨db', []⟩) ∧ Q a db'

theorem Total.pure (a : α) (h : ∀ db, P db → Q a db) : Total P (Pure.pure a : Tx σ ε α) Q :=
  fun db hdb => ⟨a, db, rfl, h db hdb⟩

theorem Total.bind {x : Tx σ ε α} {f : α → Tx σ ε β} {R : β → σ → Prop}
    (hx : Total P x Q) (hf : ∀ a, Total (Q a) (f a) R) : Total P (x >>= f) R := by
  intro db hdb
  obtain ⟨a, db₁, hxs, hq⟩ := hx db hdb
  obtain ⟨b, db₂, hfs, hr⟩ := hf a db₁ hq
  exact ⟨b, db₂, by rw [bind_of_ok hxs, hfs], hr⟩

theorem Total.statement {f : σ → Except ε (α × σ)}
    (h : ∀ db, P db → ∃ a db', f db = .ok (a, db') ∧ Q a db') : Total P (Tx.statement f) Q := by
  intro db hdb
  obtain ⟨a, db', hf, hq⟩ := h db hdb
  exact ⟨a, db', statement_of_ok hf, hq⟩

theorem Total.foldlM {γ : Type u} {I : List γ → β → σ → Prop} {f : β → γ → Tx σ ε β} {l : List γ}
    (hstep : ∀ done a rest b, l = done ++ a :: rest → Total (I done b) (f b a) (I (done ++ [a])))
    (done todo : List γ) (hl : l = done ++ todo) (b : β) :
    Total (I done b) (todo.foldlM f b) (I l) := by
  induction todo generalizing done b with
  | nil =>
    rw [List.append_nil] at hl
    exact Total.pure b fun db hdb => hl ▸ hdb
  | cons a todo ih =>
    rw [List.foldlM_cons]
    refine Total.bind (hstep done a todo b hl) fun b' => ?_
    exact ih (done ++ [a]) (by rw [hl, List.append_assoc, List.singleton_append]) b'

theorem Total.and {x : Tx σ ε α} {Q' : α → σ → Prop} (h : Total P x Q) (h' : Triple P x Q') :
    Total P x fun a db => Q a db ∧ Q' a db := by
  intro db hdb
  obtain ⟨a, db', hxs, hq⟩ := h db hdb
  exact ⟨a, db', hxs, hq, h' ⟨db, []⟩ a ⟨db', []⟩ hdb hxs⟩

/-- Without a pending fault at the start there is none at the end. -/
def Calm (x : Tx σ ε α) : Prop := ∀ db, (x ⟨db, []⟩).2.faults = []

theorem Calm.pure (a : α) : Calm (Pure.pure a : Tx σ ε α) := fun _ => rfl

theorem Calm.throw (e : ε) : Calm (Tx.throw e : Tx σ ε α) := fun _ => rfl

theorem Calm.bind {x : Tx σ ε α} {f : α → Tx σ ε β} (hx : Calm x) (hf : ∀ a, Calm (f a)) :
    Calm (x >>= f) := by
  intro db
  have hxs := hx db
  rw [bind_apply]
  rcases hrun : x ⟨db, []⟩ with ⟨_ | a, db₁, faults⟩ <;> rw [hrun] at hxs
  · exact hxs
  · obtain rfl : faults = [] := hxs
    exact hf a db₁

theorem Calm.statement (f : σ → Except ε (α × σ)) : Calm (Tx.statement f) := by
  intro db
  rw [statement_nil]
  cases f db <;> rfl

theorem Calm.attempt {x : Tx σ ε α} (hx : Calm x) : Calm x.attempt := hx

theorem Total.of_ok {x : Tx σ ε α} (hx : Calm x) (h : ∀ db, P db → ∃ a, (x ⟨db, []⟩).1 = .ok a) :
    Total P x fun _ _ => True := by
  intro db hdb
  obtain ⟨a, ha⟩ := h db hdb
  have hxs := hx db
  rcases hrun : x ⟨db, []⟩ with ⟨r, db', faults⟩
  rw [hrun] at ha hxs
  obtain rfl : r = .ok a := ha
  obtain rfl : faults = [] := hxs
  exact ⟨a, db', rfl, trivial⟩

/-- The program only reads: it leaves the store as it was, also when it fails. -/
def ReadOnly (x : Tx σ ε α) : Prop := ∀ s, (x s).2.db = s.db

theorem ReadOnly.pure (a : α) : ReadOnly (Pure.pure a : Tx σ ε α) := fun _ => rfl

theorem ReadOnly.throw (e : ε) : ReadOnly (Tx.throw e : Tx σ ε α) := fun _ => rfl

theorem ReadOnly.attempt {x : Tx σ ε α} (hx : ReadOnly x) : ReadOnly x.attempt := hx

theorem ReadOnly.bind {x : Tx σ ε α} {f : α → Tx σ ε β} (hx : ReadOnly x) (hf : ∀ a, ReadOnly (f a)) :
    ReadOnly (x >>= f) := by
  intro s
  have hxs := hx s
  rw [bind_apply]
  rcases hrun : x s with ⟨_ | a, t⟩ <;> rw [hrun] at hxs
  · exact hxs
  · exact (hf a t).trans hxs

theorem ReadOnly.statement {f : σ → Except ε (α × σ)} (hf : ∀ db a db', f db = .ok (a, db') → db' = db) :
    ReadOnly (Tx.statement f) := by
  intro s
  unfold Tx.statement
  split
  · rfl
  · cases hr : f s.db with
    | error e => rfl
    | ok r => exact hf _ _ _ hr

end Tx

/-- What becomes of the commit: it succeeds, it fails, or it succeeds and the client is
told it failed. -/
inductive CommitOutcome (ε : Type*)
  | done
  | failed (e : ε)
  | unacknowledged (e : ε)
  deriving DecidableEq

/-- The environment's part in one transaction. -/
structure TxEnv (ε : Type*) where
  begin : Option ε
  faults : List (Option ε)
  commit : CommitOutcome ε
  deriving DecidableEq

def TxEnv.calm {ε : Type*} : TxEnv ε := ⟨none, [], .done⟩

section
universe u
variable {σ ε α : Type u}

/-- Begin, run the body, then commit, or roll back to the old store when the body fails. -/
def withTx (env : TxEnv ε) (body : Tx σ ε α) (db : σ) : Except ε α × σ :=
  match env.begin with
  | some e => (.error e, db)
  | none =>
    match body ⟨db, env.faults⟩ with
    | (.error e, _) => (.error e, db)
    | (.ok a, s) =>
      match env.commit with
      | .done => (.ok a, s.db)
      | .failed e => (.error e, db)
      | .unacknowledged e => (.error e, s.db)

/-- Whether the transaction is committed, whatever the client is told. -/
def TxEnv.commits (env : TxEnv ε) (body : Tx σ ε α) (db : σ) : Bool :=
  match env.begin with
  | some _ => false
  | none =>
    match body ⟨db, env.faults⟩ with
    | (.error _, _) => false
    | (.ok _, _) =>
      match env.commit with
      | .done => true
      | .failed _ => false
      | .unacknowledged _ => true

/-- Begin, the first statement and the commit succeed. -/
def TxEnv.succeeds (env : TxEnv ε) : Bool :=
  match env.begin, env.faults.headD none, env.commit with
  | none, none, .done => true
  | _, _, _ => false

/-- A transaction that is not committed reports an error and leaves the store alone. -/
theorem withTx_of_not_commits {env : TxEnv ε} {body : Tx σ ε α} {db : σ}
    (h : env.commits body db = false) : ∃ e, withTx env body db = (.error e, db) := by
  unfold TxEnv.commits at h
  unfold withTx
  cases hb : env.begin with
  | some e => exact ⟨e, rfl⟩
  | none =>
    rw [hb] at h
    rcases hx : body ⟨db, env.faults⟩ with ⟨e | a, s⟩ <;> rw [hx] at h
    · exact ⟨e, rfl⟩
    · cases hc : env.commit with
      | failed e => exact ⟨e, rfl⟩
      | done => simp [hc] at h
      | unacknowledged e => simp [hc] at h

/-- A transaction that is committed applies the whole of a successful body. -/
theorem withTx_of_commits {env : TxEnv ε} {body : Tx σ ε α} {db : σ}
    (h : env.commits body db = true) :
    ∃ a s, body ⟨db, env.faults⟩ = (.ok a, s) ∧
      (withTx env body db = (.ok a, s.db) ∨
        ∃ e, env.commit = .unacknowledged e ∧ withTx env body db = (.error e, s.db)) := by
  unfold TxEnv.commits at h
  unfold withTx
  cases hb : env.begin with
  | some e => simp [hb] at h
  | none =>
    rw [hb] at h
    rcases hx : body ⟨db, env.faults⟩ with ⟨e | a, s⟩ <;> rw [hx] at h
    · simp at h
    · cases hc : env.commit with
      | done => exact ⟨a, s, rfl, .inl rfl⟩
      | failed e => simp [hc] at h
      | unacknowledged e => exact ⟨a, s, rfl, .inr ⟨e, rfl, rfl⟩⟩

/-- A transaction leaves the store alone or applies the whole of a successful body. -/
theorem withTx_cases (env : TxEnv ε) (body : Tx σ ε α) (db : σ) :
    (∃ e, withTx env body db = (.error e, db)) ∨
      ∃ a s, body ⟨db, env.faults⟩ = (.ok a, s) ∧
        (withTx env body db = (.ok a, s.db) ∨
          ∃ e, env.commit = .unacknowledged e ∧ withTx env body db = (.error e, s.db)) := by
  cases h : env.commits body db with
  | false => exact .inl (withTx_of_not_commits h)
  | true => exact .inr (withTx_of_commits h)

/-- The transaction rule: the new store is the old one, or one the body's postcondition
describes. -/
theorem withTx_triple {P : σ → Prop} {body : Tx σ ε α} {Q : α → σ → Prop}
    (h : Tx.Triple P body Q) (env : TxEnv ε) {db : σ} (hP : P db) :
    (∃ e, withTx env body db = (.error e, db)) ∨
      ∃ a db', Q a db' ∧ (withTx env body db = (.ok a, db') ∨
        ∃ e, env.commit = .unacknowledged e ∧ withTx env body db = (.error e, db')) := by
  rcases withTx_cases env body db with he | ⟨a, s, hb, hr⟩
  · exact .inl he
  · exact .inr ⟨a, s.db, h ⟨db, env.faults⟩ a s hP hb, hr⟩

theorem withTx_readOnly {body : Tx σ ε α} (h : Tx.ReadOnly body) (env : TxEnv ε) (db : σ) :
    (withTx env body db).2 = db := by
  have hbody := h ⟨db, env.faults⟩
  rcases withTx_cases env body db with ⟨e, he⟩ | ⟨a, s, hb, he | ⟨e, -, he⟩⟩ <;> rw [he]
  · rw [hb] at hbody
    exact hbody
  · rw [hb] at hbody
    exact hbody

/-- A transaction of one statement fails if anything around the statement does. -/
theorem withTx_statement_of_not_succeeds {β : Type u} {env : TxEnv ε} (h : env.succeeds = false)
    (f : σ → Except ε (α × σ)) (g : α → Tx σ ε β) (db : σ) :
    ∃ e, (withTx env (Tx.statement f >>= g) db).1 = .error e := by
  unfold withTx
  cases hbegin : env.begin with
  | some e => exact ⟨e, rfl⟩
  | none =>
    rcases hbody : (Tx.statement f >>= g) ⟨db, env.faults⟩ with ⟨e | b, s⟩
    · exact ⟨e, rfl⟩
    · cases hcommit : env.commit with
      | failed e => exact ⟨e, rfl⟩
      | unacknowledged e => exact ⟨e, rfl⟩
      | done =>
        -- the statement failed
        cases hfault : env.faults with
        | nil => simp [TxEnv.succeeds, hbegin, hfault, hcommit] at h
        | cons fault faults =>
          cases fault with
          | none => simp [TxEnv.succeeds, hbegin, hfault, hcommit] at h
          | some e =>
            rw [hfault, Tx.bind_of_error (Tx.statement_of_fault f db e faults)] at hbody
            cases hbody

/-- Otherwise its result is what the client makes of the answer to the statement. -/
theorem withTx_statement_of_succeeds {β : Type u} {env : TxEnv ε} (h : env.succeeds = true)
    {f : σ → Except ε (α × σ)} (g : α → Tx σ ε β) {db db' : σ} {a : α} (hf : f db = .ok (a, db')) :
    (withTx env (Tx.statement f >>= g) db).1 = (g a ⟨db', env.faults.tail⟩).1 := by
  unfold TxEnv.succeeds at h
  split at h
  · rename_i hbegin hfault hcommit
    have hstatement := Tx.statement_of_no_fault hfault hf
    simp only [withTx, hbegin, Tx.bind_of_ok hstatement, hcommit]
    rcases g a ⟨db', env.faults.tail⟩ with ⟨e | b, s⟩ <;> rfl
  · cases h

/-- Where nothing fails, a body that succeeds is committed. -/
theorem withTx_calm {P : σ → Prop} {body : Tx σ ε α} {Q : α → σ → Prop}
    (h : Tx.Total P body Q) {db : σ} (hP : P db) :
    ∃ a db', withTx .calm body db = (.ok a, db') ∧ Q a db' := by
  obtain ⟨a, db', hb, hq⟩ := h db hP
  exact ⟨a, db', by simp only [withTx, TxEnv.calm, hb], hq⟩

end
end Foundation
