import Mathlib.Data.Fintype.Card
import MiniPush.Foundation.Transition
import MiniPush.Store.SaveSpec

/-! Concurrent transactions that run `incSeq` for one user, statement by statement. The row of the
user is locked from the first statement that finds or inserts it until its transaction ends; a
statement that meets the lock of another transaction waits. -/
namespace MiniPush.Store
open Foundation

/-- The next statement of `incSeq`, or the value it returned. -/
inductive IncPc
  | selectForUpdate
  | insert
  | selectAgain
  | update (seq : ℤ)
  | returned (seq : ℤ)
  deriving DecidableEq

/-- One statement of `incSeq` against the transaction's view of the database: the next statement,
the new view, and whether the row of the user is locked by it. -/
def IncPc.exec (uid : ℤ) (db : Database) : IncPc → Except SqlError (IncPc × Database × Bool)
  | .selectForUpdate =>
    match lockSeq uid db with
    | .ok (seq, db') => .ok (if seq = 0 then .insert else .update seq, db', true)
    | .error .noRows => .ok (.insert, db, false)
    | .error e => .error e
  | .insert =>
    match insertSeq uid db with
    | .ok (_, db') => .ok (.update 0, db', true)
    | .error e => if isDupKeyError e then .ok (.selectAgain, db, false) else .error e
  | .selectAgain =>
    match lockSeq uid db with
    | .ok (seq, db') => .ok (.update seq, db', true)
    | .error e => .error e
  | .update seq =>
    match increaseSeq uid seq db with
    | .ok (_, db') => .ok (.returned (int32 (seq + 1)), db', true)
    | .error e => .error e
  | .returned seq => .ok (.returned seq, db, false)

/-- The statements of `incSeq` run without interruption, at most `n` of them. -/
def IncPc.runAlone (uid : ℤ) : ℕ → IncPc → Database → Except SqlError IncPc × Database
  | 0, pc, db => (.ok pc, db)
  | n + 1, pc, db =>
    match pc.exec uid db with
    | .ok (pc', db', _) => runAlone uid n pc' db'
    | .error e => (.error e, db)

/-- The last statement of `incSeq` and its result. -/
private def updateSeq (uid seq : ℤ) : StoreTx ℤ := do
  Tx.statement (increaseSeq uid seq)
  pure (int32 (seq + 1))

private def outcome (r : Except SqlError ℤ × TxState Database SqlError) :
    Except SqlError IncPc × Database :=
  (r.1.map IncPc.returned, r.2.db)

theorem runAlone_returned (uid : ℤ) (n : ℕ) (v : ℤ) (db : Database) :
    IncPc.runAlone uid n (.returned v) db = (.ok (.returned v), db) := by
  induction n with
  | zero => rfl
  | succ n ih => exact ih

private theorem runAlone_update (uid : ℤ) (n : ℕ) (seq : ℤ) (db : Database) :
    IncPc.runAlone uid (n + 1) (.update seq) db = outcome (updateSeq uid seq ⟨db, []⟩) := by
  rw [IncPc.runAlone, IncPc.exec]
  cases hinc : increaseSeq uid seq db with
  | error e =>
    rw [updateSeq, Tx.bind_of_error (Tx.statement_of_error hinc)]
    rfl
  | ok r =>
    rw [updateSeq, Tx.bind_of_ok (Tx.statement_of_ok hinc)]
    exact runAlone_returned uid n _ _

private theorem runAlone_selectAgain (uid : ℤ) (n : ℕ) (db : Database) :
    IncPc.runAlone uid (n + 2) .selectAgain db =
      outcome ((Tx.statement (lockSeq uid) >>= updateSeq uid) ⟨db, []⟩) := by
  rw [IncPc.runAlone, IncPc.exec]
  cases hlock : lockSeq uid db with
  | error e =>
    rw [Tx.bind_of_error (Tx.statement_of_error hlock)]
    rfl
  | ok r =>
    rw [Tx.bind_of_ok (Tx.statement_of_ok hlock)]
    exact runAlone_update uid n r.1 r.2

private theorem runAlone_insert (uid : ℤ) (n : ℕ) (db : Database) :
    IncPc.runAlone uid (n + 3) .insert db =
      outcome ((insertIfNotFound uid 0 >>= updateSeq uid) ⟨db, []⟩) := by
  rw [IncPc.runAlone, IncPc.exec]
  cases hins : insertSeq uid db with
  | error e =>
    have hstmt : (Tx.statement (insertSeq uid)).attempt ⟨db, []⟩ = (.ok (.error e), ⟨db, []⟩) := by
      rw [Tx.attempt_apply, Tx.statement_of_error hins]
    cases hdup : isDupKeyError e with
    | true =>
      have hagain : insertIfNotFound uid 0 ⟨db, []⟩ = Tx.statement (lockSeq uid) ⟨db, []⟩ := by
        rw [insertIfNotFound, if_pos rfl, Tx.bind_of_ok hstmt]
        simp only [hdup, if_true]
      rw [Tx.bind_apply, hagain, ← Tx.bind_apply]
      simp only [hdup, if_true]
      exact runAlone_selectAgain uid n db
    | false =>
      have hfail : insertIfNotFound uid 0 ⟨db, []⟩ = (.error e, ⟨db, []⟩) := by
        rw [insertIfNotFound, if_pos rfl, Tx.bind_of_ok hstmt]
        simp only [hdup, Bool.false_eq_true, if_false, Tx.throw_apply]
      rw [Tx.bind_of_error hfail]
      simp only [hdup, Bool.false_eq_true, if_false]
      rfl
  | ok r =>
    have hstmt : (Tx.statement (insertSeq uid)).attempt ⟨db, []⟩ = (.ok (.ok r.1), ⟨r.2, []⟩) := by
      rw [Tx.attempt_apply, Tx.statement_of_ok hins]
    have hok : insertIfNotFound uid 0 ⟨db, []⟩ = (.ok 0, ⟨r.2, []⟩) := by
      rw [insertIfNotFound, if_pos rfl, Tx.bind_of_ok hstmt]
      rfl
    rw [Tx.bind_of_ok hok]
    exact runAlone_update uid (n + 1) 0 r.2

theorem runAlone_eq_incSeq (uid : ℤ) (db : Database) :
    IncPc.runAlone uid 4 .selectForUpdate db =
      ((incSeq uid ⟨db, []⟩).1.map IncPc.returned, (incSeq uid ⟨db, []⟩).2.db) := by
  change _ = outcome ((selectForUpdate uid >>= fun seq => insertIfNotFound uid seq >>= updateSeq uid)
    ⟨db, []⟩)
  rw [IncPc.runAlone, IncPc.exec]
  cases hlock : lockSeq uid db with
  | error e =>
    have hstmt : (Tx.statement (lockSeq uid)).attempt ⟨db, []⟩ = (.ok (.error e), ⟨db, []⟩) := by
      rw [Tx.attempt_apply, Tx.statement_of_error hlock]
    by_cases hno : e = .noRows
    · subst hno
      have hnone : selectForUpdate uid ⟨db, []⟩ = (.ok 0, ⟨db, []⟩) := by
        rw [selectForUpdate, Tx.bind_of_ok hstmt]
        rfl
      rw [Tx.bind_of_ok hnone]
      exact runAlone_insert uid 0 db
    · have hfail : selectForUpdate uid ⟨db, []⟩ = (.error e, ⟨db, []⟩) := by
        rw [selectForUpdate, Tx.bind_of_ok hstmt]
        cases e <;> first | rfl | exact absurd rfl hno
      rw [Tx.bind_of_error hfail]
      cases e <;> first | rfl | exact absurd rfl hno
  | ok r =>
    have hstmt : (Tx.statement (lockSeq uid)).attempt ⟨db, []⟩ = (.ok (.ok r.1), ⟨r.2, []⟩) := by
      rw [Tx.attempt_apply, Tx.statement_of_ok hlock]
    have hfound : selectForUpdate uid ⟨db, []⟩ = (.ok r.1, ⟨r.2, []⟩) := by
      rw [selectForUpdate, Tx.bind_of_ok hstmt]
      rfl
    rw [Tx.bind_of_ok hfound]
    by_cases h0 : r.1 = 0
    · simp only [h0, if_true]
      exact runAlone_insert uid 0 r.2
    · have hkeep : insertIfNotFound uid r.1 ⟨r.2, []⟩ = (.ok r.1, ⟨r.2, []⟩) := by
        rw [insertIfNotFound, if_neg h0]
        rfl
      rw [Tx.bind_of_ok hkeep]
      simp only [if_neg h0]
      exact runAlone_update uid 2 r.1 r.2

/-- A transaction that runs `incSeq` once. -/
inductive SeqTx
  | running (pc : IncPc)
  | committed
  | aborted
  deriving DecidableEq

/-- `m` transactions on the row of one user. `db` is committed; `work` is the view of the transaction
that holds the row. `returned` are the values returned to the transactions that committed, in the
order of their commits. -/
structure SeqTxs (m : ℕ) where
  db : Database
  owner : Option (Fin m)
  work : Database
  pc : Fin m → SeqTx
  returned : List ℤ

/-- Steps of a transaction; `abort` is an error of any kind with the rollback that follows. -/
inductive SeqLabel
  | statement
  | commit
  | abort
  deriving DecidableEq

namespace SeqTxs
variable {m : ℕ}

def start (m : ℕ) (db : Database) : SeqTxs m :=
  ⟨db, none, db, fun _ => .running .selectForUpdate, []⟩

def view (s : SeqTxs m) (t : Fin m) : Database :=
  if s.owner = some t then s.work else s.db

def rollback (s : SeqTxs m) (t : Fin m) : SeqTxs m :=
  { s with
    owner := if s.owner = some t then none else s.owner
    pc := Function.update s.pc t .aborted }

def advance (s : SeqTxs m) (t : Fin m) (pc : IncPc) (db : Database) (locked : Bool) : SeqTxs m :=
  { s with
    owner := if locked then some t else s.owner
    work := if locked then db else s.work
    pc := Function.update s.pc t (.running pc) }

def commit (s : SeqTxs m) (t : Fin m) (seq : ℤ) : SeqTxs m :=
  { s with
    db := s.view t
    owner := if s.owner = some t then none else s.owner
    pc := Function.update s.pc t .committed
    returned := s.returned ++ [seq] }

/-- Whether a statement need not wait. The first select of a transaction may or may not wait for a
row that is inserted but not committed. -/
def Enabled (uid : ℤ) (s : SeqTxs m) (t : Fin m) (pc : IncPc) : Prop :=
  s.owner = none ∨ s.owner = some t ∨ pc = .selectForUpdate ∧ s.db.userSeq.find? uid = none

instance (uid : ℤ) (s : SeqTxs m) (t : Fin m) (pc : IncPc) : Decidable (s.Enabled uid t pc) :=
  inferInstanceAs (Decidable (_ ∨ _ ∨ _ ∧ _))

def step (uid : ℤ) (s : SeqTxs m) (t : Fin m) : SeqLabel → Option (SeqTxs m)
  | .statement =>
    match s.pc t with
    | .running (.returned _) => none
    | .running pc =>
      if s.Enabled uid t pc then
        match pc.exec uid (s.view t) with
        | .ok (pc', db', locked) => some (s.advance t pc' db' locked)
        | .error _ => some (s.rollback t)
      else none
    | _ => none
  | .commit =>
    match s.pc t with
    | .running (.returned seq) => some (s.commit t seq)
    | _ => none
  | .abort =>
    match s.pc t with
    | .running _ => some (s.rollback t)
    | _ => none

end SeqTxs

def incSeqSystem (uid : ℤ) (db : Database) (m : ℕ) : System (SeqTxs m) (Fin m × SeqLabel) where
  init s := s = .start m db
  step s l := s.step uid l.1 l.2

namespace SeqTxs
variable {m : ℕ} {uid : ℤ} {s s' : SeqTxs m} {t : Fin m}

theorem step_cases {l : SeqLabel} (h : s.step uid t l = some s') :
    (∃ pc pc' db' locked, s.pc t = .running pc ∧ (∀ v, pc ≠ .returned v) ∧ s.Enabled uid t pc ∧
      pc.exec uid (s.view t) = .ok (pc', db', locked) ∧ s' = s.advance t pc' db' locked) ∨
    (∃ pc, s.pc t = .running pc ∧ s' = s.rollback t) ∨
    ∃ seq, s.pc t = .running (.returned seq) ∧ s' = s.commit t seq := by
  cases l with
  | statement =>
    simp only [step] at h
    split at h
    · cases h
    · rename_i pc hret hpc
      split_ifs at h with hen
      cases hexec : pc.exec uid (s.view t) with
      | ok r =>
        rw [hexec] at h
        exact .inl ⟨pc, r.1, r.2.1, r.2.2, hpc, fun v hv => hret v hv, hen, hexec,
          (Option.some.inj h).symm⟩
      | error e =>
        rw [hexec] at h
        exact .inr (.inl ⟨pc, hpc, (Option.some.inj h).symm⟩)
    · cases h
  | commit =>
    simp only [step] at h
    split at h
    · rename_i seq hpc
      exact .inr (.inr ⟨seq, hpc, (Option.some.inj h).symm⟩)
    · cases h
  | abort =>
    simp only [step] at h
    split at h
    · rename_i pc hpc
      exact .inr (.inl ⟨pc, hpc, (Option.some.inj h).symm⟩)
    · cases h

end SeqTxs

end MiniPush.Store
