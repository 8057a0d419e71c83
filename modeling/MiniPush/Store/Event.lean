import MiniPush.Store.Database
import MiniPush.Foundation.Transaction

/-! The write operations of the event store: `Save` with `incSeq`, `SetRead` and
`DeleteOutdatedEvents`. -/
namespace MiniPush.Store
open Foundation

/-- `store.Event`. The creation time is in nanoseconds; `toUids` is `To`. -/
structure Event where
  offset : ℤ
  createTime : ℤ
  toUids : List ℤ
  payload : Bytes
  deriving DecidableEq

abbrev StoreTx (α : Type) := Tx Database SqlError α

/-- The first query of `incSeq`: a missing row counts as sequence 0. -/
def selectForUpdate (uid : ℤ) : StoreTx ℤ := do
  let locked ← (Tx.statement (lockSeq uid)).attempt
  match locked with
  | .ok seq => pure seq
  | .error .noRows => pure 0
  | .error e => Tx.throw e

/-- The second step of `incSeq`: insert if not found, and select again if another
transaction inserted first. -/
def insertIfNotFound (uid seq : ℤ) : StoreTx ℤ :=
  if seq = 0 then do
    let inserted ← (Tx.statement (insertSeq uid)).attempt
    match inserted with
    | .ok _ => pure seq
    | .error e => if isDupKeyError e then Tx.statement (lockSeq uid) else Tx.throw e
  else pure seq

/-- `incSeq`. The conditional update after a fresh insert matches no row. -/
def incSeq (uid : ℤ) : StoreTx ℤ := do
  let seq ← selectForUpdate uid
  let seq ← insertIfNotFound uid seq
  Tx.statement (increaseSeq uid seq)
  pure (int32 (seq + 1))

def sameEvent (row : EventRow) (e : Event) : Bool :=
  Time.unixMilli row.createTime.toTime = Time.unixMilli e.createTime ∧ row.payload = e.payload

def saveTo (e : Event) (seqMap : GoMap ℤ ℤ) (uid : ℤ) : StoreTx (GoMap ℤ ℤ) := do
  let seq ← incSeq uid
  Tx.statement (insertUserEvent uid seq e.createTime e.offset)
  pure (seqMap.insert uid seq)

/-- The transaction of `Save`. The error of the second query is only logged; the duplicate
key error is the one returned. -/
def saveBody (e : Event) : StoreTx (GoMap ℤ ℤ) := do
  let inserted ← (Tx.statement (insertEvent e.offset e.createTime e.payload)).attempt
  match inserted with
  | .ok _ =>
    -- PrepareContext
    Tx.statement fun db => .ok ((), db)
    e.toUids.foldlM (saveTo e) ∅
  | .error err =>
    if isDupKeyError err then do
      let stored ← (Tx.statement (getEvent e.offset)).attempt
      match stored with
      | .ok row => if sameEvent row e then pure ∅ else Tx.throw err
      | .error _ => Tx.throw err
    else Tx.throw err

/-- `Save`: the new head sequences of the recipients, none for an event already stored. -/
def save (env : TxEnv SqlError) (e : Event) : Database → Except SqlError (GoMap ℤ ℤ) × Database :=
  withTx env (saveBody e)

structure SetReadResp where
  seq : ℤ
  changed : Bool
  deriving DecidableEq

def setReadBody (uid seq : ℤ) : StoreTx SetReadResp := do
  let n ← Tx.statement (updateReadState uid seq)
  pure ⟨seq, n = 1⟩

def setRead (env : TxEnv SqlError) (uid seq : ℤ) :
    Database → Except SqlError SetReadResp × Database :=
  withTx env (setReadBody uid seq)

/-- What the store takes from outside the repository: the local time zone and the server's
comparison of dates with integers. -/
structure Platform where
  location : Time.Location
  reading : DateReading

/-- `DeleteOutdatedEvents` at the clock reading `now`, with the number of deleted events. -/
def deleteOutdatedEvents (P : Platform) (env : TxEnv SqlError) (now ttlDays : ℤ) :
    Database → Except SqlError ℤ × Database :=
  withTx env do
    let n ← Tx.statement (cleanEvents P.reading (Time.unix (getDayBefore P.location now ttlDays)))
    pure (int32 n)

end MiniPush.Store
