import Mathlib.Data.Int.Interval
import MiniPush.Store.Filling

/-! `GetEvents` of the event store: the events of a user in a range of sequences. -/
namespace MiniPush.Store
open Foundation

/-- `pb.Event`: what a client is told about one of its events. -/
structure UserEvent where
  uid : ℤ
  seq : ℤ
  createTime : ℤ
  payload : Bytes
  readState : Bool
  deriving DecidableEq

/-- `GetEventsReq`. Both ends are inclusive. -/
structure GetEventsReq where
  fromSeq : ℤ
  toSeq : ℤ
  deriving DecidableEq

def Database.inRange (db : Database) (uid : ℤ) (req : GetEventsReq) : List UserEventRow :=
  db.userEvents.rows.filter fun u => u.uid = uid ∧ req.fromSeq ≤ u.seq ∧ u.seq ≤ req.toSeq

/-- `getEventsSQL`: the join is on the primary key of `events`. -/
def selectEvents (uid : ℤ) (req : GetEventsReq) : Statement (List (UserEventRow × EventRow)) :=
  fun db =>
    let joined := (db.inRange uid req).filterMap fun u =>
      (db.events.find? u.topicOffset).map fun e => (u, e)
    .ok (joined.insertionSort fun a b => b.1.seq ≤ a.1.seq, db)

def readEvent (uid : ℤ) (row : UserEventRow × EventRow) : UserEvent :=
  ⟨uid, row.1.seq, Time.unix row.1.createTime.toTime, row.2.payload, row.1.readState⟩

def fitsInt32 (n : ℤ) : Bool := -2 ^ 31 ≤ n ∧ n < 2 ^ 31

def scanEvent (uid : ℤ) (row : UserEventRow × EventRow) : Except SqlError UserEvent :=
  if fitsInt32 row.1.seq then .ok (readEvent uid row) else .error .scan

/-- Scanning row by row succeeds exactly if every row can be scanned. -/
theorem mapM_scan {α β : Type} {scan : α → Except SqlError β} {read : α → β} {fits : α → Bool}
    (h : ∀ row, scan row = if fits row then .ok (read row) else .error .scan) (rows : List α) :
    rows.mapM scan = if rows.all fits then .ok (rows.map read) else .error .scan := by
  induction rows with
  | nil => rfl
  | cons row rows ih =>
    rw [List.mapM_cons, h row, ih, List.all_cons]
    cases fits row with
    | false => rfl
    | true =>
      rw [Bool.true_and]
      cases rows.all fits <;> rfl

theorem scanEvents_eq (uid : ℤ) (rows : List (UserEventRow × EventRow)) :
    rows.mapM (scanEvent uid) = if rows.all (fun row => fitsInt32 row.1.seq) then
      .ok (rows.map (readEvent uid)) else .error .scan :=
  mapM_scan (fun _ => rfl) rows

/-- What the driver hands over. A result set that breaks off ends the loop over `rows.Next` like
one that is complete, as `rows.Err` is not asked. -/
def fetch {α : Type} (broken : Option ℕ) (rows : List α) : List α :=
  match broken with
  | none => rows
  | some n => rows.take n

def getEventsBody (broken : Option ℕ) (uid : ℤ) (req : GetEventsReq) : StoreTx (List UserEvent) := do
  let rows ← Tx.statement (selectEvents uid req)
  match (fetch broken rows).mapM (scanEvent uid) with
  | .ok events => pure events
  | .error e => Tx.throw e

def getEvents (env : TxEnv SqlError) (broken : Option ℕ) (uid : ℤ) (req : GetEventsReq) :
    Database → Except SqlError (List UserEvent) × Database :=
  withTx env (getEventsBody broken uid req)

theorem length_fetch_le {α : Type} (broken : Option ℕ) (rows : List α) :
    (fetch broken rows).length ≤ rows.length := by
  cases broken with
  | none => exact le_refl _
  | some n => exact List.length_take_le' _ _

section
variable {db : Database} {uid : ℤ} {req : GetEventsReq}

theorem mem_inRange {u : UserEventRow} :
    u ∈ db.inRange uid req ↔
      u ∈ db.userEvents.rows ∧ u.uid = uid ∧ req.fromSeq ≤ u.seq ∧ u.seq ≤ req.toSeq := by
  simp [Database.inRange]

theorem selectEvents_perm (uid : ℤ) (req : GetEventsReq) (db : Database) :
    ∃ rows, selectEvents uid req db = .ok (rows, db) ∧
      (rows.map Prod.fst).Perm (db.inRange uid req) := by
  refine ⟨_, rfl, ((List.perm_insertionSort _ _).map Prod.fst).trans ?_⟩
  rw [List.map_filterMap]
  have hjoin : ∀ u ∈ db.inRange uid req,
      ((db.events.find? u.topicOffset).map fun e => (u, e)).map Prod.fst = some u := by
    intro u hu
    obtain ⟨e, he, hoff⟩ := db.references u (mem_inRange.mp hu).1
    rw [Table.find?_eq_some_iff.mpr ⟨he, hoff⟩]
    rfl
  rw [List.filterMap_congr hjoin, List.filterMap_some]

theorem nodup_inRange : ((db.inRange uid req).map UserEventRow.seq).Nodup := by
  have hkeys : ((db.inRange uid req).map UserEventRow.key).Nodup :=
    db.userEvents.nodup.sublist (List.filter_sublist.map _)
  refine List.Nodup.map_on ?_ hkeys.of_map
  intro u hu v hv hseq
  have huid : u.uid = v.uid := (mem_inRange.mp hu).2.1.trans (mem_inRange.mp hv).2.1.symm
  exact List.inj_on_of_nodup_map hkeys hu hv (Prod.ext huid hseq)

theorem length_inRange_le (db : Database) (uid : ℤ) (req : GetEventsReq) :
    ((db.inRange uid req).length : ℤ) ≤ max 0 (req.toSeq - req.fromSeq + 1) := by
  have hsub : ((db.inRange uid req).map UserEventRow.seq).toFinset ⊆
      Finset.Icc req.fromSeq req.toSeq := by
    intro seq hseq
    obtain ⟨u, hu, rfl⟩ := List.mem_map.mp (List.mem_toFinset.mp hseq)
    exact Finset.mem_Icc.mpr (mem_inRange.mp hu).2.2
  have hcard := Finset.card_le_card hsub
  rw [List.toFinset_card_of_nodup nodup_inRange, List.length_map, Int.card_Icc] at hcard
  omega

theorem le_length_inRange {last : ℤ} (hlast : last ≤ req.toSeq)
    (hrows : ∀ seq, req.fromSeq ≤ seq → seq ≤ last →
      ∃ r ∈ db.userEvents.rows, r.key = (uid, seq)) :
    last - req.fromSeq + 1 ≤ ((db.inRange uid req).length : ℤ) := by
  have hsub : Finset.Icc req.fromSeq last ⊆
      ((db.inRange uid req).map UserEventRow.seq).toFinset := by
    intro seq hseq
    obtain ⟨hlo, hhi⟩ := Finset.mem_Icc.mp hseq
    obtain ⟨r, hr, hk⟩ := hrows seq hlo hhi
    obtain ⟨rfl, rfl⟩ := Prod.mk.inj hk
    exact List.mem_toFinset.mpr
      (List.mem_map.mpr ⟨r, mem_inRange.mpr ⟨hr, rfl, hlo, hhi.trans hlast⟩, rfl⟩)
  have hcard := (Finset.card_le_card hsub).trans (List.toFinset_card_le _)
  rw [List.length_map, Int.card_Icc] at hcard
  omega

theorem scanEvents_map {rows : List (UserEventRow × EventRow)} {events : List UserEvent}
    (h : rows.mapM (scanEvent uid) = .ok events) : events = rows.map (readEvent uid) := by
  rw [scanEvents_eq] at h
  split_ifs at h
  exact (Except.ok.inj h).symm

theorem length_scanEvents {rows : List (UserEventRow × EventRow)} {events : List UserEvent}
    (h : rows.mapM (scanEvent uid) = .ok events) : events.length = rows.length := by
  rw [scanEvents_map h, List.length_map]

theorem scanEvents_ok (uid : ℤ) {rows : List (UserEventRow × EventRow)}
    (h : ∀ row ∈ rows, -2 ^ 31 ≤ row.1.seq ∧ row.1.seq < 2 ^ 31) :
    ∃ events, rows.mapM (scanEvent uid) = .ok events := by
  refine ⟨rows.map (readEvent uid), ?_⟩
  rw [scanEvents_eq, if_pos]
  simpa [fitsInt32] using h

theorem getEventsBody_rows {rows : List (UserEventRow × EventRow)} (hrows : selectEvents uid req db = .ok (rows, db))
    (hrange : ∀ row ∈ rows, -2 ^ 31 ≤ row.1.seq ∧ row.1.seq < 2 ^ 31) :
    Tx.Total (· = db) (getEventsBody none uid req) fun events _ => events = rows.map (readEvent uid) := by
  rintro db rfl
  obtain ⟨events, hscan⟩ := scanEvents_ok uid hrange
  refine ⟨events, db, ?_, scanEvents_map hscan⟩
  rw [getEventsBody, Tx.bind_of_ok (Tx.statement_of_ok hrows)]
  simp only [fetch, hscan]
  rfl

private theorem getEventsBody_triple (broken : Option ℕ) (uid : ℤ) (req : GetEventsReq)
    (db : Database) : Tx.Triple (· = db) (getEventsBody broken uid req) fun events _ =>
      events.length ≤ (db.inRange uid req).length := by
  refine Tx.Triple.bind (Q := fun rows _ => rows.length = (db.inRange uid req).length)
    (Tx.Triple.statement ?_) fun rows => ?_
  · rintro db rows db' rfl hrows
    obtain ⟨rows', hrows', hperm⟩ := selectEvents_perm uid req db
    rw [hrows] at hrows'
    obtain ⟨rfl, rfl⟩ := Prod.mk.inj (Except.ok.inj hrows')
    rw [← hperm.length_eq, List.length_map]
  · cases hscan : (fetch broken rows).mapM (scanEvent uid) with
    | error e => exact Tx.Triple.throw e
    | ok events =>
      refine Tx.Triple.pure events fun _ hlen => ?_
      rw [length_scanEvents hscan, ← hlen]
      exact length_fetch_le broken rows

/-- A response holds no more events than the store has in the range. -/
theorem getEvents_length_le {env : TxEnv SqlError} {broken : Option ℕ} {events : List UserEvent}
    (h : (getEvents env broken uid req db).1 = .ok events) :
    events.length ≤ (db.inRange uid req).length := by
  unfold getEvents at h
  rcases withTx_triple (getEventsBody_triple broken uid req db) env rfl with
    ⟨e, he⟩ | ⟨a, db', hle, he | ⟨e, -, he⟩⟩
  · rw [he] at h
    cases h
  · rw [he] at h
    obtain rfl := Except.ok.inj h
    exact hle
  · rw [he] at h
    cases h

private theorem getEventsBody_total (uid : ℤ) (db : Database) (hfrom : -2 ^ 31 ≤ req.fromSeq)
    (hto : req.toSeq < 2 ^ 31) : Tx.Total (· = db) (getEventsBody none uid req) fun events _ =>
      events.length = (db.inRange uid req).length := by
  rintro db rfl
  obtain ⟨rows, hrows, hperm⟩ := selectEvents_perm uid req db
  have hrange : ∀ row ∈ rows, -2 ^ 31 ≤ row.1.seq ∧ row.1.seq < 2 ^ 31 := by
    intro row hrow
    have hmem := mem_inRange.mp (hperm.mem_iff.mp (List.mem_map_of_mem hrow))
    omega
  obtain ⟨events, db', hrun, rfl⟩ := getEventsBody_rows hrows hrange db rfl
  refine ⟨rows.map (readEvent uid), db', hrun, ?_⟩
  show (rows.map (readEvent uid)).length = (db.inRange uid req).length
  rw [List.length_map, ← hperm.length_eq, List.length_map]

theorem getEvents_calm (uid : ℤ) (db : Database) (hfrom : -2 ^ 31 ≤ req.fromSeq)
    (hto : req.toSeq < 2 ^ 31) : ∃ events, (getEvents .calm none uid req db).1 = .ok events ∧
      events.length = (db.inRange uid req).length := by
  obtain ⟨events, db', hrun, hlen⟩ := withTx_calm (getEventsBody_total uid db hfrom hto) rfl
  exact ⟨events, by rw [getEvents, hrun], hlen⟩

end

end MiniPush.Store
