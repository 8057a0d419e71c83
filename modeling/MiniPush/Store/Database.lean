import MiniPush.Store.DateTime
import MiniPush.Foundation.Table

/-! The tables of `docs/mysql.sql` and the SQL statements of the event store, under strict
mode: a value outside the type of its column is rejected. -/
namespace MiniPush.Store
open Foundation

/-- Errors of the driver and the server that the store tells apart. -/
inductive SqlError
  /-- MySQL error 1062. -/
  | dupKey
  /-- `sql.ErrNoRows`. -/
  | noRows
  /-- Rejected in strict mode. -/
  | outOfRange
  | foreignKey
  /-- `Scan` into a Go type that cannot hold the value. -/
  | scan
  /-- `context.Canceled`. -/
  | canceled
  | other
  deriving DecidableEq

def isDupKeyError (e : SqlError) : Bool := e = .dupKey

structure EventRow where
  topicOffset : ℤ
  createTime : DateTime
  payload : Bytes
  deriving DecidableEq

structure UserEventRow where
  uid : ℤ
  seq : ℤ
  createTime : DateTime
  readState : Bool
  topicOffset : ℤ
  deriving DecidableEq

def UserEventRow.key (r : UserEventRow) : ℤ × ℤ := (r.uid, r.seq)

structure UserSeqRow where
  uid : ℤ
  seq : ℤ
  deriving DecidableEq

/-- Every row ever inserted, in order of insertion, deleted rows included. No statement
reads it. -/
structure History where
  events : List EventRow
  userEvents : List UserEventRow
  deriving DecidableEq

/-- The database, with the foreign key of `user_events`. -/
structure Database where
  events : Table EventRow.topicOffset
  userEvents : Table UserEventRow.key
  userSeq : Table UserSeqRow.uid
  history : History
  references : ∀ r ∈ userEvents.rows, ∃ e ∈ events.rows, e.topicOffset = r.topicOffset

def Database.empty : Database := ⟨.empty, .empty, .empty, ⟨[], []⟩, by simp⟩

/-- `user_seq[uid]`, with 0 for a missing row. -/
def Database.headSeq (db : Database) (uid : ℤ) : ℤ :=
  match db.userSeq.find? uid with
  | some r => r.seq
  | none => 0

/-- `INT UNSIGNED`. -/
def fitsInt (n : ℤ) : Bool := 0 ≤ n ∧ n < 2 ^ 32

/-- `BIGINT UNSIGNED`. -/
def fitsBigint (n : ℤ) : Bool := 0 ≤ n ∧ n < 2 ^ 64

/-- Number of characters of a `utf8mb4` string, or `none` if it is malformed. -/
def utf8mb4Length? : Bytes → Option ℕ
  | [] => some 0
  | a :: s =>
    if a < 0x80 then (utf8mb4Length? s).map (· + 1)
    else if a < 0xc2 then none
    else match s with
      | [] => none
      | b :: s =>
        if b < 0x80 || 0xbf < b then none
        else if a < 0xe0 then (utf8mb4Length? s).map (· + 1)
        else match s with
          | [] => none
          | c :: s =>
            if c < 0x80 || 0xbf < c then none
            else if a < 0xf0 then
              if a = 0xe0 && b < 0xa0 then none else (utf8mb4Length? s).map (· + 1)
            else match s with
              | [] => none
              | d :: s =>
                if d < 0x80 || 0xbf < d || 0xf4 < a || (a = 0xf0 && b < 0x90) ||
                  (a = 0xf4 && 0x8f < b) then none
                else (utf8mb4Length? s).map (· + 1)

/-- `VARCHAR(4096)`. -/
def fitsPayload (s : Bytes) : Bool :=
  match utf8mb4Length? s with
  | some n => n ≤ 4096
  | none => false

/-- The effect of a statement on the database, with its result or its error. -/
abbrev Statement (α : Type) := Database → Except SqlError (α × Database)

def insertEvent (offset createTime : ℤ) (payload : Bytes) : Statement Unit := fun db =>
  match DateTime.ofTime? createTime with
  | none => .error .outOfRange
  | some t =>
    if fitsBigint offset && fitsPayload payload then
      match h : db.events.insert? ⟨offset, t, payload⟩ with
      | none => .error .dupKey
      | some events => .ok ((), { db with
          events
          history := { db.history with events := db.history.events ++ [⟨offset, t, payload⟩] }
          references := fun r hr => by
            obtain ⟨e, he, ho⟩ := db.references r hr
            exact ⟨e, by simp [(Table.insert?_eq_some_iff.mp h).2, he], ho⟩ })
    else .error .outOfRange

theorem insertEvent_ok {offset createTime : ℤ} {payload : Bytes} {db db' : Database} {u : Unit}
    (h : insertEvent offset createTime payload db = .ok (u, db')) :
    ∃ t, DateTime.ofTime? createTime = some t ∧ (fitsBigint offset && fitsPayload payload) = true ∧
      db.events.find? offset = none ∧
      db'.events.rows = db.events.rows ++ [⟨offset, t, payload⟩] ∧
      db'.userEvents = db.userEvents ∧ db'.userSeq = db.userSeq ∧
      db'.history = ⟨db.history.events ++ [⟨offset, t, payload⟩], db.history.userEvents⟩ := by
  unfold insertEvent at h
  cases ht : DateTime.ofTime? createTime with
  | none => simp [ht] at h
  | some t =>
    simp only [ht] at h
    split_ifs at h with hfit
    split at h
    · cases h
    · rename_i events hins
      obtain ⟨hfree, hrows⟩ := Table.insert?_eq_some_iff.mp hins
      cases h
      exact ⟨t, rfl, hfit, hfree, hrows, rfl, rfl, rfl⟩

/-- An offset that is already there is refused with a duplicate key error. -/
theorem insertEvent_dupKey {offset createTime : ℤ} {payload : Bytes} {db : Database} {t : DateTime}
    (ht : DateTime.ofTime? createTime = some t)
    (hfit : (fitsBigint offset && fitsPayload payload) = true)
    (hrow : (db.events.find? offset).isSome) :
    insertEvent offset createTime payload db = .error .dupKey := by
  simp only [insertEvent, ht, hfit, if_true]
  split
  · rfl
  · rename_i events hins
    obtain ⟨hfree, -⟩ := Table.insert?_eq_some_iff.mp hins
    rw [show db.events.find? offset = none from hfree] at hrow
    cases hrow

def getEvent (offset : ℤ) : Statement EventRow := fun db =>
  match db.events.find? offset with
  | some r => .ok (r, db)
  | none => .error .noRows

/-- `lockSeqSQL`, scanned into an `int32`. -/
def lockSeq (uid : ℤ) : Statement ℤ := fun db =>
  match db.userSeq.find? uid with
  | some r =>
    if -2 ^ 31 ≤ r.seq ∧ r.seq < 2 ^ 31 then .ok (r.seq, db) else .error .scan
  | none => .error .noRows

theorem lockSeq_ok {uid seq : ℤ} {db db' : Database} (h : lockSeq uid db = .ok (seq, db')) :
    db' = db ∧ db.userSeq.find? uid = some ⟨uid, seq⟩ ∧ -2 ^ 31 ≤ seq ∧ seq < 2 ^ 31 := by
  unfold lockSeq at h
  cases hf : db.userSeq.find? uid with
  | none => simp [hf] at h
  | some r =>
    simp only [hf] at h
    split_ifs at h with hlt
    cases h
    have hu : r.uid = uid := (Table.find?_eq_some_iff.mp hf).2
    subst hu
    exact ⟨rfl, rfl, hlt⟩

def insertSeq (uid : ℤ) : Statement Unit := fun db =>
  if fitsInt uid then
    match db.userSeq.insert? ⟨uid, 1⟩ with
    | none => .error .dupKey
    | some userSeq => .ok ((), { db with userSeq })
  else .error .outOfRange

theorem insertSeq_ok {uid : ℤ} {db db' : Database} {u : Unit}
    (h : insertSeq uid db = .ok (u, db')) :
    fitsInt uid = true ∧ db.userSeq.find? uid = none ∧
      ∃ userSeq, db' = { db with userSeq } ∧ userSeq.rows = db.userSeq.rows ++ [⟨uid, 1⟩] := by
  unfold insertSeq at h
  split_ifs at h with hu
  cases hins : db.userSeq.insert? ⟨uid, 1⟩ with
  | none => simp [hins] at h
  | some userSeq =>
    obtain ⟨hfree, hrows⟩ := Table.insert?_eq_some_iff.mp hins
    simp only [hins] at h
    cases h
    exact ⟨hu, hfree, userSeq, rfl, hrows⟩

/-- `incSeqSQL`. The number of matching rows is not reported back. -/
def increaseSeq (uid seq : ℤ) : Statement Unit := fun db =>
  let hit : UserSeqRow → Bool := fun r => r.uid = uid ∧ r.seq = seq
  if db.userSeq.rows.all fun r => !hit r || fitsInt (r.seq + 1) then
    .ok ((), { db with
      userSeq := db.userSeq.update hit (fun r => { r with seq := r.seq + 1 }) fun _ => rfl })
  else .error .outOfRange

theorem increaseSeq_ok {uid seq : ℤ} {db db' : Database} {u : Unit}
    (h : increaseSeq uid seq db = .ok (u, db')) :
    ∃ userSeq, db' = { db with userSeq } ∧ ∀ v r, userSeq.find? v = some r ↔
      if v = uid ∧ db.userSeq.find? uid = some ⟨uid, seq⟩ then r = ⟨uid, seq + 1⟩
      else db.userSeq.find? v = some r := by
  unfold increaseSeq at h
  dsimp only at h
  split_ifs at h
  cases h
  refine ⟨_, rfl, fun v r => ?_⟩
  simp only [Table.find?_eq_some_iff, Table.mem_update, decide_eq_true_eq]
  constructor
  · rintro ⟨⟨s, hs, hsr⟩, rfl⟩
    by_cases hh : s.uid = uid ∧ s.seq = seq
    · obtain ⟨rfl, rfl⟩ := hh
      rw [if_pos ⟨rfl, rfl⟩] at hsr
      subst hsr
      simp [hs]
    · rw [if_neg hh] at hsr
      subst hsr
      rw [if_neg]
      · exact ⟨hs, rfl⟩
      · rintro ⟨hu, hmem, -⟩
        have he := db.userSeq.eq_of_key_eq hs hmem hu
        exact hh (he ▸ ⟨rfl, rfl⟩)
  · intro hr
    split_ifs at hr with hc
    · obtain ⟨rfl, hmem, -⟩ := hc
      subst hr
      exact ⟨⟨⟨v, seq⟩, hmem, by simp⟩, rfl⟩
    · obtain ⟨hmem, rfl⟩ := hr
      refine ⟨⟨r, hmem, ?_⟩, rfl⟩
      rw [if_neg]
      rintro ⟨rfl, rfl⟩
      exact hc ⟨rfl, hmem, trivial⟩

def insertUserEvent (uid seq createTime offset : ℤ) : Statement Unit := fun db =>
  match DateTime.ofTime? createTime with
  | none => .error .outOfRange
  | some t =>
    if fitsInt uid && fitsInt seq && fitsBigint offset then
      match h : db.userEvents.insert? ⟨uid, seq, t, false, offset⟩ with
      | none => .error .dupKey
      | some userEvents =>
        if hf : (db.events.find? offset).isSome then
          .ok ((), { db with
            userEvents
            history := { db.history with
              userEvents := db.history.userEvents ++ [⟨uid, seq, t, false, offset⟩] }
            references := fun r hr => by
              rw [(Table.insert?_eq_some_iff.mp h).2, List.mem_append] at hr
              rcases hr with hr | hr
              · exact db.references r hr
              · obtain rfl : r = ⟨uid, seq, t, false, offset⟩ := by simpa using hr
                obtain ⟨e, he⟩ := Option.isSome_iff_exists.mp hf
                exact ⟨e, Table.find?_eq_some_iff.mp he⟩ })
        else .error .foreignKey
    else .error .outOfRange

theorem insertUserEvent_ok {uid seq createTime offset : ℤ} {db db' : Database} {u : Unit}
    (h : insertUserEvent uid seq createTime offset db = .ok (u, db')) :
    ∃ t, DateTime.ofTime? createTime = some t ∧ fitsInt uid = true ∧ 0 ≤ seq ∧
      db.userEvents.find? (uid, seq) = none ∧
      db'.userEvents.rows = db.userEvents.rows ++ [⟨uid, seq, t, false, offset⟩] ∧
      db'.events = db.events ∧ db'.userSeq = db.userSeq ∧
      db'.history = ⟨db.history.events,
        db.history.userEvents ++ [⟨uid, seq, t, false, offset⟩]⟩ := by
  unfold insertUserEvent at h
  cases ht : DateTime.ofTime? createTime with
  | none => simp [ht] at h
  | some t =>
    simp only [ht] at h
    split at h
    case isFalse => cases h
    case isTrue hfit =>
      have huid : fitsInt uid = true := by
        simp only [Bool.and_eq_true] at hfit
        exact hfit.1.1
      have hseq : 0 ≤ seq := by
        simp only [fitsInt, Bool.and_eq_true, decide_eq_true_eq] at hfit
        exact hfit.1.2.1
      split at h
      · cases h
      · rename_i userEvents hins
        obtain ⟨hfree, hrows⟩ := Table.insert?_eq_some_iff.mp hins
        split_ifs at h
        cases h
        exact ⟨t, rfl, huid, hseq, hfree, hrows, rfl, rfl, rfl⟩

/-- `setReadSQL`, with the number of affected rows. -/
def updateReadState (uid seq : ℤ) : Statement ℕ := fun db =>
  let hit : UserEventRow → Bool := fun r => r.uid = uid ∧ r.seq = seq ∧ r.readState = false
  .ok (db.userEvents.rows.countP hit, { db with
    userEvents := db.userEvents.update hit (fun r => { r with readState := true }) fun _ => rfl
    references := fun r hr => by
      obtain ⟨s, hs, rfl⟩ := Table.mem_update.mp hr
      have := db.references s hs
      split_ifs <;> exact this })

theorem updateReadState_ok {uid seq : ℤ} {n : ℕ} {db db' : Database}
    (h : updateReadState uid seq db = .ok (n, db')) :
    db'.events = db.events ∧ db'.userSeq = db.userSeq ∧ db'.history = db.history ∧
      db'.userEvents.rows = db.userEvents.rows.map fun r =>
        if r.uid = uid ∧ r.seq = seq ∧ r.readState = false then { r with readState := true }
        else r := by
  cases h
  exact ⟨rfl, rfl, rfl, List.map_congr_left fun r _ => by simp only [decide_eq_true_eq]⟩

/-- `cleanEventsSQL` with its cascade to `user_events`, and the number of deleted events. -/
def cleanEvents (R : DateReading) (lteCreateTime : ℤ) : Statement ℕ := fun db =>
  let old : EventRow → Bool := fun e => R.le e.createTime lteCreateTime
  let events := db.events.filter fun e => !old e
  .ok (db.events.rows.countP old, { db with
    events
    userEvents := db.userEvents.filter fun r => (events.find? r.topicOffset).isSome
    references := fun r hr => by
      obtain ⟨e, he⟩ := Option.isSome_iff_exists.mp (Table.mem_filter.mp hr).2
      exact ⟨e, Table.find?_eq_some_iff.mp he⟩ })

theorem cleanEvents_ok {R : DateReading} {lteCreateTime : ℤ} {n : ℕ} {db db' : Database}
    (h : cleanEvents R lteCreateTime db = .ok (n, db')) :
    db'.userSeq = db.userSeq ∧ db'.history = db.history ∧
      db'.events.rows = db.events.rows.filter (fun e => !R.le e.createTime lteCreateTime) ∧
      db'.userEvents.rows =
        db.userEvents.rows.filter fun r => (db'.events.find? r.topicOffset).isSome := by
  cases h
  exact ⟨rfl, rfl, rfl, rfl⟩

end MiniPush.Store
