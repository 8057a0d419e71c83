import MiniPush.Store.Blocks
import MiniPush.Store.GetEvents

/-! `Stats` and `GetReadStates`: the number of unread events of a user, and the read states of its
events as blocks of bits. Both look at the events after the same cutoff. -/
namespace MiniPush.Store
open Foundation

/-- `GetDayBefore(days).Unix()`, with which the columns `create_time` are compared. -/
def Platform.cutoff (P : Platform) (now days : ℤ) : ℤ :=
  Time.unix (getDayBefore P.location now days)

/-- The time condition of `countUnreadSQL` and `getReadStatesSQL`. -/
def Platform.visible (P : Platform) (now days : ℤ) (t : DateTime) : Bool :=
  P.reading.ge t (P.cutoff now days)

/-- `getSeqSQL`, read like `lockSeqSQL`. -/
def selectSeq (uid : ℤ) : Statement ℤ := lockSeq uid

/-- `getSeq`: a missing row counts as sequence 0. -/
def getSeq (uid : ℤ) : StoreTx ℤ := do
  let out ← (Tx.statement (selectSeq uid)).attempt
  match out with
  | .ok seq => pure seq
  | .error .noRows => pure 0
  | .error e => Tx.throw e

/-- `countUnreadSQL`, scanned into an `int32`. -/
def selectUnread (P : Platform) (now uid days : ℤ) : Statement ℤ := fun db =>
  let n := db.userEvents.rows.countP fun r =>
    r.uid = uid ∧ P.visible now days r.createTime ∧ r.readState = false
  if n < 2 ^ 31 then .ok (n, db) else .error .scan

def countUnread (P : Platform) (now uid days : ℤ) : StoreTx ℤ :=
  Tx.statement (selectUnread P now uid days)

structure StatsReq where
  countUnread : Bool

structure StatsResp where
  headSeq : ℤ
  unreadCount : ℤ
  deriving DecidableEq

def statsBody (P : Platform) (now uid days : ℤ) (req : StatsReq) : StoreTx StatsResp := do
  let seq ← getSeq uid
  if req.countUnread then
    let count ← countUnread P now uid days
    pure ⟨seq, count⟩
  else pure ⟨seq, 0⟩

def stats (P : Platform) (env : TxEnv SqlError) (now uid days : ℤ) (req : StatsReq) :
    Database → Except SqlError StatsResp × Database :=
  withTx env (statsBody P now uid days req)

structure GetReadStatesReq where
  headSeq : ℤ

def Database.readStates (db : Database) (P : Platform) (now uid days headSeq : ℤ) :
    List UserEventRow :=
  db.userEvents.rows.filter fun r =>
    r.uid = uid ∧ r.seq ≤ headSeq ∧ P.visible now days r.createTime

def selectReadStates (P : Platform) (now uid days headSeq : ℤ) : Statement (List UserEventRow) :=
  fun db =>
    .ok ((db.readStates P now uid days headSeq).insertionSort fun a b => b.seq ≤ a.seq, db)

def scanReadState (row : UserEventRow) : Except SqlError (ℤ × Bool) :=
  if fitsInt32 row.seq then .ok (row.seq, row.readState) else .error .scan

def getReadStatesBody (P : Platform) (broken : Option ℕ) (now uid days : ℤ) (req : GetReadStatesReq) :
    StoreTx (List (ℤ × Bool)) := do
  let rows ← Tx.statement (selectReadStates P now uid days req.headSeq)
  match (fetch broken rows).mapM scanReadState with
  | .ok states => pure states
  | .error e => Tx.throw e

/-- `GetReadStates` at the clock reading `now`; `none` stands for a panic of
`MakeGetReadStatesResp`. -/
def getReadStates (P : Platform) (env : TxEnv SqlError) (broken : Option ℕ) (now uid days : ℤ)
    (req : GetReadStatesReq) (db : Database) :
    Except SqlError (Option (List Block)) × Database :=
  match withTx env (getReadStatesBody P broken now uid days req) db with
  | (.ok states, db') => (.ok (makeGetReadStatesResp (states.map Prod.fst) (states.map Prod.snd)), db')
  | (.error e, db') => (.error e, db')

section Reading
variable {P : Platform} {db : Database} {uid : ℤ}

theorem getSeq_total (hi : SeqInv db) (hfit : db.SeqsFit) (uid : ℤ) :
    Tx.Total (· = db) (getSeq uid) fun seq db' => seq = db.headSeq uid ∧ db' = db := by
  rintro db rfl
  have hnonneg : 0 ≤ db.headSeq uid := by
    rw [hi.headSeq_eq uid]
    omega
  have hlt := hfit uid
  cases hf : db.userSeq.find? uid with
  | none =>
    have hselect : selectSeq uid db = .error .noRows := by rw [selectSeq, lockSeq, hf]
    refine ⟨0, db, ?_, (headSeq_of_find?_none hf).symm, rfl⟩
    rw [getSeq, Tx.bind_of_ok (by rw [Tx.attempt_apply, Tx.statement_of_error hselect])]
    rfl
  | some r =>
    have hr : db.headSeq uid = r.seq := headSeq_of_find? hf
    have hselect : selectSeq uid db = .ok (r.seq, db) := by
      simp only [selectSeq, lockSeq, hf]
      rw [if_pos (by omega)]
    refine ⟨r.seq, db, ?_, hr.symm, rfl⟩
    rw [getSeq, Tx.bind_of_ok (by rw [Tx.attempt_apply, Tx.statement_of_ok hselect])]
    rfl

/-- The rows of a user have different sequences, of which there are not more than an `int32`
counts. -/
theorem length_filter_lt (hi : SeqInv db) (hfit : db.SeqsFit) {p : UserEventRow → Bool}
    (hp : ∀ r, p r = true → r.uid = uid) : (db.userEvents.rows.filter p).length < 2 ^ 31 := by
  have hkey : ∀ r ∈ db.userEvents.rows.filter p, r ∈ db.inRange uid ⟨1, db.headSeq uid⟩ := by
    intro r hr
    obtain ⟨hmem, hpr⟩ := List.mem_filter.mp hr
    obtain rfl := hp r hpr
    exact mem_inRange.mpr ⟨hmem, rfl, hi.seq_range hmem⟩
  have hnodup : (db.userEvents.rows.filter p).Nodup := db.userEvents.nodup.of_map.filter _
  have hle := (hnodup.subperm hkey).length_le
  have hrange := length_inRange_le db uid ⟨1, db.headSeq uid⟩
  have hhead := hfit uid
  simp only at hrange
  omega

/-- Where nothing fails, `Stats` counts the visible rows that are unread. -/
theorem stats_calm (hi : SeqInv db) (hfit : db.SeqsFit) (now uid days : ℤ) :
    (stats P .calm now uid days ⟨true⟩ db).1 = .ok ⟨db.headSeq uid,
      db.userEvents.rows.countP fun r =>
        r.uid = uid ∧ P.visible now days r.createTime ∧ r.readState = false⟩ := by
  have hcount : (db.userEvents.rows.countP fun r =>
      r.uid = uid ∧ P.visible now days r.createTime ∧ r.readState = false) < 2 ^ 31 := by
    rw [List.countP_eq_length_filter]
    exact length_filter_lt hi hfit fun r hr => (of_decide_eq_true hr).1
  have hbody : Tx.Total (· = db) (statsBody P now uid days ⟨true⟩) fun resp _ =>
      resp = ⟨db.headSeq uid, db.userEvents.rows.countP fun r =>
        r.uid = uid ∧ P.visible now days r.createTime ∧ r.readState = false⟩ := by
    refine Tx.Total.bind (getSeq_total hi hfit uid) fun seq => ?_
    simp only [if_true, countUnread]
    refine Tx.Total.bind (Q := fun (count : ℤ) _ => seq = db.headSeq uid ∧ count =
      db.userEvents.rows.countP fun r =>
        r.uid = uid ∧ P.visible now days r.createTime ∧ r.readState = false)
      (Tx.Total.statement ?_) fun count => Tx.Total.pure _ ?_
    · rintro db' ⟨rfl, rfl⟩
      exact ⟨_, _, if_pos hcount, rfl, rfl⟩
    · rintro _ ⟨rfl, rfl⟩
      rfl
  obtain ⟨resp, db', hrun, rfl⟩ := withTx_calm hbody rfl
  rw [stats, hrun]

theorem scanReadStates_eq (rows : List UserEventRow) :
    rows.mapM scanReadState = if rows.all (fun r => fitsInt32 r.seq) then
      .ok (rows.map fun r => (r.seq, r.readState)) else .error .scan :=
  mapM_scan (fun _ => rfl) rows

theorem scanReadStates_ok {rows : List UserEventRow}
    (h : ∀ r ∈ rows, -2 ^ 31 ≤ r.seq ∧ r.seq < 2 ^ 31) :
    rows.mapM scanReadState = .ok (rows.map fun r => (r.seq, r.readState)) := by
  rw [scanReadStates_eq, if_pos]
  simpa [fitsInt32] using h

/-- Where nothing fails, the blocks of `GetReadStates` hold the states of the visible rows. -/
theorem getReadStates_calm (hi : SeqInv db) (hfit : db.SeqsFit) (now uid days : ℤ) :
    ∃ (blocks : List Block) (bits : List (List Bool)) (rows : List UserEventRow),
      (getReadStates P .calm none now uid days ⟨db.headSeq uid⟩ db).1 = .ok (some blocks) ∧
        rows.Perm (db.userEvents.rows.filter fun r =>
          r.uid = uid ∧ P.visible now days r.createTime) ∧
        blocks.mapM Block.bits = some bits ∧ bits.flatten = rows.map UserEventRow.readState ∧
        (blocks.map Block.len).sum = rows.length := by
  set rows := (db.readStates P now uid days (db.headSeq uid)).insertionSort
    (fun a b => b.seq ≤ a.seq) with hrowsdef
  have hbound : db.readStates P now uid days (db.headSeq uid) =
      db.userEvents.rows.filter fun r => r.uid = uid ∧ P.visible now days r.createTime := by
    refine List.filter_congr fun r hr => ?_
    have hseq := (hi.seq_range hr).2
    by_cases huid : r.uid = uid
    · subst huid
      simp [hseq]
    · simp [huid]
  have hperm : rows.Perm (db.userEvents.rows.filter fun r =>
      r.uid = uid ∧ P.visible now days r.createTime) := by
    rw [← hbound]
    exact List.perm_insertionSort _ _
  have hmem : ∀ r ∈ rows, 0 < r.seq ∧ r.seq < 2 ^ 31 := by
    intro r hr
    have hold := (List.mem_filter.mp (hperm.mem_iff.mp hr)).1
    have hseq := hi.seq_range hold
    have hhead := hfit r.uid
    omega
  have hlen : rows.length < 2 ^ 31 := by
    rw [hperm.length_eq]
    exact length_filter_lt hi hfit fun r hr => (of_decide_eq_true hr).1
  have hscan := scanReadStates_ok fun r hr => ⟨by have := hmem r hr; omega, (hmem r hr).2⟩
  have hpos : ∀ p ∈ rows.map fun r => (r.seq, r.readState), 0 < p.1 := by
    intro p hp
    obtain ⟨r, hr, rfl⟩ := List.mem_map.mp hp
    exact (hmem r hr).1
  obtain ⟨blocks, bits, hresp, hbits, hflat, hsum⟩ :=
    bits_makeGetReadStatesResp hpos (by rwa [List.length_map])
  refine ⟨blocks, bits, rows, ?_, hperm, hbits, ?_, ?_⟩
  · have hbody : getReadStatesBody P none now uid days ⟨db.headSeq uid⟩ ⟨db, []⟩ =
        (.ok (rows.map fun r => (r.seq, r.readState)), ⟨db, []⟩) := by
      have hselect : selectReadStates P now uid days (db.headSeq uid) db = .ok (rows, db) := rfl
      rw [getReadStatesBody, Tx.bind_of_ok (Tx.statement_of_ok hselect)]
      simp only [fetch, hscan]
      rfl
    simp only [getReadStates, withTx, TxEnv.calm, hbody]
    rw [hresp]
  · rw [hflat, List.map_map]
    rfl
  · rw [hsum, List.length_map]

end Reading
end MiniPush.Store
