import MiniPush.Foundation.TwoRuns
import MiniPush.Store.Stats

/-! What one user can see of the store. Databases that differ only in the read states of other users
answer every query of the user alike, and stay that way under everything that writes to them. -/
namespace MiniPush.Store
open Foundation

/-- A row as a user can see it: the read state of another user's row is blotted out. -/
def UserEventRow.seenBy (uid : ℤ) (r : UserEventRow) : UserEventRow :=
  if r.uid = uid then r else { r with readState := false }

@[simp] theorem UserEventRow.seenBy_uid (uid : ℤ) (r : UserEventRow) : (r.seenBy uid).uid = r.uid := by
  unfold seenBy
  split_ifs <;> rfl

@[simp] theorem UserEventRow.seenBy_key (uid : ℤ) (r : UserEventRow) : (r.seenBy uid).key = r.key := by
  unfold seenBy
  split_ifs <;> rfl

@[simp] theorem UserEventRow.seenBy_topicOffset (uid : ℤ) (r : UserEventRow) :
    (r.seenBy uid).topicOffset = r.topicOffset := by
  unfold seenBy
  split_ifs <;> rfl

theorem UserEventRow.seenBy_of_uid {uid : ℤ} {r : UserEventRow} (h : r.uid = uid) : r.seenBy uid = r :=
  if_pos h

/-- The two databases differ at most in the read states of users other than `uid`. -/
structure SameFor (uid : ℤ) (db db' : Database) : Prop where
  events : db.events = db'.events
  userSeq : db.userSeq = db'.userSeq
  userEvents : db.userEvents.rows.map (·.seenBy uid) = db'.userEvents.rows.map (·.seenBy uid)

theorem SameFor.refl (uid : ℤ) (db : Database) : SameFor uid db db := ⟨rfl, rfl, rfl⟩

theorem SameFor.trans {uid : ℤ} {db db' db'' : Database} (h : SameFor uid db db')
    (h' : SameFor uid db' db'') : SameFor uid db db'' :=
  ⟨h.events.trans h'.events, h.userSeq.trans h'.userSeq, h.userEvents.trans h'.userEvents⟩

/-- A condition on rows of the user selects the same rows before and after the blotting. -/
theorem filter_map_seenBy {uid : ℤ} {p : UserEventRow → Bool} (hp : ∀ r, p r = true → r.uid = uid)
    (rows : List UserEventRow) : (rows.map (·.seenBy uid)).filter p = rows.filter p := by
  induction rows with
  | nil => rfl
  | cons r rows ih =>
    rw [List.map_cons, List.filter_cons, List.filter_cons, ih]
    by_cases hr : r.uid = uid
    · rw [UserEventRow.seenBy_of_uid hr]
    · have hnot : ∀ s : UserEventRow, s.uid = r.uid → p s = false := by
        intro s hs
        rw [← Bool.not_eq_true]
        exact fun h => hr (hs ▸ hp s h)
      simp only [hnot _ (UserEventRow.seenBy_uid uid r), hnot r rfl, Bool.false_eq_true, if_false]

namespace SameFor
variable {uid : ℤ} {db db' : Database}

theorem filter_eq (h : SameFor uid db db') {p : UserEventRow → Bool}
    (hp : ∀ r, p r = true → r.uid = uid) :
    db.userEvents.rows.filter p = db'.userEvents.rows.filter p := by
  rw [← filter_map_seenBy hp, h.userEvents, filter_map_seenBy hp]

theorem countP_eq (h : SameFor uid db db') {p : UserEventRow → Bool}
    (hp : ∀ r, p r = true → r.uid = uid) :
    db.userEvents.rows.countP p = db'.userEvents.rows.countP p := by
  rw [List.countP_eq_length_filter, List.countP_eq_length_filter, h.filter_eq hp]

theorem find?_eq_none (h : SameFor uid db db') (k : ℤ × ℤ) :
    db.userEvents.find? k = none ↔ db'.userEvents.find? k = none := by
  have hkeys : db.userEvents.rows.map UserEventRow.key = db'.userEvents.rows.map UserEventRow.key := by
    have hmap := congrArg (List.map UserEventRow.key) h.userEvents
    simpa only [List.map_map, Function.comp_def, UserEventRow.seenBy_key] using hmap
  have hnone : ∀ T : Table UserEventRow.key,
      T.find? k = none ↔ k ∉ T.rows.map UserEventRow.key := by
    intro T
    rw [Table.find?_eq_none_iff, List.mem_map, not_exists]
    simp only [not_and, ne_eq]
  rw [hnone, hnone, hkeys]

end SameFor

section Statements
variable {uid : ℤ} {db db' : Database}

theorem insertEvent_agree (offset createTime : ℤ) (payload : Bytes) (h : SameFor uid db db') :
    Tx.Agree (SameFor uid) (insertEvent offset createTime payload db)
      (insertEvent offset createTime payload db') := by
  obtain ⟨events, userEvents, userSeq, history, hrefs⟩ := db
  obtain ⟨events', userEvents', userSeq', history', hrefs'⟩ := db'
  obtain rfl : events = events' := h.events
  unfold insertEvent
  cases DateTime.ofTime? createTime with
  | none => rfl
  | some t =>
    dsimp only
    split_ifs
    · split
      · rfl
      · exact ⟨rfl, rfl, h.userSeq, h.userEvents⟩
    · rfl

theorem getEvent_agree (offset : ℤ) (h : SameFor uid db db') :
    Tx.Agree (SameFor uid) (getEvent offset db) (getEvent offset db') := by
  unfold getEvent
  rw [← h.events]
  cases db.events.find? offset with
  | none => rfl
  | some r => exact ⟨rfl, h⟩

theorem lockSeq_agree (v : ℤ) (h : SameFor uid db db') :
    Tx.Agree (SameFor uid) (lockSeq v db) (lockSeq v db') := by
  unfold lockSeq
  rw [← h.userSeq]
  cases db.userSeq.find? v with
  | none => rfl
  | some r =>
    dsimp only
    split_ifs
    · exact ⟨rfl, h⟩
    · rfl

theorem insertSeq_agree (v : ℤ) (h : SameFor uid db db') :
    Tx.Agree (SameFor uid) (insertSeq v db) (insertSeq v db') := by
  unfold insertSeq
  rw [← h.userSeq]
  split_ifs
  · cases db.userSeq.insert? ⟨v, 1⟩ with
    | none => rfl
    | some userSeq => exact ⟨rfl, h.events, rfl, h.userEvents⟩
  · rfl

theorem increaseSeq_agree (v seq : ℤ) (h : SameFor uid db db') :
    Tx.Agree (SameFor uid) (increaseSeq v seq db) (increaseSeq v seq db') := by
  unfold increaseSeq
  rw [← h.userSeq]
  dsimp only
  split_ifs
  · exact ⟨rfl, h.events, rfl, h.userEvents⟩
  · rfl

theorem insertUserEvent_agree (v seq createTime offset : ℤ) (h : SameFor uid db db') :
    Tx.Agree (SameFor uid) (insertUserEvent v seq createTime offset db)
      (insertUserEvent v seq createTime offset db') := by
  obtain ⟨events, userEvents, userSeq, history, hrefs⟩ := db
  obtain ⟨events', userEvents', userSeq', history', hrefs'⟩ := db'
  obtain rfl : events = events' := h.events
  unfold insertUserEvent
  cases DateTime.ofTime? createTime with
  | none => rfl
  | some t =>
    have hfree := h.find?_eq_none (v, seq)
    have hrows := h.userEvents
    dsimp only at hfree hrows ⊢
    by_cases hfit : (fitsInt v && fitsInt seq && fitsBigint offset) = true
    · rw [if_pos hfit, if_pos hfit]
      split
      · rename_i hins
        obtain ⟨r, hr, hk⟩ := Table.insert?_eq_none_iff.mp hins
        split
        · rfl
        · rename_i hins'
          have hnone := hfree.mpr (Table.insert?_eq_some_iff.mp hins').1
          exact absurd hk (Table.find?_eq_none_iff.mp hnone r hr)
      · rename_i hins
        obtain ⟨hnone, hnew⟩ := Table.insert?_eq_some_iff.mp hins
        have hboth : userEvents'.insert? ⟨v, seq, t, false, offset⟩ ≠ none := by
          intro hins'
          obtain ⟨r, hr, hk⟩ := Table.insert?_eq_none_iff.mp hins'
          exact Table.find?_eq_none_iff.mp (hfree.mp hnone) r hr hk
        split_ifs
        · split
          · exact absurd ‹_› hboth
          · rename_i hins'
            refine ⟨rfl, rfl, h.userSeq, ?_⟩
            dsimp only
            rw [hnew, (Table.insert?_eq_some_iff.mp hins').2, List.map_append, List.map_append, hrows]
        · split
          · exact absurd ‹_› hboth
          · rfl
    · rw [if_neg hfit, if_neg hfit]
      rfl

theorem updateReadState_agree (seq : ℤ) (h : SameFor uid db db') :
    Tx.Agree (SameFor uid) (updateReadState uid seq db) (updateReadState uid seq db') := by
  have hmark : ∀ rows : List UserEventRow,
      (rows.map fun r => if r.uid = uid ∧ r.seq = seq ∧ r.readState = false then
        { r with readState := true } else r).map (·.seenBy uid) =
      (rows.map (·.seenBy uid)).map fun r => if r.uid = uid ∧ r.seq = seq ∧ r.readState = false then
        { r with readState := true } else r := by
    intro rows
    rw [List.map_map, List.map_map]
    refine List.map_congr_left fun r _ => ?_
    simp only [Function.comp_apply]
    by_cases hr : r.uid = uid
    · rw [UserEventRow.seenBy_of_uid hr, UserEventRow.seenBy_of_uid]
      split_ifs <;> exact hr
    · simp only [UserEventRow.seenBy_uid, hr, false_and, if_false]
  refine ⟨h.countP_eq fun r hr => (of_decide_eq_true hr).1, h.events, h.userSeq, ?_⟩
  obtain ⟨-, -, -, hrows⟩ := updateReadState_ok (show updateReadState uid seq db = .ok (_, _) from rfl)
  obtain ⟨-, -, -, hrows'⟩ := updateReadState_ok (show updateReadState uid seq db' = .ok (_, _) from rfl)
  rw [hrows, hrows', hmark, hmark, h.userEvents]

/-- A user that marks an event as read changes nothing for another user. -/
theorem updateReadState_sameFor {v seq : ℤ} {n : ℕ} (hv : v ≠ uid)
    (hread : updateReadState v seq db = .ok (n, db')) : SameFor uid db' db := by
  obtain ⟨hevents, huserSeq, -, hrows⟩ := updateReadState_ok hread
  refine ⟨hevents, huserSeq, ?_⟩
  rw [hrows, List.map_map]
  refine List.map_congr_left fun r _ => ?_
  simp only [Function.comp_apply]
  split_ifs with hhit
  · have hr : ¬r.uid = uid := fun hr => hv (hhit.1 ▸ hr)
    simp only [UserEventRow.seenBy, hr, if_false]
  · rfl

theorem cleanEvents_agree (R : DateReading) (lteCreateTime : ℤ) (h : SameFor uid db db') :
    Tx.Agree (SameFor uid) (cleanEvents R lteCreateTime db) (cleanEvents R lteCreateTime db') := by
  obtain ⟨events, userEvents, userSeq, history, hrefs⟩ := db
  obtain ⟨events', userEvents', userSeq', history', hrefs'⟩ := db'
  obtain rfl : events = events' := h.events
  refine ⟨rfl, rfl, h.userSeq, ?_⟩
  have hfilter : ∀ (p : ℤ → Bool) (rows : List UserEventRow),
      (rows.filter fun r => p r.topicOffset).map (·.seenBy uid) =
        (rows.map (·.seenBy uid)).filter fun r => p r.topicOffset := by
    intro p rows
    rw [List.filter_map]
    simp only [Function.comp_def, UserEventRow.seenBy_topicOffset]
  have hrows := h.userEvents
  simp only [Table.rows_filter] at hrows ⊢
  rw [hfilter fun o => ((events.filter fun e => !R.le e.createTime lteCreateTime).find? o).isSome,
    hfilter fun o => ((events.filter fun e => !R.le e.createTime lteCreateTime).find? o).isSome, hrows]

theorem selectEvents_agree (req : GetEventsReq) (h : SameFor uid db db') :
    Tx.Agree (SameFor uid) (selectEvents uid req db) (selectEvents uid req db') := by
  have hrange : db.inRange uid req = db'.inRange uid req :=
    h.filter_eq fun r hr => (of_decide_eq_true hr).1
  refine ⟨?_, h⟩
  dsimp only
  rw [hrange, h.events]

theorem selectUnread_agree (P : Platform) (now days : ℤ) (h : SameFor uid db db') :
    Tx.Agree (SameFor uid) (selectUnread P now uid days db) (selectUnread P now uid days db') := by
  unfold selectUnread
  rw [h.countP_eq fun r hr => (of_decide_eq_true hr).1]
  dsimp only
  split_ifs
  · exact ⟨rfl, h⟩
  · rfl

theorem selectReadStates_agree (P : Platform) (now days headSeq : ℤ) (h : SameFor uid db db') :
    Tx.Agree (SameFor uid) (selectReadStates P now uid days headSeq db)
      (selectReadStates P now uid days headSeq db') := by
  have hstates : db.readStates P now uid days headSeq = db'.readStates P now uid days headSeq :=
    h.filter_eq fun r hr => (of_decide_eq_true hr).1
  refine ⟨?_, h⟩
  dsimp only
  rw [hstates]

end Statements

section Transactions
variable {uid : ℤ}

private theorem selectForUpdate_respects (v : ℤ) :
    Tx.Respects (SameFor uid) (selectForUpdate v) := by
  refine .bind (.attempt (.statement fun _ _ => lockSeq_agree v)) fun locked => ?_
  split
  · exact .pure _
  · exact .pure _
  · exact .throw _

private theorem insertIfNotFound_respects (v seq : ℤ) :
    Tx.Respects (SameFor uid) (insertIfNotFound v seq) := by
  unfold insertIfNotFound
  split_ifs
  · refine .bind (.attempt (.statement fun _ _ => insertSeq_agree v)) fun inserted => ?_
    split
    · exact .pure _
    · split_ifs
      · exact .statement fun _ _ => lockSeq_agree v
      · exact .throw _
  · exact .pure _

private theorem saveTo_respects (e : Event) (seqMap : GoMap ℤ ℤ) (v : ℤ) :
    Tx.Respects (SameFor uid) (saveTo e seqMap v) := by
  refine .bind ?_ fun seq => .bind (.statement fun _ _ => insertUserEvent_agree v seq _ _) fun _ => .pure _
  refine .bind (selectForUpdate_respects v) fun seq => ?_
  refine .bind (insertIfNotFound_respects v seq) fun seq => ?_
  exact .bind (.statement fun _ _ => increaseSeq_agree v seq) fun _ => .pure _

theorem saveBody_respects (e : Event) : Tx.Respects (SameFor uid) (saveBody e) := by
  refine .bind (.attempt (.statement fun _ _ => insertEvent_agree _ _ _)) fun inserted => ?_
  split
  · exact .bind (.statement fun _ _ h => ⟨rfl, h⟩) fun _ => .foldlM (saveTo_respects e) _ _
  · split_ifs
    · refine .bind (.attempt (.statement fun _ _ => getEvent_agree _)) fun stored => ?_
      split
      · split_ifs
        · exact .pure _
        · exact .throw _
      · exact .throw _
    · exact .throw _

theorem statsBody_respects (P : Platform) (now days : ℤ) (req : StatsReq) :
    Tx.Respects (SameFor uid) (statsBody P now uid days req) := by
  refine .bind (.bind (.attempt (.statement fun _ _ => lockSeq_agree uid)) fun out => ?_) fun seq => ?_
  · split
    · exact .pure _
    · exact .pure _
    · exact .throw _
  · split_ifs
    · exact .bind (.statement fun _ _ => selectUnread_agree P now days) fun count => .pure _
    · exact .pure _

theorem getEventsBody_respects (broken : Option ℕ) (req : GetEventsReq) :
    Tx.Respects (SameFor uid) (getEventsBody broken uid req) := by
  refine .bind (.statement fun _ _ => selectEvents_agree req) fun rows => ?_
  split
  · exact .pure _
  · exact .throw _

theorem getReadStatesBody_respects (P : Platform) (broken : Option ℕ) (now days : ℤ)
    (req : GetReadStatesReq) : Tx.Respects (SameFor uid) (getReadStatesBody P broken now uid days req) := by
  refine .bind (.statement fun _ _ => selectReadStates_agree P now days req.headSeq) fun rows => ?_
  split
  · exact .pure _
  · exact .throw _

end Transactions

section Operations
variable {uid : ℤ} {db db' : Database}

theorem save_sameFor (env : TxEnv SqlError) (e : Event) (h : SameFor uid db db') :
    SameFor uid (save env e db).2 (save env e db').2 :=
  (withTx_respects (saveBody_respects e) env h).2

theorem deleteOutdatedEvents_sameFor (P : Platform) (env : TxEnv SqlError) (now ttlDays : ℤ)
    (h : SameFor uid db db') : SameFor uid (deleteOutdatedEvents P env now ttlDays db).2
      (deleteOutdatedEvents P env now ttlDays db').2 :=
  (withTx_respects (.bind (.statement fun _ _ => cleanEvents_agree _ _) fun _ => .pure _) env h).2

theorem setRead_agree (env : TxEnv SqlError) (seq : ℤ) (h : SameFor uid db db') :
    (setRead env uid seq db).1 = (setRead env uid seq db').1 ∧
      SameFor uid (setRead env uid seq db).2 (setRead env uid seq db').2 :=
  withTx_respects (.bind (.statement fun _ _ => updateReadState_agree seq) fun _ => .pure _) env h

theorem stats_agree (P : Platform) (env : TxEnv SqlError) (now days : ℤ) (req : StatsReq)
    (h : SameFor uid db db') : (stats P env now uid days req db).1 = (stats P env now uid days req db').1 ∧
      SameFor uid (stats P env now uid days req db).2 (stats P env now uid days req db').2 :=
  withTx_respects (statsBody_respects P now days req) env h

theorem getEvents_agree (env : TxEnv SqlError) (broken : Option ℕ) (req : GetEventsReq)
    (h : SameFor uid db db') : (getEvents env broken uid req db).1 = (getEvents env broken uid req db').1 ∧
      SameFor uid (getEvents env broken uid req db).2 (getEvents env broken uid req db').2 :=
  withTx_respects (getEventsBody_respects broken req) env h

theorem getReadStates_agree (P : Platform) (env : TxEnv SqlError) (broken : Option ℕ) (now days : ℤ)
    (req : GetReadStatesReq) (h : SameFor uid db db') :
    (getReadStates P env broken now uid days req db).1 = (getReadStates P env broken now uid days req db').1 ∧
      SameFor uid (getReadStates P env broken now uid days req db).2
        (getReadStates P env broken now uid days req db').2 := by
  obtain ⟨hres, hrel⟩ := withTx_respects (getReadStatesBody_respects P broken now days req) env h
  unfold getReadStates
  rcases hr : withTx env (getReadStatesBody P broken now uid days req) db with ⟨e | states, t⟩ <;>
    rcases hr' : withTx env (getReadStatesBody P broken now uid days req) db' with ⟨e' | states', t'⟩ <;>
    rw [hr, hr'] at hres hrel
  · exact ⟨by rw [Except.error.inj hres], hrel⟩
  · cases hres
  · cases hres
  · exact ⟨by rw [Except.ok.inj hres], hrel⟩

theorem stats_readOnly (P : Platform) (env : TxEnv SqlError) (now v days : ℤ) (req : StatsReq)
    (db : Database) : (stats P env now v days req db).2 = db := by
  refine withTx_readOnly (.bind (.bind (.attempt (.statement fun db a db' h => ?_)) fun out => ?_)
    fun seq => ?_) env db
  · exact (lockSeq_ok h).1
  · split
    · exact .pure _
    · exact .pure _
    · exact .throw _
  · split_ifs
    · refine .bind (.statement fun db a db' h => ?_) fun count => .pure _
      unfold selectUnread at h
      dsimp only at h
      split_ifs at h
      cases h
      rfl
    · exact .pure _

theorem getEvents_readOnly (env : TxEnv SqlError) (broken : Option ℕ) (v : ℤ) (req : GetEventsReq)
    (db : Database) : (getEvents env broken v req db).2 = db := by
  refine withTx_readOnly (.bind (.statement fun db a db' h => ?_) fun rows => ?_) env db
  · cases h
    rfl
  · split
    · exact .pure _
    · exact .throw _

theorem getReadStates_readOnly (P : Platform) (env : TxEnv SqlError) (broken : Option ℕ)
    (now v days : ℤ) (req : GetReadStatesReq) (db : Database) :
    (getReadStates P env broken now v days req db).2 = db := by
  have hbody : Tx.ReadOnly (getReadStatesBody P broken now v days req) := by
    refine .bind (.statement fun db a db' h => ?_) fun rows => ?_
    · cases h
      rfl
    · split
      · exact .pure _
      · exact .throw _
  have hdb := withTx_readOnly hbody env db
  unfold getReadStates
  rcases hr : withTx env (getReadStatesBody P broken now v days req) db with ⟨_ | _, _⟩ <;>
    rw [hr] at hdb <;> exact hdb

theorem getReadStates_ne_none (P : Platform) (env : TxEnv SqlError) (broken : Option ℕ)
    (now v days : ℤ) (req : GetReadStatesReq) (db : Database) :
    (getReadStates P env broken now v days req db).1 ≠ .ok none := by
  unfold getReadStates
  rcases withTx env (getReadStatesBody P broken now v days req) db with ⟨_ | states, _⟩
  · simp
  · have hsome : (makeGetReadStatesResp (states.map Prod.fst) (states.map Prod.snd)).isSome :=
      makeGetReadStatesResp_isSome (by rw [List.length_map, List.length_map])
    intro h
    rw [Except.ok.inj h] at hsome
    cases hsome

/-- Whatever another user marks as read, the user sees the same store. -/
theorem setRead_sameFor {v : ℤ} (hv : v ≠ uid) (env : TxEnv SqlError) (seq : ℤ) (db : Database) :
    SameFor uid (setRead env v seq db).2 db := by
  rcases setRead_cases env v seq db with he | ⟨n, he⟩
  · rw [he]
    exact .refl uid db
  · exact updateReadState_sameFor hv he

end Operations
end MiniPush.Store
