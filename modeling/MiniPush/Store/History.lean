import MiniPush.Store.Sequence

/-! What the write operations add to the history of the store. -/
namespace MiniPush.Store
open Foundation

/-- What a `Save` that stores its event adds: the event and one row for each recipient. -/
structure Added (e : Event) (db db' : Database) (t : DateTime) (rows : List UserEventRow) :
    Prop where
  time : DateTime.ofTime? e.createTime = some t
  fresh : db.events.find? e.offset = none
  events : db'.events.rows = db.events.rows ++ [⟨e.offset, t, e.payload⟩]
  history : db'.history =
    ⟨db.history.events ++ [⟨e.offset, t, e.payload⟩], db.history.userEvents ++ rows⟩
  recipients : rows.map UserEventRow.uid = e.toUids
  offsets : ∀ r ∈ rows, r.topicOffset = e.offset

theorem headSeq_congr {db db' : Database} (h : db'.userSeq = db.userSeq) :
    db'.headSeq = db.headSeq := by
  funext uid
  rw [Database.headSeq, h, Database.headSeq]

/-- The map that `Save` builds holds the new head sequences of the recipients. -/
theorem Deliveries.heads {t : DateTime} {o : ℤ} {db db' : Database} {uids : List ℤ}
    {m : GoMap ℤ ℤ} (h : Deliveries t o db uids m db') (uid : ℤ) :
    (∀ v, m.lookup uid = some v → v = db'.headSeq uid ∧ db.headSeq uid < v) ∧
      (m.lookup uid = none → db'.headSeq uid = db.headSeq uid) := by
  induction h with
  | nil => simp
  | @snoc uids m db₁ db₂ u _ hd ih =>
    rw [GoMap.lookup_insert]
    by_cases hu : uid = u
    · subst hu
      rw [if_pos rfl, hd.headSeq_self]
      refine ⟨fun v hv => ?_, by simp⟩
      obtain rfl : db₁.headSeq uid + 1 = v := Option.some.inj hv
      refine ⟨rfl, ?_⟩
      cases hm : m.lookup uid with
      | none =>
        have := ih.2 hm
        omega
      | some w =>
        have := ih.1 w hm
        omega
    · rw [if_neg hu, hd.headSeq_other hu]
      exact ih

/-- Each delivery moves the head sequence of its recipient up by one. -/
theorem Deliveries.headSeq {t : DateTime} {o : ℤ} {db db' : Database} {uids : List ℤ}
    {m : GoMap ℤ ℤ} (h : Deliveries t o db uids m db') (uid : ℤ) :
    db'.headSeq uid = db.headSeq uid + uids.count uid := by
  induction h with
  | nil => simp
  | @snoc uids m db₁ db₂ u _ hd ih =>
    rw [List.count_append, List.count_singleton]
    by_cases hu : uid = u
    · subst hu
      rw [hd.headSeq_self, ih]
      simp [add_assoc]
    · have hne : (u == uid) = false := beq_eq_false_iff_ne.mpr fun he => hu he.symm
      rw [hd.headSeq_other hu, ih, hne]
      simp

theorem Deliveries.lookup {t : DateTime} {o : ℤ} {db db' : Database} {uids : List ℤ}
    {m : GoMap ℤ ℤ} (h : Deliveries t o db uids m db') (uid : ℤ) :
    m.lookup uid = if uid ∈ uids then some (db'.headSeq uid) else none := by
  induction h with
  | nil => simp
  | @snoc uids m db₁ db₂ u _ hd ih =>
    rw [GoMap.lookup_insert]
    by_cases hu : uid = u
    · subst hu
      rw [if_pos rfl, if_pos (by simp), hd.headSeq_self]
    · rw [if_neg hu, ih, hd.headSeq_other hu]
      simp [hu]

theorem Deliveries.find?_other {t : DateTime} {o : ℤ} {db db' : Database} {uids : List ℤ}
    {m : GoMap ℤ ℤ} (h : Deliveries t o db uids m db') {uid : ℤ} (hu : uid ∉ uids) :
    db'.userSeq.find? uid = db.userSeq.find? uid := by
  induction h with
  | nil => rfl
  | @snoc uids m db₁ db₂ u _ hd ih =>
    rw [List.mem_append, List.mem_singleton, not_or] at hu
    rw [hd.other uid hu.2, ih hu.1]

theorem Deliveries.userEvents {t : DateTime} {o : ℤ} {db db' : Database} {uids : List ℤ}
    {m : GoMap ℤ ℤ} (h : Deliveries t o db uids m db') :
    ∃ rows, db'.userEvents.rows = db.userEvents.rows ++ rows ∧ rows.map UserEventRow.uid = uids ∧
      ∀ r ∈ rows, r.createTime = t ∧ r.readState = false ∧ r.topicOffset = o := by
  induction h with
  | nil => exact ⟨[], by simp, rfl, by simp⟩
  | @snoc uids m db₁ db₂ uid h₁ hd ih =>
    obtain ⟨rows, hrows, huids, hall⟩ := ih
    refine ⟨rows ++ [⟨uid, db₁.headSeq uid + 1, t, false, o⟩], ?_, ?_, ?_⟩
    · rw [hd.userEvents, hrows, List.append_assoc]
    · rw [List.map_append, huids]
      rfl
    · intro r hr
      rcases List.mem_append.mp hr with hr | hr
      · exact hall r hr
      · rw [List.mem_singleton.mp hr]
        exact ⟨rfl, rfl, rfl⟩

/-- The rows inserted for the recipients, each numbered above the old head sequence of its user and
not above the new one. -/
theorem Deliveries.rows {t : DateTime} {o : ℤ} {db db' : Database} {uids : List ℤ}
    {m : GoMap ℤ ℤ} (h : Deliveries t o db uids m db') :
    ∃ rows, db'.events = db.events ∧
      db'.history = ⟨db.history.events, db.history.userEvents ++ rows⟩ ∧
      rows.map UserEventRow.uid = uids ∧ (∀ r ∈ rows, r.topicOffset = o) ∧
      ∀ r ∈ rows, db.headSeq r.uid < r.seq ∧ ∃ v, m.lookup r.uid = some v ∧ r.seq ≤ v := by
  induction h with
  | nil => exact ⟨[], rfl, by simp, rfl, by simp, by simp⟩
  | @snoc uids m db₁ db₂ uid h₁ hd ih =>
    obtain ⟨rows, hev, hhist, huids, hoff, hseq⟩ := ih
    refine ⟨rows ++ [⟨uid, db₁.headSeq uid + 1, t, false, o⟩], hd.events.trans hev, ?_, ?_, ?_, ?_⟩
    · rw [hd.history, hhist, List.append_assoc]
    · rw [List.map_append, huids]
      rfl
    · intro r hr
      rcases List.mem_append.mp hr with hr | hr
      · exact hoff r hr
      · rw [List.mem_singleton.mp hr]
    · intro r hr
      simp only [GoMap.lookup_insert]
      rcases List.mem_append.mp hr with hr | hr
      · obtain ⟨hlt, v, hv, hle⟩ := hseq r hr
        refine ⟨hlt, ?_⟩
        split_ifs with hu
        · have hhead := ((h₁.heads r.uid).1 v hv).1
          rw [hu] at hhead
          exact ⟨_, rfl, by omega⟩
        · exact ⟨v, hv, hle⟩
      · rw [List.mem_singleton.mp hr]
        have hnew := (h₁.snoc hd).heads uid
        rw [GoMap.lookup_insert, if_pos rfl] at hnew
        exact ⟨(hnew.1 _ rfl).2, _, if_pos rfl, le_refl _⟩

theorem Stored.added {e : Event} {db db' : Database} {m : GoMap ℤ ℤ} (h : Stored e db m db') :
    ∃ t rows, Added e db db' t rows ∧
      ∀ r ∈ rows, db.headSeq r.uid < r.seq ∧ ∃ v, m.lookup r.uid = some v ∧ r.seq ≤ v := by
  obtain ⟨-, hfresh, t, db₁, ht, hev, -, hus, hhist, hd⟩ := h
  have hhead := headSeq_congr hus
  obtain ⟨rows, hev', hhist', huids, hoff, hseq⟩ := hd.rows
  refine ⟨t, rows, ⟨ht, hfresh, ?_, ?_, huids, hoff⟩, fun r hr => ?_⟩
  · rw [hev', hev]
  · rw [hhist', hhist]
  · rw [← hhead]
    exact hseq r hr

theorem Stored.heads {e : Event} {db db' : Database} {m : GoMap ℤ ℤ} (h : Stored e db m db')
    (uid : ℤ) : (∀ v, m.lookup uid = some v → v = db'.headSeq uid ∧ db.headSeq uid < v) ∧
      db.headSeq uid ≤ db'.headSeq uid := by
  obtain ⟨-, -, t, db₁, -, -, -, hus, -, hd⟩ := h
  have hd' := hd.heads uid
  rw [headSeq_congr hus] at hd'
  refine ⟨hd'.1, ?_⟩
  cases hm : m.lookup uid with
  | none => exact (hd'.2 hm).ge
  | some v =>
    have := hd'.1 v hm
    omega

/-- Saving an event whose offset is taken, with nothing failing: the stored event decides. -/
theorem save_calm_of_find? {e : Event} {db : Database} {t : DateTime} {row : EventRow}
    (ht : DateTime.ofTime? e.createTime = some t)
    (hfit : (fitsBigint e.offset && fitsPayload e.payload) = true)
    (hrow : db.events.find? e.offset = some row) :
    save .calm e db = (if sameEvent row e then .ok ∅ else .error .dupKey, db) := by
  have hinsert : (Tx.statement (insertEvent e.offset e.createTime e.payload)).attempt ⟨db, []⟩ =
      (.ok (.error .dupKey), ⟨db, []⟩) := by
    rw [Tx.attempt_apply, Tx.statement_nil, insertEvent_dupKey ht hfit (by rw [hrow]; rfl)]
  have hselect : (Tx.statement (getEvent e.offset)).attempt ⟨db, []⟩ = (.ok (.ok row), ⟨db, []⟩) := by
    rw [Tx.attempt_apply, Tx.statement_nil, getEvent, hrow]
  have hbody : saveBody e ⟨db, []⟩ =
      (if sameEvent row e then .ok ∅ else .error .dupKey, ⟨db, []⟩) := by
    rw [saveBody, Tx.bind_of_ok hinsert]
    simp only [isDupKeyError, decide_true, if_true]
    rw [Tx.bind_of_ok hselect]
    cases hsame : sameEvent row e <;> simp only [hsame, if_true, Bool.false_eq_true, if_false] <;> rfl
  cases hsame : sameEvent row e <;> simp only [hsame, if_true, Bool.false_eq_true, if_false] at hbody
  · simp only [save, withTx, TxEnv.calm, hbody, Bool.false_eq_true, if_false]
  · simp only [save, withTx, TxEnv.calm, hbody, if_true]

theorem sameEvent_of_whole {e : Event} {t : DateTime} {m : ℤ}
    (hwhole : e.createTime = m * Time.millisecond)
    (ht : DateTime.ofTime? e.createTime = some t) :
    sameEvent ⟨e.offset, t, e.payload⟩ e = true := by
  rw [hwhole] at ht
  have hms := DateTime.ofTime?_whole ht
  simp only [sameEvent, DateTime.toTime, hms, hwhole, and_self, decide_true]

/-- An event with a time in whole milliseconds, saved again after it was stored. -/
theorem Stored.save_calm {e : Event} {db db' : Database} {m : GoMap ℤ ℤ} (h : Stored e db m db')
    {ms : ℤ} (hwhole : e.createTime = ms * Time.millisecond) :
    save .calm e db' = (.ok ∅, db') := by
  obtain ⟨t, rows, hadd, -⟩ := h.added
  have hrow : db'.events.find? e.offset = some ⟨e.offset, t, e.payload⟩ := by
    rw [Table.find?_eq_some_iff, hadd.events]
    exact ⟨List.mem_append_right _ (List.mem_singleton_self _), rfl⟩
  rw [save_calm_of_find? hadd.time h.fits hrow, sameEvent_of_whole hwhole hadd.time, if_pos rfl]

theorem setRead_headSeq (env : TxEnv SqlError) (uid seq : ℤ) (db : Database) :
    (setRead env uid seq db).2.headSeq = db.headSeq := by
  rcases setRead_cases env uid seq db with he | ⟨n, he⟩
  · rw [he]
  · exact headSeq_congr (updateReadState_ok he).2.1

theorem deleteOutdatedEvents_headSeq (P : Platform) (env : TxEnv SqlError) (now ttlDays : ℤ)
    (db : Database) : (deleteOutdatedEvents P env now ttlDays db).2.headSeq = db.headSeq := by
  rcases deleteOutdatedEvents_cases P env now ttlDays db with he | ⟨n, he⟩
  · rw [he]
  · exact headSeq_congr (cleanEvents_ok he).1

theorem firstSeqs_increasing (n : ℕ) : (firstSeqs n).Pairwise (· < ·) := by
  rw [firstSeqs, List.pairwise_map]
  refine List.pairwise_lt_range.imp fun h => ?_
  omega

/-- Two rows of one user are numbered in the order of their insertion. -/
theorem SeqInv.seq_increasing {db : Database} (h : SeqInv db) :
    db.history.userEvents.Pairwise fun r r' => r.uid = r'.uid → r.seq < r'.seq := by
  rw [List.pairwise_iff_getElem]
  intro i j hi hj hij huid
  have hsorted : (db.assignedSeqs (db.history.userEvents[i]).uid).Pairwise (· < ·) := by
    rw [h.assigned]
    exact firstSeqs_increasing _
  rw [Database.assignedSeqs, List.pairwise_map, List.pairwise_filter] at hsorted
  exact (List.pairwise_iff_getElem.mp hsorted) i j hi hj hij (by simp) (by simp [huid])

theorem setRead_history (env : TxEnv SqlError) (uid seq : ℤ) (db : Database) :
    (setRead env uid seq db).2.history = db.history ∧
      (setRead env uid seq db).2.events = db.events := by
  rcases setRead_cases env uid seq db with he | ⟨n, he⟩
  · rw [he]
    exact ⟨rfl, rfl⟩
  · obtain ⟨hev, -, hhist, -⟩ := updateReadState_ok he
    exact ⟨hhist, hev⟩

theorem deleteOutdatedEvents_history (P : Platform) (env : TxEnv SqlError) (now ttlDays : ℤ)
    (db : Database) : (deleteOutdatedEvents P env now ttlDays db).2.history = db.history := by
  rcases deleteOutdatedEvents_cases P env now ttlDays db with he | ⟨n, he⟩
  · rw [he]
  · exact (cleanEvents_ok he).2.1

/-- `DeleteOutdatedEvents` deletes only events created `ttlDays + 1` days ago or earlier. -/
theorem deleteOutdatedEvents_events (P : Platform) (env : TxEnv SqlError) (now : ℤ) {ttlDays : ℤ}
    (h0 : 0 ≤ ttlDays) (h1 : ttlDays ≤ 100) (db : Database) :
    (∀ r ∈ (deleteOutdatedEvents P env now ttlDays db).2.events.rows, r ∈ db.events.rows) ∧
      ∀ r ∈ db.events.rows, r ∈ (deleteOutdatedEvents P env now ttlDays db).2.events.rows ∨
        r.createTime.toTime ≤ now - (ttlDays + 1) * 24 * Time.hour := by
  rcases deleteOutdatedEvents_cases P env now ttlDays db with he | ⟨n, he⟩
  · rw [he]
    exact ⟨fun r hr => hr, fun r hr => .inl hr⟩
  · obtain ⟨-, -, hev, -⟩ := cleanEvents_ok he
    refine ⟨fun r hr => ?_, fun r hr => ?_⟩
    · rw [hev] at hr
      exact (List.mem_filter.mp hr).1
    · rw [hev, List.mem_filter]
      by_cases hold : P.reading.le r.createTime (Time.unix (getDayBefore P.location now ttlDays))
      · right
        have hms := P.reading.ms_le_of_le hold
        have hday := getDayBefore_le P.location now (show -1 ≤ ttlDays by omega) (by omega)
        have hunix : Time.unix (getDayBefore P.location now ttlDays) * 10 ^ 9 ≤
            getDayBefore P.location now ttlDays := by
          unfold Time.unix Time.second
          omega
        unfold DateTime.toTime Time.millisecond
        omega
      · exact .inl ⟨hr, by simpa using hold⟩

end MiniPush.Store
