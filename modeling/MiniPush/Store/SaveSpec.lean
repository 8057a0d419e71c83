import MiniPush.Store.Event

/-! What a successful `Save` does to the store, as a relation between databases. Every
invariant of the store is derived from this relation. -/
namespace MiniPush.Store
open Foundation

theorem headSeq_of_find? {db : Database} {uid : ℤ} {r : UserSeqRow}
    (h : db.userSeq.find? uid = some r) : db.headSeq uid = r.seq := by
  simp [Database.headSeq, h]

theorem headSeq_of_find?_none {db : Database} {uid : ℤ} (h : db.userSeq.find? uid = none) :
    db.headSeq uid = 0 := by
  simp [Database.headSeq, h]

/-- The effect of `incSeq` on the database: the sequence of one user moves up by one. -/
structure SeqAdvanced (db : Database) (uid : ℤ) (db' : Database) : Prop where
  events : db'.events = db.events
  userEvents : db'.userEvents = db.userEvents
  history : db'.history = db.history
  self : db'.userSeq.find? uid = some ⟨uid, db.headSeq uid + 1⟩
  other : ∀ v, v ≠ uid → db'.userSeq.find? v = db.userSeq.find? v

/-- What `incSeq` may know when it comes to its update: the stored sequence, or 0 with a row
it inserted itself. -/
def Held (db : Database) (uid seq : ℤ) (db₁ : Database) : Prop :=
  (-2 ^ 31 ≤ seq ∧ seq < 2 ^ 31) ∧ db.headSeq uid = seq ∧
    ((db₁ = db ∧ db.userSeq.find? uid = some ⟨uid, seq⟩) ∨
      (seq = 0 ∧ db.userSeq.find? uid = none ∧
        ∃ userSeq, db₁ = { db with userSeq } ∧ userSeq.rows = db.userSeq.rows ++ [⟨uid, 1⟩]))

theorem held_of_lockSeq {db db₁ : Database} {uid seq : ℤ}
    (h : lockSeq uid db = .ok (seq, db₁)) : Held db uid seq db₁ := by
  obtain ⟨rfl, hf, hlt⟩ := lockSeq_ok h
  exact ⟨hlt, headSeq_of_find? hf, .inl ⟨rfl, hf⟩⟩

theorem held_of_insertSeq {db db₁ : Database} {uid : ℤ} {u : Unit}
    (h : insertSeq uid db = .ok (u, db₁)) : Held db uid 0 db₁ := by
  obtain ⟨-, hfree, userSeq, hdb, hrows⟩ := insertSeq_ok h
  exact ⟨by norm_num, headSeq_of_find?_none hfree, .inr ⟨rfl, hfree, userSeq, hdb, hrows⟩⟩

private theorem selectForUpdate_triple (db : Database) (uid : ℤ) :
    Tx.Triple (· = db) (selectForUpdate uid) fun seq db₁ =>
      db₁ = db ∧ (seq = 0 ∨ Held db uid seq db₁) := by
  unfold selectForUpdate
  refine Tx.Triple.bind (Q := fun r db₁ => db₁ = db ∧ ∀ seq, r = .ok seq → Held db uid seq db₁)
    (Tx.Triple.attempt ?_ ?_) fun locked => ?_
  · rintro _ e rfl
    exact ⟨rfl, by simp⟩
  · rintro _ seq db₁ rfl h
    obtain ⟨rfl, -⟩ := lockSeq_ok h
    exact ⟨rfl, fun s hs => by obtain rfl := Except.ok.inj hs; exact held_of_lockSeq h⟩
  · rcases locked with e | seq
    · cases e
      case noRows => exact Tx.Triple.pure 0 fun _ h => ⟨h.1, .inl rfl⟩
      all_goals exact Tx.Triple.throw _
    · exact Tx.Triple.pure seq fun _ h => ⟨h.1, .inr (h.2 seq rfl)⟩

private theorem insertIfNotFound_triple (db : Database) (uid seq : ℤ) :
    Tx.Triple (fun db₁ => db₁ = db ∧ (seq = 0 ∨ Held db uid seq db₁)) (insertIfNotFound uid seq)
      (Held db uid) := by
  unfold insertIfNotFound
  split_ifs with h0
  · subst h0
    refine Tx.Triple.bind
      (Q := fun r db₁ => (∀ u, r = .ok u → Held db uid 0 db₁) ∧ ∀ e, r = .error e → db₁ = db)
      (Tx.Triple.attempt ?_ ?_) fun inserted => ?_
    · rintro _ e ⟨rfl, -⟩
      exact ⟨by simp, fun _ _ => rfl⟩
    · rintro _ u db₁ ⟨rfl, -⟩ h
      exact ⟨fun _ _ => held_of_insertSeq h, by simp⟩
    · rcases inserted with e | u
      · simp only
        split_ifs
        · refine Tx.Triple.statement ?_
          rintro _ seq db₁ ⟨-, h⟩ hlock
          obtain rfl := h e rfl
          exact held_of_lockSeq hlock
        · exact Tx.Triple.throw e
      · exact Tx.Triple.pure 0 fun _ h => h.1 u rfl
  · exact Tx.Triple.pure seq fun _ h => h.2.resolve_left h0

theorem seqAdvanced_of_held {db db₁ db₂ : Database} {uid seq : ℤ} {u : Unit}
    (h : Held db uid seq db₁) (hinc : increaseSeq uid seq db₁ = .ok (u, db₂)) :
    SeqAdvanced db uid db₂ := by
  obtain ⟨-, hhead, hcase⟩ := h
  obtain ⟨userSeq, rfl, hfind⟩ := increaseSeq_ok hinc
  rcases hcase with ⟨rfl, hf⟩ | ⟨rfl, hfree, userSeq', rfl, hrows⟩
  · refine ⟨rfl, rfl, rfl, ?_, fun v hv => ?_⟩
    · rw [hhead]
      exact (hfind uid _).mpr (by simp [hf])
    · ext r
      simp [hfind, hv]
  · have hown : ∀ v r, userSeq'.find? v = some r ↔
        if v = uid then r = ⟨uid, 1⟩ else db.userSeq.find? v = some r := by
      intro v r
      rw [Table.find?_eq_some_iff, hrows, List.mem_append, List.mem_singleton,
        Table.find?_eq_some_iff]
      constructor
      · rintro ⟨hr | rfl, rfl⟩
        · rw [if_neg fun he => Table.find?_eq_none_iff.mp hfree r hr he]
          exact ⟨hr, rfl⟩
        · simp
      · intro hr
        split_ifs at hr with hv
        · subst hv hr
          exact ⟨.inr rfl, rfl⟩
        · exact ⟨.inl hr.1, hr.2⟩
    have hmiss : userSeq'.find? uid ≠ some ⟨uid, 0⟩ := by
      rw [Ne, hown]
      simp
    refine ⟨rfl, rfl, rfl, ?_, fun v hv => ?_⟩
    · rw [hhead]
      exact (hfind uid _).mpr (by simp [hmiss, hown])
    · ext r
      simp [hfind, hown, hv]

/-- `incSeq` returns the successor of the stored sequence and stores it, in every branch. -/
theorem incSeq_triple (db : Database) (uid : ℤ) :
    Tx.Triple (· = db) (incSeq uid) fun v db' =>
      (-2 ^ 31 ≤ db.headSeq uid ∧ db.headSeq uid < 2 ^ 31) ∧
        v = int32 (db.headSeq uid + 1) ∧ SeqAdvanced db uid db' := by
  unfold incSeq
  refine Tx.Triple.bind (selectForUpdate_triple db uid) fun seq => ?_
  refine Tx.Triple.bind (insertIfNotFound_triple db uid seq) fun seq => ?_
  refine Tx.Triple.bind
    (Q := fun _ db' => (-2 ^ 31 ≤ seq ∧ seq < 2 ^ 31) ∧ db.headSeq uid = seq ∧
      SeqAdvanced db uid db') (Tx.Triple.statement ?_) fun u => ?_
  · intro db₁ u db' h hinc
    exact ⟨h.1, h.2.1, seqAdvanced_of_held h hinc⟩
  · refine Tx.Triple.pure _ fun _ h => ?_
    rw [h.2.1]
    exact ⟨h.1, rfl, h.2.2⟩

/-- The effect of `Save` on one recipient: the event gets the next sequence of the user. -/
structure Delivered (t : DateTime) (offset : ℤ) (db : Database) (uid : ℤ) (db' : Database) :
    Prop where
  events : db'.events = db.events
  userEvents : db'.userEvents.rows =
    db.userEvents.rows ++ [⟨uid, db.headSeq uid + 1, t, false, offset⟩]
  history : db'.history = ⟨db.history.events,
    db.history.userEvents ++ [⟨uid, db.headSeq uid + 1, t, false, offset⟩]⟩
  self : db'.userSeq.find? uid = some ⟨uid, db.headSeq uid + 1⟩
  other : ∀ v, v ≠ uid → db'.userSeq.find? v = db.userSeq.find? v

/-- A sequence past `int32` comes back negative and is refused by the column, so a
delivery never wraps. -/
theorem saveTo_triple (e : Event) (t : DateTime)
    (ht : DateTime.ofTime? e.createTime = some t) (seqMap : GoMap ℤ ℤ) (uid : ℤ) (db : Database) :
    Tx.Triple (· = db) (saveTo e seqMap uid) fun m db' =>
      m = seqMap.insert uid (db.headSeq uid + 1) ∧ Delivered t e.offset db uid db' := by
  unfold saveTo
  refine Tx.Triple.bind (incSeq_triple db uid) fun v => ?_
  refine Tx.Triple.bind
    (Q := fun _ db' => v = db.headSeq uid + 1 ∧ Delivered t e.offset db uid db')
    (Tx.Triple.statement ?_) fun _ => ?_
  · rintro db₁ u db' ⟨⟨hlo, hlt⟩, hv, hadv⟩ hins
    obtain ⟨t', ht', -, hpos, -, hrows, hev, hseq, hhist⟩ := insertUserEvent_ok hins
    obtain rfl : t = t' := Option.some.inj (ht.symm.trans ht')
    have hval : v = db.headSeq uid + 1 := by
      rw [hv] at hpos ⊢
      unfold int32 at hpos ⊢
      omega
    rw [hval] at hrows hhist
    exact ⟨hval, hev.trans hadv.events, hrows.trans (by rw [hadv.userEvents]),
      hhist.trans (by rw [hadv.history]), by rw [hseq]; exact hadv.self,
      fun w hw => by rw [hseq]; exact hadv.other w hw⟩
  · exact Tx.Triple.pure _ fun _ h => ⟨by rw [h.1], h.2⟩

/-- The recipients of an event served in order, with the map `Save` builds. -/
inductive Deliveries (t : DateTime) (offset : ℤ) (db : Database) :
    List ℤ → GoMap ℤ ℤ → Database → Prop
  | nil : Deliveries t offset db [] ∅ db
  | snoc {uids : List ℤ} {m : GoMap ℤ ℤ} {db₁ db₂ : Database} {uid : ℤ} :
      Deliveries t offset db uids m db₁ → Delivered t offset db₁ uid db₂ →
      Deliveries t offset db (uids ++ [uid]) (m.insert uid (db₁.headSeq uid + 1)) db₂

structure Stored (e : Event) (db : Database) (m : GoMap ℤ ℤ) (db' : Database) : Prop where
  fits : (fitsBigint e.offset && fitsPayload e.payload) = true
  fresh : db.events.find? e.offset = none
  deliveries : ∃ t db₁, DateTime.ofTime? e.createTime = some t ∧
    db₁.events.rows = db.events.rows ++ [⟨e.offset, t, e.payload⟩] ∧
    db₁.userEvents = db.userEvents ∧ db₁.userSeq = db.userSeq ∧
    db₁.history = ⟨db.history.events ++ [⟨e.offset, t, e.payload⟩], db.history.userEvents⟩ ∧
    Deliveries t e.offset db₁ e.toUids m db'

structure AlreadyStored (e : Event) (db : Database) (m : GoMap ℤ ℤ) (db' : Database) : Prop where
  unchanged : db' = db
  noSeqs : m = ∅
  row : ∃ r ∈ db.events.rows, r.topicOffset = e.offset ∧ sameEvent r e = true

private theorem deliver_triple (e : Event) (t : DateTime)
    (ht : DateTime.ofTime? e.createTime = some t) (db : Database) :
    Tx.Triple (· = db) (e.toUids.foldlM (saveTo e) ∅) (Deliveries t e.offset db e.toUids) := by
  refine (Tx.Triple.foldlM (I := Deliveries t e.offset db) ?_ [] e.toUids ∅).mono ?_ fun m db' h => h
  · intro done uid m s m' s' hs hr
    obtain ⟨rfl, hd⟩ := saveTo_triple e t ht m uid s.db s m' s' rfl hr
    exact .snoc hs hd
  · rintro _ rfl
    exact .nil

private def Opened (e : Event) (db : Database) (t : DateTime) (db₁ : Database) : Prop :=
  DateTime.ofTime? e.createTime = some t ∧ (fitsBigint e.offset && fitsPayload e.payload) = true ∧
    db.events.find? e.offset = none ∧ db₁.events.rows = db.events.rows ++ [⟨e.offset, t, e.payload⟩] ∧
    db₁.userEvents = db.userEvents ∧ db₁.userSeq = db.userSeq ∧
    db₁.history = ⟨db.history.events ++ [⟨e.offset, t, e.payload⟩], db.history.userEvents⟩

private theorem save_new_triple (e : Event) (db : Database) :
    Tx.Triple (fun db₁ => ∃ t, Opened e db t db₁)
      (do Tx.statement fun db => .ok (PUnit.unit, db)
          e.toUids.foldlM (saveTo e) ∅) (Stored e db) := by
  rintro s m s' ⟨t, ht, hfit, hfree, hev, hue, hus, hhist⟩ hr
  have hprep : Tx.Triple (· = s.db) (Tx.statement fun db => .ok (PUnit.unit, db) : StoreTx PUnit)
      fun _ db₁ => db₁ = s.db := by
    refine Tx.Triple.statement ?_
    rintro _ _ _ rfl h
    cases h
    rfl
  have hd := (hprep.bind fun _ => deliver_triple e t ht s.db) s m s' rfl hr
  exact ⟨hfit, hfree, t, s.db, ht, hev, hue, hus, hhist, hd⟩

private theorem save_dup_triple (e : Event) (db : Database) (err : SqlError) :
    Tx.Triple (· = db)
      (do let stored ← (Tx.statement (getEvent e.offset)).attempt
          match stored with
          | .ok row => if sameEvent row e then pure ∅ else Tx.throw err
          | .error _ => Tx.throw err) (AlreadyStored e db) := by
  refine Tx.Triple.bind
    (Q := fun r db₁ => db₁ = db ∧ ∀ row, r = .ok row → db.events.find? e.offset = some row)
    (Tx.Triple.attempt ?_ ?_) fun stored => ?_
  · rintro _ err' rfl
    exact ⟨rfl, by simp⟩
  · rintro _ row db₁ rfl h
    unfold getEvent at h
    split at h
    · rename_i hf
      cases h
      exact ⟨rfl, fun _ hrow => by obtain rfl := Except.ok.inj hrow; exact hf⟩
    · cases h
  · rcases stored with err' | row
    · exact Tx.Triple.throw err
    · simp only
      split_ifs with hsame
      · refine Tx.Triple.pure ∅ fun db₁ h => ⟨h.1, rfl, row, ?_⟩
        obtain ⟨hmem, hoff⟩ := Table.find?_eq_some_iff.mp (h.2 row rfl)
        exact ⟨hmem, hoff, hsame⟩
      · exact Tx.Triple.throw err

/-- The transaction of `Save` stores the whole event or finds it stored. -/
theorem saveBody_triple (e : Event) (db : Database) :
    Tx.Triple (· = db) (saveBody e) fun m db' => Stored e db m db' ∨ AlreadyStored e db m db' := by
  unfold saveBody
  refine Tx.Triple.bind
    (Q := fun r db₁ => (∀ u, r = .ok u → ∃ t, Opened e db t db₁) ∧ ∀ err, r = .error err → db₁ = db)
    (Tx.Triple.attempt ?_ ?_) fun inserted => ?_
  · rintro _ err rfl
    exact ⟨by simp, fun _ _ => rfl⟩
  · rintro _ u db₁ rfl h
    exact ⟨fun _ _ => insertEvent_ok h, by simp⟩
  · rcases inserted with err | u
    · simp only
      split_ifs
      · exact (save_dup_triple e db err).mono (fun _ h => h.2 err rfl) fun _ _ h => .inr h
      · exact Tx.Triple.throw err
    · exact (save_new_triple e db).mono (fun _ h => h.1 u rfl) fun _ _ h => .inl h

/-- `Save` leaves the store alone, or stores the event, or finds it stored; an error is
reported after a change only when the acknowledgement of the commit is lost. -/
theorem save_cases (env : TxEnv SqlError) (e : Event) (db : Database) :
    (∃ err, save env e db = (.error err, db)) ∨
      ∃ m db', (Stored e db m db' ∨ AlreadyStored e db m db') ∧
        (save env e db = (.ok m, db') ∨
          ∃ err, env.commit = .unacknowledged err ∧ save env e db = (.error err, db')) :=
  withTx_triple (saveBody_triple e db) env rfl

end MiniPush.Store
