import MiniPush.Store.SaveSpec
import MiniPush.Foundation.Transition

/-! The sequence invariant of the event store, over every run of its write operations. -/
namespace MiniPush.Store
open Foundation

/-- The sequences ever assigned to a user, in order of assignment. -/
def Database.assignedSeqs (db : Database) (uid : ℤ) : List ℤ :=
  (db.history.userEvents.filter fun r => r.uid = uid).map UserEventRow.seq

def firstSeqs (n : ℕ) : List ℤ := (List.range n).map fun i : ℕ => (i : ℤ) + 1

theorem firstSeqs_succ (n : ℕ) : firstSeqs (n + 1) = firstSeqs n ++ [(n : ℤ) + 1] := by
  simp [firstSeqs, List.range_succ]

theorem firstSeqs_nodup (n : ℕ) : (firstSeqs n).Nodup := by
  refine List.Nodup.map (fun i j h => ?_) List.nodup_range
  simpa using h

/-- What every committed state satisfies: sequences are handed out without gap or repeat,
`user_seq` counts them, and every remaining row is as it was assigned, up to its read
state. -/
structure SeqInv (db : Database) : Prop where
  assigned : ∀ uid, db.assignedSeqs uid = firstSeqs (db.assignedSeqs uid).length
  head : ∀ uid, db.userSeq.find? uid =
    if db.assignedSeqs uid = [] then none else some ⟨uid, (db.assignedSeqs uid).length⟩
  rows : ∀ r ∈ db.userEvents.rows, { r with readState := false } ∈ db.history.userEvents

theorem SeqInv.headSeq_eq {db : Database} (h : SeqInv db) (uid : ℤ) :
    db.headSeq uid = (db.assignedSeqs uid).length := by
  unfold Database.headSeq
  rw [h.head uid]
  split_ifs with hn <;> simp [hn]

theorem SeqInv.seq_range {db : Database} (h : SeqInv db) {r : UserEventRow}
    (hr : r ∈ db.userEvents.rows) : 1 ≤ r.seq ∧ r.seq ≤ db.headSeq r.uid := by
  have hmem : r.seq ∈ db.assignedSeqs r.uid :=
    List.mem_map.mpr ⟨_, List.mem_filter.mpr ⟨h.rows r hr, decide_eq_true rfl⟩, rfl⟩
  rw [h.assigned r.uid, firstSeqs, List.mem_map] at hmem
  obtain ⟨i, hi, he⟩ := hmem
  rw [h.headSeq_eq r.uid]
  have := List.mem_range.mp hi
  omega

theorem seqInv_empty : SeqInv Database.empty where
  assigned _ := rfl
  head _ := rfl
  rows := by simp [Database.empty]

theorem Delivered.headSeq_self {t : DateTime} {o uid : ℤ} {db db' : Database}
    (h : Delivered t o db uid db') : db'.headSeq uid = db.headSeq uid + 1 :=
  headSeq_of_find? h.self

theorem Delivered.headSeq_other {t : DateTime} {o uid v : ℤ} {db db' : Database}
    (h : Delivered t o db uid db') (hv : v ≠ uid) : db'.headSeq v = db.headSeq v := by
  simp [Database.headSeq, h.other v hv]

theorem Delivered.assignedSeqs {t : DateTime} {o uid : ℤ} {db db' : Database}
    (h : Delivered t o db uid db') (v : ℤ) :
    db'.assignedSeqs v = db.assignedSeqs v ++ if v = uid then [db.headSeq uid + 1] else [] := by
  unfold Database.assignedSeqs
  rw [h.history]
  by_cases hv : v = uid
  · simp [hv]
  · have : ¬ uid = v := fun he => hv he.symm
    simp [hv, this]

theorem Delivered.seqInv {t : DateTime} {o uid : ℤ} {db db' : Database}
    (h : Delivered t o db uid db') (hi : SeqInv db) : SeqInv db' where
  assigned v := by
    by_cases hv : v = uid
    · subst hv
      have hl : (db'.assignedSeqs v).length = (db.assignedSeqs v).length + 1 := by
        rw [h.assignedSeqs v]
        simp
      rw [hl, firstSeqs_succ, ← hi.assigned v, ← hi.headSeq_eq v, h.assignedSeqs v, if_pos rfl]
    · rw [h.assignedSeqs v, if_neg hv, List.append_nil]
      exact hi.assigned v
  head v := by
    by_cases hv : v = uid
    · subst hv
      rw [h.assignedSeqs v, h.self, hi.headSeq_eq v]
      simp
    · rw [h.assignedSeqs v, if_neg hv, List.append_nil, h.other v hv]
      exact hi.head v
  rows r hr := by
    rw [h.userEvents, List.mem_append, List.mem_singleton] at hr
    rw [h.history]
    rcases hr with hr | rfl
    · exact List.mem_append_left _ (hi.rows r hr)
    · simp

theorem Deliveries.seqInv {t : DateTime} {o : ℤ} {db db' : Database} {uids : List ℤ}
    {m : GoMap ℤ ℤ} (h : Deliveries t o db uids m db') (hi : SeqInv db) : SeqInv db' := by
  induction h with
  | nil => exact hi
  | snoc _ hd ih => exact hd.seqInv ih

theorem SeqInv.of_rows {db db' : Database} (hi : SeqInv db) (hs : db'.userSeq = db.userSeq)
    (hh : db'.history.userEvents = db.history.userEvents)
    (hr : ∀ r ∈ db'.userEvents.rows, ∃ s ∈ db.userEvents.rows,
      { s with readState := false } = { r with readState := false }) : SeqInv db' := by
  have hassigned : ∀ uid, db'.assignedSeqs uid = db.assignedSeqs uid := by
    intro uid
    simp [Database.assignedSeqs, hh]
  refine ⟨fun uid => ?_, fun uid => ?_, fun r hmem => ?_⟩
  · rw [hassigned]
    exact hi.assigned uid
  · rw [hassigned, hs]
    exact hi.head uid
  · obtain ⟨s, hsm, he⟩ := hr r hmem
    rw [← he, hh]
    exact hi.rows s hsm

theorem Stored.seqInv {e : Event} {db db' : Database} {m : GoMap ℤ ℤ} (h : Stored e db m db')
    (hi : SeqInv db) : SeqInv db' := by
  obtain ⟨-, -, t, db₁, -, -, hue, hus, hhist, hd⟩ := h
  refine hd.seqInv (hi.of_rows hus (by rw [hhist]) fun r hr => ?_)
  rw [hue] at hr
  exact ⟨r, hr, rfl⟩

theorem save_seqInv (env : TxEnv SqlError) (e : Event) {db : Database} (hi : SeqInv db) :
    SeqInv (save env e db).2 := by
  have hnew : ∀ m db', Stored e db m db' ∨ AlreadyStored e db m db' → SeqInv db' := by
    rintro m db' (h | h)
    · exact h.seqInv hi
    · rw [h.unchanged]
      exact hi
  rcases save_cases env e db with ⟨err, he⟩ | ⟨m, db', hd, he | ⟨err, -, he⟩⟩ <;> rw [he]
  · exact hi
  · exact hnew m db' hd
  · exact hnew m db' hd

theorem setReadBody_triple (uid seq : ℤ) (db : Database) :
    Tx.Triple (· = db) (setReadBody uid seq) fun resp db' =>
      ∃ n, updateReadState uid seq db = .ok (n, db') ∧ resp = ⟨seq, n = 1⟩ := by
  refine Tx.Triple.bind (Q := fun n db' => updateReadState uid seq db = .ok (n, db'))
    (Tx.Triple.statement ?_) fun n => Tx.Triple.pure _ fun _ h => ⟨n, h, rfl⟩
  rintro _ n db' rfl h
  exact h

theorem setRead_cases (env : TxEnv SqlError) (uid seq : ℤ) (db : Database) :
    (setRead env uid seq db).2 = db ∨
      ∃ n, updateReadState uid seq db = .ok (n, (setRead env uid seq db).2) := by
  rcases withTx_triple (setReadBody_triple uid seq db) env rfl with
    ⟨err, he⟩ | ⟨a, db', ⟨n, hq, -⟩, he | ⟨err, -, he⟩⟩
  · exact .inl (by rw [setRead, he])
  · exact .inr ⟨n, by rw [setRead, he]; exact hq⟩
  · exact .inr ⟨n, by rw [setRead, he]; exact hq⟩

theorem setRead_ok {env : TxEnv SqlError} {uid seq : ℤ} {db : Database} {resp : SetReadResp}
    (h : (setRead env uid seq db).1 = .ok resp) :
    ∃ n, updateReadState uid seq db = .ok (n, (setRead env uid seq db).2) ∧ resp = ⟨seq, n = 1⟩ := by
  rcases withTx_triple (setReadBody_triple uid seq db) env rfl with
    ⟨err, he⟩ | ⟨a, db', ⟨n, hq, hresp⟩, he | ⟨err, -, he⟩⟩ <;> rw [setRead, he] at h
  · cases h
  · obtain rfl := Except.ok.inj h
    exact ⟨n, by rw [setRead, he]; exact hq, hresp⟩
  · cases h

theorem setRead_seqInv (env : TxEnv SqlError) (uid seq : ℤ) {db : Database} (hi : SeqInv db) :
    SeqInv (setRead env uid seq db).2 := by
  rcases setRead_cases env uid seq db with he | ⟨n, he⟩
  · rw [he]
    exact hi
  · obtain ⟨-, hus, hhist, hrows⟩ := updateReadState_ok he
    refine hi.of_rows hus (by rw [hhist]) fun r hr => ?_
    rw [hrows] at hr
    obtain ⟨s, hs, rfl⟩ := List.mem_map.mp hr
    exact ⟨s, hs, by split_ifs <;> rfl⟩

/-- `DeleteOutdatedEvents` removes the events up to its cutoff and the rows that refer to
them, or nothing. -/
theorem deleteOutdatedEvents_cases (P : Platform) (env : TxEnv SqlError) (now ttlDays : ℤ)
    (db : Database) :
    (deleteOutdatedEvents P env now ttlDays db).2 = db ∨
      ∃ n, cleanEvents P.reading (Time.unix (getDayBefore P.location now ttlDays)) db =
        .ok (n, (deleteOutdatedEvents P env now ttlDays db).2) := by
  have hbody : Tx.Triple (· = db)
      (do let n ← Tx.statement
            (cleanEvents P.reading (Time.unix (getDayBefore P.location now ttlDays)))
          pure (int32 n) : StoreTx ℤ)
      fun _ db' => ∃ n, cleanEvents P.reading
        (Time.unix (getDayBefore P.location now ttlDays)) db = .ok (n, db') := by
    refine Tx.Triple.bind (Q := fun _ db' => ∃ n, cleanEvents P.reading
        (Time.unix (getDayBefore P.location now ttlDays)) db = .ok (n, db'))
      (Tx.Triple.statement ?_) fun n => Tx.Triple.pure _ fun _ h => h
    rintro _ n db' rfl h
    exact ⟨n, h⟩
  rcases withTx_triple hbody env rfl with ⟨err, he⟩ | ⟨a, db', hq, he | ⟨err, -, he⟩⟩
  · exact .inl (by rw [deleteOutdatedEvents, he])
  · exact .inr (by rw [deleteOutdatedEvents, he]; exact hq)
  · exact .inr (by rw [deleteOutdatedEvents, he]; exact hq)

theorem deleteOutdatedEvents_seqInv (P : Platform) (env : TxEnv SqlError) (now ttlDays : ℤ)
    {db : Database} (hi : SeqInv db) : SeqInv (deleteOutdatedEvents P env now ttlDays db).2 := by
  rcases deleteOutdatedEvents_cases P env now ttlDays db with he | ⟨n, he⟩
  · rw [he]
    exact hi
  · obtain ⟨hus, hhist, -, hrows⟩ := cleanEvents_ok he
    refine hi.of_rows hus (by rw [hhist]) fun r hr => ?_
    rw [hrows] at hr
    exact ⟨r, (List.mem_filter.mp hr).1, rfl⟩

/-- The write operations, each with the environment of its transaction. -/
inductive StoreOp
  | save (env : TxEnv SqlError) (e : Event)
  | setRead (env : TxEnv SqlError) (uid seq : ℤ)
  | deleteOutdatedEvents (env : TxEnv SqlError) (now ttlDays : ℤ)

/-- The event store as a serial system of transactions, from the empty database. -/
def storeSystem (P : Platform) : System Database StoreOp where
  init db := db = .empty
  step db
    | .save env e => some (save env e db).2
    | .setRead env uid seq => some (setRead env uid seq db).2
    | .deleteOutdatedEvents env now ttlDays =>
      some (deleteOutdatedEvents P env now ttlDays db).2

/-- The step rule of the store: it is enough to look at the body of `Save` and at the statements of the
other two operations. -/
theorem storeSystem_step (P : Platform) {I : Database → Prop}
    (hsave : ∀ e, Tx.Triple I (saveBody e) fun _ => I)
    (hread : ∀ uid seq n db db', I db → updateReadState uid seq db = .ok (n, db') → I db')
    (hclean : ∀ cutoff n db db', I db → cleanEvents P.reading cutoff db = .ok (n, db') → I db')
    (db : Database) (op : StoreOp) (db' : Database) (hi : I db)
    (hstep : (storeSystem P).step db op = some db') : I db' := by
  cases op with
  | save env e =>
    obtain rfl := Option.some.inj hstep
    rcases withTx_triple (hsave e) env hi with ⟨err, he⟩ | ⟨m, db', hdb', he | ⟨err, -, he⟩⟩
    · rw [save, he]
      exact hi
    · rw [save, he]
      exact hdb'
    · rw [save, he]
      exact hdb'
  | setRead env uid seq =>
    obtain rfl := Option.some.inj hstep
    rcases setRead_cases env uid seq db with he | ⟨n, he⟩
    · rw [he]
      exact hi
    · exact hread uid seq n db _ hi he
  | deleteOutdatedEvents env now ttlDays =>
    obtain rfl := Option.some.inj hstep
    rcases deleteOutdatedEvents_cases P env now ttlDays db with he | ⟨n, he⟩
    · rw [he]
      exact hi
    · exact hclean _ n db _ hi he

/-- The invariant rule of the store. -/
theorem storeSystem_invariant (P : Platform) {I : Database → Prop} (hempty : I .empty)
    (hsave : ∀ e, Tx.Triple I (saveBody e) fun _ => I)
    (hread : ∀ uid seq n db db', I db → updateReadState uid seq db = .ok (n, db') → I db')
    (hclean : ∀ cutoff n db db', I db → cleanEvents P.reading cutoff db = .ok (n, db') → I db')
    {db : Database} (h : (storeSystem P).Reachable db) : I db := by
  refine System.Reachable.invariant ?_ (storeSystem_step P hsave hread hclean) h
  rintro _ rfl
  exact hempty

theorem seqInv_of_reachable (P : Platform) {db : Database} (h : (storeSystem P).Reachable db) :
    SeqInv db := by
  refine System.Reachable.invariant ?_ ?_ h
  · rintro _ rfl
    exact seqInv_empty
  · intro db op db' hi hstep
    cases op with
    | save env e =>
      obtain rfl := Option.some.inj hstep
      exact save_seqInv env e hi
    | setRead env uid seq =>
      obtain rfl := Option.some.inj hstep
      exact setRead_seqInv env uid seq hi
    | deleteOutdatedEvents env now ttlDays =>
      obtain rfl := Option.some.inj hstep
      exact deleteOutdatedEvents_seqInv P env now ttlDays hi

/-- In every reachable state the sequences assigned to a user are `1, …, n` in order,
`user_seq` holds `n`, and the remaining rows are assigned rows, unique by user and sequence,
of stored events. Sequences of deleted events are in the history too, so none is assigned
twice. -/
theorem reachable_sequences (P : Platform) {db : Database} (h : (storeSystem P).Reachable db) :
    (∀ uid, ∃ n : ℕ, db.assignedSeqs uid = firstSeqs n ∧
      db.userSeq.find? uid = (if n = 0 then none else some ⟨uid, n⟩)) ∧
    (∀ r ∈ db.userEvents.rows, ∃ a ∈ db.history.userEvents,
      a.uid = r.uid ∧ a.seq = r.seq ∧ a.topicOffset = r.topicOffset) ∧
    (db.userEvents.rows.map UserEventRow.key).Nodup ∧
    (∀ r ∈ db.userEvents.rows, ∃ e ∈ db.events.rows, e.topicOffset = r.topicOffset) ∧
    ∀ uid, (db.assignedSeqs uid).Nodup := by
  have hi := seqInv_of_reachable P h
  refine ⟨fun uid => ⟨(db.assignedSeqs uid).length, hi.assigned uid, ?_⟩, fun r hr => ?_,
    db.userEvents.nodup, db.references, fun uid => ?_⟩
  · rw [hi.head uid]
    simp only [List.length_eq_zero_iff]
  · exact ⟨_, hi.rows r hr, rfl, rfl, rfl⟩
  · rw [hi.assigned uid]
    exact firstSeqs_nodup _

/-- MySQL and a server in UTC. -/
def Platform.utc : Platform := ⟨.fixed 0, .yyyymmddhhmmss⟩

/-- Two saves, the second with a lost acknowledgement, and a clean-up. -/
def sampleOps : List StoreOp :=
  [.save .calm ⟨5, 0, [1, 2, 1], []⟩, .save ⟨none, [], .unacknowledged .other⟩ ⟨6, 0, [1], []⟩,
    .deleteOutdatedEvents .calm 0 7]

theorem reachable_sequences_sampleOps :
    ∃ db, (storeSystem .utc).run .empty sampleOps = some db ∧
      db.assignedSeqs 1 = firstSeqs 3 ∧ (db.assignedSeqs 1).Nodup :=
  ⟨_, rfl, by decide +kernel,
    (reachable_sequences .utc (System.Reachable.run (.init rfl) sampleOps rfl)).2.2.2.2 1⟩

end MiniPush.Store
