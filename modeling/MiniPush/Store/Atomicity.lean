import MiniPush.Store.History

/-! `Save` as a transaction: it does all of its work or none, and saving an event again changes
nothing. -/
namespace MiniPush.Store
open Foundation

/-- The values of an event fit the columns of `events`. -/
def Event.fits (e : Event) : Bool :=
  (DateTime.ofTime? e.createTime).isSome && (fitsBigint e.offset && fitsPayload e.payload)

/-- A stored event has the payload of `e` and its create time in milliseconds. -/
def SameMessage (row : EventRow) (e : Event) : Prop :=
  row.payload = e.payload ∧ row.createTime.ms = e.createTime.tdiv Time.millisecond

/-- The column rounds to the nearest millisecond and `Save` cuts off: both give the same one. -/
def Event.KeepsTime (e : Event) : Prop :=
  ∃ t, DateTime.ofTime? e.createTime = some t ∧ Time.unixMilli t.toTime = Time.unixMilli e.createTime

/-- The two times are equal as `Save` compares them: in milliseconds after their nanoseconds have
wrapped. -/
def SameWrapped (row : EventRow) (e : Event) : Prop :=
  row.payload = e.payload ∧ Time.unixMilli row.createTime.toTime = Time.unixMilli e.createTime

/-- What a `Save` adds that stores its event: one row of `events`, one row of `user_events` for each
recipient, and a map from the recipients to their new sequences. -/
structure Gained (e : Event) (db : Database) (m : GoMap ℤ ℤ) (db' : Database) : Prop where
  rows : ∃ t rows, DateTime.ofTime? e.createTime = some t ∧
    db'.events.rows = db.events.rows ++ [⟨e.offset, t, e.payload⟩] ∧
    db'.userEvents.rows = db.userEvents.rows ++ rows ∧ rows.map UserEventRow.uid = e.toUids ∧
    ∀ r ∈ rows, r.createTime = t ∧ r.readState = false ∧ r.topicOffset = e.offset
  seqs : ∀ uid, m.lookup uid = if uid ∈ e.toUids then some (db'.headSeq uid) else none
  advanced : ∀ uid, db'.headSeq uid = db.headSeq uid + e.toUids.count uid
  others : ∀ uid, uid ∉ e.toUids → db'.userSeq.find? uid = db.userSeq.find? uid

section
variable {e : Event} {db db' : Database} {m : GoMap ℤ ℤ} {row : EventRow}

theorem sameEvent_iff : sameEvent row e = true ↔ SameWrapped row e := by
  rw [sameEvent, decide_eq_true_eq, and_comm]
  rfl

/-- Between 1678 and 2262 no nanoseconds wrap. -/
theorem sameWrapped_iff (hrow : Time.InNanos row.createTime.toTime) (he : Time.InNanos e.createTime) :
    SameWrapped row e ↔ SameMessage row e := by
  have hms : row.createTime.toTime.tdiv Time.millisecond = row.createTime.ms :=
    Int.mul_tdiv_cancel _ (by decide)
  rw [SameWrapped, Time.unixMilli_of_inNanos hrow, Time.unixMilli_of_inNanos he, hms]
  rfl

theorem Stored.gained (h : Stored e db m db') : Gained e db m db' := by
  obtain ⟨-, -, t, db₁, ht, hev, hue, hus, -, hd⟩ := h
  obtain ⟨-, hev', -⟩ := hd.rows
  obtain ⟨rows, hrows, huids, hall⟩ := hd.userEvents
  refine ⟨⟨t, rows, ht, ?_, ?_, huids, hall⟩, hd.lookup, fun uid => ?_, fun uid hu => ?_⟩
  · rw [hev', hev]
  · rw [hrows, hue]
  · rw [hd.headSeq uid, headSeq_congr hus]
  · rw [hd.find?_other hu, hus]

theorem stored_of_ok {env : TxEnv SqlError}
    (hfresh : db.events.find? e.offset = none) (hok : (save env e db).1 = .ok m) :
    Stored e db m (save env e db).2 := by
  rcases save_cases env e db with ⟨err, he⟩ | ⟨m', db', hd, he | ⟨err, -, he⟩⟩
  · rw [he] at hok
    cases hok
  · rw [he] at hok ⊢
    obtain rfl := Except.ok.inj hok
    refine hd.resolve_right fun halready => ?_
    obtain ⟨r, hr, hoff, -⟩ := halready.row
    exact Table.find?_eq_none_iff.mp hfresh r hr hoff
  · rw [he] at hok
    cases hok

theorem save_of_find? (hrow : db.events.find? e.offset = some row) (env : TxEnv SqlError) :
    (save env e db).2 = db := by
  have hsame : ∀ m db', Stored e db m db' ∨ AlreadyStored e db m db' → db' = db := by
    rintro m db' (h | h)
    · rw [h.fresh] at hrow
      cases hrow
    · exact h.unchanged
  rcases save_cases env e db with ⟨err, he⟩ | ⟨m, db', hd, he | ⟨err, -, he⟩⟩
  · rw [he]
  · rw [he]
    exact hsame m db' hd
  · rw [he]
    exact hsame m db' hd

/-- A value outside the type of its column is rejected before the offset is looked at. -/
theorem save_calm_of_misfit (hfit : e.fits = false) (db : Database) :
    save .calm e db = (.error .outOfRange, db) := by
  have hinsert : insertEvent e.offset e.createTime e.payload db = .error .outOfRange := by
    unfold insertEvent
    cases ht : DateTime.ofTime? e.createTime with
    | none => rfl
    | some t =>
      simp only [Event.fits, ht, Option.isSome_some, Bool.true_and] at hfit
      simp only [hfit, Bool.false_eq_true, if_false]
  have hattempt : (Tx.statement (insertEvent e.offset e.createTime e.payload)).attempt ⟨db, []⟩ =
      (.ok (.error .outOfRange), ⟨db, []⟩) := by
    rw [Tx.attempt_apply, Tx.statement_of_error hinsert]
  have hbody : saveBody e ⟨db, []⟩ = (.error .outOfRange, ⟨db, []⟩) := by
    rw [saveBody, Tx.bind_of_ok hattempt]
    rfl
  simp only [save, withTx, TxEnv.calm, hbody]

theorem find?_of_commits {env : TxEnv SqlError} (h : env.commits (saveBody e) db = true) :
    ∃ row, (save env e db).2.events.find? e.offset = some row := by
  obtain ⟨m, s, hbody, hsave⟩ := withTx_of_commits h
  have hdb : (save env e db).2 = s.db := by
    rcases hsave with he | ⟨err, -, he⟩ <;> rw [save, he]
  rw [hdb]
  rcases saveBody_triple e db ⟨db, env.faults⟩ m s rfl hbody with hstored | halready
  · obtain ⟨t, rows, hadd, -⟩ := hstored.added
    refine ⟨⟨e.offset, t, e.payload⟩, Table.find?_eq_some_iff.mpr ⟨?_, rfl⟩⟩
    rw [hadd.events]
    exact List.mem_append_right _ (List.mem_singleton_self _)
  · obtain ⟨r, hr, hoff, -⟩ := halready.row
    rw [halready.unchanged]
    exact ⟨r, Table.find?_eq_some_iff.mpr ⟨hr, hoff⟩⟩

/-- With nothing failing, `Save` of values that fit their columns finds an event under its offset and
compares. -/
theorem save_calm_of_fits (hfit : e.fits = true) (hrow : db.events.find? e.offset = some row) :
    (SameWrapped row e → save .calm e db = (.ok ∅, db)) ∧
      (¬ SameWrapped row e → ∃ err, isDupKeyError err = true ∧ save .calm e db = (.error err, db)) := by
  obtain ⟨ht, hcols⟩ := Bool.and_eq_true_iff.mp hfit
  obtain ⟨t, ht⟩ := Option.isSome_iff_exists.mp ht
  rw [save_calm_of_find? ht hcols hrow]
  refine ⟨fun hsame => ?_, fun hsame => ⟨.dupKey, rfl, ?_⟩⟩
  · rw [if_pos (sameEvent_iff.mpr hsame)]
  · rw [if_neg fun h => hsame (sameEvent_iff.mp h)]

theorem Stored.save_again (h : Stored e db m db') : (e.KeepsTime → save .calm e db' = (.ok ∅, db')) ∧
    (¬ e.KeepsTime → ∃ err, isDupKeyError err = true ∧ save .calm e db' = (.error err, db')) := by
  obtain ⟨t, rows, hadd, -⟩ := h.added
  have hrow : db'.events.find? e.offset = some ⟨e.offset, t, e.payload⟩ := by
    rw [Table.find?_eq_some_iff, hadd.events]
    exact ⟨List.mem_append_right _ (List.mem_singleton_self _), rfl⟩
  have hfit : e.fits = true := by rw [Event.fits, hadd.time, h.fits]; rfl
  have hkeeps : e.KeepsTime ↔ SameWrapped ⟨e.offset, t, e.payload⟩ e := by
    constructor
    · rintro ⟨t', ht', hsame⟩
      obtain rfl := Option.some.inj (hadd.time.symm.trans ht')
      exact ⟨rfl, hsame⟩
    · rintro ⟨-, hsame⟩
      exact ⟨t, hadd.time, hsame⟩
  rw [hkeeps]
  exact save_calm_of_fits hfit hrow

end

/-- `Save` is atomic and idempotent, whichever of its statements fails. Not committed, it returns an
error and no map. With a new offset, success adds the whole event. With an offset that is taken the
store stays as it is: if the values of the event fit their columns and nothing fails, the result is
an empty map for the same message and a duplicate key error for another one, where the times are
compared after wrapping, which matters outside 1678 to 2262; values that do not fit are rejected
first. Saving twice leaves the store of saving once, and the second call succeeds unless the column
rounded the time to another millisecond. -/
theorem save_atomic_idempotent (e : Event) (db : Database) :
    (∀ env : TxEnv SqlError, env.commits (saveBody e) db = false →
      ∃ err, save env e db = (.error err, db)) ∧
    (db.events.find? e.offset = none → ∀ (env : TxEnv SqlError) (m : GoMap ℤ ℤ) (db' : Database),
      save env e db = (.ok m, db') → Gained e db m db' ∧
        (e.KeepsTime → save .calm e db' = (.ok ∅, db')) ∧
        (¬ e.KeepsTime →
          ∃ err, isDupKeyError err = true ∧ save .calm e db' = (.error err, db'))) ∧
    (∀ row, db.events.find? e.offset = some row →
      (∀ env : TxEnv SqlError, (save env e db).2 = db) ∧
      (e.fits = true → SameWrapped row e → save .calm e db = (.ok ∅, db)) ∧
      (e.fits = true → ¬ SameWrapped row e →
        ∃ err, isDupKeyError err = true ∧ save .calm e db = (.error err, db)) ∧
      (Time.InNanos row.createTime.toTime → Time.InNanos e.createTime →
        (SameWrapped row e ↔ SameMessage row e)) ∧
      (e.fits = false → save .calm e db = (.error .outOfRange, db))) ∧
    ∀ env env' : TxEnv SqlError, env.commits (saveBody e) db = true ∨ env' = env →
      (save env' e (save env e db).2).2 = (save env e db).2 := by
  refine ⟨fun env h => withTx_of_not_commits h, fun hfresh env m db' hsave => ?_,
    fun row hrow => ⟨save_of_find? hrow, fun hfit => (save_calm_of_fits hfit hrow).1,
      fun hfit => (save_calm_of_fits hfit hrow).2, sameWrapped_iff,
      fun hfit => save_calm_of_misfit hfit db⟩, ?_⟩
  · have hstored := stored_of_ok (m := m) hfresh (show (save env e db).1 = .ok m by rw [hsave])
    rw [hsave] at hstored
    exact ⟨hstored.gained, hstored.save_again⟩
  · intro env env' h
    cases hc : env.commits (saveBody e) db with
    | true =>
      obtain ⟨row, hrow⟩ := find?_of_commits hc
      exact save_of_find? hrow env'
    | false =>
      obtain rfl : env' = env := h.resolve_left (by simp [hc])
      obtain ⟨err, he⟩ := withTx_of_not_commits hc
      have hdb : (save env' e db).2 = db := by rw [save, he]
      rw [hdb, hdb]

/-- An event of 1970 is stored under offset 5. One of the year 10000 with that offset is refused, but
not as a duplicate, as its time does not fit `DATETIME`; one of the year 2554, whose nanoseconds wrap to
the first ones of 1970, passes for the same; and an event at 0.6 ms is refused when it is saved again,
as the column has rounded its time to 1 ms. -/
theorem save_year_10000 : ∃ db, (storeSystem .utc).Reachable db ∧
    (∃ row, db.events.find? 5 = some row ∧
      ¬ SameMessage row ⟨5, 253402300800 * Time.second, [1], []⟩ ∧
      ¬ SameMessage row ⟨5, 18446744073710 * Time.millisecond, [1], []⟩) ∧
    save .calm ⟨5, 253402300800 * Time.second, [1], []⟩ db = (.error .outOfRange, db) ∧
    isDupKeyError .outOfRange = false ∧
    save .calm ⟨5, 18446744073710 * Time.millisecond, [1], []⟩ db = (.ok ∅, db) ∧
    (save .calm ⟨6, 600000, [1], []⟩ (save .calm ⟨6, 600000, [1], []⟩ db).2).1 = .error .dupKey := by
  obtain ⟨db, hdb⟩ : ∃ db, (storeSystem .utc).run .empty [.save .calm ⟨5, 0, [1], []⟩] = some db :=
    ⟨_, rfl⟩
  have hview : ((storeSystem .utc).run .empty [.save .calm ⟨5, 0, [1], []⟩]).map
      (fun db => ((db.events.find? 5).map fun row => (row.createTime.ms, row.payload),
        (save .calm ⟨6, 600000, [1], []⟩ (save .calm ⟨6, 600000, [1], []⟩ db).2).1)) =
      some (some (0, []), .error .dupKey) := by
    decide +kernel
  rw [hdb, Option.map_some, Option.some_inj, Prod.mk.injEq, Option.map_eq_some_iff] at hview
  obtain ⟨⟨row, hrow, hcols⟩, htwice⟩ := hview
  obtain ⟨hms, hpay⟩ := Prod.mk.inj hcols
  have hwrapped : SameWrapped row ⟨5, 18446744073710 * Time.millisecond, [1], []⟩ := by
    refine ⟨hpay, ?_⟩
    rw [DateTime.toTime, hms]
    decide
  refine ⟨db, System.Reachable.run (.init rfl) _ hdb, ⟨row, hrow, ?_, ?_⟩,
    save_calm_of_misfit (by decide) db, rfl, (save_calm_of_fits (by decide) hrow).1 hwrapped, htwice⟩
  · rintro ⟨-, htime⟩
    rw [hms] at htime
    exact absurd htime (by decide)
  · rintro ⟨-, htime⟩
    rw [hms] at htime
    exact absurd htime (by decide)

end MiniPush.Store
