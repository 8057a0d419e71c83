import MiniPush.Store.Account
import MiniPush.Store.GetEvents

/-! `GetEvents` reads back what was saved: the letters of the user that were not deleted, and nothing
of any other user. -/
namespace MiniPush.Store
open Foundation

/-- An instant as a `DATETIME(3)` column keeps it, rounded to milliseconds. -/
def roundToMillis (t : ℤ) : ℤ := (t + Time.millisecond / 2) / Time.millisecond * Time.millisecond

theorem toTime_of_ofTime? {t : ℤ} {d : DateTime} (h : DateTime.ofTime? t = some d) :
    d.toTime = roundToMillis t := by
  rw [DateTime.toTime, DateTime.ofTime?_ms h]
  rfl

/-- The times of Kafka messages are not rounded. -/
theorem roundToMillis_whole (ms : ℤ) :
    roundToMillis (ms * Time.millisecond) = ms * Time.millisecond := by
  unfold roundToMillis Time.millisecond
  omega

def Letter.toUserEvent (l : Letter) : UserEvent :=
  ⟨l.uid, l.seq, Time.unix (roundToMillis l.createTime), l.payload, l.read⟩

/-- The letters of a user in a range that were not deleted, the last one first. -/
structure ReadsBack (acc : Account) (uid : ℤ) (req : GetEventsReq) (events : List UserEvent) :
    Prop where
  descending : events.Pairwise fun a b => b.seq < a.seq
  entries : ∀ event, event ∈ events ↔ ∃ l ∈ acc, l.uid = uid ∧ req.fromSeq ≤ l.seq ∧
    l.seq ≤ req.toSeq ∧ l.deleted = false ∧ event = l.toUserEvent

section
variable {db : Database} {uid : ℤ} {req : GetEventsReq}

/-- The result set of `getEventsSQL`: the rows in the range with their events, the last sequence
first. -/
theorem selectEvents_spec (uid : ℤ) (req : GetEventsReq) (db : Database) :
    ∃ rows, selectEvents uid req db = .ok (rows, db) ∧
      (rows.Pairwise fun a b => b.1.seq < a.1.seq) ∧
      ∀ row, row ∈ rows ↔ row.1 ∈ db.inRange uid req ∧
        db.events.find? row.1.topicOffset = some row.2 := by
  obtain ⟨rows, hrows, hperm⟩ := selectEvents_perm uid req db
  refine ⟨rows, hrows, ?_, ?_⟩
  · have hsorted : rows.Pairwise fun a b => b.1.seq ≤ a.1.seq := by
      obtain ⟨rfl, -⟩ := Prod.mk.inj (Except.ok.inj hrows)
      exact List.pairwise_insertionSort _ _
    have hnodup : (rows.map fun row => row.1.seq).Nodup := by
      have := (hperm.map UserEventRow.seq).nodup_iff.mpr nodup_inRange
      rwa [List.map_map] at this
    refine (hsorted.and (List.pairwise_map.mp hnodup)).imp fun {a b} h => ?_
    exact lt_of_le_of_ne h.1 fun he => h.2 he.symm
  · rintro ⟨u, e⟩
    obtain ⟨rfl, -⟩ := Prod.mk.inj (Except.ok.inj hrows)
    rw [List.mem_insertionSort, List.mem_filterMap]
    constructor
    · rintro ⟨v, hv, he⟩
      obtain ⟨e', he', heq⟩ := Option.map_eq_some_iff.mp he
      obtain ⟨rfl, rfl⟩ := Prod.mk.inj heq
      exact ⟨hv, he'⟩
    · rintro ⟨hu, he⟩
      exact ⟨u, hu, by rw [he]; rfl⟩

theorem Recorded.readEvent {l : Letter} {r : UserEventRow} {ev : EventRow} (h : Recorded l r)
    (hpay : ev.payload = l.payload) : readEvent l.uid (r, ev) = l.toUserEvent := by
  rw [Letter.toUserEvent, Store.readEvent, h.seq, toTime_of_ofTime? h.time, hpay, h.read]

/-- Where the tables agree with the account, the result set is read as the letters. -/
theorem Booked.readsBack {acc : Account} (h : Booked db acc)
    {rows : List (UserEventRow × EventRow)} (hdesc : rows.Pairwise fun a b => b.1.seq < a.1.seq)
    (hmem : ∀ row, row ∈ rows ↔ row.1 ∈ db.inRange uid req ∧
      db.events.find? row.1.topicOffset = some row.2) :
    ReadsBack acc uid req (rows.map (readEvent uid)) := by
  have hread : ∀ {l r ev}, l ∈ acc → l.deleted = false → Recorded l r → l.uid = uid →
      db.events.find? r.topicOffset = some ev → readEvent uid (r, ev) = l.toUserEvent := by
    rintro l r ev hl hdel hrec rfl hev
    obtain ⟨ev', hmem', hoff, hpay⟩ := h.events l hl hdel
    have hfound : db.events.find? r.topicOffset = some ev' :=
      Table.find?_eq_some_iff.mpr ⟨hmem', hoff.trans hrec.offset.symm⟩
    obtain rfl : ev = ev' := Option.some.inj (hev.symm.trans hfound)
    exact hrec.readEvent hpay
  constructor
  · exact List.pairwise_map.mpr (hdesc.imp fun h => h)
  · intro event
    rw [List.mem_map]
    constructor
    · rintro ⟨⟨r, ev⟩, hrow, rfl⟩
      obtain ⟨hr, hev⟩ := (hmem (r, ev)).mp hrow
      obtain ⟨hrow', huid, hlo, hhi⟩ := mem_inRange.mp hr
      obtain ⟨l, hl, hdel, hrec⟩ := h.rows r hrow'
      have hluid : l.uid = uid := hrec.uid.symm.trans huid
      refine ⟨l, hl, hluid, ?_, ?_, hdel, hread hl hdel hrec hluid hev⟩
      · rw [← hrec.seq]
        exact hlo
      · rw [← hrec.seq]
        exact hhi
    · rintro ⟨l, hl, huid, hlo, hhi, hdel, rfl⟩
      obtain ⟨r, hr, hrec⟩ := h.kept l hl hdel
      obtain ⟨ev, hev, hoff⟩ := db.references r hr
      have hfound := Table.find?_eq_some_iff.mpr ⟨hev, hoff⟩
      refine ⟨(r, ev), (hmem (r, ev)).mpr ⟨mem_inRange.mpr ⟨hr, ?_, ?_, ?_⟩, hfound⟩,
        hread hl hdel hrec huid hfound⟩
      · rw [hrec.uid, huid]
      · rw [hrec.seq]
        exact hlo
      · rw [hrec.seq]
        exact hhi

private theorem getEventsBody_readsBack {acc : Account} (h : Booked db acc) (uid : ℤ)
    (req : GetEventsReq) :
    Tx.Triple (· = db) (getEventsBody none uid req) fun events _ => ReadsBack acc uid req events := by
  obtain ⟨rows, hrows, hdesc, hmem⟩ := selectEvents_spec uid req db
  refine Tx.Triple.bind (Q := fun rows' _ => rows' = rows) (Tx.Triple.statement ?_) fun rows' => ?_
  · rintro db rows' db' rfl hselect
    rw [hrows] at hselect
    exact (Prod.mk.inj (Except.ok.inj hselect)).1.symm
  · cases hscan : (fetch none rows').mapM (scanEvent uid) with
    | error e => exact Tx.Triple.throw e
    | ok events =>
      refine Tx.Triple.pure events ?_
      rintro _ rfl
      rw [scanEvents_map hscan]
      exact h.readsBack hdesc hmem

private theorem getEventsBody_succeeds (hi : SeqInv db) (hfit : db.SeqsFit) (uid : ℤ)
    (req : GetEventsReq) :
    Tx.Total (· = db) (getEventsBody none uid req) fun _ _ => True := by
  rintro db rfl
  obtain ⟨rows, hrows, -, hmem⟩ := selectEvents_spec uid req db
  have hrange : ∀ row ∈ rows, -2 ^ 31 ≤ row.1.seq ∧ row.1.seq < 2 ^ 31 := by
    intro row hrow
    have hseq := hi.seq_range (mem_inRange.mp ((hmem row).mp hrow).1).1
    have hhead := hfit row.1.uid
    omega
  obtain ⟨events, db', hrun, -⟩ := getEventsBody_rows hrows hrange db rfl
  exact ⟨events, db', hrun, trivial⟩

end

/-- In every run of the store, `GetEvents` returns the letters of the user in the range that were not
deleted, the last one first: it does so where nothing fails, and whenever it returns a complete
result. No two letters have the same user and sequence, and each was sent by a `Save` of the run to a
recipient of its event. A create time in whole milliseconds comes back cut to its second; others
are rounded to milliseconds first. -/
theorem saved_events_read_back (P : Platform) {ops : List StoreOp} {db : Database}
    (h : (storeSystem P).run .empty ops = some db) :
    ∃ acc, (accountSystem P).run (.empty, []) ops = some (db, acc) ∧
      (acc.map Letter.key).Nodup ∧
      (∀ l ∈ acc, ∃ env e, .save env e ∈ ops ∧ l.SentBy e) ∧
      (∀ l ∈ acc, ∀ ms, l.createTime = ms * Time.millisecond →
        l.toUserEvent.createTime = Time.unix l.createTime) ∧
      ∀ uid req, (∃ events, (getEvents .calm none uid req db).1 = .ok events) ∧
        ∀ env events, (getEvents env none uid req db).1 = .ok events → ReadsBack acc uid req events := by
  obtain ⟨acc, hacc⟩ := exists_account P [] h
  have hstore : (storeSystem P).Reachable db := System.Reachable.run (.init rfl) ops h
  obtain ⟨hi, hbooked⟩ := booked_of_reachable P (System.Reachable.run (.init rfl) ops hacc)
  refine ⟨acc, hacc, hbooked.keys_nodup hi, ?_, ?_, fun uid req => ⟨?_, fun env events hok => ?_⟩⟩
  · intro l hl
    rcases sentBy_of_run P hacc hl with ⟨l₀, hl₀, -⟩ | hsent
    · cases hl₀
    · exact hsent
  · intro l _ ms hms
    rw [Letter.toUserEvent, hms, roundToMillis_whole]
  · obtain ⟨events, db', hrun, -⟩ :=
      withTx_calm (getEventsBody_succeeds hi (seqsFit_of_reachable P hstore) uid req) rfl
    exact ⟨events, by rw [getEvents, hrun]⟩
  · rcases withTx_triple (getEventsBody_readsBack hbooked uid req) env rfl with
      ⟨e, he⟩ | ⟨a, db', hreads, he | ⟨e, -, he⟩⟩ <;> rw [getEvents, he] at hok
    · cases hok
    · obtain rfl := Except.ok.inj hok
      exact hreads
    · cases hok

/-- Two events for user 1, of which the second is read and the first is sent again in vain. -/
def letterOps : List StoreOp :=
  [.save .calm ⟨5, 0, [1, 2], [0x61]⟩, .save .calm ⟨6, 0, [1], [0x62]⟩, .setRead .calm 1 2,
    .save .calm ⟨5, 0, [1, 2], [0x61]⟩]

theorem saved_events_read_back_letterOps :
    ∃ db, (storeSystem .utc).run .empty letterOps = some db ∧
      (getEvents .calm none 1 ⟨1, 9⟩ db).1 =
        .ok [⟨1, 2, 0, [0x62], true⟩, ⟨1, 1, 0, [0x61], false⟩] ∧
      ∃ acc, (accountSystem .utc).run (.empty, []) letterOps = some (db, acc) ∧
        (acc.map Letter.key).Nodup ∧
        (∀ l ∈ acc, ∃ env e, .save env e ∈ letterOps ∧ l.SentBy e) ∧
        (∀ l ∈ acc, ∀ ms, l.createTime = ms * Time.millisecond →
          l.toUserEvent.createTime = Time.unix l.createTime) ∧
        ∀ uid req, (∃ events, (getEvents .calm none uid req db).1 = .ok events) ∧
          ∀ env events, (getEvents env none uid req db).1 = .ok events →
            ReadsBack acc uid req events :=
  ⟨_, rfl, by decide +kernel, saved_events_read_back .utc rfl⟩

/-- A create time of 0.9996 seconds is read back as the first second. -/
theorem createTime_rounded_up : ∃ db,
    (storeSystem .utc).run .empty [.save .calm ⟨5, 999600000, [1], []⟩] = some db ∧
      (getEvents .calm none 1 ⟨1, 1⟩ db).1 = .ok [⟨1, 1, 1, [], false⟩] ∧
      Time.unix 999600000 = 0 :=
  ⟨_, rfl, by decide +kernel, by decide⟩

end MiniPush.Store
