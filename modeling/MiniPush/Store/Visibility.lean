import MiniPush.Store.Stats

/-! Which events are visible. The unread count and the bits of the read states agree on them; the
clean-up does not, as MySQL compares the digits of a date with Unix seconds. -/
namespace MiniPush.Store
open Foundation

/-- The unread count of `Stats` is the number of clear bits in the blocks that `GetReadStates`
returns for its head sequence, and the blocks have one bit for each visible event. -/
def UnreadAgrees (P : Platform) (now now' uid days : ℤ) (db : Database) : Prop :=
  ∃ (st : StatsResp) (blocks : List Block) (bits : List (List Bool)),
    (stats P .calm now uid days ⟨true⟩ db).1 = .ok st ∧
      (getReadStates P .calm none now' uid days ⟨st.headSeq⟩ db).1 = .ok (some blocks) ∧
      blocks.mapM Block.bits = some bits ∧ st.unreadCount = bits.flatten.count false ∧
      (blocks.map Block.len).sum = (db.userEvents.rows.countP fun r =>
        r.uid = uid ∧ P.visible now' days r.createTime : ℕ)

theorem unreadAgrees_of_visible {P : Platform} {now now' uid days : ℤ} {db : Database}
    (hi : SeqInv db) (hfit : db.SeqsFit)
    (hsame : ∀ r ∈ db.userEvents.rows,
      P.visible now days r.createTime = P.visible now' days r.createTime) :
    UnreadAgrees P now now' uid days db := by
  obtain ⟨blocks, bits, rows, hblocks, hperm, hbits, hflat, hsum⟩ :=
    getReadStates_calm (P := P) hi hfit now' uid days
  refine ⟨_, blocks, bits, stats_calm hi hfit now uid days, hblocks, hbits, ?_, ?_⟩
  · have hcount : (rows.map UserEventRow.readState).count false =
        db.userEvents.rows.countP fun r =>
          r.uid = uid ∧ P.visible now days r.createTime ∧ r.readState = false := by
      rw [List.count, List.countP_map, hperm.countP_eq, List.countP_filter]
      refine List.countP_congr fun r hr => ?_
      rw [hsame r hr]
      simp only [Function.comp_apply, Bool.and_eq_true, beq_iff_eq, decide_eq_true_eq]
      tauto
    rw [hflat, hcount]
  · rw [hsum, hperm.length_eq, List.countP_eq_length_filter]

/-- Under MySQL's comparison the digits of any date are a larger number than the Unix seconds of the
cutoff. -/
theorem cutoff_lt_digits {P : Platform} (hmysql : P.reading = .yyyymmddhhmmss) {now days : ℤ}
    (h0 : -1 ≤ days) (h1 : days ≤ 106750) (hnow : now < 2 ^ 63) (t : DateTime) :
    1000 * P.cutoff now days < P.reading.number t := by
  have hday := getDayBefore_le P.location now h0 h1
  have hcut : P.cutoff now days < 10 ^ 10 := by
    have hhour : Time.hour = 3600000000000 := rfl
    unfold Platform.cutoff Time.unix Time.second
    rw [hhour] at hday
    omega
  have hnumber := DateReading.le_yyyymmddhhmmss t
  rw [hmysql]
  omega

theorem visible_of_digits {P : Platform} (hmysql : P.reading = .yyyymmddhhmmss) {now days : ℤ}
    (h0 : -1 ≤ days) (h1 : days ≤ 106750) (hnow : now < 2 ^ 63) (t : DateTime) :
    P.visible now days t = true := by
  rw [Platform.visible, DateReading.ge, decide_eq_true_eq]
  exact (cutoff_lt_digits hmysql h0 h1 hnow t).le

/-- In every reachable state the unread count agrees with the read states, if both calls cut at the
same midnight. Calls on one calendar date do so unless the zone changes its clocks; then they still
agree under MySQL's comparison, for every number of days whose duration `GetDayBefore` can express. -/
theorem unread_count_agrees (P : Platform) {db : Database} (h : (storeSystem P).Reachable db)
    {uid now now' days : ℤ}
    (hday : getDayBefore P.location now days = getDayBefore P.location now' days ∨
      P.location.startOfDay now = P.location.startOfDay now' ∧ P.reading = .yyyymmddhhmmss ∧
        -1 ≤ days ∧ days ≤ 106750 ∧ now < 2 ^ 63 ∧ now' < 2 ^ 63) :
    UnreadAgrees P now now' uid days db := by
  refine unreadAgrees_of_visible (seqInv_of_reachable P h) (seqsFit_of_reachable P h) fun r _ => ?_
  rcases hday with hcut | ⟨-, hmysql, h0, h1, hnow, hnow'⟩
  · rw [Platform.visible, Platform.visible, Platform.cutoff, Platform.cutoff, hcut]
  · rw [visible_of_digits hmysql h0 h1 hnow, visible_of_digits hmysql h0 h1 hnow']

/-- Three events for user 1, the second of them read. -/
def unreadOps : List StoreOp :=
  [.save .calm ⟨5, 1700000000 * Time.second, [1, 2], []⟩,
    .save .calm ⟨6, 1700000000 * Time.second, [1, 1], []⟩, .setRead .calm 1 2]

theorem unread_count_agrees_unreadOps : ∃ db, (storeSystem .utc).run .empty unreadOps = some db ∧
    db.headSeq 1 = 3 ∧
    UnreadAgrees .utc (1700000000 * Time.second) (1700003600 * Time.second) 1 30 db :=
  ⟨_, rfl, by decide +kernel,
    unread_count_agrees .utc (System.Reachable.run (.init rfl) unreadOps rfl)
      (.inl (by decide +kernel))⟩

/-- At 106751 days the duration of `GetDayBefore` wraps and the cutoff lies in the future, where the
Unix seconds have the eleven digits of a date in the year 1. Two calls of 14 November 2023 then cut
before and after an event of that year: it counts as unread and is in no block. -/
theorem unread_count_differs : ∃ db,
    (storeSystem .utc).run .empty [.save .calm ⟨5, -62112625200 * Time.second, [1], []⟩] = some db ∧
      (Time.Location.fixed 0).startOfDay (1699920000 * Time.second) =
        (Time.Location.fixed 0).startOfDay (1700006399 * Time.second) ∧
      ¬ UnreadAgrees .utc (1699920000 * Time.second) (1700006399 * Time.second) 1 106751 db := by
  have hview : ((storeSystem .utc).run .empty
      [.save .calm ⟨5, -62112625200 * Time.second, [1], []⟩]).map (fun db =>
        ((stats .utc .calm (1699920000 * Time.second) 1 106751 ⟨true⟩ db).1,
          (getReadStates .utc .calm none (1700006399 * Time.second) 1 106751 ⟨1⟩ db).1)) =
      some (.ok ⟨1, 1⟩, .ok (some [])) := by decide +kernel
  obtain ⟨db, hdb, hboth⟩ := Option.map_eq_some_iff.mp hview
  obtain ⟨hstats, hblocks⟩ := Prod.mk.inj hboth
  refine ⟨db, hdb, by decide, ?_⟩
  rintro ⟨st, blocks, bits, hst, hget, hbits, hcount, -⟩
  rw [hstats] at hst
  obtain rfl := Except.ok.inj hst
  rw [hblocks] at hget
  obtain rfl := Option.some.inj (Except.ok.inj hget)
  obtain rfl := Option.some.inj hbits
  exact absurd hcount (by decide)

/-- The clean-up deletes what is no longer visible: an event is removed exactly if the time condition
of the queries excludes it, which is if it is older than the cutoff; a row of `user_events` goes
exactly if the time condition excludes it; nothing else changes. -/
structure CleansExactly (P : Platform) (now ttlDays : ℤ) (db db' : Database) : Prop where
  events : ∀ e ∈ db.events.rows,
    (e ∉ db'.events.rows ↔ P.visible now ttlDays e.createTime = false) ∧
      (P.visible now ttlDays e.createTime = false ↔
        e.createTime.toTime < getDayBefore P.location now ttlDays)
  userEvents : ∀ r ∈ db.userEvents.rows,
    r ∉ db'.userEvents.rows ↔ P.visible now ttlDays r.createTime = false
  seqs : db'.userSeq = db.userSeq
  others : db'.events.rows.Sublist db.events.rows ∧ db'.userEvents.rows.Sublist db.userEvents.rows

section Cleanup
variable {P : Platform} {now ttlDays : ℤ} {db : Database}

theorem deleteOutdatedEvents_calm (P : Platform) (now ttlDays : ℤ) (db : Database) :
    ∃ n, cleanEvents P.reading (P.cutoff now ttlDays) db =
      .ok (n, (deleteOutdatedEvents P .calm now ttlDays db).2) :=
  ⟨_, rfl⟩

theorem notMem_cleaned_iff {e : EventRow} (he : e ∈ db.events.rows) :
    e ∉ (deleteOutdatedEvents P .calm now ttlDays db).2.events.rows ↔
      P.reading.number e.createTime ≤ 1000 * P.cutoff now ttlDays := by
  obtain ⟨n, hclean⟩ := deleteOutdatedEvents_calm P now ttlDays db
  rw [(cleanEvents_ok hclean).2.2.1, List.mem_filter]
  simp [he, DateReading.le]

theorem notMem_cleaned_userEvents_iff (htimes : db.TimesAgree) {r : UserEventRow}
    (hr : r ∈ db.userEvents.rows) :
    r ∉ (deleteOutdatedEvents P .calm now ttlDays db).2.userEvents.rows ↔
      P.reading.number r.createTime ≤ 1000 * P.cutoff now ttlDays := by
  obtain ⟨e, he, hoff⟩ := db.references r hr
  obtain ⟨n, hclean⟩ := deleteOutdatedEvents_calm P now ttlDays db
  obtain ⟨-, -, hevents, hrows⟩ := cleanEvents_ok hclean
  have hfound : ((deleteOutdatedEvents P .calm now ttlDays db).2.events.find? r.topicOffset).isSome ↔
      e ∈ (deleteOutdatedEvents P .calm now ttlDays db).2.events.rows := by
    constructor
    · intro hsome
      obtain ⟨e', he'⟩ := Option.isSome_iff_exists.mp hsome
      obtain ⟨hmem, hoff'⟩ := Table.find?_eq_some_iff.mp he'
      have hold := hmem
      rw [hevents] at hold
      rwa [← db.events.eq_of_key_eq (List.mem_filter.mp hold).1 he (hoff'.trans hoff.symm)]
    · intro hmem
      rw [Table.find?_eq_some_iff.mpr ⟨hmem, hoff⟩]
      rfl
  rw [htimes r hr e he hoff, ← notMem_cleaned_iff he, hrows, List.mem_filter]
  simp only [hr, true_and]
  exact not_congr hfound

end Cleanup

/-- Under MySQL's comparison the clean-up deletes exactly what is no longer visible if and only if no
stored event is older than the cutoff: it deletes nothing and hides nothing. -/
theorem cleans_exactly_iff (P : Platform) (hmysql : P.reading = .yyyymmddhhmmss) {db : Database}
    (h : (storeSystem P).Reachable db) {now ttlDays : ℤ} (h0 : -1 ≤ ttlDays) (h1 : ttlDays ≤ 106750)
    (hnow : now < 2 ^ 63) :
    CleansExactly P now ttlDays db (deleteOutdatedEvents P .calm now ttlDays db).2 ↔
      ∀ e ∈ db.events.rows, getDayBefore P.location now ttlDays ≤ e.createTime.toTime := by
  have hvisible : ∀ t, P.visible now ttlDays t ≠ false := fun t => by
    rw [visible_of_digits hmysql h0 h1 hnow]
    simp
  have hkept : ∀ t, ¬ P.reading.number t ≤ 1000 * P.cutoff now ttlDays := fun t =>
    not_le.mpr (cutoff_lt_digits hmysql h0 h1 hnow t)
  constructor
  · intro hclean e he
    by_contra hold
    exact hvisible _ ((hclean.events e he).2.mpr (not_le.mp hold))
  · intro hyoung
    have htimes := timesAgree_of_reachable P h
    obtain ⟨n, hclean⟩ := deleteOutdatedEvents_calm P now ttlDays db
    obtain ⟨hseqs, -, hevents, hrows⟩ := cleanEvents_ok hclean
    refine ⟨fun e he => ⟨?_, ?_⟩, fun r hr => ?_, hseqs, ?_, ?_⟩
    · rw [notMem_cleaned_iff he]
      exact iff_of_false (hkept _) (hvisible _)
    · exact iff_of_false (hvisible _) (not_lt.mpr (hyoung e he))
    · rw [notMem_cleaned_userEvents_iff htimes hr]
      exact iff_of_false (hkept _) (hvisible _)
    · rw [hevents]
      exact List.filter_sublist
    · rw [hrows]
      exact List.filter_sublist

/-- Nothing is outdated: the clean-up has nothing to do. -/
theorem cleans_exactly_unreadOps : ∃ db, (storeSystem .utc).run .empty unreadOps = some db ∧
    CleansExactly .utc (1700003600 * Time.second) 7 db
      (deleteOutdatedEvents .utc .calm (1700003600 * Time.second) 7 db).2 :=
  ⟨_, rfl, (cleans_exactly_iff .utc rfl (System.Reachable.run (.init rfl) unreadOps rfl) (by decide)
    (by decide) (by decide)).mpr (by decide +kernel)⟩

/-- A year later all events are outdated, but they are still visible and none is deleted. -/
theorem outdated_never_cleaned : ∃ db, (storeSystem .utc).run .empty unreadOps = some db ∧
    (db.events.rows.length = 2 ∧ ∀ e ∈ db.events.rows,
      e.createTime.toTime < getDayBefore (.fixed 0) (1731536000 * Time.second) 7) ∧
    (deleteOutdatedEvents .utc .calm (1731536000 * Time.second) 7 db).2.events.rows.length = 2 ∧
    ¬ CleansExactly .utc (1731536000 * Time.second) 7 db
      (deleteOutdatedEvents .utc .calm (1731536000 * Time.second) 7 db).2 := by
  have hview : ((storeSystem .utc).run .empty unreadOps).map (fun db =>
      (decide (db.events.rows.length = 2 ∧ ∀ e ∈ db.events.rows,
        e.createTime.toTime < getDayBefore (.fixed 0) (1731536000 * Time.second) 7),
        (deleteOutdatedEvents .utc .calm (1731536000 * Time.second) 7 db).2.events.rows.length)) =
      some (true, 2) := by decide +kernel
  obtain ⟨db, hdb, hboth⟩ := Option.map_eq_some_iff.mp hview
  obtain ⟨hold, hleft⟩ := Prod.mk.inj hboth
  obtain ⟨htwo, hold⟩ := of_decide_eq_true hold
  refine ⟨db, hdb, ⟨htwo, hold⟩, hleft, fun hclean => ?_⟩
  obtain ⟨e, he⟩ := List.exists_mem_of_length_pos (show 0 < db.events.rows.length by omega)
  have hhidden := (hclean.events e he).2.mpr (hold e he)
  rw [visible_of_digits rfl (by decide) (by decide) (by decide)] at hhidden
  cases hhidden

end MiniPush.Store
