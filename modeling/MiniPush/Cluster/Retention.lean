import MiniPush.Cluster.HeadOfLine
import MiniPush.Store.Isolation
import MiniPush.Store.ReadBack

/-! What a user can read: the rows of `user_events` go with their events and not before, so that a range of
sequences up to the head seq has no gap but for events that are too old. -/
namespace MiniPush.Cluster
open Foundation Store

/-- Every row that was inserted is there, or its event has gone. -/
def Retained (db : Database) : Prop :=
  ∀ r ∈ db.history.userEvents, (∃ r' ∈ db.userEvents.rows, r'.key = r.key ∧ r'.topicOffset = r.topicOffset) ∨
    db.events.find? r.topicOffset = none

theorem retained_empty : Retained .empty := by simp [Retained, Database.empty]

section
variable {cfg : StorageConfig} {db db' : Database} {now : ℤ} {e : Event} {m : GoMap ℤ ℤ}

/-- The deliveries add the same rows to the table and to its history. -/
theorem deliveries_rows {t : DateTime} {offset : ℤ} {uids : List ℤ} (h : Deliveries t offset db uids m db') :
    ∃ rows, db'.userEvents.rows = db.userEvents.rows ++ rows ∧
      db'.history.userEvents = db.history.userEvents ++ rows := by
  induction h with
  | nil => exact ⟨[], by simp, by simp⟩
  | @snoc uids m db₁ db₂ uid _ hd ih =>
    obtain ⟨rows, hrows, hhist⟩ := ih
    refine ⟨rows ++ [⟨uid, db₁.headSeq uid + 1, t, false, offset⟩], ?_, ?_⟩
    · rw [hd.userEvents, hrows, List.append_assoc]
    · rw [hd.history, ← List.append_assoc, ← hhist]

/-- A new event has an offset of its own, so that it brings back no event that has gone. -/
theorem Retained.stored (h : Retained db) (hs : Stored e db m db') (hp : PartitionInv cfg db now)
    (hp' : PartitionInv cfg db' now) : Retained db' := by
  obtain ⟨t, _, hadd, -⟩ := hs.added
  obtain ⟨-, -, _, db₁, -, -, huser, -, hhist, hd⟩ := hs
  obtain ⟨rows, hrows, hhist'⟩ := deliveries_rows hd
  rw [huser] at hrows
  rw [hhist] at hhist'
  have hordered := hp'.ordered
  rw [hadd.history, List.pairwise_append] at hordered
  intro r hr
  rw [hhist', List.mem_append] at hr
  rw [hrows]
  rcases hr with hr | hr
  · rcases h r hr with ⟨r', hr', hkey⟩ | hgone
    · exact .inl ⟨r', List.mem_append_left _ hr', hkey⟩
    · obtain ⟨e', he', hoffset⟩ := hp.userRows r hr
      have hlt := hordered.2.2 e' he' _ (List.mem_singleton_self _)
      refine .inr (Table.find?_eq_none_iff.mpr fun row hrow => ?_)
      rw [hadd.events, List.mem_append, List.mem_singleton] at hrow
      rcases hrow with hrow | rfl
      · exact Table.find?_eq_none_iff.mp hgone row hrow
      · rw [hoffset] at hlt
        exact hlt.ne'
  · exact .inl ⟨r, List.mem_append_right _ hr, rfl, rfl⟩

theorem Retained.setRead (h : Retained db) (env : TxEnv SqlError) (uid seq : ℤ) :
    Retained (setRead env uid seq db).2 := by
  rcases setRead_cases env uid seq db with he | ⟨n, he⟩
  · rwa [he]
  · obtain ⟨hev, -, hhist, hrows⟩ := updateReadState_ok he
    intro r hr
    rw [hhist] at hr
    rw [hev, hrows]
    refine (h r hr).imp_left fun ⟨r', hr', hkey⟩ => ⟨_, List.mem_map_of_mem hr', ?_⟩
    split_ifs <;> exact hkey

theorem Retained.deleteOutdatedEvents (h : Retained db) (P : Platform) (env : TxEnv SqlError) (ttlDays : ℤ) :
    Retained (deleteOutdatedEvents P env now ttlDays db).2 := by
  rcases deleteOutdatedEvents_cases P env now ttlDays db with he | ⟨n, he⟩
  · rwa [he]
  · obtain ⟨-, hhist, hev, hrows⟩ := cleanEvents_ok he
    intro r hr
    rw [hhist] at hr
    rw [hrows]
    cases hfind : (Store.deleteOutdatedEvents P env now ttlDays db).2.events.find? r.topicOffset with
    | none => exact .inr rfl
    | some row =>
      obtain ⟨hrow, hoffset⟩ := Table.find?_eq_some_iff.mp hfind
      rw [hev] at hrow
      rcases h r hr with ⟨r', hr', hkey, hoff⟩ | hgone
      · refine .inl ⟨r', List.mem_filter.mpr ⟨hr', ?_⟩, hkey, hoff⟩
        rw [hoff, hfind]
        rfl
      · exact absurd hoffset (Table.find?_eq_none_iff.mp hgone row (List.mem_filter.mp hrow).1)

end

section
variable {cfg : StorageConfig}

theorem retained_step (httl : cfg.ValidTtl) {s s' : Storage}
    {l : StorageLabel} (hstep : Storage.Step cfg s l s') (ht : s.Timely l)
    (hp : PartitionInv cfg s.db s.now) (hl : LoopInv cfg s.db s.pc s.pos s.committed s.now)
    (h : Retained s.db) : Retained s'.db := by
  have hp' := (step_inv httl hstep ht hp hl).1
  cases hstep with
  | @save env i e decodedAt hpc =>
    rcases save_cases env e s.db with ⟨err, he⟩ | ⟨m, db', hs | hs, he⟩
    · rwa [he]
    · have hdb : (save env e s.db).2 = db' := by
        rcases he with he | ⟨err, -, he⟩ <;> rw [he]
      dsimp only at hp' ⊢
      rw [hdb] at hp' ⊢
      exact h.stored hs hp hp'
    · obtain rfl := hs.unchanged
      rcases he with he | ⟨err, -, he⟩ <;> rwa [he]
  | deleteOutdated env _ => exact h.deleteOutdatedEvents _ _ _
  | setRead env uid seq => exact h.setRead env uid seq
  | _ => exact h

theorem retained_of_timely (httl : cfg.ValidTtl) {s : Storage}
    (h : (storageSystem cfg).ReachableVia Storage.Timely s) : Retained s.db := by
  induction h with
  | init hs =>
    obtain ⟨now, rfl⟩ := hs
    exact retained_empty
  | step hs ht hstep ih =>
    obtain ⟨hp, hl⟩ := inv_of_timely httl hs
    exact retained_step httl (Storage.step_spec hstep) ht hp hl ih

end

/-- Every sequence up to the head seq was given to a row of the user. -/
theorem exists_row_of_le {db : Database} (h : SeqInv db) {uid n : ℤ} (hpos : 1 ≤ n) (hle : n ≤ db.headSeq uid) :
    ∃ r ∈ db.history.userEvents, r.uid = uid ∧ r.seq = n := by
  have hmem : n ∈ db.assignedSeqs uid := by
    rw [h.assigned uid, firstSeqs, List.mem_map]
    rw [h.headSeq_eq] at hle
    exact ⟨(n - 1).toNat, List.mem_range.mpr (by omega), by omega⟩
  obtain ⟨r, hr, hseq⟩ := List.mem_map.mp hmem
  obtain ⟨hrow, huid⟩ := List.mem_filter.mp hr
  exact ⟨r, hrow, of_decide_eq_true huid, hseq⟩

/-- Where nothing fails, the response holds the rows in the range with their events, the last one first. -/
theorem getEvents_rows (uid : ℤ) (req : GetEventsReq) (db : Database) (hfrom : -2 ^ 31 ≤ req.fromSeq)
    (hto : req.toSeq < 2 ^ 31) :
    ∃ rows : List (UserEventRow × EventRow),
      getEvents .calm none uid req db = (.ok (rows.map (readEvent uid)), db) ∧
      (rows.Pairwise fun a b => b.1.seq < a.1.seq) ∧
      ∀ row, row ∈ rows ↔ row.1 ∈ db.inRange uid req ∧ db.events.find? row.1.topicOffset = some row.2 := by
  obtain ⟨rows, hrows, hdesc, hmem⟩ := selectEvents_spec uid req db
  refine ⟨rows, ?_, hdesc, hmem⟩
  have hrange : ∀ row ∈ rows, -2 ^ 31 ≤ row.1.seq ∧ row.1.seq < 2 ^ 31 := by
    intro row hrow
    have := (mem_inRange.mp ((hmem row).mp hrow).1).2.2
    omega
  obtain ⟨events, db', hrun, rfl⟩ := withTx_calm (getEventsBody_rows hrows hrange) rfl
  have hdb := getEvents_readOnly .calm none uid req db
  rw [getEvents, hrun] at hdb
  obtain rfl : db' = db := hdb
  exact hrun

/-- What the user was sent with a sequence: a message of the partition with the user among its recipients. -/
structure SentAs (cfg : StorageConfig) (db : Database) (uid n : ℤ) (msg : KafkaMessage) : Prop where
  mem : msg ∈ cfg.partition.messages
  recipient : ∃ toUids, cfg.unmarshal msg.value = some toUids ∧ uid ∈ toUids
  row : ∃ r ∈ db.history.userEvents, r.uid = uid ∧ r.seq = n ∧ r.topicOffset = msg.offset

variable {cfg : StorageConfig}

/-- Each sequence of a user up to the head seq is that of a message, and a response for a range about it has
the message, unless it is too old. -/
theorem readable_of_timely (httl : cfg.ValidTtl) {s : Storage}
    (h : (storageSystem cfg).ReachableVia Storage.Timely s) {uid n : ℤ} {req : GetEventsReq}
    {rows : List (UserEventRow × EventRow)}
    (hmem : ∀ row, row ∈ rows ↔
      row.1 ∈ s.db.inRange uid req ∧ s.db.events.find? row.1.topicOffset = some row.2)
    (hpos : 1 ≤ n) (hfrom : req.fromSeq ≤ n) (hto : n ≤ req.toSeq) (hhead : n ≤ s.db.headSeq uid) :
    ∃ msg, SentAs cfg s.db uid n msg ∧
      ((∃ event ∈ rows.map (readEvent uid), event.seq = n ∧ event.payload = msg.value) ∨
        cfg.cleanEvents = true ∧
          msg.time * Time.millisecond ≤ s.now - (cfg.delEventsTtlDays + 1) * 24 * Time.hour) := by
  have hp := (inv_of_timely httl h).1
  obtain ⟨r, hr, huid, hseq⟩ := exists_row_of_le hp.seqs hpos hhead
  obtain ⟨e, he, hoffset⟩ := hp.userRows r hr
  obtain ⟨i, msg, hmsg, hoff, htime, hvalue⟩ := hp.rows e he
  obtain ⟨j, msg', toUids, hmsg', hun, hoff', -⟩ := (storableInv_of_reachable h.reachable).rows e he
  obtain rfl : i = j := cfg.offset_inj hmsg hmsg' (by omega)
  obtain rfl : msg = msg' := Option.some.inj (hmsg.symm.trans hmsg')
  refine ⟨msg, ⟨List.mem_of_getElem? hmsg, ⟨toUids, hun, ?_⟩, r, hr, huid, hseq, by omega⟩, ?_⟩
  · have hcount := hp.counts e he toUids (by rw [hvalue]; exact hun) uid
    refine List.count_pos_iff.mp ?_
    rw [← hcount, deliveryCount, List.countP_pos_iff]
    exact ⟨r, hr, by simp [huid, hoffset]⟩
  · rcases hp.kept e he with hlive | ⟨hclean, hold⟩
    · have hfind : s.db.events.find? r.topicOffset = some e := Table.find?_eq_some_iff.mpr ⟨hlive, hoffset⟩
      rcases retained_of_timely httl h r hr with ⟨r', hr', hkey, hoff''⟩ | hgone
      · obtain ⟨huid', hseq'⟩ := Prod.mk.inj hkey
        refine .inl ⟨_, List.mem_map_of_mem ((hmem (r', e)).mpr ⟨mem_inRange.mpr ⟨hr', ?_, ?_⟩, ?_⟩), ?_, hvalue⟩
        · exact huid'.trans huid
        · rw [show r'.seq = n from hseq'.trans hseq]
          exact ⟨hfrom, hto⟩
        · rw [hoff'', hfind]
        · exact hseq'.trans hseq
      · rw [hfind] at hgone
        cases hgone
    · refine .inr ⟨hclean, ?_⟩
      unfold DateTime.toTime at hold
      rwa [htime] at hold

end MiniPush.Cluster
