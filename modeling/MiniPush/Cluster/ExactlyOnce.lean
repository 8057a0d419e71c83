import MiniPush.Cluster.Progress

/-! Exactly-once consumption. The duplicate-key branch of `Save` recognises a redelivered message by
its event row, so a row may only go once its message is too old to be decoded again. -/
namespace MiniPush.Cluster
open Foundation Store

variable {cfg : StorageConfig} {db db' : Database} {pos committed i : ℕ} {now decodedAt : ℤ}
  {e : Event}

/-- A decoded message that was inserted before still has its event row when it is saved again within
a day: the clean-up keeps a row for a day more than the message is accepted. -/
theorem not_inserted_of_fresh (httl : cfg.ValidTtl)
    (hp : PartitionInv cfg db now) (hw : Working cfg db now i e decodedAt)
    (htimely : now - decodedAt < 24 * Time.hour) (hfresh : db.events.find? e.offset = none) :
    ¬cfg.Inserted db i := by
  rintro ⟨m, hm, r, hr, ho⟩
  obtain ⟨msg, toUids, hmsg, rfl, hdecode⟩ := hw.decoded
  obtain rfl : m = msg := Option.some.inj (hm.symm.trans hmsg)
  rcases hp.kept r hr with hlive | ⟨hclean, hold⟩
  · exact Table.find?_eq_none_iff.mp hfresh r hlive ho
  · have hdays : cfg.delEventsTtlDays = cfg.eventsTtlDays := by
      rw [StorageConfig.delEventsTtlDays, if_pos hclean]
    have hrange := httl hclean
    have hage := cfg.age_of_decodeKafkaMsg (by omega) (by omega) hdecode
    obtain ⟨j, m', hj, ho', hms, -⟩ := hp.rows r hr
    have hij : i = j := cfg.offset_inj hm hj (by omega)
    subst hij
    obtain rfl : m = m' := Option.some.inj (hm.symm.trans hj)
    unfold DateTime.toTime at hold
    rw [hms] at hold
    linarith

theorem added_step (httl : cfg.ValidTtl)
    (hp : PartitionInv cfg db now) (hl : LoopInv cfg db (.save i e decodedAt) pos committed now)
    (htimely : now - decodedAt < 24 * Time.hour) {m : GoMap ℤ ℤ} (hs : Stored e db m db') :
    PartitionInv cfg db' now ∧ LoopInv cfg db' (.save i e decodedAt) pos committed now ∧
      cfg.Inserted db' i := by
  obtain ⟨t, rows, hadd, -⟩ := hs.added
  have hw := hl.working i e decodedAt rfl
  have hnot := not_inserted_of_fresh httl hp hw htimely hadd.fresh
  have hbelow : ∀ k, cfg.Inserted db k → k < i := hw.newest.resolve_left hnot
  obtain ⟨msg, toUids, hmsg, rfl, hdecode⟩ := hw.decoded
  have hmono : ∀ r ∈ db.history.events, r ∈ db'.history.events := by
    intro r hr
    rw [hadd.history]
    exact List.mem_append_left _ hr
  have hins : cfg.Inserted db' i := by
    refine ⟨msg, hmsg, ⟨msg.offset, t, msg.value⟩, ?_, rfl⟩
    rw [hadd.history]
    exact List.mem_append_right _ (List.mem_singleton_self _)
  have hback : ∀ k, cfg.Inserted db' k → cfg.Inserted db k ∨ k = i := by
    rintro k ⟨m', hm', r, hr, ho⟩
    rw [hadd.history] at hr
    rcases List.mem_append.mp hr with hr | hr
    · exact .inl ⟨m', hm', r, hr, ho⟩
    · rw [List.mem_singleton.mp hr] at ho
      exact .inr (cfg.offset_inj hm' hmsg ho.symm)
  have hset : ∀ j, cfg.Settled db now j → cfg.Settled db' now j :=
    fun j => settled_mono hmono (le_refl _)
  refine ⟨?_, ⟨?_, fun j e' d he => ?_, by simp, fun j hj => hset j (hl.acked j hj),
    fun k hk j hj => hset j ?_⟩, hins⟩
  · refine hp.added hmsg (cfg.decodeKafkaMsg_eq_some_iff.mp hdecode).2.1 (fun r hr => ?_) hadd
      (hs.seqInv hp.seqs)
    obtain ⟨k, m', hk, ho, -⟩ := hp.rows r hr
    rw [ho]
    exact cfg.offset_lt hk hmsg (hbelow k ⟨m', hk, r, hr, ho⟩)
  · exact .inr (.inr fun j hj =>
      (hl.settled_or_saving (by simp) (by simp) hj).imp_left (hset j))
  · cases he
    exact ⟨⟨msg, toUids, hmsg, rfl, hdecode⟩, hw.decoded_le, fun j hj => hset j (hw.settled j hj),
      .inl hins⟩
  · rcases hback k hk with hk | rfl
    · exact hl.below k hk j hj
    · exact hw.settled j hj

theorem LoopInv.retry (hl : LoopInv cfg db (.save i e decodedAt) pos committed now)
    (err : SqlError) :
    LoopInv cfg db (afterSave i e decodedAt (.error err)) pos committed now := by
  simp only [afterSave]
  split_ifs
  · exact hl.leave (.inl rfl)
  · exact hl.leave (.inr rfl)
  · exact hl

theorem LoopInv.succeed (hl : LoopInv cfg db (.save i e decodedAt) pos committed now)
    (hins : cfg.Inserted db i) (res : GoMap ℤ ℤ) :
    LoopInv cfg db (afterSave i e decodedAt (.ok res)) pos committed now := by
  have hw := hl.working i e decodedAt rfl
  have hall : ∀ j < pos, cfg.Settled db now j := by
    intro j hj
    rcases hl.settled_or_saving (by simp) (by simp) hj with hs | ⟨e', d, hpc⟩
    · exact hs
    · cases hpc
      exact .inl hins
  simp only [afterSave]
  split_ifs
  · refine ⟨.inr (.inr fun j hj => .inl (hall j hj)), by simp, fun j hj => ?_, hl.acked, hl.below⟩
    rcases hj with ⟨r, hr⟩ | hr
    · cases hr
      exact ⟨hins, hw.settled⟩
    · cases hr
  · refine ⟨.inr (.inr fun j hj => .inl (hall j hj)), by simp, fun j hj => ?_, hl.acked, hl.below⟩
    rcases hj with ⟨r, hr⟩ | hr
    · cases hr
    · cases hr
      exact ⟨hins, hw.settled⟩

theorem save_step (httl : cfg.ValidTtl)
    (hp : PartitionInv cfg db now) (hl : LoopInv cfg db (.save i e decodedAt) pos committed now)
    (htimely : now - decodedAt < 24 * Time.hour) (env : TxEnv SqlError) :
    PartitionInv cfg (save env e db).2 now ∧
      LoopInv cfg (save env e db).2 (afterSave i e decodedAt (save env e db).1) pos committed now := by
  rcases save_cases env e db with ⟨err, he⟩ | ⟨m, db', hs | hs, he⟩
  · rw [he]
    exact ⟨hp, hl.retry err⟩
  · obtain ⟨hp', hl', hins⟩ := added_step httl hp hl htimely hs
    rcases he with he | ⟨err, -, he⟩
    · rw [he]
      exact ⟨hp', hl'.succeed hins m⟩
    · rw [he]
      exact ⟨hp', hl'.retry err⟩
  · obtain rfl := hs.unchanged
    rcases he with he | ⟨err, -, he⟩
    · rw [he]
      obtain ⟨r, hr, ho, -⟩ := hs.row
      obtain ⟨msg, toUids, hmsg, rfl, -⟩ := (hl.working i e decodedAt rfl).decoded
      exact ⟨hp, hl.succeed ⟨msg, hmsg, r, hp.live r hr, ho⟩ m⟩
    · rw [he]
      exact ⟨hp, hl.retry err⟩

def ConsumePc.Recent (now : ℤ) : ConsumePc → Prop
  | .save _ _ decodedAt => now - decodedAt < 24 * Time.hour
  | _ => True

/-- The clock does not go back, and every attempt to save starts less than a day after its message
was decoded. -/
def Storage.Timely (s : Storage) : StorageLabel → Prop
  | .tick now => s.now ≤ now
  | .save _ => s.pc.Recent s.now
  | _ => True

instance (now : ℤ) : (pc : ConsumePc) → Decidable (pc.Recent now)
  | .save _ _ decodedAt => inferInstanceAs (Decidable (now - decodedAt < 24 * Time.hour))
  | .fetch | .put _ _ | .commit _ | .returned | .panicked => .isTrue trivial

instance (s : Storage) : (l : StorageLabel) → Decidable (s.Timely l)
  | .tick now => inferInstanceAs (Decidable (s.now ≤ now))
  | .save _ => inferInstanceAs (Decidable (s.pc.Recent s.now))
  | .fetch | .fetchErr _ | .put | .commit | .commitErr _ _ | .stop | .crash | .reset
  | .deleteOutdated _ | .setRead _ _ _ | .check _ => .isTrue trivial

theorem step_inv (httl : cfg.ValidTtl) {s s' : Storage}
    {l : StorageLabel} (h : Storage.Step cfg s l s') (ht : s.Timely l)
    (hp : PartitionInv cfg s.db s.now) (hl : LoopInv cfg s.db s.pc s.pos s.committed s.now) :
    PartitionInv cfg s'.db s'.now ∧ LoopInv cfg s'.db s'.pc s'.pos s'.committed s'.now := by
  cases h with
  | fetchEvent hpc hmsg hdecode =>
    rw [hpc] at hl
    exact ⟨hp, hl.fetchEvent hmsg hdecode⟩
  | fetchSkip hpc hmsg hskip =>
    rw [hpc] at hl
    refine ⟨hp, ?_⟩
    simpa only [hpc] using hl.fetchSkip hmsg hskip
  | fetchErr canceled hpc =>
    rw [hpc] at hl
    refine ⟨hp, ?_⟩
    cases canceled with
    | false => exact hl
    | true => exact hl.leave (.inl rfl)
  | save env hpc =>
    rw [hpc] at hl
    have hrecent : s.pc.Recent s.now := ht
    rw [hpc] at hrecent
    exact save_step httl hp hl hrecent env
  | @put i res hpc =>
    rw [hpc] at hl
    refine ⟨hp, ?_⟩
    dsimp only
    split_ifs
    · exact hl.leave (.inr rfl)
    · refine ⟨?_, by simp, fun j hj => ?_, hl.acked, hl.below⟩
      · exact .inr (.inr fun j hj => .inl
          ((hl.settled_or_saving (by simp) (by simp) hj).resolve_right (by simp)))
      · rcases hj with ⟨r, hr⟩ | hr
        · cases hr
        · cases hr
          exact hl.saved i (.inl ⟨res, rfl⟩)
  | commit hpc =>
    rw [hpc] at hl
    obtain ⟨hpos, hcommitted⟩ := hl.settled_of_commit
    exact ⟨hp, .inr (.inr fun j hj => .inl (hpos j hj)), by simp, by simp, hcommitted, hl.below⟩
  | @commitErr applied canceled i hpc =>
    rw [hpc] at hl
    refine ⟨hp, ?_⟩
    have hack : ∀ j < (if applied then i + 1 else s.committed), cfg.Settled s.db s.now j := by
      cases applied with
      | false => exact hl.acked
      | true => exact hl.settled_of_commit.2
    have hl' : LoopInv cfg s.db (.commit i) s.pos _ s.now :=
      ⟨hl.fetched, hl.working, hl.saved, hack, hl.below⟩
    cases canceled with
    | false => exact hl'
    | true => exact hl'.leave (.inl rfl)
  | stop => exact ⟨hp, hl.leave (.inl rfl)⟩
  | crash => exact ⟨hp, hl.restart⟩
  | reset => exact ⟨hp, hl.rewind⟩
  | tick now =>
    have hle : s.now ≤ now := ht
    exact ⟨hp.of_history hp.seqs rfl hle (fun r hr => hr) fun r hr => .inl hr,
      hl.of_history rfl hle⟩
  | deleteOutdated env hclean =>
    have hdays : cfg.delEventsTtlDays = cfg.eventsTtlDays := by
      rw [StorageConfig.delEventsTtlDays, if_pos hclean]
    have hrange := httl hclean
    have h0 : 0 ≤ cfg.delEventsTtlDays := by omega
    have h1 : cfg.delEventsTtlDays ≤ 100 := by omega
    have hhist := deleteOutdatedEvents_history cfg.platform env s.now cfg.delEventsTtlDays s.db
    obtain ⟨hlive, hkept⟩ := deleteOutdatedEvents_events cfg.platform env s.now h0 h1 s.db
    refine ⟨hp.of_history (deleteOutdatedEvents_seqInv _ _ _ _ hp.seqs) hhist (le_refl _) hlive
      fun r hr => ?_, hl.of_history hhist (le_refl _)⟩
    exact (hkept r hr).imp_right fun hold => ⟨hclean, hold⟩
  | setRead env uid seq =>
    obtain ⟨hhist, hev⟩ := setRead_history env uid seq s.db
    refine ⟨hp.of_history (setRead_seqInv env uid seq hp.seqs) hhist (le_refl _) (fun r hr => ?_)
      fun r hr => ?_, hl.of_history hhist (le_refl _)⟩
    · rwa [hev] at hr
    · rw [← hev] at hr
      exact .inl hr
  | check _ => exact ⟨hp, hl⟩

theorem inv_of_timely (httl : cfg.ValidTtl) {s : Storage}
    (h : (storageSystem cfg).ReachableVia Storage.Timely s) :
    PartitionInv cfg s.db s.now ∧ LoopInv cfg s.db s.pc s.pos s.committed s.now := by
  refine System.ReachableVia.invariant (I := fun s => PartitionInv cfg s.db s.now ∧
    LoopInv cfg s.db s.pc s.pos s.committed s.now) ?_ ?_ h
  · rintro s ⟨now, rfl⟩
    refine ⟨partitionInv_empty cfg now, ?_⟩
    exact ⟨.inr (.inr (by simp [newStorage])), by simp [newStorage], by simp [newStorage],
      by simp [newStorage], by simp [newStorage, StorageConfig.Inserted, Database.empty]⟩
  · intro s l s' hinv ht hstep
    exact step_inv httl (Storage.step_spec hstep) ht hinv.1 hinv.2

theorem PartitionInv.deliveryCount_eq (hp : PartitionInv cfg db now) {msg : KafkaMessage}
    (hmsg : msg ∈ cfg.partition.messages) {toUids : List ℤ}
    (hun : cfg.unmarshal msg.value = some toUids) (uid : ℤ) :
    deliveryCount db uid msg.offset =
      if msg.offset ∈ db.history.events.map EventRow.topicOffset then toUids.count uid else 0 := by
  split_ifs with hmem
  · obtain ⟨r, hr, ho⟩ := List.mem_map.mp hmem
    obtain ⟨i, m, hi, ho', -, hpay⟩ := hp.rows r hr
    obtain ⟨j, hj⟩ := List.mem_iff_getElem?.mp hmsg
    have hij : i = j := cfg.offset_inj hi hj (by omega)
    subst hij
    obtain rfl : m = msg := Option.some.inj (hi.symm.trans hj)
    rw [← ho]
    exact hp.counts r hr toUids (by rw [hpay]; exact hun) uid
  · rw [deliveryCount, List.countP_eq_zero]
    intro r hr
    obtain ⟨e, he, ho⟩ := hp.userRows r hr
    simp only [decide_eq_true_eq, not_and]
    intro _ hoff
    exact hmem (List.mem_map.mpr ⟨e, he, ho.trans hoff⟩)

theorem PartitionInv.seq_order (hp : PartitionInv cfg db now) {r r' : UserEventRow}
    (hr : r ∈ db.history.userEvents) (hr' : r' ∈ db.history.userEvents) (huid : r.uid = r'.uid)
    (hlt : r.topicOffset < r'.topicOffset) : r.seq < r'.seq := by
  obtain ⟨i, hi, rfl⟩ := List.mem_iff_getElem.mp hr
  obtain ⟨j, hj, rfl⟩ := List.mem_iff_getElem.mp hr'
  have hoffsets := List.pairwise_iff_getElem.mp hp.userOrdered
  have hseqs := List.pairwise_iff_getElem.mp hp.seqs.seq_increasing
  rcases Nat.lt_trichotomy i j with h | h | h
  · exact hseqs i j hi hj h huid
  · subst h
    exact absurd hlt (lt_irrefl _)
  · have := hoffsets j i hj hi h
    omega

/-- In every run with a clock that does not go back and saves that start within a day: every offset
is inserted at most once, with one row for each occurrence of a recipient; a message is committed
only after its event was; and the sequences of a user follow the offsets. -/
theorem consumed_exactly_once (cfg : StorageConfig)
    (httl : 7 ≤ cfg.eventsTtlDays ∧ cfg.eventsTtlDays ≤ 100) {s : Storage}
    (h : (storageSystem cfg).ReachableVia Storage.Timely s) :
    (s.db.history.events.map EventRow.topicOffset).Nodup ∧
    (∀ msg ∈ cfg.partition.messages, ∀ toUids, cfg.unmarshal msg.value = some toUids → ∀ uid,
      deliveryCount s.db uid msg.offset =
        if msg.offset ∈ s.db.history.events.map EventRow.topicOffset then toUids.count uid else 0) ∧
    (∀ s', (storageSystem cfg).step s .commit = some s' →
      ∃ i msg, s.pc = .commit i ∧ s'.committed = i + 1 ∧ cfg.partition.messages[i]? = some msg ∧
        ∃ r ∈ s.db.history.events, r.topicOffset = msg.offset ∧ r.createTime.ms = msg.time ∧
          r.payload = msg.value) ∧
    ∀ r ∈ s.db.history.userEvents, ∀ r' ∈ s.db.history.userEvents, r.uid = r'.uid →
      r.topicOffset < r'.topicOffset → r.seq < r'.seq := by
  obtain ⟨hp, hl⟩ := inv_of_timely (fun _ => httl) h
  refine ⟨?_, fun msg hmsg toUids hun uid => hp.deliveryCount_eq hmsg hun uid, fun s' hs' => ?_,
    fun r hr r' hr' huid hlt => hp.seq_order hr hr' huid hlt⟩
  · exact List.Pairwise.map _ (fun _ _ hlt => ne_of_lt hlt) hp.ordered
  · obtain ⟨i, hpc, hcommitted⟩ := commit_spec hs'
    obtain ⟨msg, hmsg, r, hr, ho⟩ := (hl.saved i (.inr hpc)).1
    obtain ⟨j, m, hj, ho', hms, hpay⟩ := hp.rows r hr
    have hij : j = i := cfg.offset_inj hj hmsg (by omega)
    subst hij
    obtain rfl : m = msg := Option.some.inj (hj.symm.trans hmsg)
    exact ⟨j, m, hpc, hcommitted, hmsg, r, hr, ho, hms, hpay⟩

/-- The first message is stored with a lost acknowledgement, saved again and lost in a crash before
it is committed; it is redelivered, and the second one follows. -/
def sampleRun : List StorageLabel :=
  [.fetch, .save ⟨none, [], .unacknowledged .other⟩, .save .calm, .commitErr false false, .crash,
    .tick 5, .fetch, .save .calm, .commit, .deleteOutdated .calm, .fetch, .save .calm, .put]

theorem consumed_exactly_once_sampleRun :
    ∃ s, (storageSystem sampleConfig).runVia (fun s l => decide (s.Timely l)) (newStorage 0)
        sampleRun = some s ∧
      s.db.history.events.map EventRow.topicOffset = [10, 12] ∧ deliveryCount s.db 1 10 = 2 ∧
      (s.db.history.events.map EventRow.topicOffset).Nodup := by
  have hrun : ((storageSystem sampleConfig).runVia (fun s l => decide (s.Timely l)) (newStorage 0)
      sampleRun).map (fun s => (s.db.history.events.map EventRow.topicOffset,
        deliveryCount s.db 1 10)) = some ([10, 12], 2) := by
    decide +kernel
  obtain ⟨s, hs, hview⟩ := Option.map_eq_some_iff.mp hrun
  have hreach : (storageSystem sampleConfig).ReachableVia Storage.Timely s :=
    System.ReachableVia.runVia (fun _ _ h => of_decide_eq_true h) (.init ⟨0, rfl⟩) sampleRun hs
  rw [Prod.mk.injEq] at hview
  exact ⟨s, hs, hview.1, hview.2, (consumed_exactly_once sampleConfig (by decide) hreach).1⟩

end MiniPush.Cluster
