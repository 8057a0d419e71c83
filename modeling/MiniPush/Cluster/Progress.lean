import MiniPush.Cluster.Storage
import MiniPush.Store.History

/-! The progress of `consumeLoop` along its partition: what the store holds of the messages up to the
reader's and the group's positions. -/
namespace MiniPush.Cluster
open Foundation Store

namespace StorageConfig
variable (cfg : StorageConfig)

def Inserted (db : Database) (i : ℕ) : Prop :=
  ∃ msg, cfg.partition.messages[i]? = some msg ∧ ∃ r ∈ db.history.events, r.topicOffset = msg.offset

/-- The message at index `i` will not be inserted any more. -/
def Settled (db : Database) (now : ℤ) (i : ℕ) : Prop :=
  cfg.Inserted db i ∨
    ∀ msg, cfg.partition.messages[i]? = some msg → cfg.decodeKafkaMsg now msg = none

end StorageConfig

def deliveryCount (db : Database) (uid offset : ℤ) : ℕ :=
  db.history.userEvents.countP fun r => r.uid = uid ∧ r.topicOffset = offset

variable {cfg : StorageConfig}

theorem inserted_mono {db db' : Database} (hsub : ∀ r ∈ db.history.events, r ∈ db'.history.events)
    {i : ℕ} (h : cfg.Inserted db i) : cfg.Inserted db' i := by
  obtain ⟨msg, hmsg, r, hr, ho⟩ := h
  exact ⟨msg, hmsg, r, hsub r hr, ho⟩

theorem settled_mono {db db' : Database} {now now' : ℤ}
    (hsub : ∀ r ∈ db.history.events, r ∈ db'.history.events) (hle : now ≤ now') {i : ℕ}
    (h : cfg.Settled db now i) : cfg.Settled db' now' i := by
  rcases h with h | h
  · exact .inl (inserted_mono hsub h)
  · exact .inr fun msg hmsg => cfg.decodeKafkaMsg_none_mono hle (h msg hmsg)

/-- The store against the partition it is filled from. -/
structure PartitionInv (cfg : StorageConfig) (db : Database) (now : ℤ) : Prop where
  seqs : SeqInv db
  rows : ∀ r ∈ db.history.events, ∃ (i : ℕ) (msg : KafkaMessage),
    cfg.partition.messages[i]? = some msg ∧ r.topicOffset = msg.offset ∧
      r.createTime.ms = msg.time ∧ r.payload = msg.value
  live : ∀ r ∈ db.events.rows, r ∈ db.history.events
  kept : ∀ r ∈ db.history.events, r ∈ db.events.rows ∨ cfg.cleanEvents = true ∧
    r.createTime.toTime ≤ now - (cfg.delEventsTtlDays + 1) * 24 * Time.hour
  ordered : db.history.events.Pairwise fun r r' => r.topicOffset < r'.topicOffset
  userOrdered : db.history.userEvents.Pairwise fun r r' => r.topicOffset ≤ r'.topicOffset
  userRows : ∀ r ∈ db.history.userEvents, ∃ e ∈ db.history.events, e.topicOffset = r.topicOffset
  counts : ∀ r ∈ db.history.events, ∀ toUids, cfg.unmarshal r.payload = some toUids →
    ∀ uid, deliveryCount db uid r.topicOffset = toUids.count uid

theorem partitionInv_empty (cfg : StorageConfig) (now : ℤ) : PartitionInv cfg .empty now where
  seqs := seqInv_empty
  rows := by simp [Database.empty]
  live := by simp [Database.empty]
  kept := by simp [Database.empty]
  ordered := List.Pairwise.nil
  userOrdered := List.Pairwise.nil
  userRows := by simp [Database.empty]
  counts := by simp [Database.empty]

/-- Operations that insert nothing keep the relation to the partition. -/
theorem PartitionInv.of_history {db db' : Database} {now now' : ℤ} (h : PartitionInv cfg db now)
    (hseq : SeqInv db') (hhist : db'.history = db.history) (hle : now ≤ now')
    (hlive : ∀ r ∈ db'.events.rows, r ∈ db.events.rows)
    (hkept : ∀ r ∈ db.events.rows, r ∈ db'.events.rows ∨ cfg.cleanEvents = true ∧
      r.createTime.toTime ≤ now' - (cfg.delEventsTtlDays + 1) * 24 * Time.hour) :
    PartitionInv cfg db' now' where
  seqs := hseq
  rows := by
    rw [hhist]
    exact h.rows
  live r hr := by
    rw [hhist]
    exact h.live r (hlive r hr)
  kept r hr := by
    rw [hhist] at hr
    rcases h.kept r hr with hr | ⟨hclean, hold⟩
    · exact hkept r hr
    · exact .inr ⟨hclean, by omega⟩
  ordered := by
    rw [hhist]
    exact h.ordered
  userOrdered := by
    rw [hhist]
    exact h.userOrdered
  userRows := by
    rw [hhist]
    exact h.userRows
  counts := by
    unfold deliveryCount
    rw [hhist]
    exact h.counts

/-- Storing the message of the greatest offset so far keeps the relation to the partition. -/
theorem PartitionInv.added {db db' : Database} {now : ℤ} {i : ℕ} {msg : KafkaMessage}
    {toUids : List ℤ} {t : DateTime} {rows : List UserEventRow} (h : PartitionInv cfg db now)
    (hmsg : cfg.partition.messages[i]? = some msg) (hun : cfg.unmarshal msg.value = some toUids)
    (hnew : ∀ r ∈ db.history.events, r.topicOffset < msg.offset)
    (hadd : Added (msg.toEvent toUids) db db' t rows) (hseq : SeqInv db') :
    PartitionInv cfg db' now := by
  have hms : t.ms = msg.time := DateTime.ofTime?_whole hadd.time
  have huser : ∀ r ∈ db.history.userEvents, r.topicOffset < msg.offset := by
    intro r hr
    obtain ⟨e, he, ho⟩ := h.userRows r hr
    have := hnew e he
    omega
  refine ⟨hseq, ?_, ?_, ?_, ?_, ?_, ?_, ?_⟩ <;> rw [hadd.history]
  · intro r hr
    rcases List.mem_append.mp hr with hr | hr
    · exact h.rows r hr
    · rw [List.mem_singleton.mp hr]
      exact ⟨i, msg, hmsg, rfl, hms, rfl⟩
  · intro r hr
    rw [hadd.events] at hr
    rcases List.mem_append.mp hr with hr | hr
    · exact List.mem_append_left _ (h.live r hr)
    · exact List.mem_append_right _ hr
  · intro r hr
    rw [hadd.events]
    rcases List.mem_append.mp hr with hr | hr
    · rcases h.kept r hr with hr | hold
      · exact .inl (List.mem_append_left _ hr)
      · exact .inr hold
    · exact .inl (List.mem_append_right _ hr)
  · refine List.pairwise_append.mpr ⟨h.ordered, List.pairwise_singleton _ _, fun r hr r' hr' => ?_⟩
    rw [List.mem_singleton.mp hr']
    exact hnew r hr
  · refine List.pairwise_append.mpr ⟨h.userOrdered, ?_, fun r hr r' hr' => ?_⟩
    · refine List.pairwise_of_forall_mem_list fun r hr r' hr' => ?_
      rw [hadd.offsets r hr, hadd.offsets r' hr']
    · rw [hadd.offsets r' hr']
      exact (huser r hr).le
  · intro r hr
    rcases List.mem_append.mp hr with hr | hr
    · obtain ⟨e, he, ho⟩ := h.userRows r hr
      exact ⟨e, List.mem_append_left _ he, ho⟩
    · exact ⟨_, List.mem_append_right _ (List.mem_singleton_self _), (hadd.offsets r hr).symm⟩
  · intro r hr uids huids uid
    unfold deliveryCount
    rw [hadd.history, List.countP_append]
    rcases List.mem_append.mp hr with hr | hr
    · have hnone : rows.countP (fun x => x.uid = uid ∧ x.topicOffset = r.topicOffset) = 0 := by
        rw [List.countP_eq_zero]
        intro x hx
        have hlt := hnew r hr
        have hx' : x.topicOffset = msg.offset := hadd.offsets x hx
        simp only [decide_eq_true_eq, not_and]
        intro _
        omega
      rw [hnone, Nat.add_zero]
      exact h.counts r hr uids huids uid
    · rw [List.mem_singleton.mp hr] at huids ⊢
      have hsame : toUids = uids := Option.some.inj (hun.symm.trans huids)
      have hnone : db.history.userEvents.countP
          (fun x => x.uid = uid ∧ x.topicOffset = (msg.toEvent toUids).offset) = 0 := by
        rw [List.countP_eq_zero]
        intro x hx
        have hlt := huser x hx
        simp only [decide_eq_true_eq, not_and]
        intro _ ho
        exact absurd ho (ne_of_lt hlt)
      have hall : rows.countP
          (fun x => x.uid = uid ∧ x.topicOffset = (msg.toEvent toUids).offset) =
            toUids.count uid := by
        have hrecipients : rows.map UserEventRow.uid = toUids := hadd.recipients
        conv_rhs => rw [← hrecipients, List.count, List.countP_map]
        refine List.countP_congr fun x hx => ?_
        simp [hadd.offsets x hx]
      rw [hnone, Nat.zero_add, hall, hsame]

/-- The message that `consumeLoop` tries to save: every earlier one is settled, and no later one was
inserted before it. -/
structure Working (cfg : StorageConfig) (db : Database) (now : ℤ) (i : ℕ) (e : Event)
    (decodedAt : ℤ) : Prop where
  decoded : ∃ msg toUids, cfg.partition.messages[i]? = some msg ∧ e = msg.toEvent toUids ∧
    cfg.decodeKafkaMsg decodedAt msg = some toUids
  decoded_le : decodedAt ≤ now
  settled : ∀ j < i, cfg.Settled db now j
  newest : cfg.Inserted db i ∨ ∀ k, cfg.Inserted db k → k < i

structure LoopInv (cfg : StorageConfig) (db : Database) (pc : ConsumePc) (pos committed : ℕ)
    (now : ℤ) : Prop where
  fetched : pc = .returned ∨ pc = .panicked ∨
    ∀ i < pos, cfg.Settled db now i ∨ ∃ e d, pc = .save i e d
  working : ∀ i e d, pc = .save i e d → Working cfg db now i e d
  saved : ∀ i, (∃ res, pc = .put i res) ∨ pc = .commit i →
    cfg.Inserted db i ∧ ∀ j < i, cfg.Settled db now j
  acked : ∀ j < committed, cfg.Settled db now j
  below : ∀ k, cfg.Inserted db k → ∀ j < k, cfg.Settled db now j

section Loop
variable {db db' : Database} {pc pc' : ConsumePc} {pos committed : ℕ} {now now' : ℤ}

theorem LoopInv.of_history (h : LoopInv cfg db pc pos committed now)
    (hhist : db'.history = db.history) (hle : now ≤ now') :
    LoopInv cfg db' pc pos committed now' := by
  have hback : ∀ k, cfg.Inserted db' k → cfg.Inserted db k :=
    fun k => inserted_mono (by rw [hhist]; exact fun r hr => hr)
  have hins : ∀ k, cfg.Inserted db k → cfg.Inserted db' k :=
    fun k => inserted_mono (by rw [hhist]; exact fun r hr => hr)
  have hset : ∀ j, cfg.Settled db now j → cfg.Settled db' now' j :=
    fun j => settled_mono (by rw [hhist]; exact fun r hr => hr) hle
  refine ⟨?_, fun i e d hpc => ?_, fun i hpc => ?_, fun j hj => hset j (h.acked j hj),
    fun k hk j hj => hset j (h.below k (hback k hk) j hj)⟩
  · rcases h.fetched with hr | hp | hf
    · exact .inl hr
    · exact .inr (.inl hp)
    · exact .inr (.inr fun i hi => (hf i hi).imp_left (hset i))
  · have hw := h.working i e d hpc
    refine ⟨hw.decoded, hw.decoded_le.trans hle, fun j hj => hset j (hw.settled j hj), ?_⟩
    exact hw.newest.imp (hins i) fun hall k hk => hall k (hback k hk)
  · obtain ⟨hi, hj⟩ := h.saved i hpc
    exact ⟨hins i hi, fun j hlt => hset j (hj j hlt)⟩

theorem LoopInv.leave (h : LoopInv cfg db pc pos committed now)
    (hpc : pc' = .returned ∨ pc' = .panicked) : LoopInv cfg db pc' pos committed now := by
  refine ⟨?_, fun i e d he => ?_, fun i he => ?_, h.acked, h.below⟩
  · rcases hpc with hpc | hpc
    · exact .inl hpc
    · exact .inr (.inl hpc)
  · rcases hpc with rfl | rfl <;> cases he
  · rcases hpc with rfl | rfl <;> simp at he

theorem LoopInv.rewind (h : LoopInv cfg db pc pos committed now) :
    LoopInv cfg db pc committed committed now :=
  ⟨.inr (.inr fun i hi => .inl (h.acked i hi)), h.working, h.saved, h.acked, h.below⟩

theorem LoopInv.restart (h : LoopInv cfg db pc pos committed now) :
    LoopInv cfg db .fetch committed committed now :=
  ⟨.inr (.inr fun i hi => .inl (h.acked i hi)), by simp, by simp, h.acked, h.below⟩

/-- While the loop runs, every fetched message is settled or being saved. -/
theorem LoopInv.settled_or_saving (h : LoopInv cfg db pc pos committed now)
    (hret : pc ≠ .returned) (hpan : pc ≠ .panicked) {i : ℕ} (hi : i < pos) :
    cfg.Settled db now i ∨ ∃ e d, pc = .save i e d := by
  rcases h.fetched with hr | hp | hf
  · exact absurd hr hret
  · exact absurd hp hpan
  · exact hf i hi

theorem LoopInv.settled_of_fetch (h : LoopInv cfg db .fetch pos committed now) :
    ∀ i < pos, cfg.Settled db now i := by
  intro i hi
  exact (h.settled_or_saving (by simp) (by simp) hi).resolve_right (by simp)

theorem LoopInv.settled_of_commit {i : ℕ} (h : LoopInv cfg db (.commit i) pos committed now) :
    (∀ j < pos, cfg.Settled db now j) ∧ ∀ j < i + 1, cfg.Settled db now j := by
  obtain ⟨hins, hprev⟩ := h.saved i (.inr rfl)
  constructor
  · intro j hj
    exact (h.settled_or_saving (by simp) (by simp) hj).resolve_right (by simp)
  · intro j hj
    rcases Nat.lt_succ_iff_lt_or_eq.mp hj with hlt | rfl
    · exact hprev j hlt
    · exact .inl hins

theorem LoopInv.fetchSkip (h : LoopInv cfg db .fetch pos committed now) {msg : KafkaMessage}
    (hmsg : cfg.partition.messages[pos]? = some msg) (hskip : cfg.decodeKafkaMsg now msg = none) :
    LoopInv cfg db .fetch (pos + 1) committed now := by
  refine ⟨.inr (.inr fun i hi => .inl ?_), by simp, by simp, h.acked, h.below⟩
  rcases Nat.lt_succ_iff_lt_or_eq.mp hi with hlt | rfl
  · exact h.settled_of_fetch i hlt
  · refine .inr fun m hm => ?_
    obtain rfl : msg = m := Option.some.inj (hmsg.symm.trans hm)
    exact hskip

theorem LoopInv.fetchEvent (h : LoopInv cfg db .fetch pos committed now) {msg : KafkaMessage}
    {toUids : List ℤ} (hmsg : cfg.partition.messages[pos]? = some msg)
    (hdecode : cfg.decodeKafkaMsg now msg = some toUids) :
    LoopInv cfg db (.save pos (msg.toEvent toUids) now) (pos + 1) committed now := by
  have hprev := h.settled_of_fetch
  refine ⟨.inr (.inr fun i hi => ?_), fun i e d he => ?_, by simp, h.acked, h.below⟩
  · rcases Nat.lt_succ_iff_lt_or_eq.mp hi with hlt | rfl
    · exact .inl (hprev i hlt)
    · exact .inr ⟨_, _, rfl⟩
  · cases he
    refine ⟨⟨msg, toUids, hmsg, rfl, hdecode⟩, le_refl _, hprev, ?_⟩
    by_cases hins : cfg.Inserted db pos
    · exact .inl hins
    · refine .inr fun k hk => ?_
      by_contra hge
      have hne : k ≠ pos := fun he => hins (he ▸ hk)
      rcases h.below k hk pos (by omega) with hp | hp
      · exact hins hp
      · have := hp msg hmsg
        rw [hdecode] at this
        cases this

end Loop

end MiniPush.Cluster
