import MiniPush.Store.Event

/-! The messages of a Kafka partition and which of them the storage takes. -/
namespace MiniPush.Cluster
open Store

/-- A message of the partition, with its broker time in milliseconds. -/
structure KafkaMessage where
  offset : ℤ
  time : ℤ
  value : Bytes

structure Partition where
  messages : List KafkaMessage
  offsets_grow : messages.Pairwise fun m m' => m.offset < m'.offset

/-- The configuration of `newStorage`. `unmarshal` is `json.Unmarshal` into an `E2EMsg`, of which
only `To` is used. -/
structure StorageConfig where
  partition : Partition
  cleanEvents : Bool
  eventsTtlDays : ℤ
  valueMaxBytes : ℤ
  unmarshal : Bytes → Option (List ℤ)
  platform : Platform

namespace StorageConfig
variable (cfg : StorageConfig)

def delEventsTtlDays : ℤ :=
  if cfg.cleanEvents then cfg.eventsTtlDays else 2 ^ 31 - 1

/-- The range that `validateFlags` asks for where events are cleaned up. -/
def ValidTtl : Prop := cfg.cleanEvents = true → 7 ≤ cfg.eventsTtlDays ∧ cfg.eventsTtlDays ≤ 100

/-- The test of `shouldDiscard`, for a message of any instant. -/
def tooOld (now time : ℤ) : Bool :=
  cfg.delEventsTtlDays > 0 ∧ Time.sub now time > int64 (int64 (cfg.delEventsTtlDays * 24) * Time.hour)

def shouldDiscard (now : ℤ) (msg : KafkaMessage) : Bool :=
  cfg.tooOld now (msg.time * Time.millisecond)

/-- Messages are discarded for their age only where the clean-up is enabled, and there exactly after
the configured days. -/
structure DiscardsByAge (now time : ℤ) : Prop where
  disabled : cfg.cleanEvents = false → cfg.tooOld now time = false
  enabled : cfg.cleanEvents = true → 7 ≤ cfg.eventsTtlDays → cfg.eventsTtlDays ≤ 100 →
    (cfg.tooOld now time = true ↔ now - time > cfg.eventsTtlDays * 24 * Time.hour)

/-- Up to 106751 days the limit is the nanoseconds of the days. -/
theorem tooOld_iff (h0 : 0 < cfg.delEventsTtlDays) (h1 : cfg.delEventsTtlDays ≤ 106751)
    (now time : ℤ) :
    cfg.tooOld now time = true ↔ now - time > cfg.delEventsTtlDays * 24 * Time.hour := by
  have hhour : Time.hour = 3600000000000 := rfl
  have hle := Time.sub_le_iff (t := now) (u := time) (d := cfg.delEventsTtlDays * 24 * Time.hour)
    (by rw [hhour]; omega) (by rw [hhour]; omega)
  rw [tooOld, int64_of_range (x := cfg.delEventsTtlDays * 24) (by omega) (by omega),
    int64_of_range (by rw [hhour]; omega) (by rw [hhour]; omega), decide_eq_true_eq]
  omega

/-- With the clean-up disabled the limit is what `math.MaxInt32` days leave modulo `2 ^ 64`: about 166
years. -/
theorem tooOld_disabled_iff (h : cfg.cleanEvents = false) (now time : ℤ) :
    cfg.tooOld now time = true ↔ now - time > 5235207429329846272 := by
  have hdays : cfg.delEventsTtlDays = 2 ^ 31 - 1 := by simp [delEventsTtlDays, h]
  have hlimit : int64 (int64 ((2 ^ 31 - 1) * 24) * Time.hour) = 5235207429329846272 := by decide
  have hle := Time.sub_le_iff (t := now) (u := time) (d := 5235207429329846272) (by omega) (by omega)
  rw [tooOld, hdays, hlimit, decide_eq_true_eq]
  omega

/-- Discarding follows the configuration exactly for the messages that are not older than the limit
that `math.MaxInt32` days wrap to, or where the clean-up is enabled. -/
theorem discards_by_age_iff (now time : ℤ) :
    cfg.DiscardsByAge now time ↔ cfg.cleanEvents = true ∨ now - time ≤ 5235207429329846272 := by
  cases hclean : cfg.cleanEvents with
  | false =>
    have hold := cfg.tooOld_disabled_iff hclean now time
    constructor
    · intro h
      have hyoung := h.disabled hclean
      rw [hyoung] at hold
      exact .inr (by simpa using hold)
    · rintro (h | h)
      · cases h
      · refine ⟨fun _ => ?_, fun htrue => ?_⟩
        · rw [← Bool.not_eq_true, hold]
          omega
        · rw [hclean] at htrue
          cases htrue
  | true =>
    have hdays : cfg.delEventsTtlDays = cfg.eventsTtlDays := by simp [delEventsTtlDays, hclean]
    refine iff_of_true ⟨fun hfalse => ?_, fun _ h7 h100 => ?_⟩ (.inl rfl)
    · rw [hclean] at hfalse
      cases hfalse
    · have hold := cfg.tooOld_iff (by omega) (by omega) now time
      rwa [hdays] at hold

/-- The recipients of a message, or `none` if it is skipped. -/
def decodeKafkaMsg (now : ℤ) (msg : KafkaMessage) : Option (List ℤ) :=
  if msg.value.length > cfg.valueMaxBytes then none
  else match cfg.unmarshal msg.value with
    | none => none
    | some toUids => if cfg.shouldDiscard now msg then none else some toUids

theorem decodeKafkaMsg_eq_some_iff {now : ℤ} {msg : KafkaMessage} {toUids : List ℤ} :
    cfg.decodeKafkaMsg now msg = some toUids ↔ msg.value.length ≤ cfg.valueMaxBytes ∧
      cfg.unmarshal msg.value = some toUids ∧ cfg.shouldDiscard now msg = false := by
  unfold decodeKafkaMsg
  by_cases hsize : msg.value.length > cfg.valueMaxBytes
  · rw [if_pos hsize]
    simp only [reduceCtorEq, false_iff]
    exact fun h => absurd h.1 (by omega)
  · rw [if_neg hsize]
    have hsize' : msg.value.length ≤ cfg.valueMaxBytes := by omega
    cases cfg.unmarshal msg.value with
    | none => simp
    | some uids => cases cfg.shouldDiscard now msg <;> simp [hsize']

theorem decodeKafkaMsg_none_mono {now now' : ℤ} (hle : now ≤ now') {msg : KafkaMessage}
    (h : cfg.decodeKafkaMsg now msg = none) : cfg.decodeKafkaMsg now' msg = none := by
  cases h' : cfg.decodeKafkaMsg now' msg with
  | none => rfl
  | some toUids =>
    obtain ⟨hsize, hun, hyoung⟩ := cfg.decodeKafkaMsg_eq_some_iff.mp h'
    have hsub : Time.sub now (msg.time * Time.millisecond) ≤
        Time.sub now' (msg.time * Time.millisecond) := by
      unfold Time.sub
      omega
    have hyounger : cfg.shouldDiscard now msg = false := by
      simp only [shouldDiscard, tooOld, decide_eq_false_iff_not, not_and, not_lt] at hyoung ⊢
      exact fun hpos => hsub.trans (hyoung hpos)
    rw [cfg.decodeKafkaMsg_eq_some_iff.mpr ⟨hsize, hun, hyounger⟩] at h
    cases h

theorem age_of_decodeKafkaMsg (h0 : 0 < cfg.delEventsTtlDays) (h1 : cfg.delEventsTtlDays ≤ 100)
    {now : ℤ} {msg : KafkaMessage} {toUids : List ℤ}
    (h : cfg.decodeKafkaMsg now msg = some toUids) :
    now - msg.time * Time.millisecond ≤ cfg.delEventsTtlDays * 24 * Time.hour := by
  have hyoung := (cfg.decodeKafkaMsg_eq_some_iff.mp h).2.2
  have hold := cfg.tooOld_iff h0 (by omega) now (msg.time * Time.millisecond)
  rw [← shouldDiscard, hyoung] at hold
  simpa using hold

theorem offset_inj {i j : ℕ} {m m' : KafkaMessage} (hi : cfg.partition.messages[i]? = some m)
    (hj : cfg.partition.messages[j]? = some m') (ho : m.offset = m'.offset) : i = j := by
  obtain ⟨hi', rfl⟩ := List.getElem?_eq_some_iff.mp hi
  obtain ⟨hj', rfl⟩ := List.getElem?_eq_some_iff.mp hj
  have hgrow := List.pairwise_iff_getElem.mp cfg.partition.offsets_grow
  rcases Nat.lt_trichotomy i j with hlt | heq | hgt
  · have := hgrow i j hi' hj' hlt
    omega
  · exact heq
  · have := hgrow j i hj' hi' hgt
    omega

theorem offset_lt {i j : ℕ} {m m' : KafkaMessage} (hi : cfg.partition.messages[i]? = some m)
    (hj : cfg.partition.messages[j]? = some m') (hlt : i < j) : m.offset < m'.offset := by
  obtain ⟨hi', rfl⟩ := List.getElem?_eq_some_iff.mp hi
  obtain ⟨hj', rfl⟩ := List.getElem?_eq_some_iff.mp hj
  exact List.pairwise_iff_getElem.mp cfg.partition.offsets_grow i j hi' hj' hlt

end StorageConfig

def keepAllConfig : StorageConfig where
  partition := ⟨[], .nil⟩
  cleanEvents := false
  eventsTtlDays := 30
  valueMaxBytes := 4096
  unmarshal _ := none
  platform := ⟨.fixed 0, .yyyymmddhhmmss⟩

/-- A message without a time stamp, which has the zero `time.Time`, is discarded in 2023. -/
theorem zeroTime_discarded :
    keepAllConfig.shouldDiscard (1700000000 * Time.second) ⟨0, -62135596800000, []⟩ = true ∧
      ¬keepAllConfig.DiscardsByAge (1700000000 * Time.second) (-62135596800000 * Time.millisecond) := by
  have hold : keepAllConfig.shouldDiscard (1700000000 * Time.second) ⟨0, -62135596800000, []⟩ = true := by
    decide
  refine ⟨hold, fun h => ?_⟩
  have hyoung := h.disabled rfl
  rw [StorageConfig.shouldDiscard, hyoung] at hold
  cases hold

def KafkaMessage.toEvent (msg : KafkaMessage) (toUids : List ℤ) : Event :=
  ⟨msg.offset, msg.time * Time.millisecond, toUids, msg.value⟩

end MiniPush.Cluster
