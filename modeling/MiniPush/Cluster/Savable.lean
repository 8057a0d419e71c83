import MiniPush.Cluster.Storage
import MiniPush.Store.Filling

/-! Which of the messages that `decodeKafkaMsg` accepts the event store can take: acceptance looks at
the size, the shape and the age of a message, the columns of the store at its values. -/
namespace MiniPush.Cluster
open Foundation Store

/-- Where nothing fails, an accepted message with a new offset is saved exactly if its user ids are
not negative, its bytes are well-formed UTF-8, its time is one of the years 1 to 9999, and the
sequences that it takes stay within `int32`. -/
theorem saved_iff_storable (cfg : StorageConfig) (hlimit : cfg.valueMaxBytes = 4096) {now : ℤ}
    {msg : KafkaMessage} {toUids : List ℤ} (hdecode : cfg.decodeKafkaMsg now msg = some toUids)
    (hoffset : 0 ≤ msg.offset ∧ msg.offset < 2 ^ 63) {db : Database}
    (hreach : (storeSystem cfg.platform).Reachable db)
    (hfresh : db.events.find? msg.offset = none) :
    (∃ m, (save .calm (msg.toEvent toUids) db).1 = .ok m) ↔
      (∀ uid ∈ toUids, fitsInt uid = true) ∧ (utf8mb4Length? msg.value).isSome ∧
        (-62135596800000 ≤ msg.time ∧ msg.time ≤ 253402300799999) ∧
        ∀ uid ∈ toUids, db.headSeq uid + toUids.count uid < 2 ^ 31 := by
  have hsize : msg.value.length ≤ 4096 := by
    have := (cfg.decodeKafkaMsg_eq_some_iff.mp hdecode).1
    omega
  have hbig : fitsBigint msg.offset = true := decide_eq_true (by omega)
  constructor
  · rintro ⟨m, hok⟩
    have hstored := stored_of_ok (e := msg.toEvent toUids) hfresh hok
    have hserve := servable_of_stored cfg.platform hreach rfl hstored
    obtain ⟨t, -, ht, -⟩ := hstored.gained.rows
    refine ⟨fun uid huid => (hserve uid huid).1, ?_, ?_, fun uid huid => (hserve uid huid).2⟩
    · exact (fitsPayload_iff hsize).mp (Bool.and_eq_true_iff.mp hstored.fits).2
    · exact (DateTime.isSome_ofTime?_iff msg.time).mp (Option.isSome_of_eq_some ht)
  · rintro ⟨huids, hutf8, htime, hroom⟩
    obtain ⟨t, ht⟩ := Option.isSome_iff_exists.mp ((DateTime.isSome_ofTime?_iff msg.time).mpr htime)
    have hfit : (fitsBigint msg.offset && fitsPayload msg.value) = true := by
      rw [hbig, (fitsPayload_iff hsize).mpr hutf8]
      rfl
    obtain ⟨m, db', hsave, -⟩ := save_calm_of_fresh (e := msg.toEvent toUids) ht hfit
      (seqInv_of_reachable cfg.platform hreach) (fun uid huid => ⟨huids uid huid, hroom uid huid⟩)
      hfresh
    exact ⟨m, by rw [hsave]⟩

/-- The JSON text `{"to":[-1]}`, sent at time 0. -/
def negativeUid : KafkaMessage :=
  ⟨0, 0, [0x7b, 0x22, 0x74, 0x6f, 0x22, 0x3a, 0x5b, 0x2d, 0x31, 0x5d, 0x7d]⟩

/-- The JSON text `{"to":[1,1]}`, sent at time 0. -/
def repeatedUid : KafkaMessage :=
  ⟨1, 0, [0x7b, 0x22, 0x74, 0x6f, 0x22, 0x3a, 0x5b, 0x31, 0x2c, 0x31, 0x5d, 0x7d]⟩

def sampleStorageConfig : StorageConfig where
  partition := ⟨[negativeUid, repeatedUid], by decide⟩
  cleanEvents := true
  eventsTtlDays := 7
  valueMaxBytes := 4096
  unmarshal v :=
    if v = negativeUid.value then some [-1] else if v = repeatedUid.value then some [1, 1] else none
  platform := .utc

theorem saved_repeatedUid : ∃ m, (save .calm (repeatedUid.toEvent [1, 1]) .empty).1 = .ok m :=
  (saved_iff_storable sampleStorageConfig rfl
    (show sampleStorageConfig.decodeKafkaMsg 0 repeatedUid = some [1, 1] by decide +kernel)
    (by decide) (.init rfl) rfl).mpr (by decide +kernel)

/-- A negative user id is accepted and can never be saved: every `Save` fails, whatever the store
holds, and `consumeLoop` tries the same message again. -/
theorem negativeUid_never_saved :
    sampleStorageConfig.decodeKafkaMsg 0 negativeUid = some [-1] ∧
      (save .calm (negativeUid.toEvent [-1]) .empty).1 = .error .outOfRange ∧
      afterSave 0 (negativeUid.toEvent [-1]) 0 (.error .outOfRange) =
        .save 0 (negativeUid.toEvent [-1]) 0 ∧
      ∀ db, (storeSystem .utc).Reachable db → db.events.find? 0 = none → ∀ env m,
        (save env (negativeUid.toEvent [-1]) db).1 ≠ .ok m := by
  refine ⟨by decide +kernel, by decide +kernel, rfl, ?_⟩
  intro db hreach hfresh env m hok
  have hstored := stored_of_ok (e := negativeUid.toEvent [-1]) hfresh hok
  have hserve := servable_of_stored .utc hreach rfl hstored
  exact absurd (hserve (-1) (List.mem_singleton_self _)).1 (by decide)

end MiniPush.Cluster
