import MiniPush.Cluster.Cache
import MiniPush.Cluster.Kafka
import MiniPush.Store.Sequence

/-! The storage of the leader: `consumeLoop` takes messages of one Kafka partition to the event
store and hands the new head sequences to the cache, while `sendLoop`, `deleteLoop`, failures and
restarts interleave with it. -/
namespace MiniPush.Cluster
open Foundation Store

/-- Where `consumeLoop` stands, with the index of the message it works on. `decodedAt` is the clock
reading at which the message passed `decodeKafkaMsg`. -/
inductive ConsumePc
  | fetch
  | save (i : ℕ) (e : Event) (decodedAt : ℤ)
  | put (i : ℕ) (res : GoMap ℤ ℤ)
  | commit (i : ℕ)
  | returned
  | panicked

/-- The storage with its surroundings: the committed database, the reader's position and the group's
committed position in the partition, and the clock. `boot` is the number of rows that `user_events`
had ever received when the process started. -/
structure Storage where
  db : Database
  cache : Cache
  pc : ConsumePc
  pos : ℕ
  committed : ℕ
  now : ℤ
  boot : ℕ

def newStorage (now : ℤ) : Storage := ⟨.empty, newCache, .fetch, 0, 0, now, 0⟩

/-- Steps of the storage. `fetchErr`, `commitErr` and the environments of `save` and
`deleteOutdated` are failures; `commitErr true` reached the broker. `stop` is `ctx.Done()` during a
wait, `crash` a crash with its restart, `reset` a reader sent back by a rebalance. -/
inductive StorageLabel
  | fetch
  | fetchErr (canceled : Bool)
  | save (env : TxEnv SqlError)
  | put
  | commit
  | commitErr (applied canceled : Bool)
  | stop
  | crash
  | reset
  | tick (now : ℤ)
  | deleteOutdated (env : TxEnv SqlError)
  | setRead (env : TxEnv SqlError) (uid seq : ℤ)
  | check (l : CheckLabel)

def afterSave (i : ℕ) (e : Event) (decodedAt : ℤ) : Except SqlError (GoMap ℤ ℤ) → ConsumePc
  | .ok res => if res.entries.length > 0 then .put i res else .commit i
  | .error err =>
    if err = .canceled then .returned
    else if isDupKeyError err then .panicked
    else .save i e decodedAt

namespace Storage
variable (cfg : StorageConfig) (s : Storage)

def step : StorageLabel → Option Storage
  | .fetch =>
    match s.pc, cfg.partition.messages[s.pos]? with
    | .fetch, some msg =>
      match cfg.decodeKafkaMsg s.now msg with
      | some toUids =>
        some { s with pos := s.pos + 1, pc := .save s.pos (msg.toEvent toUids) s.now }
      | none => some { s with pos := s.pos + 1 }
    | _, _ => none
  | .fetchErr canceled =>
    match s.pc with
    | .fetch => some { s with pc := if canceled then .returned else .fetch }
    | _ => none
  | .save env =>
    match s.pc with
    | .save i e decodedAt =>
      let r := Store.save env e s.db
      some { s with db := r.2, pc := afterSave i e decodedAt r.1 }
    | _ => none
  | .put =>
    match s.pc with
    | .put i res =>
      let cache := s.cache.put s.now res
      some { s with cache, pc := if cache.panicked then .panicked else .commit i }
    | _ => none
  | .commit =>
    match s.pc with
    | .commit i => some { s with committed := i + 1, pc := .fetch }
    | _ => none
  | .commitErr applied canceled =>
    match s.pc with
    | .commit i =>
      some { s with
        committed := if applied then i + 1 else s.committed
        pc := if canceled then .returned else .commit i }
    | _ => none
  | .stop =>
    match s.pc with
    | .put _ _ | .panicked => none
    | _ => some { s with pc := .returned }
  | .crash =>
    some { s with
      cache := newCache, pc := .fetch, pos := s.committed, boot := s.db.history.userEvents.length }
  | .reset => some { s with pos := s.committed }
  | .tick now => some { s with now }
  | .deleteOutdated env =>
    match s.pc with
    | .panicked => none
    | _ =>
      if cfg.cleanEvents then
        some { s with
          db := (deleteOutdatedEvents cfg.platform env s.now cfg.delEventsTtlDays s.db).2 }
      else none
  | .setRead env uid seq => some { s with db := (Store.setRead env uid seq s.db).2 }
  | .check l =>
    match s.pc with
    | .panicked => none
    | _ => (s.cache.checkStep l).map fun cache => { s with cache }

inductive Step (cfg : StorageConfig) (s : Storage) : StorageLabel → Storage → Prop
  | fetchEvent {msg : KafkaMessage} {toUids : List ℤ} : s.pc = .fetch →
      cfg.partition.messages[s.pos]? = some msg → cfg.decodeKafkaMsg s.now msg = some toUids →
      Step cfg s .fetch { s with pos := s.pos + 1, pc := .save s.pos (msg.toEvent toUids) s.now }
  | fetchSkip {msg : KafkaMessage} : s.pc = .fetch →
      cfg.partition.messages[s.pos]? = some msg → cfg.decodeKafkaMsg s.now msg = none →
      Step cfg s .fetch { s with pos := s.pos + 1 }
  | fetchErr (canceled : Bool) : s.pc = .fetch →
      Step cfg s (.fetchErr canceled) { s with pc := if canceled then .returned else .fetch }
  | save (env : TxEnv SqlError) {i : ℕ} {e : Event} {decodedAt : ℤ} : s.pc = .save i e decodedAt →
      Step cfg s (.save env) { s with
        db := (Store.save env e s.db).2, pc := afterSave i e decodedAt (Store.save env e s.db).1 }
  | put {i : ℕ} {res : GoMap ℤ ℤ} : s.pc = .put i res →
      Step cfg s .put { s with
        cache := s.cache.put s.now res
        pc := if (s.cache.put s.now res).panicked then .panicked else .commit i }
  | commit {i : ℕ} : s.pc = .commit i →
      Step cfg s .commit { s with committed := i + 1, pc := .fetch }
  | commitErr (applied canceled : Bool) {i : ℕ} : s.pc = .commit i →
      Step cfg s (.commitErr applied canceled) { s with
        committed := if applied then i + 1 else s.committed
        pc := if canceled then .returned else .commit i }
  | stop : Step cfg s .stop { s with pc := .returned }
  | crash : Step cfg s .crash { s with
      cache := newCache, pc := .fetch, pos := s.committed, boot := s.db.history.userEvents.length }
  | reset : Step cfg s .reset { s with pos := s.committed }
  | tick (now : ℤ) : Step cfg s (.tick now) { s with now }
  | deleteOutdated (env : TxEnv SqlError) : cfg.cleanEvents = true →
      Step cfg s (.deleteOutdated env) { s with
        db := (deleteOutdatedEvents cfg.platform env s.now cfg.delEventsTtlDays s.db).2 }
  | setRead (env : TxEnv SqlError) (uid seq : ℤ) :
      Step cfg s (.setRead env uid seq) { s with db := (Store.setRead env uid seq s.db).2 }
  | check {l : CheckLabel} {cache : Cache} : s.cache.checkStep l = some cache →
      Step cfg s (.check l) { s with cache }

variable {cfg s}

theorem step_spec {l : StorageLabel} {s' : Storage} (h : s.step cfg l = some s') :
    Step cfg s l s' := by
  cases l with
  | fetch =>
    simp only [step] at h
    split at h
    · rename_i msg hpc hmsg
      split at h
      · rename_i toUids hdecode
        cases h
        exact .fetchEvent hpc hmsg hdecode
      · rename_i hdecode
        cases h
        exact .fetchSkip hpc hmsg hdecode
    · cases h
  | fetchErr canceled =>
    simp only [step] at h
    split at h
    · rename_i hpc
      cases h
      exact .fetchErr canceled hpc
    · cases h
  | save env =>
    simp only [step] at h
    split at h
    · rename_i hpc
      cases h
      exact .save env hpc
    · cases h
  | put =>
    simp only [step] at h
    split at h
    · rename_i hpc
      cases h
      exact .put hpc
    · cases h
  | commit =>
    simp only [step] at h
    split at h
    · rename_i hpc
      cases h
      exact .commit hpc
    · cases h
  | commitErr applied canceled =>
    simp only [step] at h
    split at h
    · rename_i hpc
      cases h
      exact .commitErr applied canceled hpc
    · cases h
  | stop =>
    simp only [step] at h
    split at h
    · cases h
    · cases h
    · cases h
      exact .stop
  | crash =>
    cases h
    exact .crash
  | reset =>
    cases h
    exact .reset
  | tick now =>
    cases h
    exact .tick now
  | deleteOutdated env =>
    simp only [step] at h
    split at h
    · cases h
    · split_ifs at h with hclean
      cases h
      exact .deleteOutdated env hclean
  | setRead env uid seq =>
    cases h
    exact .setRead env uid seq
  | check l =>
    simp only [step] at h
    split at h
    · cases h
    · obtain ⟨cache, hcache, rfl⟩ := Option.map_eq_some_iff.mp h
      exact .check hcache

end Storage

/-- The runs of the storage from an empty database. -/
def storageSystem (cfg : StorageConfig) : System Storage StorageLabel where
  init s := ∃ now, s = newStorage now
  step := Storage.step cfg

theorem commit_spec {cfg : StorageConfig} {s s' : Storage}
    (h : (storageSystem cfg).step s .commit = some s') :
    ∃ i, s.pc = .commit i ∧ s'.committed = i + 1 := by
  have hstep : Storage.Step cfg s .commit s' := Storage.step_spec h
  cases hstep with
  | commit hpc => exact ⟨_, hpc, rfl⟩

/-- Two messages to users 1 and 2, the first naming user 1 twice. -/
def sampleConfig : StorageConfig where
  partition := ⟨[⟨10, 0, [1]⟩, ⟨12, 1, [2]⟩], by decide⟩
  cleanEvents := true
  eventsTtlDays := 7
  valueMaxBytes := 4096
  unmarshal value := if value = [1] then some [1, 2, 1] else some [2]
  platform := .utc

end MiniPush.Cluster
