import MiniPush.Cluster.Growth
import MiniPush.Cluster.HeadOfLine
import MiniPush.Ws.Privacy

/-! The way of a client's message to other users: a frame of a session, the channel to the leader, the
partition, and the store that the storage fills from it. -/
namespace MiniPush.Ws.Posting
open Foundation Store Cluster Requests

/-- What `WriteMessages` does: the copies that the partition gets of the message, for the writer tries
again, and its error. -/
structure WriteFate where
  copies : ℕ
  err : Option String
  acked : err = none → 0 < copies

/-- `json.Marshal`, and the verb `%q`. -/
structure Codec where
  marshal : E2EMsg → Except String Bytes
  quote : E2EMsg → String

/-- The result and what was written; `none` stands for the panic of a nil `kafkaWriter`. -/
def saveE2eMsg (codec : Codec) (kafkaWriter : Bool) (fate : WriteFate) (msg : E2EMsg) (limit : ℤ) :
    Option (Except String Unit × List Bytes) :=
  match codec.marshal msg with
  | .error err => some (.error ("error marshal im: " ++ codec.quote msg ++ ", err: " ++ err), [])
  | .ok value =>
    if value.length > limit then
      some (.error ("storage: msg exceeds max limit: " ++ toString limit ++ " bytes"), [])
    else if kafkaWriter then
      match fate.err with
      | some err => some (.error ("error write to kafka: " ++ err), List.replicate fate.copies value)
      | none => some (.ok (), List.replicate fate.copies value)
    else none

/-- The settings of the hubs and of the leader, and the user of each session. The storage decodes what
`saveE2eMsg` has encoded. -/
structure Config (ι : Type) where
  api : EventApi
  uid : ι → ℤ
  storage : StorageConfig
  codec : Codec
  kafkaWriter : Bool
  decodes : ∀ msg value, codec.marshal msg = .ok value → storage.unmarshal value = some msg.toUids

/-- The sessions whose `recvLoop` has returned, the messages that each has routed and the leader has not
come to, the partition, and the storage. -/
structure Service (ι : Type) where
  returned : ι → Bool
  pending : ι → List E2EMsg
  log : Partition
  storage : Storage

/-- `post` is the leader at the first message of a session, `produce` another producer of the topic, `lose`
the end of the channel of a session's hub, `crash` a crash of the leader with its restart. -/
inductive Label (ι : Type)
  | frame (i : ι) (frame : Frame) (call : Call)
  | closing (i : ι)
  | post (i : ι) (fate : WriteFate) (time : ℤ)
  | lose (i : ι)
  | produce (time : ℤ) (value : Bytes)
  | crash
  | storage (l : StorageLabel)

variable {ι : Type} [DecidableEq ι]

namespace Service

/-- The messages on the way to the leader are lost with it. -/
def crash (cfg : Config ι) (s : Service ι) : Option (Service ι) :=
  (s.storage.step (cfg.storage.over s.log) .crash).map fun storage =>
    { s with pending := fun _ => [], storage }

def next (cfg : Config ι) (s : Service ι) : Label ι → Option (Service ι)
  | .frame i frame call =>
    if s.returned i then none
    else (cfg.api.recv { call with now := s.storage.now } (cfg.uid i) s.storage.db frame).map fun r =>
      { s with
        returned := Function.update s.returned i r.1.returns
        pending := Function.update s.pending i (s.pending i ++ r.1.routed.toList)
        storage := { s.storage with db := r.2 } }
  | .closing i => if s.returned i then none else some { s with returned := Function.update s.returned i true }
  | .post i fate time =>
    match s.pending i with
    | [] => none
    | msg :: rest =>
      match saveE2eMsg cfg.codec cfg.kafkaWriter fate msg cfg.storage.valueMaxBytes with
      | some (_, values) =>
        some { s with pending := Function.update s.pending i rest, log := s.log.extend time values }
      | none => s.crash cfg
  | .lose i => some { s with pending := Function.update s.pending i [] }
  | .produce time value => some { s with log := s.log.append time value }
  | .crash => s.crash cfg
  | .storage l =>
    (s.storage.step (cfg.storage.over s.log) l).map fun storage => { s with storage }

end Service

/-- What each session has routed, how many of these messages have left the channel, and for each message of
the partition the session and the number of the routed message, if it is one. -/
structure Posts (ι : Type) where
  routed : ι → List E2EMsg
  taken : ι → ℕ
  origins : List (Option (ι × ℕ))

namespace Posts

def lost (r : Posts ι) : Posts ι := { r with taken := fun i => (r.routed i).length }

def note (cfg : Config ι) (s : Service ι) (l : Label ι) (r : Posts ι) : Posts ι :=
  match l with
  | .frame i frame call =>
    match cfg.api.recv { call with now := s.storage.now } (cfg.uid i) s.storage.db frame with
    | some t => { r with routed := Function.update r.routed i (r.routed i ++ t.1.routed.toList) }
    | none => r
  | .post i fate _ =>
    match s.pending i with
    | [] => r
    | msg :: _ =>
      match saveE2eMsg cfg.codec cfg.kafkaWriter fate msg cfg.storage.valueMaxBytes with
      | some (_, values) =>
        { r with
          taken := Function.update r.taken i (r.taken i + 1)
          origins := r.origins ++ values.map fun _ => some (i, r.taken i) }
      | none => r.lost
  | .lose i => { r with taken := Function.update r.taken i (r.routed i).length }
  | .produce _ _ => { r with origins := r.origins ++ [none] }
  | .crash => r.lost
  | .closing _ | .storage _ => r

end Posts

/-- The runs from an empty store, with the messages that are already in the partition. -/
def serviceSystem (cfg : Config ι) : System (Service ι) (Label ι) where
  init s := (∀ i, s.returned i = false ∧ s.pending i = []) ∧ s.log = cfg.storage.partition ∧
    ∃ now, s.storage = newStorage now
  step := Service.next cfg

def postingSystem (cfg : Config ι) : System (Service ι × Posts ι) (Label ι) :=
  (serviceSystem cfg).record
    ⟨fun _ => [], fun _ => 0, cfg.storage.partition.messages.map fun _ => none⟩ (Posts.note cfg)

/-- A condition on the steps of the storage, as one on the steps of the service. -/
def Via (ok : Storage → StorageLabel → Prop) (s : Service ι × Posts ι) : Label ι → Prop
  | .storage l => ok s.1.storage l
  | _ => True

instance (ok : Storage → StorageLabel → Prop) [∀ s l, Decidable (ok s l)] (s : Service ι × Posts ι) :
    (l : Label ι) → Decidable (Via ok s l)
  | .storage l => inferInstanceAs (Decidable (ok s.1.storage l))
  | .frame _ _ _ | .closing _ | .post _ _ _ | .lose _ | .produce _ _ | .crash => .isTrue trivial

abbrev Timely : Service ι × Posts ι → Label ι → Prop := Via Storage.Timely

abbrev Forward : Service ι × Posts ι → Label ι → Prop := Via Storage.Forward

/-- The condition does not depend on what sessions and crashes do to the storage. -/
structure Lenient (ok : Storage → StorageLabel → Prop) : Prop where
  crash : ∀ s, ok s .crash
  setRead : ∀ s env uid seq, ok s (.setRead env uid seq)

theorem lenient_timely : Lenient Storage.Timely := ⟨fun _ => trivial, fun _ _ _ _ => trivial⟩

theorem lenient_forward : Lenient Storage.Forward := ⟨fun _ => trivial, fun _ _ _ _ => trivial⟩

theorem saveE2eMsg_values {codec : Codec} {kafkaWriter : Bool} {fate : WriteFate} {msg : E2EMsg} {limit : ℤ}
    {res : Except String Unit} {values : List Bytes}
    (h : saveE2eMsg codec kafkaWriter fate msg limit = some (res, values)) :
    ∀ value ∈ values, codec.marshal msg = .ok value ∧ value.length ≤ limit := by
  unfold saveE2eMsg at h
  split at h
  · cases h
    simp
  · rename_i value hmarshal
    split_ifs at h with hsize
    · cases h
      simp
    · have hvalues : values = List.replicate fate.copies value := by
        split at h <;> cases h <;> rfl
      intro v hv
      rw [hvalues] at hv
      rw [List.eq_of_mem_replicate hv]
      exact ⟨hmarshal, not_lt.mp hsize⟩

/-- A message of the partition is what `saveE2eMsg` makes of the routed message it comes from. -/
def Written (cfg : Config ι) (r : Posts ι) (origin : Option (ι × ℕ)) (km : KafkaMessage) : Prop :=
  ∀ i n, origin = some (i, n) → n < r.taken i ∧ ∃ msg, (r.routed i)[n]? = some msg ∧
    cfg.codec.marshal msg = .ok km.value ∧ km.value.length ≤ cfg.storage.valueMaxBytes

def InTurn (origin origin' : Option (ι × ℕ)) : Prop :=
  ∀ i n n', origin = some (i, n) → origin' = some (i, n') → n ≤ n'

/-- Where the messages of the sessions are. -/
structure Posted (ok : Storage → StorageLabel → Prop) (cfg : Config ι) (s : Service ι) (r : Posts ι) : Prop where
  storage : (storageSystem (cfg.storage.over s.log)).ReachableVia ok s.storage
  taken_le : ∀ i, r.taken i ≤ (r.routed i).length
  pending : ∀ i, s.pending i = (r.routed i).drop (r.taken i)
  written : List.Forall₂ (Written cfg r) r.origins s.log.messages
  inTurn : r.origins.Pairwise InTurn

variable {ok : Storage → StorageLabel → Prop} {cfg : Config ι} {s s' : Service ι} {r r' : Posts ι} {i : ι}

omit [DecidableEq ι] in
theorem Written.mono {origin : Option (ι × ℕ)} {km : KafkaMessage} (h : Written cfg r origin km)
    (hrouted : ∀ i, r.routed i <+: r'.routed i) (htaken : ∀ i, r.taken i ≤ r'.taken i) :
    Written cfg r' origin km := by
  intro i n horigin
  obtain ⟨hn, msg, hmsg, henc⟩ := h i n horigin
  exact ⟨hn.trans_le (htaken i), msg, getElem?_grown (hrouted i) hmsg, henc⟩

namespace Posted

omit [DecidableEq ι] in
theorem origin (hi : Posted ok cfg s r) {k : ℕ} {origin : Option (ι × ℕ)} (hk : r.origins[k]? = some origin) :
    ∃ km, s.log.messages[k]? = some km ∧ Written cfg r origin km := by
  obtain ⟨hlen, hget⟩ := List.forall₂_iff_get.mp hi.written
  obtain ⟨hlt, rfl⟩ := List.getElem?_eq_some_iff.mp hk
  exact ⟨_, List.getElem?_eq_getElem (hlen ▸ hlt), hget k hlt (hlen ▸ hlt)⟩

omit [DecidableEq ι] in
theorem stored (hi : Posted Storage.Timely cfg s r) (httl : cfg.storage.ValidTtl) :
    PartitionInv (cfg.storage.over s.log) s.storage.db s.storage.now ∧
      LoopInv (cfg.storage.over s.log) s.storage.db s.storage.pc s.storage.pos s.storage.committed
        s.storage.now := by
  have httl' : (cfg.storage.over s.log).ValidTtl := httl
  exact inv_of_timely httl' hi.storage

omit [DecidableEq ι] in
/-- What was written of a routed message is decoded as long as it is young enough. -/
theorem decoded (hi : Posted ok cfg s r) {k n : ℕ} (hk : r.origins[k]? = some (some (i, n))) :
    ∃ msg km, (r.routed i)[n]? = some msg ∧ s.log.messages[k]? = some km ∧
      cfg.codec.marshal msg = .ok km.value ∧
      (cfg.storage.over s.log).unmarshal km.value = some msg.toUids ∧
      ∀ now, cfg.storage.shouldDiscard now km = false →
        (cfg.storage.over s.log).decodeKafkaMsg now km = some msg.toUids := by
  obtain ⟨km, hkm, hw⟩ := hi.origin hk
  obtain ⟨-, msg, hmsg, henc, hsize⟩ := hw i n rfl
  have hun := cfg.decodes msg km.value henc
  refine ⟨msg, km, hmsg, hkm, henc, hun, fun now hyoung => ?_⟩
  exact (StorageConfig.decodeKafkaMsg_eq_some_iff _).mpr ⟨hsize, hun, hyoung⟩

omit [DecidableEq ι] in
theorem lost (hok : Lenient ok) (hi : Posted ok cfg s r) {storage : Storage}
    (hs : s.storage.step (cfg.storage.over s.log) .crash = some storage) :
    Posted ok cfg { s with pending := fun _ => [], storage } r.lost where
  storage := hi.storage.step (l := .crash) (hok.crash _) hs
  taken_le _ := le_rfl
  pending _ := (List.drop_length).symm
  written := hi.written.imp fun _ _ h => h.mono (fun _ => List.prefix_rfl) hi.taken_le
  inTurn := hi.inTurn

theorem saved {msg : E2EMsg} {rest : List E2EMsg} {values : List Bytes} (hi : Posted ok cfg s r)
    (hp : s.pending i = msg :: rest)
    (hvalues : ∀ value ∈ values, cfg.codec.marshal msg = .ok value ∧ value.length ≤ cfg.storage.valueMaxBytes)
    (time : ℤ) :
    Posted ok cfg { s with pending := Function.update s.pending i rest, log := s.log.extend time values }
      { r with
        taken := Function.update r.taken i (r.taken i + 1)
        origins := r.origins ++ values.map fun _ => some (i, r.taken i) } := by
  have hdrop : (r.routed i).drop (r.taken i) = msg :: rest := (hi.pending i).symm.trans hp
  have hmsg : (r.routed i)[r.taken i]? = some msg := by
    rw [← List.head?_drop, hdrop, List.head?_cons]
  have hlt : r.taken i < (r.routed i).length := (List.getElem?_eq_some_iff.mp hmsg).1
  have htaken : ∀ j, r.taken j ≤ Function.update r.taken i (r.taken i + 1) j := by
    intro j
    by_cases hj : j = i
    · rw [hj, Function.update_self]
      omega
    · rw [Function.update_of_ne hj]
  obtain ⟨added, hadded, hmap⟩ := s.log.extend_messages time values
  refine ⟨reachableVia_over ⟨added, hadded.symm⟩ hi.storage, fun j => ?_, fun j => ?_, ?_, ?_⟩
  · by_cases hj : j = i
    · subst hj
      simp only [Function.update_self]
      omega
    · simp only [Function.update_of_ne hj]
      exact hi.taken_le j
  · by_cases hj : j = i
    · subst hj
      simp only [Function.update_self]
      rw [← List.drop_drop, hdrop, List.drop_one, List.tail_cons]
    · simp only [Function.update_of_ne hj]
      exact hi.pending j
  · rw [hadded]
    refine List.rel_append ?_ ?_
    · exact hi.written.imp fun _ _ hw => hw.mono (fun _ => List.prefix_rfl) htaken
    · rw [← hmap, List.map_map, List.forall₂_map_left_iff, List.forall₂_same]
      intro km hkm j n horigin
      cases horigin
      obtain ⟨henc, hsize⟩ := hvalues km.value (hmap ▸ List.mem_map_of_mem hkm)
      simp only [Function.update_self]
      exact ⟨by omega, msg, hmsg, henc, hsize⟩
  · refine List.pairwise_append.mpr ⟨hi.inTurn, ?_, fun origin ho origin' ho' => ?_⟩
    · refine List.pairwise_map.mpr (List.pairwise_of_forall fun _ _ j n n' h h' => ?_)
      cases h
      cases h'
      exact le_rfl
    · obtain ⟨value, -, rfl⟩ := List.mem_map.mp ho'
      intro j n n' h h'
      cases h'
      obtain ⟨k, hk⟩ := List.mem_iff_getElem?.mp ho
      obtain ⟨km, -, hw⟩ := hi.origin hk
      exact (hw i n h).1.le

theorem frame (hok : Lenient ok) {frame : Frame} {call : Call} (hi : Posted ok cfg s r)
    (h : s.next cfg (.frame i frame call) = some s') :
    Posted ok cfg s' (Posts.note cfg s (.frame i frame call) r) := by
  simp only [Service.next] at h
  split_ifs at h
  obtain ⟨t, ht, rfl⟩ := Option.map_eq_some_iff.mp h
  simp only [Posts.note, ht]
  have hgrown : ∀ j, r.routed j <+: Function.update r.routed i (r.routed i ++ t.1.routed.toList) j := by
    intro j
    by_cases hj : j = i
    · rw [hj, Function.update_self]
      exact List.prefix_append _ _
    · rw [Function.update_of_ne hj]
  refine ⟨?_, fun j => (hi.taken_le j).trans (hgrown j).length_le, fun j => ?_, ?_, hi.inTurn⟩
  · rcases recv_writes ht with hdb | ⟨seq, hdb⟩
    · rw [hdb]
      exact hi.storage
    · rw [hdb]
      exact hi.storage.step (l := .setRead call.env (cfg.uid i) seq) (hok.setRead _ _ _ _) rfl
  · by_cases hj : j = i
    · subst hj
      simp only [Function.update_self]
      rw [hi.pending, List.drop_append_of_le_length (hi.taken_le j)]
    · simp only [Function.update_of_ne hj]
      exact hi.pending j
  · exact hi.written.imp fun _ _ hw => hw.mono hgrown fun _ => le_rfl

theorem post (hok : Lenient ok) {fate : WriteFate} {time : ℤ} (hi : Posted ok cfg s r)
    (h : s.next cfg (.post i fate time) = some s') :
    Posted ok cfg s' (Posts.note cfg s (.post i fate time) r) := by
  simp only [Service.next] at h
  simp only [Posts.note]
  cases hp : s.pending i with
  | nil =>
    rw [hp] at h
    cases h
  | cons msg rest =>
    rw [hp] at h
    dsimp only at h ⊢
    cases hsave : saveE2eMsg cfg.codec cfg.kafkaWriter fate msg cfg.storage.valueMaxBytes with
    | none =>
      rw [hsave] at h
      obtain ⟨storage, hs, rfl⟩ := Option.map_eq_some_iff.mp h
      exact hi.lost hok hs
    | some out =>
      obtain ⟨res, values⟩ := out
      rw [hsave] at h
      obtain rfl := Option.some.inj h
      exact hi.saved hp (saveE2eMsg_values hsave) time

theorem step (hok : Lenient ok) {l : Label ι} (hi : Posted ok cfg s r) (hl : Via ok (s, r) l)
    (h : s.next cfg l = some s') : Posted ok cfg s' (Posts.note cfg s l r) := by
  cases l with
  | frame i frame call => exact hi.frame hok h
  | post i fate time => exact hi.post hok h
  | closing i =>
    simp only [Service.next] at h
    split_ifs at h
    obtain rfl := Option.some.inj h
    exact ⟨hi.storage, hi.taken_le, hi.pending, hi.written, hi.inTurn⟩
  | lose i =>
    obtain rfl := Option.some.inj h
    refine ⟨hi.storage, fun j => ?_, fun j => ?_, hi.written.imp fun _ _ hw => ?_, hi.inTurn⟩
    · by_cases hj : j = i
      · simp [Posts.note, hj]
      · simpa [Posts.note, hj] using hi.taken_le j
    · by_cases hj : j = i
      · simp [Posts.note, hj]
      · simpa [Posts.note, hj] using hi.pending j
    · refine hw.mono (fun _ => List.prefix_rfl) fun j => ?_
      by_cases hj : j = i
      · simpa [Posts.note, hj] using hi.taken_le i
      · simp [Posts.note, hj]
  | produce time value =>
    obtain rfl := Option.some.inj h
    refine ⟨reachableVia_over ⟨_, rfl⟩ hi.storage, hi.taken_le, hi.pending, ?_, ?_⟩
    · exact List.rel_append hi.written (.cons (fun i n horigin => by cases horigin) .nil)
    · refine List.pairwise_append.mpr ⟨hi.inTurn, List.pairwise_singleton _ _, fun _ _ origin' ho' => ?_⟩
      rw [List.mem_singleton.mp ho']
      intro i n n' _ h'
      cases h'
  | crash =>
    have hcrash : s.crash cfg = some s' := h
    obtain ⟨storage, hs, rfl⟩ := Option.map_eq_some_iff.mp hcrash
    exact hi.lost hok hs
  | storage l =>
    obtain ⟨storage, hs, rfl⟩ := Option.map_eq_some_iff.mp h
    exact ⟨hi.storage.step hl hs, hi.taken_le, hi.pending, hi.written, hi.inTurn⟩

end Posted

theorem posted_of_via (hok : Lenient ok) {s : Service ι × Posts ι}
    (h : (postingSystem cfg).ReachableVia (Via ok) s) : Posted ok cfg s.1 s.2 := by
  refine h.invariant (I := fun s => Posted ok cfg s.1 s.2) ?_ ?_
  · rintro ⟨s, _⟩ ⟨⟨hidle, hlog, now, hnow⟩, rfl⟩
    refine ⟨.init ⟨now, hnow⟩, fun _ => le_rfl, fun i => (hidle i).2, ?_, ?_⟩
    · dsimp only
      rw [hlog, List.forall₂_map_left_iff, List.forall₂_same]
      intro km _ i n horigin
      cases horigin
    · refine List.pairwise_map.mpr (List.pairwise_of_forall fun _ _ i n n' h => ?_)
      cases h
  · rintro ⟨s, r⟩ l ⟨s', r'⟩ hi hl ht
    obtain ⟨hstep, rfl⟩ := System.record_step.mp ht
    exact hi.step hok hl hstep

def RowOf (s : Service ι × Posts ι) (i : ι) (n : ℕ) (row : UserEventRow) : Prop :=
  ∃ (k : ℕ) (km : KafkaMessage), s.2.origins[k]? = some (some (i, n)) ∧
    s.1.log.messages[k]? = some km ∧ row.topicOffset = km.offset

/-- The messages of a session are to each of their recipients in the order in which the session sent them,
whatever is lost, repeated or sent by others between them. -/
theorem session_order_kept (cfg : Config ι)
    (httl : cfg.storage.ValidTtl) {s : Service ι × Posts ι}
    (h : (postingSystem cfg).ReachableVia Timely s) {row row' : UserEventRow}
    (hrow : row ∈ s.1.storage.db.history.userEvents) (hrow' : row' ∈ s.1.storage.db.history.userEvents)
    (huid : row.uid = row'.uid) {n n' : ℕ} (hof : RowOf s i n row) (hof' : RowOf s i n' row') (hlt : n < n') :
    row.seq < row'.seq := by
  have hi := posted_of_via lenient_timely h
  obtain ⟨k, km, hk, hkm, hoffset⟩ := hof
  obtain ⟨k', km', hk', hkm', hoffset'⟩ := hof'
  have hturn : k < k' := by
    obtain ⟨hlen, hget⟩ := List.getElem?_eq_some_iff.mp hk
    obtain ⟨hlen', hget'⟩ := List.getElem?_eq_some_iff.mp hk'
    by_contra hge
    rcases (not_lt.mp hge).lt_or_eq with hback | rfl
    · have := List.pairwise_iff_getElem.mp hi.inTurn k' k hlen' hlen hback i n' n hget' hget
      omega
    · cases hk.symm.trans hk'
      omega
  refine (hi.stored httl).1.seq_order hrow hrow' huid ?_
  rw [hoffset, hoffset']
  exact (cfg.storage.over s.1.log).offset_lt hkm hkm' hturn

def messageTo (toUids : List ℤ) : E2EMsg := ⟨[], 7, toUids, ∅, []⟩

def sampleCodec : Codec where
  marshal msg :=
    if msg.toUids = [-1] then .ok negativeUid.value
    else if msg.toUids = [1, 1] then .ok repeatedUid.value else .error "unknown"
  quote _ := "message"

theorem sampleCodec_decodes (msg : E2EMsg) (value : Bytes) (h : sampleCodec.marshal msg = .ok value) :
    sampleStorageConfig.unmarshal value = some msg.toUids := by
  simp only [sampleCodec] at h
  split_ifs at h with hneg hrep
  · obtain rfl := Except.ok.inj h
    rw [hneg]
    rfl
  · obtain rfl := Except.ok.inj h
    rw [hrep]
    rfl

theorem no_messages : ([] : List KafkaMessage).Pairwise fun km km' => km.offset < km'.offset := .nil

/-- A service that knows two messages, one of them to the user -1. -/
def sampleService : Config Unit where
  api :=
    { conf := sampleConf
      platform := .utc
      errorText _ := "error"
      unmarshal text := ({ im := some (messageTo (if text = [1] then [-1] else [1, 1])) }, none) }
  uid _ := 7
  storage := sampleStorageConfig.over ⟨[], no_messages⟩
  codec := sampleCodec
  kafkaWriter := true
  decodes := sampleCodec_decodes

def sampleCall : Call := ⟨0, .calm, none⟩

def written : WriteFate := ⟨1, none, fun _ => Nat.one_pos⟩

/-- The session sends two messages; both are written, and the storage takes them. -/
def twoMessagesRun : List (Label Unit) :=
  [.frame () (.text []) sampleCall, .frame () (.text []) sampleCall, .post () written 0, .post () written 1] ++
    [.fetch, .save .calm, .put, .commit, .fetch, .save .calm, .put, .commit].map .storage

def start : Service Unit × Posts Unit :=
  (⟨fun _ => false, fun _ => [], sampleService.storage.partition, newStorage 0⟩, ⟨fun _ => [], fun _ => 0, []⟩)

theorem start_reachable {ok : Service Unit × Posts Unit → Label Unit → Prop} :
    (postingSystem sampleService).ReachableVia ok start :=
  .init ⟨⟨fun _ => ⟨rfl, rfl⟩, rfl, 0, rfl⟩, rfl⟩

theorem session_order_kept_twoMessagesRun :
    ∃ s row row', (postingSystem sampleService).ReachableVia Timely s ∧ RowOf s () 0 row ∧ RowOf s () 1 row' ∧
      row.uid = 1 ∧ row'.uid = 1 ∧ row.seq < row'.seq := by
  have hrun : ((postingSystem sampleService).runVia (fun s l => decide (Timely s l)) start twoMessagesRun).map
      (fun s => (s.2.origins, s.1.log.messages.map KafkaMessage.offset,
        s.1.storage.db.history.userEvents.map fun row => (row.uid, row.topicOffset))) =
      some ([some ((), 0), some ((), 1)], [0, 1], [(1, 0), (1, 0), (1, 1), (1, 1)]) := by
    decide +kernel
  obtain ⟨s, hs, hview⟩ := Option.map_eq_some_iff.mp hrun
  simp only [Prod.mk.injEq] at hview
  obtain ⟨horigins, hoffsets, hrows⟩ := hview
  have hreach : (postingSystem sampleService).ReachableVia Timely s :=
    System.ReachableVia.runVia (fun _ _ => of_decide_eq_true) start_reachable _ hs
  have hfind : ∀ n, n = 0 ∨ n = 1 → ∃ row ∈ s.1.storage.db.history.userEvents, row.uid = 1 ∧ RowOf s () n row := by
    intro n hn
    obtain ⟨row, hrow, heq⟩ : ∃ row ∈ s.1.storage.db.history.userEvents,
        (row.uid, row.topicOffset) = (1, (n : ℤ)) := by
      refine List.mem_map.mp ?_
      rw [hrows]
      rcases hn with rfl | rfl <;> simp
    obtain ⟨km, hkm, hoffset⟩ : ∃ km, s.1.log.messages[n]? = some km ∧ km.offset = n := by
      rw [← Option.map_eq_some_iff, ← List.getElem?_map, hoffsets]
      rcases hn with rfl | rfl <;> rfl
    obtain ⟨huid, htopic⟩ := Prod.mk.inj heq
    refine ⟨row, hrow, huid, n, km, ?_, hkm, htopic.trans hoffset.symm⟩
    rw [horigins]
    rcases hn with rfl | rfl <;> rfl
  obtain ⟨row, hrow, huid, hof⟩ := hfind 0 (.inl rfl)
  obtain ⟨row', hrow', huid', hof'⟩ := hfind 1 (.inr rfl)
  refine ⟨s, row, row', hreach, hof, hof', huid, huid', ?_⟩
  exact session_order_kept sampleService (fun _ => by decide) hreach hrow hrow' (huid.trans huid'.symm) hof hof'
    (by decide)

/-- What `saveE2eMsg` wrote of a routed message comes to its recipients when the storage has passed it: the
event has the message as its payload, and each recipient has it as often as the message names it, unless
it has become too old. -/
theorem client_message_delivered (cfg : Config ι)
    (httl : cfg.storage.ValidTtl) {s : Service ι × Posts ι}
    (h : (postingSystem cfg).ReachableVia Timely s) {k n : ℕ} (hk : s.2.origins[k]? = some (some (i, n))) :
    ∃ msg km, (s.2.routed i)[n]? = some msg ∧ s.1.log.messages[k]? = some km ∧
      cfg.codec.marshal msg = .ok km.value ∧
      (k < s.1.storage.committed → cfg.storage.shouldDiscard s.1.storage.now km = false →
        (∃ row ∈ s.1.storage.db.history.events, row.topicOffset = km.offset ∧ row.payload = km.value) ∧
        ∀ uid, deliveryCount s.1.storage.db uid km.offset = msg.toUids.count uid) := by
  have hi := posted_of_via lenient_timely h
  obtain ⟨hp, hl⟩ := hi.stored httl
  obtain ⟨msg, km, hmsg, hkm, henc, hun, hdecode⟩ := hi.decoded hk
  refine ⟨msg, km, hmsg, hkm, henc, fun hcommitted hyoung => ?_⟩
  have hins : (cfg.storage.over s.1.log).Inserted s.1.storage.db k := by
    rcases hl.acked k hcommitted with hins | hskip
    · exact hins
    · have hnone := hskip km hkm
      rw [hdecode _ hyoung] at hnone
      cases hnone
  obtain ⟨km', hkm', row, hrow, hoffset⟩ := hins
  obtain rfl : km = km' := Option.some.inj (hkm.symm.trans hkm')
  obtain ⟨j, kmj, hj, hoffset', -, hpayload⟩ := hp.rows row hrow
  obtain rfl : j = k := (cfg.storage.over s.1.log).offset_inj hj hkm (by omega)
  obtain rfl : kmj = km := Option.some.inj (hj.symm.trans hkm)
  refine ⟨⟨row, hrow, hoffset, hpayload⟩, fun uid => ?_⟩
  rw [hp.deliveryCount_eq (List.mem_of_getElem? hkm) hun, if_pos]
  exact List.mem_map.mpr ⟨row, hrow, hoffset⟩

theorem client_message_delivered_twoMessagesRun :
    ∃ s msg km, (postingSystem sampleService).ReachableVia Timely s ∧ s.1.storage.committed = 2 ∧
      (s.2.routed ())[1]? = some msg ∧ s.1.log.messages[1]? = some km ∧
      ∀ uid, deliveryCount s.1.storage.db uid km.offset = msg.toUids.count uid := by
  have hrun : ((postingSystem sampleService).runVia (fun s l => decide (Timely s l)) start twoMessagesRun).map
      (fun s => (s.2.origins, s.1.storage.committed, s.1.log.messages.map fun km =>
        sampleService.storage.shouldDiscard s.1.storage.now km)) =
      some ([some ((), 0), some ((), 1)], 2, [false, false]) := by
    decide +kernel
  obtain ⟨s, hs, hview⟩ := Option.map_eq_some_iff.mp hrun
  simp only [Prod.mk.injEq] at hview
  obtain ⟨horigins, hcommitted, hyoung⟩ := hview
  have hreach : (postingSystem sampleService).ReachableVia Timely s :=
    System.ReachableVia.runVia (fun _ _ => of_decide_eq_true) start_reachable _ hs
  obtain ⟨msg, km, hmsg, hkm, -, hrest⟩ := client_message_delivered sampleService (fun _ => by decide) hreach
    (i := ()) (k := 1) (n := 1) (by rw [horigins]; rfl)
  refine ⟨s, msg, km, hreach, hcommitted, hmsg, hkm, (hrest (by omega) ?_).2⟩
  have hone := congrArg (fun l => l[1]?) hyoung
  simpa [List.getElem?_map, hkm] using hone

/-- A message to a negative user id, which any session can send, stops the service: until it is too old, the
storage commits nothing beyond it, and no user gets an event that was written after it, in every run with
any failures and restarts in which the clock does not go back. -/
theorem client_message_stalls_everyone (cfg : Config ι) {s : Service ι × Posts ι}
    (h : (postingSystem cfg).ReachableVia Forward s) {k n : ℕ} (hk : s.2.origins[k]? = some (some (i, n)))
    {msg : E2EMsg} (hmsg : (s.2.routed i)[n]? = some msg) {uid : ℤ} (huid : uid ∈ msg.toUids) (hneg : uid < 0)
    {km : KafkaMessage} (hkm : s.1.log.messages[k]? = some km)
    (hyoung : cfg.storage.shouldDiscard s.1.storage.now km = false) :
    s.1.storage.committed ≤ k ∧ ∀ row ∈ s.1.storage.db.history.userEvents, row.topicOffset < km.offset := by
  have hi := posted_of_via lenient_forward h
  obtain ⟨msg', km', hmsg', hkm', -, -, hdecode⟩ := hi.decoded hk
  obtain rfl : msg = msg' := Option.some.inj (hmsg.symm.trans hmsg')
  obtain rfl : km = km' := Option.some.inj (hkm.symm.trans hkm')
  have hbad : ¬Storable (km.toEvent msg.toUids) := by
    intro hstorable
    have hfits := hstorable.2.2 uid huid
    simp only [fitsInt, decide_eq_true_eq] at hfits
    omega
  have hstalled := stalled_of_forward hi.storage hkm (hdecode _ hyoung) hbad
  have hrows := storableInv_of_reachable hi.storage.reachable
  refine ⟨hstalled.committed, fun row hrow => ?_⟩
  obtain ⟨event, hevent, hoffset⟩ := hrows.userRows row hrow
  obtain ⟨j, kmj, uids, hj, -, hoffset', -⟩ := hrows.rows event hevent
  rw [← hoffset, hoffset']
  refine (cfg.storage.over s.1.log).offset_lt hj hkm (not_le.mp fun hge => ?_)
  exact hstalled.inserted j hge ⟨kmj, hj, event, hevent, hoffset'⟩

/-- The first message goes to the user -1. The second one is written and waits, also after a restart. -/
def stalledRun : List (Label Unit) :=
  [.frame () (.text [1]) sampleCall, .frame () (.text []) sampleCall, .post () written 0, .post () written 1,
    .storage .fetch, .storage (.save .calm), .storage (.tick (48 * Time.hour)), .storage (.save .calm), .crash,
    .storage .fetch, .storage (.save .calm)]

theorem client_message_stalls_stalledRun :
    ∃ s, (postingSystem sampleService).ReachableVia Forward s ∧ s.2.origins = [some ((), 0), some ((), 1)] ∧
      s.1.storage.committed ≤ 0 ∧ ∀ row ∈ s.1.storage.db.history.userEvents, row.topicOffset < 0 := by
  have hrun : ((postingSystem sampleService).runVia (fun s l => decide (Forward s l)) start stalledRun).map
      (fun s => (s.2.origins, (s.2.routed ()).map E2EMsg.toUids, s.1.log.messages.map fun km =>
        (km.offset, sampleService.storage.shouldDiscard s.1.storage.now km))) =
      some ([some ((), 0), some ((), 1)], [[-1], [1, 1]], [(0, false), (1, false)]) := by
    decide +kernel
  obtain ⟨s, hs, hview⟩ := Option.map_eq_some_iff.mp hrun
  simp only [Prod.mk.injEq] at hview
  obtain ⟨horigins, hrouted, hlog⟩ := hview
  have hreach : (postingSystem sampleService).ReachableVia Forward s :=
    System.ReachableVia.runVia (fun _ _ => of_decide_eq_true) start_reachable _ hs
  obtain ⟨msg, hmsg, huids⟩ : ∃ msg, (s.2.routed ())[0]? = some msg ∧ msg.toUids = [-1] := by
    rw [← Option.map_eq_some_iff, ← List.getElem?_map, hrouted]
    rfl
  obtain ⟨km, hkm, hboth⟩ : ∃ km, s.1.log.messages[0]? = some km ∧
      (km.offset, sampleService.storage.shouldDiscard s.1.storage.now km) = (0, false) := by
    rw [← Option.map_eq_some_iff, ← List.getElem?_map, hlog]
    rfl
  obtain ⟨hoffset, hyoung⟩ := Prod.mk.inj hboth
  have huid : -1 ∈ msg.toUids := by simp [huids]
  refine ⟨s, hreach, horigins, ?_⟩
  rw [← hoffset]
  exact client_message_stalls_everyone sampleService hreach (i := ()) (n := 0) (by rw [horigins]; rfl)
    hmsg huid (by decide) hkm hyoung

end MiniPush.Ws.Posting
