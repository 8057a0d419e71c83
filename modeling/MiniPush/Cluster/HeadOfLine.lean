import MiniPush.Cluster.ExactlyOnce
import MiniPush.Cluster.Savable

/-! A message that the store cannot take holds up its partition: `consumeLoop` tries it until it is too
old, and comes to no later one, in whatever way the process fails and restarts meanwhile. -/
namespace MiniPush.Cluster
open Foundation Store

def Storable (e : Event) : Prop :=
  fitsPayload e.payload = true ∧ (DateTime.ofTime? e.createTime).isSome ∧
    ∀ uid ∈ e.toUids, fitsInt uid = true

instance (e : Event) : Decidable (Storable e) :=
  inferInstanceAs (Decidable (fitsPayload e.payload = true ∧ (DateTime.ofTime? e.createTime).isSome ∧
    ∀ uid ∈ e.toUids, fitsInt uid = true))

variable {cfg : StorageConfig}

/-- The database of the storage is one that the store reaches by itself. -/
theorem store_reachable {s : Storage} (h : (storageSystem cfg).Reachable s) :
    (storeSystem cfg.platform).Reachable s.db := by
  refine System.Reachable.invariant (I := fun s => (storeSystem cfg.platform).Reachable s.db) ?_ ?_ h
  · rintro s ⟨now, rfl⟩
    exact .init rfl
  · intro s l s' hs hstep
    have hspec : Storage.Step cfg s l s' := Storage.step_spec hstep
    cases hspec with
    | @save env i e d _ => exact hs.step (l := .save env e) rfl
    | deleteOutdated env _ => exact hs.step (l := .deleteOutdatedEvents env s.now cfg.delEventsTtlDays) rfl
    | setRead env uid seq => exact hs.step (l := .setRead env uid seq) rfl
    | _ => exact hs

theorem storable_of_stored {db db' : Database} (hreach : (storeSystem cfg.platform).Reachable db)
    {env : TxEnv SqlError} {e : Event} {m : GoMap ℤ ℤ} (hsave : (save env e db).2 = db')
    (h : Stored e db m db') : Storable e := by
  obtain ⟨t, _, ht, -⟩ := h.gained.rows
  refine ⟨(Bool.and_eq_true_iff.mp h.fits).2, Option.isSome_of_eq_some ht, fun uid huid => ?_⟩
  exact (servable_of_stored cfg.platform hreach hsave h uid huid).1

/-- What is in `events`, or was, are messages of the partition that the columns could hold, and the rows of
the users belong to them. -/
structure StorableInv (cfg : StorageConfig) (s : Storage) : Prop where
  rows : ∀ r ∈ s.db.history.events, ∃ (i : ℕ) (msg : KafkaMessage) (toUids : List ℤ),
    cfg.partition.messages[i]? = some msg ∧ cfg.unmarshal msg.value = some toUids ∧
      r.topicOffset = msg.offset ∧ Storable (msg.toEvent toUids)
  live : ∀ r ∈ s.db.events.rows, r ∈ s.db.history.events
  userRows : ∀ r ∈ s.db.history.userEvents, ∃ e ∈ s.db.history.events, e.topicOffset = r.topicOffset
  saving : ∀ i e d, s.pc = .save i e d → ∃ msg toUids, cfg.partition.messages[i]? = some msg ∧
    cfg.unmarshal msg.value = some toUids ∧ e = msg.toEvent toUids

theorem StorableInv.of_history {s s' : Storage} (h : StorableInv cfg s)
    (hhist : s'.db.history = s.db.history) (hlive : ∀ r ∈ s'.db.events.rows, r ∈ s.db.events.rows)
    (hpc : ∀ i e d, s'.pc = .save i e d → s.pc = .save i e d) : StorableInv cfg s' where
  rows := by rw [hhist]; exact h.rows
  live := by rw [hhist]; exact fun r hr => h.live r (hlive r hr)
  userRows := by rw [hhist]; exact h.userRows
  saving := fun i e d he => h.saving i e d (hpc i e d he)

theorem afterSave_eq_save {i j : ℕ} {e e' : Event} {d d' : ℤ} {r : Except SqlError (GoMap ℤ ℤ)}
    (h : afterSave i e d r = .save j e' d') : ConsumePc.save i e d = .save j e' d' := by
  cases r with
  | ok res =>
    simp only [afterSave] at h
    split_ifs at h
  | error err =>
    simp only [afterSave] at h
    split_ifs at h
    exact h

theorem StorableInv.of_stored {s : Storage} (h : StorableInv cfg s) {i : ℕ} {msg : KafkaMessage} {toUids : List ℤ}
    (hmsg : cfg.partition.messages[i]? = some msg) (hun : cfg.unmarshal msg.value = some toUids)
    {db : Database} {m : GoMap ℤ ℤ} (hs : Stored (msg.toEvent toUids) s.db m db)
    (hstorable : Storable (msg.toEvent toUids)) {pc : ConsumePc}
    (hpc : ∀ i e d, pc = .save i e d → s.pc = .save i e d) : StorableInv cfg { s with db, pc } := by
  obtain ⟨t, rows, hadd, -⟩ := hs.added
  refine ⟨fun r hr => ?_, fun r hr => ?_, fun r hr => ?_, fun i e d he => h.saving i e d (hpc i e d he)⟩
  · dsimp only at hr
    rw [hadd.history] at hr
    rcases List.mem_append.mp hr with hr | hr
    · exact h.rows r hr
    · rw [List.mem_singleton.mp hr]
      exact ⟨i, msg, toUids, hmsg, hun, rfl, hstorable⟩
  · dsimp only at hr ⊢
    rw [hadd.events] at hr
    rw [hadd.history]
    rcases List.mem_append.mp hr with hr | hr
    · exact List.mem_append_left _ (h.live r hr)
    · exact List.mem_append_right _ hr
  · dsimp only at hr ⊢
    rw [hadd.history] at hr ⊢
    rcases List.mem_append.mp hr with hr | hr
    · obtain ⟨e, he, hoff⟩ := h.userRows r hr
      exact ⟨e, List.mem_append_left _ he, hoff⟩
    · exact ⟨_, List.mem_append_right _ (List.mem_singleton_self _), (hadd.offsets r hr).symm⟩

theorem step_storableInv {s s' : Storage} {l : StorageLabel} (h : Storage.Step cfg s l s')
    (hreach : (storeSystem cfg.platform).Reachable s.db) (hi : StorableInv cfg s) : StorableInv cfg s' := by
  cases h with
  | @fetchEvent msg toUids _ hmsg hdecode =>
    refine ⟨hi.rows, hi.live, hi.userRows, fun i e d he => ?_⟩
    cases he
    exact ⟨msg, toUids, hmsg, (cfg.decodeKafkaMsg_eq_some_iff.mp hdecode).2.1, rfl⟩
  | @save env i e d hpc =>
    obtain ⟨msg, toUids, hmsg, hun, rfl⟩ := hi.saving i e d hpc
    have hagain : ∀ j e' d', afterSave i (msg.toEvent toUids) d (Store.save env (msg.toEvent toUids) s.db).1 =
        .save j e' d' → s.pc = .save j e' d' := fun j e' d' he => hpc.trans (afterSave_eq_save he)
    rcases save_cases env (msg.toEvent toUids) s.db with ⟨err, he⟩ | ⟨m, db', hs, he⟩
    · have hdb : (Store.save env (msg.toEvent toUids) s.db).2 = s.db := by rw [he]
      exact hi.of_history (congrArg Database.history hdb) (by dsimp only; rw [hdb]; exact fun r hr => hr) hagain
    · have hdb : (Store.save env (msg.toEvent toUids) s.db).2 = db' := by
        rcases he with he | ⟨err, -, he⟩ <;> rw [he]
      rcases hs with hs | hs
      · have hstorable := storable_of_stored hreach hdb hs
        rw [hdb]
        exact hi.of_stored hmsg hun hs hstorable hagain
      · obtain rfl := hs.unchanged
        exact hi.of_history (congrArg Database.history hdb) (by dsimp only; rw [hdb]; exact fun r hr => hr) hagain
  | fetchErr canceled _ => exact hi.of_history rfl (fun _ hr => hr) (by cases canceled <;> simp)
  | @put i res _ => exact hi.of_history rfl (fun _ hr => hr) (by dsimp only; split_ifs <;> simp)
  | commit _ | stop | crash => exact hi.of_history rfl (fun _ hr => hr) (by simp)
  | commitErr applied canceled _ => exact hi.of_history rfl (fun _ hr => hr) (by cases canceled <;> simp)
  | fetchSkip _ _ _ | reset | tick _ | check _ => exact hi.of_history rfl (fun _ hr => hr) fun _ _ _ he => he
  | deleteOutdated env _ =>
    refine hi.of_history (deleteOutdatedEvents_history cfg.platform env s.now cfg.delEventsTtlDays s.db) ?_
      fun _ _ _ he => he
    rcases deleteOutdatedEvents_cases cfg.platform env s.now cfg.delEventsTtlDays s.db with he | ⟨n, hclean⟩
    · rw [he]
      exact fun r hr => hr
    · rw [(cleanEvents_ok hclean).2.2.1]
      exact fun r hr => (List.mem_filter.mp hr).1
  | setRead env uid seq =>
    obtain ⟨hhist, hevents⟩ := setRead_history env uid seq s.db
    exact hi.of_history hhist (by dsimp only; rw [hevents]; exact fun r hr => hr) fun _ _ _ he => he

theorem storableInv_of_reachable {s : Storage} (h : (storageSystem cfg).Reachable s) : StorableInv cfg s := by
  have hboth : (storageSystem cfg).Reachable s ∧ StorableInv cfg s := by
    refine System.Reachable.invariant
      (I := fun s => (storageSystem cfg).Reachable s ∧ StorableInv cfg s) ?_ ?_ h
    · rintro s ⟨now, rfl⟩
      exact ⟨.init ⟨now, rfl⟩, by simp [newStorage, Database.empty], by simp [newStorage, Database.empty],
        by simp [newStorage, Database.empty], by simp [newStorage]⟩
    · intro s l s' hi hstep
      exact ⟨hi.1.step hstep, step_storableInv (Storage.step_spec hstep) (store_reachable hi.1) hi.2⟩
  exact hboth.2

theorem StorableInv.not_inserted {s : Storage} (hi : StorableInv cfg s) {i : ℕ} {msg : KafkaMessage}
    (hmsg : cfg.partition.messages[i]? = some msg) {toUids : List ℤ}
    (hun : cfg.unmarshal msg.value = some toUids) (hbad : ¬Storable (msg.toEvent toUids)) :
    ¬cfg.Inserted s.db i := by
  rintro ⟨msg', hmsg', r, hr, ho⟩
  obtain rfl : msg = msg' := Option.some.inj (hmsg.symm.trans hmsg')
  obtain ⟨j, m, uids, hm, hun', ho', hstorable⟩ := hi.rows r hr
  obtain rfl : j = i := cfg.offset_inj hm hmsg (by omega)
  obtain rfl : m = msg := Option.some.inj (hm.symm.trans hmsg)
  obtain rfl : uids = toUids := Option.some.inj (hun'.symm.trans hun)
  exact hbad hstorable

def Storage.Forward (s : Storage) : StorageLabel → Prop
  | .tick now => s.now ≤ now
  | _ => True

instance (s : Storage) : (l : StorageLabel) → Decidable (s.Forward l)
  | .tick now => inferInstanceAs (Decidable (s.now ≤ now))
  | .fetch | .fetchErr _ | .save _ | .put | .commit | .commitErr _ _ | .stop | .crash | .reset
  | .deleteOutdated _ | .setRead _ _ _ | .check _ => .isTrue trivial

structure Stalled (cfg : StorageConfig) (i : ℕ) (s : Storage) : Prop where
  committed : s.committed ≤ i
  pos : s.pos ≤ i ∨ (∃ e d, s.pc = .save i e d) ∨ s.pc = .returned ∨ s.pc = .panicked
  saving : ∀ j e d, s.pc = .save j e d → j ≤ i
  saved : ∀ j, (∃ res, s.pc = .put j res) ∨ s.pc = .commit j → j < i
  inserted : ∀ k, i ≤ k → ¬cfg.Inserted s.db k

section
variable {i : ℕ} {s s' : Storage}

theorem mem_history_of_save_ok {env : TxEnv SqlError} {e : Event} {db : Database}
    (hlive : ∀ r ∈ db.events.rows, r ∈ db.history.events) {res : GoMap ℤ ℤ} (h : (save env e db).1 = .ok res) :
    ∃ r ∈ (save env e db).2.history.events, r.topicOffset = e.offset := by
  rcases save_cases env e db with ⟨err, he⟩ | ⟨m, db', hs, he | ⟨err, -, he⟩⟩
  · rw [he] at h
    cases h
  · rw [he]
    rcases hs with hs | hs
    · obtain ⟨t, rows, hadd, -⟩ := hs.added
      rw [hadd.history]
      exact ⟨_, List.mem_append_right _ (List.mem_singleton_self _), rfl⟩
    · obtain ⟨r, hr, hoff, -⟩ := hs.row
      rw [hs.unchanged]
      exact ⟨r, hlive r hr, hoff⟩
  · rw [he] at h
    cases h

/-- A `Save` adds no other offset to the history than its own. -/
theorem mem_history_of_save {env : TxEnv SqlError} {e : Event} {db : Database} {r : EventRow}
    (h : r ∈ (save env e db).2.history.events) : r ∈ db.history.events ∨ r.topicOffset = e.offset := by
  rcases save_cases env e db with ⟨err, he⟩ | ⟨m, db', hs, he⟩
  · rw [he] at h
    exact .inl h
  · have hdb : (save env e db).2 = db' := by
      rcases he with he | ⟨err, -, he⟩ <;> rw [he]
    rw [hdb] at h
    rcases hs with hs | hs
    · obtain ⟨t, rows, hadd, -⟩ := hs.added
      rw [hadd.history] at h
      rcases List.mem_append.mp h with h | h
      · exact .inl h
      · rw [List.mem_singleton.mp h]
        exact .inr rfl
    · rw [hs.unchanged] at h
      exact .inl h

theorem afterSave_cases {j : ℕ} {e : Event} {d : ℤ} {r : Except SqlError (GoMap ℤ ℤ)} :
    (∃ res, r = .ok res ∧ (afterSave j e d r = .put j res ∨ afterSave j e d r = .commit j)) ∨
      afterSave j e d r = .save j e d ∨ afterSave j e d r = .returned ∨ afterSave j e d r = .panicked := by
  cases r with
  | ok res =>
    refine .inl ⟨res, rfl, ?_⟩
    simp only [afterSave]
    split_ifs
    · exact .inl rfl
    · exact .inr rfl
  | error err =>
    simp only [afterSave]
    split_ifs <;> simp

theorem Stalled.save (hi : Stalled cfg i s) (hs : StorableInv cfg s) {env : TxEnv SqlError} {j : ℕ} {e : Event}
    {d : ℤ} (hpc : s.pc = .save j e d) (hnot : ¬cfg.Inserted (Store.save env e s.db).2 i) :
    Stalled cfg i { s with
      db := (Store.save env e s.db).2, pc := afterSave j e d (Store.save env e s.db).1 } := by
  obtain ⟨msg, toUids, hmsg, -, rfl⟩ := hs.saving j e d hpc
  have hle := hi.saving j _ d hpc
  have hlt : ∀ res, (Store.save env (msg.toEvent toUids) s.db).1 = .ok res → j < i := by
    intro res hok
    refine lt_of_le_of_ne hle fun heq => hnot ?_
    subst heq
    exact ⟨msg, hmsg, mem_history_of_save_ok hs.live hok⟩
  have hpos : j < i → s.pos ≤ i := by
    intro hlt
    rcases hi.pos with h | ⟨e', d', h⟩ | h | h
    · exact h
    · rw [hpc] at h
      cases h
      omega
    · rw [hpc] at h
      cases h
    · rw [hpc] at h
      cases h
  refine ⟨hi.committed, ?_, fun j' e' d' he => ?_, fun j' he => ?_, fun k hk hins => ?_⟩
  · rcases afterSave_cases (j := j) (e := msg.toEvent toUids) (d := d)
      (r := (Store.save env (msg.toEvent toUids) s.db).1) with ⟨res, hok, -⟩ | hagain | hreturned | hpanicked
    · exact .inl (hpos (hlt res hok))
    · rcases hle.lt_or_eq with hj | rfl
      · exact .inl (hpos hj)
      · exact .inr (.inl ⟨_, _, hagain⟩)
    · exact .inr (.inr (.inl hreturned))
    · exact .inr (.inr (.inr hpanicked))
  · cases afterSave_eq_save he
    exact hle
  · rcases afterSave_cases (j := j) (e := msg.toEvent toUids) (d := d)
      (r := (Store.save env (msg.toEvent toUids) s.db).1) with ⟨res, hok, hout⟩ | hother
    · have hj := hlt res hok
      rcases hout with hout | hout <;> simp only [hout] at he <;> simp at he <;> omega
    · rcases hother with hout | hout | hout <;> simp only [hout] at he <;> simp at he
  · obtain ⟨msgk, hmsgk, r, hr, hoff⟩ := hins
    rcases hk.lt_or_eq with hgt | rfl
    · rcases mem_history_of_save hr with hold | hnew
      · exact hi.inserted k hk ⟨msgk, hmsgk, r, hold, hoff⟩
      · have := cfg.offset_inj hmsgk hmsg (hoff.symm.trans hnew)
        omega
    · exact hnot ⟨msgk, hmsgk, r, hr, hoff⟩

theorem Stalled.of_history (hi : Stalled cfg i s) (hhist : s'.db.history = s.db.history)
    (hcommitted : s'.committed = s.committed) (hpos : s'.pos = s.pos ∨ s'.pos ≤ i) (hpc : s'.pc = s.pc) :
    Stalled cfg i s' := by
  refine ⟨hcommitted ▸ hi.committed, ?_, hpc ▸ hi.saving, hpc ▸ hi.saved, fun k hk hins => ?_⟩
  · rcases hpos with hpos | hpos
    · rw [hpos, hpc]
      exact hi.pos
    · exact .inl hpos
  · obtain ⟨msg, hmsg, r, hr, hoff⟩ := hins
    rw [hhist] at hr
    exact hi.inserted k hk ⟨msg, hmsg, r, hr, hoff⟩

/-- The loop moves between messages before the one that holds it up, or leaves. -/
theorem Stalled.move (hi : Stalled cfg i s) {cache : Cache} {pc : ConsumePc} {pos committed : ℕ} {boot : ℕ}
    (hcommitted : committed ≤ i) (hpos : pos ≤ i ∨ pc = .returned ∨ pc = .panicked)
    (hpc : (∀ j e d, pc ≠ .save j e d) ∧ (∀ j res, pc ≠ .put j res) ∧ ∀ j, pc = .commit j → j < i) :
    Stalled cfg i { s with cache, pc, pos, committed, boot } := by
  obtain ⟨hsave, hput, hcommit⟩ := hpc
  refine ⟨hcommitted, ?_, fun j e d he => absurd he (hsave j e d), fun j he => ?_, hi.inserted⟩
  · rcases hpos with hpos | hpos
    · exact .inl hpos
    · exact .inr (.inr hpos)
  · rcases he with ⟨res, he⟩ | he
    · exact absurd he (hput j res)
    · exact hcommit j he

theorem Stalled.pos_le (hi : Stalled cfg i s) (hsave : ∀ j e d, s.pc ≠ .save j e d) (hreturned : s.pc ≠ .returned)
    (hpanicked : s.pc ≠ .panicked) : s.pos ≤ i := by
  rcases hi.pos with h | ⟨e, d, h⟩ | h | h
  · exact h
  · exact absurd h (hsave i e d)
  · exact absurd h hreturned
  · exact absurd h hpanicked

theorem Stalled.step {l : StorageLabel} (hi : Stalled cfg i s) (hs : StorableInv cfg s)
    (hs' : StorableInv cfg s') {msg : KafkaMessage} (hmsg : cfg.partition.messages[i]? = some msg)
    {toUids : List ℤ} (hdecode : cfg.decodeKafkaMsg s.now msg = some toUids)
    (hbad : ¬Storable (msg.toEvent toUids)) (h : Storage.Step cfg s l s') : Stalled cfg i s' := by
  cases h with
  | @fetchEvent msg' toUids' hpc hmsg' _ =>
    have hle := hi.pos_le (by simp [hpc]) (by simp [hpc]) (by simp [hpc])
    refine ⟨hi.committed, ?_, fun j e d he => ?_, fun j he => ?_, hi.inserted⟩
    · rcases hle.lt_or_eq with hlt | heq
      · exact .inl hlt
      · exact .inr (.inl ⟨_, _, by rw [heq]⟩)
    · cases he
      exact hle
    · rcases he with ⟨res, he⟩ | he <;> cases he
  | @fetchSkip msg' hpc hmsg' hskip =>
    have hle := hi.pos_le (by simp [hpc]) (by simp [hpc]) (by simp [hpc])
    have hlt : s.pos < i := by
      refine lt_of_le_of_ne hle fun heq => ?_
      rw [heq, hmsg] at hmsg'
      cases hmsg'
      rw [hskip] at hdecode
      cases hdecode
    exact hi.of_history rfl rfl (.inr hlt) rfl
  | fetchErr canceled hpc =>
    have hle := hi.pos_le (by simp [hpc]) (by simp [hpc]) (by simp [hpc])
    exact hi.move hi.committed (.inl hle) (by cases canceled <;> simp)
  | save env hpc =>
    have hun := (cfg.decodeKafkaMsg_eq_some_iff.mp hdecode).2.1
    exact hi.save hs hpc (hs'.not_inserted hmsg hun hbad)
  | @put j res hpc =>
    have hle := hi.pos_le (by simp [hpc]) (by simp [hpc]) (by simp [hpc])
    have hlt := hi.saved j (.inl ⟨res, hpc⟩)
    refine hi.move hi.committed (.inl hle) ?_
    split_ifs
    · simp
    · exact ⟨by simp, by simp, fun j' he => by cases he; exact hlt⟩
  | @commit j hpc =>
    have hle := hi.pos_le (by simp [hpc]) (by simp [hpc]) (by simp [hpc])
    exact hi.move (hi.saved j (.inr hpc)) (.inl hle) (by simp)
  | @commitErr applied canceled j hpc =>
    have hle := hi.pos_le (by simp [hpc]) (by simp [hpc]) (by simp [hpc])
    have hlt := hi.saved j (.inr hpc)
    refine hi.move ?_ (.inl hle) ?_
    · cases applied
      · exact hi.committed
      · exact hlt
    · cases canceled
      · exact ⟨by simp, by simp, fun j' he => by cases he; exact hlt⟩
      · simp
  | stop => exact hi.move hi.committed (.inr (.inl rfl)) (by simp)
  | crash => exact hi.move hi.committed (.inl hi.committed) (by simp)
  | reset => exact hi.of_history rfl rfl (.inr hi.committed) rfl
  | tick _ | check _ => exact hi.of_history rfl rfl (.inl rfl) rfl
  | deleteOutdated env _ =>
    exact hi.of_history (deleteOutdatedEvents_history cfg.platform env s.now cfg.delEventsTtlDays s.db) rfl
      (.inl rfl) rfl
  | setRead env uid seq => exact hi.of_history (setRead_history env uid seq s.db).1 rfl (.inl rfl) rfl

/-- A message that the columns cannot hold stalls the loop for as long as it is decoded. -/
theorem stalled_of_forward (h : (storageSystem cfg).ReachableVia Storage.Forward s) {msg : KafkaMessage}
    (hmsg : cfg.partition.messages[i]? = some msg) {toUids : List ℤ}
    (hdecode : cfg.decodeKafkaMsg s.now msg = some toUids) (hbad : ¬Storable (msg.toEvent toUids)) :
    Stalled cfg i s := by
  have hboth : (storageSystem cfg).Reachable s ∧
      (cfg.decodeKafkaMsg s.now msg = some toUids → Stalled cfg i s) := by
    refine h.invariant (I := fun s => (storageSystem cfg).Reachable s ∧
      (cfg.decodeKafkaMsg s.now msg = some toUids → Stalled cfg i s)) ?_ ?_
    · rintro s ⟨now, rfl⟩
      refine ⟨.init ⟨now, rfl⟩, fun _ => ⟨Nat.zero_le _, .inl (Nat.zero_le _), by simp [newStorage],
        by simp [newStorage], ?_⟩⟩
      rintro k - ⟨msg, -, r, hr, -⟩
      cases hr
    · rintro s l s' ⟨hreach, hi⟩ hok hstep
      refine ⟨hreach.step hstep, fun hdecode' => ?_⟩
      have hspec : Storage.Step cfg s l s' := Storage.step_spec hstep
      -- A message that is still decoded was so before, as the clock does not go back.
      have hdecode : cfg.decodeKafkaMsg s.now msg = some toUids := by
        cases hspec with
        | tick now =>
          cases hold : cfg.decodeKafkaMsg s.now msg with
          | none =>
            rw [cfg.decodeKafkaMsg_none_mono hok hold] at hdecode'
            cases hdecode'
          | some uids =>
            obtain ⟨-, hun, -⟩ := cfg.decodeKafkaMsg_eq_some_iff.mp hold
            obtain ⟨-, hun', -⟩ := cfg.decodeKafkaMsg_eq_some_iff.mp hdecode'
            exact hun.symm.trans hun'
        | _ => exact hdecode'
      exact (hi hdecode).step (storableInv_of_reachable hreach)
        (storableInv_of_reachable (hreach.step hstep)) hmsg hdecode hbad hspec
  exact hboth.2 hdecode

end

/-- While a message that the columns cannot hold is still young enough to be decoded, its partition stands
still: nothing is committed beyond it, and it and every later message stay out of the store, in every run
with any failures, crashes and restarts in which the clock does not go back. -/
theorem unstorable_holds_up_partition (cfg : StorageConfig) {s : Storage}
    (h : (storageSystem cfg).ReachableVia Storage.Forward s) {i : ℕ} {msg : KafkaMessage}
    (hmsg : cfg.partition.messages[i]? = some msg) {toUids : List ℤ}
    (hdecode : cfg.decodeKafkaMsg s.now msg = some toUids) (hbad : ¬Storable (msg.toEvent toUids)) :
    s.committed ≤ i ∧ ∀ k, i ≤ k → ¬cfg.Inserted s.db k := by
  have hi := stalled_of_forward h hmsg hdecode hbad
  exact ⟨hi.committed, hi.inserted⟩

/-- The message to the user -1 is tried before and after a restart, two days apart. -/
theorem unstorable_holds_up_negativeUid :
    ∃ s, (storageSystem sampleStorageConfig).ReachableVia Storage.Forward s ∧ s.now = 48 * Time.hour ∧
      ¬Storable (negativeUid.toEvent [-1]) ∧ s.committed ≤ 0 ∧
      ∀ k, 0 ≤ k → ¬sampleStorageConfig.Inserted s.db k := by
  have hrun : ((storageSystem sampleStorageConfig).runVia (fun s l => decide (s.Forward l)) (newStorage 0)
      [.fetch, .save .calm, .tick (48 * Time.hour), .save .calm, .crash, .fetch, .save .calm]).map Storage.now =
        some (48 * Time.hour) := by
    decide +kernel
  obtain ⟨s, hs, hnow⟩ := Option.map_eq_some_iff.mp hrun
  have hreach : (storageSystem sampleStorageConfig).ReachableVia Storage.Forward s :=
    System.ReachableVia.runVia (fun _ _ => of_decide_eq_true) (.init ⟨0, rfl⟩) _ hs
  have hbad : ¬Storable (negativeUid.toEvent [-1]) := by decide +kernel
  have hdecode : sampleStorageConfig.decodeKafkaMsg s.now negativeUid = some [-1] := by
    rw [hnow]
    decide +kernel
  exact ⟨s, hreach, hnow, hbad, unstorable_holds_up_partition sampleStorageConfig hreach rfl hdecode hbad⟩

end MiniPush.Cluster
