import MiniPush.Cluster.Push

/-! Which stored events are announced. `Save` returns the new head sequences only on the attempt that
inserts; if the acknowledgement of its commit is lost, the retry finds the event stored, returns
nothing, and the sequences are never handed to the cache. -/
namespace MiniPush.Cluster
open Foundation Store

def ConsumePc.saving : ConsumePc → Option Event
  | .save _ e _ => some e
  | _ => none

namespace Storage

/-- The `user_events` rows that the running process inserted. -/
def stored (s : Storage) : List UserEventRow :=
  s.db.history.userEvents.drop s.boot

def Announced (s : Storage) (r : UserEventRow) : Prop :=
  ∃ seq, (r.uid, seq) ∈ s.cache.puts ∧ r.seq ≤ seq

/-- The attempt to save reports success or has inserted no row. -/
def Acknowledged (s : Storage) : StorageLabel → Prop
  | .save env => ∀ e ∈ s.pc.saving, (save env e s.db).1.isOk = true ∨
      (save env e s.db).2.history.userEvents = s.db.history.userEvents
  | _ => True

instance (s : Storage) : (l : StorageLabel) → Decidable (s.Acknowledged l)
  | .save env => inferInstanceAs (Decidable (∀ e ∈ s.pc.saving, (save env e s.db).1.isOk = true ∨
      (save env e s.db).2.history.userEvents = s.db.history.userEvents))
  | .fetch | .fetchErr _ | .put | .commit | .commitErr _ _ | .stop | .crash | .reset | .tick _
  | .deleteOutdated _ | .setRead _ _ _ | .check _ => .isTrue trivial

end Storage

/-- While `consumeLoop` runs, every row of the process is announced or about to be put. -/
structure AnnounceInv (s : Storage) : Prop where
  boot_le : s.boot ≤ s.db.history.userEvents.length
  rows : s.pc = .returned ∨ s.pc = .panicked ∨ ∀ r ∈ s.stored, s.Announced r ∨
    ∃ i res seq, s.pc = .put i res ∧ res.lookup r.uid = some seq ∧ r.seq ≤ seq

/-- The rows that `Save` inserts and the sequences that it returns for them. -/
theorem save_rows (env : TxEnv SqlError) (e : Event) (db : Database) :
    ∃ rows, (save env e db).2.history.userEvents = db.history.userEvents ++ rows ∧
      (∀ r ∈ rows, r.topicOffset = e.offset ∧ db.headSeq r.uid < r.seq) ∧
      ∀ m, (save env e db).1 = .ok m → ∀ r ∈ rows, ∃ seq, m.lookup r.uid = some seq ∧ r.seq ≤ seq := by
  rcases save_cases env e db with ⟨err, he⟩ | ⟨m, db', hs | hs, he⟩
  · rw [he]
    exact ⟨[], (List.append_nil _).symm, by simp, by simp⟩
  · obtain ⟨t, rows, hadd, hseq⟩ := hs.added
    have hhist : db'.history.userEvents = db.history.userEvents ++ rows := by
      rw [hadd.history]
    have hnew : ∀ r ∈ rows, r.topicOffset = e.offset ∧ db.headSeq r.uid < r.seq :=
      fun r hr => ⟨hadd.offsets r hr, (hseq r hr).1⟩
    rcases he with he | ⟨err, -, he⟩
    · rw [he]
      refine ⟨rows, hhist, hnew, fun m' hm r hr => ?_⟩
      cases hm
      exact (hseq r hr).2
    · rw [he]
      exact ⟨rows, hhist, hnew, by simp⟩
  · obtain rfl := hs.unchanged
    rcases he with he | ⟨err, -, he⟩
    · rw [he]
      exact ⟨[], (List.append_nil _).symm, by simp, by simp⟩
    · rw [he]
      exact ⟨[], (List.append_nil _).symm, by simp, by simp⟩

theorem AnnounceInv.announced {s : Storage} (h : AnnounceInv s) (hr : s.pc ≠ .returned)
    (hp : s.pc ≠ .panicked) (hput : ∀ i res, s.pc ≠ .put i res) :
    ∀ r ∈ s.stored, s.Announced r := by
  intro r hmem
  rcases h.rows with hpc | hpc | hall
  · exact absurd hpc hr
  · exact absurd hpc hp
  · rcases hall r hmem with ha | ⟨i, res, seq, hpc, -⟩
    · exact ha
    · exact absurd hpc (hput i res)

theorem AnnounceInv.of_same {s s' : Storage} (h : AnnounceInv s)
    (hhist : s'.db.history = s.db.history) (hboot : s'.boot = s.boot)
    (hputs : s'.cache.puts = s.cache.puts)
    (hpc : s'.pc = .returned ∨ s'.pc = .panicked ∨ s'.pc = s.pc ∨
      ∀ r ∈ s.stored, s.Announced r) : AnnounceInv s' := by
  have hstored : s'.stored = s.stored := by
    rw [Storage.stored, hhist, hboot, Storage.stored]
  have hann : ∀ r, s.Announced r → s'.Announced r := by
    intro r hr
    rw [Storage.Announced, hputs]
    exact hr
  refine ⟨by rw [hhist, hboot]; exact h.boot_le, ?_⟩
  rcases hpc with hpc | hpc | hpc | hall
  · exact .inl hpc
  · exact .inr (.inl hpc)
  · rw [hpc, hstored]
    rcases h.rows with hr | hp | hall
    · exact .inl hr
    · exact .inr (.inl hp)
    · exact .inr (.inr fun r hr => (hall r hr).imp_left (hann r))
  · rw [hstored]
    exact .inr (.inr fun r hr => .inl (hann r (hall r hr)))

/-- A step of `consumeLoop` from a place where no result waits to be put. -/
theorem AnnounceInv.of_idle {s s' : Storage} (h : AnnounceInv s) (hr : s.pc ≠ .returned)
    (hp : s.pc ≠ .panicked) (hput : ∀ i res, s.pc ≠ .put i res)
    (hhist : s'.db.history = s.db.history) (hboot : s'.boot = s.boot)
    (hputs : s'.cache.puts = s.cache.puts) : AnnounceInv s' :=
  h.of_same hhist hboot hputs (.inr (.inr (.inr (h.announced hr hp hput))))

theorem AnnounceInv.put {s : Storage} (h : AnnounceInv s) {i : ℕ} {res : GoMap ℤ ℤ}
    (hpc : s.pc = .put i res) :
    AnnounceInv { s with
      cache := s.cache.put s.now res
      pc := if (s.cache.put s.now res).panicked then .panicked else .commit i } := by
  refine ⟨h.boot_le, ?_⟩
  cases halive : (s.cache.put s.now res).panicked with
  | true => exact .inr (.inl rfl)
  | false =>
    refine .inr (.inr fun r hr => .inl ?_)
    rcases h.rows with hret | hpan | hall
    · rw [hpc] at hret
      cases hret
    · rw [hpc] at hpan
      cases hpan
    · rcases hall r hr with ⟨seq, hseq, hle⟩ | ⟨j, res', seq, hpc', hseq, hle⟩
      · exact ⟨seq, Cache.mem_puts_put halive (.inl hseq), hle⟩
      · rw [hpc] at hpc'
        cases hpc'
        exact ⟨seq, Cache.mem_puts_put halive (.inr hseq), hle⟩

/-- An acknowledged `Save` has its rows in the result that is put next. -/
theorem AnnounceInv.save {s : Storage} (h : AnnounceInv s) {i : ℕ} {e : Event} {decodedAt : ℤ}
    (hpc : s.pc = .save i e decodedAt) {env : TxEnv SqlError} (hack : s.Acknowledged (.save env)) :
    AnnounceInv { s with
      db := (Store.save env e s.db).2, pc := afterSave i e decodedAt (Store.save env e s.db).1 } := by
  have hall := h.announced (by simp [hpc]) (by simp [hpc]) (by simp [hpc])
  have hack' := hack e (by rw [hpc]; rfl)
  obtain ⟨rows, hrows, -, hres⟩ := save_rows env e s.db
  refine ⟨by simp only [hrows, List.length_append]; exact Nat.le_add_right_of_le h.boot_le, ?_⟩
  refine .inr (.inr fun r hr => ?_)
  simp only [Storage.stored, hrows] at hr
  rw [List.drop_append_of_le_length h.boot_le, List.mem_append] at hr
  rcases hr with hr | hr
  · exact .inl (hall r hr)
  · right
    rcases hack' with hok | hsame
    · obtain ⟨m, hm⟩ : ∃ m, (Store.save env e s.db).1 = .ok m := by
        cases hr' : (Store.save env e s.db).1 with
        | error err => simp [hr', Except.isOk, Except.toBool] at hok
        | ok m => exact ⟨m, rfl⟩
      obtain ⟨seq, hseq, hle⟩ := hres m hm r hr
      refine ⟨i, m, seq, ?_, hseq, hle⟩
      have hne : m.entries.length > 0 := List.length_pos_of_mem (AList.mem_lookup_iff.mp hseq)
      simp only [hm, afterSave, if_pos hne]
    · rw [hsame] at hrows
      rw [List.self_eq_append_right.mp hrows] at hr
      cases hr

theorem step_announceInv {cfg : StorageConfig} {s s' : Storage} {l : StorageLabel}
    (h : Storage.Step cfg s l s') (hack : s.Acknowledged l) (hi : AnnounceInv s) :
    AnnounceInv s' := by
  cases h with
  | fetchEvent hpc _ _ => exact hi.of_idle (by simp [hpc]) (by simp [hpc]) (by simp [hpc]) rfl rfl rfl
  | fetchSkip hpc _ _ => exact hi.of_same rfl rfl rfl (.inr (.inr (.inl rfl)))
  | fetchErr canceled hpc =>
    exact hi.of_idle (by simp [hpc]) (by simp [hpc]) (by simp [hpc]) rfl rfl rfl
  | save env hpc => exact hi.save hpc hack
  | put hpc => exact hi.put hpc
  | commit hpc => exact hi.of_idle (by simp [hpc]) (by simp [hpc]) (by simp [hpc]) rfl rfl rfl
  | commitErr _ _ hpc =>
    exact hi.of_idle (by simp [hpc]) (by simp [hpc]) (by simp [hpc]) rfl rfl rfl
  | stop => exact hi.of_same rfl rfl rfl (.inl rfl)
  | crash => exact ⟨le_refl _, .inr (.inr (by simp [Storage.stored]))⟩
  | reset => exact hi.of_same rfl rfl rfl (.inr (.inr (.inl rfl)))
  | tick _ => exact hi.of_same rfl rfl rfl (.inr (.inr (.inl rfl)))
  | deleteOutdated env _ =>
    exact hi.of_same (deleteOutdatedEvents_history _ _ _ _ _) rfl rfl (.inr (.inr (.inl rfl)))
  | setRead env uid seq =>
    exact hi.of_same (setRead_history env uid seq s.db).1 rfl rfl (.inr (.inr (.inl rfl)))
  | check hc => exact hi.of_same rfl rfl (Cache.checkStep_puts hc).1 (.inr (.inr (.inl rfl)))

theorem announceInv_of_acknowledged {cfg : StorageConfig} {s : Storage}
    (h : (storageSystem cfg).ReachableVia Storage.Acknowledged s) : AnnounceInv s := by
  refine System.ReachableVia.invariant (I := AnnounceInv) ?_ ?_ h
  · rintro s ⟨now, rfl⟩
    exact ⟨Nat.zero_le _, .inr (.inr (by simp [newStorage, Storage.stored, Database.empty]))⟩
  · intro s l s' hi hack hstep
    exact step_announceInv (Storage.step_spec hstep) hack hi

/-- The event being saved is that of a message, with a time in whole milliseconds. -/
theorem event_of_saving {cfg : StorageConfig} {s : Storage} (h : (storageSystem cfg).Reachable s) :
    ∀ i e decodedAt, s.pc = .save i e decodedAt → ∃ msg toUids,
      cfg.partition.messages[i]? = some msg ∧ e = msg.toEvent toUids := by
  refine System.Reachable.invariant (I := fun s => ∀ i e decodedAt, s.pc = .save i e decodedAt →
    ∃ msg toUids, cfg.partition.messages[i]? = some msg ∧ e = msg.toEvent toUids) ?_ ?_ h
  · rintro s ⟨now, rfl⟩ i e decodedAt hpc
    cases hpc
  · intro s l s' hi hstep i e decodedAt hpc
    have hs : Storage.Step cfg s l s' := Storage.step_spec hstep
    cases hs with
    | fetchEvent _ hmsg _ =>
      cases hpc
      exact ⟨_, _, hmsg, rfl⟩
    | fetchSkip _ _ _ => exact hi i e decodedAt hpc
    | fetchErr canceled _ => cases canceled <;> cases hpc
    | @save env j e' d hsave =>
      obtain ⟨rfl, rfl, rfl⟩ : j = i ∧ e' = e ∧ d = decodedAt := by
        cases hr : (Store.save env e' s.db).1 with
        | error err =>
          simp only [hr, afterSave] at hpc
          split_ifs at hpc
          cases hpc
          exact ⟨rfl, rfl, rfl⟩
        | ok m =>
          simp only [hr, afterSave] at hpc
          split_ifs at hpc
      exact hi j e' d hsave
    | put _ =>
      dsimp only at hpc
      split_ifs at hpc
    | commit _ => cases hpc
    | commitErr _ canceled _ => cases canceled <;> cases hpc
    | stop => cases hpc
    | crash => cases hpc
    | reset => exact hi i e decodedAt hpc
    | tick _ => exact hi i e decodedAt hpc
    | deleteOutdated _ _ => exact hi i e decodedAt hpc
    | setRead _ _ _ => exact hi i e decodedAt hpc
    | check _ => exact hi i e decodedAt hpc

/-- A `Save` that stored its event and reported an error which is retried: the retry finds the event,
returns nothing, and the message is committed without its rows being announced. -/
theorem unannounced_of_lost_acknowledgement {cfg : StorageConfig} {s s₁ : Storage}
    {env : TxEnv SqlError} {i : ℕ} {e : Event} {decodedAt : ℤ}
    (h : (storageSystem cfg).ReachableVia Storage.Acknowledged s)
    (hpc : s.pc = .save i e decodedAt) (hlost : ¬s.Acknowledged (.save env))
    (hstep : (storageSystem cfg).step s (.save env) = some s₁) (hretry : s₁.pc = .save i e decodedAt) :
    ∃ s₂ s₃, (storageSystem cfg).step s₁ (.save .calm) = some s₂ ∧
      (storageSystem cfg).step s₂ .commit = some s₃ ∧ s₂.pc = .commit i ∧
      ∃ r ∈ s₂.stored, r.topicOffset = e.offset ∧ ¬s₂.Announced r := by
  have hboot := (announceInv_of_acknowledged h).boot_le
  have hputs := (pushInv_of_reachable h.reachable).forward.puts_le
  obtain ⟨msg, toUids, -, rfl⟩ := event_of_saving h.reachable i e decodedAt hpc
  have hchanged : (save env (msg.toEvent toUids) s.db).2.history.userEvents ≠
      s.db.history.userEvents := by
    intro hsame
    refine hlost fun e he => .inr ?_
    rw [hpc] at he
    cases he
    exact hsame
  obtain ⟨rows, hrows, hnew, -⟩ := save_rows env (msg.toEvent toUids) s.db
  have hagain : save .calm (msg.toEvent toUids) (save env (msg.toEvent toUids) s.db).2 =
      (.ok ∅, (save env (msg.toEvent toUids) s.db).2) := by
    rcases save_cases env (msg.toEvent toUids) s.db with ⟨err, he⟩ | ⟨m, db', hs | hs, he⟩
    · rw [he] at hchanged
      exact absurd rfl hchanged
    · have hdb : (save env (msg.toEvent toUids) s.db).2 = db' := by
        rcases he with he | ⟨err, -, he⟩ <;> rw [he]
      rw [hdb]
      exact hs.save_calm rfl
    · obtain rfl := hs.unchanged
      rcases he with he | ⟨err, -, he⟩ <;> rw [he] at hchanged <;> exact absurd rfl hchanged
  have hs₁ : s₁ = { s with db := (save env (msg.toEvent toUids) s.db).2, pc := s₁.pc } := by
    have hs : s.step cfg (.save env) = some s₁ := hstep
    simp only [Storage.step, hpc] at hs
    cases hs
    rfl
  rw [hretry] at hs₁
  subst hs₁
  obtain ⟨r, hr⟩ : ∃ r, r ∈ rows := by
    refine List.exists_mem_of_ne_nil rows fun hnil => hchanged ?_
    rw [hrows, hnil, List.append_nil]
  refine ⟨{ s with db := (save env (msg.toEvent toUids) s.db).2, pc := .commit i },
    { s with db := (save env (msg.toEvent toUids) s.db).2, committed := i + 1, pc := .fetch },
    ?_, rfl, rfl, r, ?_, (hnew r hr).1, ?_⟩
  · simp only [storageSystem, Storage.step, hagain]
    rfl
  · simp only [Storage.stored, hrows]
    rw [List.drop_append_of_le_length hboot]
    exact List.mem_append_right _ hr
  · rintro ⟨seq, hseq, hle⟩
    have hold := hputs (r.uid, seq) hseq
    have hlt := (hnew r hr).2
    dsimp only at hold
    omega

/-- As long as no attempt to save inserts rows and reports an error, a message is committed only when
all the rows that the process stored for it are announced. An attempt that does, and is retried, is
followed by a commit without the announcement. -/
theorem announced_exactly_while_acknowledged (cfg : StorageConfig) :
    (∀ s s' i msg, (storageSystem cfg).ReachableVia Storage.Acknowledged s →
      (storageSystem cfg).step s .commit = some s' → s.pc = .commit i →
      cfg.partition.messages[i]? = some msg →
      ∀ r ∈ s.stored, r.topicOffset = msg.offset → s.Announced r) ∧
    ∀ s s₁ env i e decodedAt, (storageSystem cfg).ReachableVia Storage.Acknowledged s →
      s.pc = .save i e decodedAt → ¬s.Acknowledged (.save env) →
      (storageSystem cfg).step s (.save env) = some s₁ → s₁.pc = .save i e decodedAt →
      ∃ s₂ s₃, (storageSystem cfg).step s₁ (.save .calm) = some s₂ ∧
        (storageSystem cfg).step s₂ .commit = some s₃ ∧ s₂.pc = .commit i ∧
        ∃ r ∈ s₂.stored, r.topicOffset = e.offset ∧ ¬s₂.Announced r := by
  constructor
  · intro s s' i msg h _ hpc _ r hr _
    have hi := announceInv_of_acknowledged h
    exact hi.announced (by simp [hpc]) (by simp [hpc]) (by simp [hpc]) r hr
  · intro s s₁ env i e decodedAt h hpc hlost hstep hretry
    exact unannounced_of_lost_acknowledgement h hpc hlost hstep hretry

/-- The first message is saved, put, and ready to be committed. -/
def announcedRun : List StorageLabel :=
  [.fetch, .save .calm, .put]

theorem announced_announcedRun :
    ∃ s s', (storageSystem sampleConfig).runVia (fun s l => decide (s.Acknowledged l)) (newStorage 0)
        announcedRun = some s ∧ (storageSystem sampleConfig).step s .commit = some s' ∧
      s.stored.map UserEventRow.key = [(1, 1), (2, 1), (1, 2)] ∧ ∀ r ∈ s.stored, s.Announced r := by
  have hrun : ((storageSystem sampleConfig).runVia (fun s l => decide (s.Acknowledged l))
      (newStorage 0) announcedRun).map (fun s => (s.stored.map UserEventRow.key,
        s.stored.map UserEventRow.topicOffset,
        ((storageSystem sampleConfig).step s .commit).map Storage.committed)) =
      some ([(1, 1), (2, 1), (1, 2)], [10, 10, 10], some 1) := by
    decide +kernel
  obtain ⟨s, hs, hview⟩ := Option.map_eq_some_iff.mp hrun
  rw [Prod.mk.injEq, Prod.mk.injEq] at hview
  obtain ⟨hkeys, hoffsets, hcommit⟩ := hview
  obtain ⟨s', hs', hcommitted⟩ := Option.map_eq_some_iff.mp hcommit
  obtain ⟨i, hpc, hi⟩ := commit_spec hs'
  obtain rfl : i = 0 := by omega
  have hreach : (storageSystem sampleConfig).ReachableVia Storage.Acknowledged s :=
    System.ReachableVia.runVia (fun _ _ h => of_decide_eq_true h) (.init ⟨0, rfl⟩) announcedRun hs
  refine ⟨s, s', hs, hs', hkeys, fun r hr => ?_⟩
  have hoff : r.topicOffset = 10 := by
    have := List.mem_map_of_mem (f := UserEventRow.topicOffset) hr
    rw [hoffsets] at this
    simpa using this
  exact (announced_exactly_while_acknowledged sampleConfig).1 s s' 0 _ hreach hs' hpc rfl r hr hoff

/-- The commit of the first `Save` is not acknowledged; the retry finds the event stored. -/
def unannouncedRun : List StorageLabel :=
  [.fetch, .save ⟨none, [], .unacknowledged .other⟩, .save .calm]

theorem unannouncedRun_commits_unannounced :
    ∃ s s', (storageSystem sampleConfig).run (newStorage 0) unannouncedRun = some s ∧
      (storageSystem sampleConfig).Reachable s ∧
      (storageSystem sampleConfig).step s .commit = some s' ∧ s'.committed = 1 ∧
      s.stored.map UserEventRow.key = [(1, 1), (2, 1), (1, 2)] ∧ s.cache.puts = [] ∧
      ∀ r ∈ s.stored, ¬s.Announced r := by
  have hrun : ((storageSystem sampleConfig).run (newStorage 0) unannouncedRun).map (fun s =>
      (s.stored.map UserEventRow.key, s.cache.puts,
        ((storageSystem sampleConfig).step s .commit).map Storage.committed)) =
      some ([(1, 1), (2, 1), (1, 2)], [], some 1) := by
    decide +kernel
  obtain ⟨s, hs, hview⟩ := Option.map_eq_some_iff.mp hrun
  rw [Prod.mk.injEq, Prod.mk.injEq] at hview
  obtain ⟨hkeys, hputs, hcommit⟩ := hview
  obtain ⟨s', hs', hcommitted⟩ := Option.map_eq_some_iff.mp hcommit
  refine ⟨s, s', hs, System.Reachable.run (.init ⟨0, rfl⟩) unannouncedRun hs, hs', hcommitted, hkeys,
    hputs, ?_⟩
  rintro r hr ⟨seq, hseq, -⟩
  rw [hputs] at hseq
  cases hseq

end MiniPush.Cluster
