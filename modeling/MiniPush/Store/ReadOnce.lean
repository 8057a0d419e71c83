import MiniPush.Store.History

/-! Read states over whole runs of the store: an event is marked read once, and stays read. -/
namespace MiniPush.Store
open Foundation

/-- The rows that a `SetRead` reports as changed. -/
def StoreOp.changes (db : Database) : StoreOp → List (ℤ × ℤ)
  | .setRead env uid seq =>
    match (Store.setRead env uid seq db).1 with
    | .ok resp => if resp.changed then [(uid, seq)] else []
    | .error _ => []
  | _ => []

def readSystem (P : Platform) : System (Database × List (ℤ × ℤ)) StoreOp :=
  (storeSystem P).record [] fun db op log => log ++ op.changes db

def Database.Unread (db : Database) (k : ℤ × ℤ) : Prop :=
  ∃ r ∈ db.userEvents.rows, r.key = k ∧ r.readState = false

/-- The key has been assigned, and no row with it is unread. -/
structure Database.ReadForGood (db : Database) (k : ℤ × ℤ) : Prop where
  assigned : k.2 ≤ db.headSeq k.1
  notUnread : ¬ db.Unread k

/-- The rows of `user_events` after `SetRead(uid, seq)`: at most the read state of the row
with that key differs. -/
def OnlyReadState (uid seq : ℤ) (r r' : UserEventRow) : Prop :=
  r' = r ∨ r.key = (uid, seq) ∧ r' = { r with readState := true }

theorem updateReadState_affected {uid seq : ℤ} {n : ℕ} {db db' : Database}
    (h : updateReadState uid seq db = .ok (n, db')) : n = 1 ↔ db.Unread (uid, seq) := by
  have hn : n = db.userEvents.rows.countP
      fun r => decide (r.uid = uid ∧ r.seq = seq ∧ r.readState = false) := by
    cases h
    rfl
  have hle : n ≤ 1 := by
    rw [hn]
    refine db.userEvents.countP_le_one (k := (uid, seq)) fun r hr => ?_
    have hr' := of_decide_eq_true hr
    exact Prod.ext hr'.1 hr'.2.1
  have hpos : 0 < n ↔ db.Unread (uid, seq) := by
    rw [hn, List.countP_pos_iff]
    unfold Database.Unread UserEventRow.key
    simp only [decide_eq_true_eq, Prod.mk.injEq, and_assoc]
  rw [← hpos]
  omega

theorem updateReadState_not_unread {uid seq : ℤ} {n : ℕ} {db db' : Database}
    (h : updateReadState uid seq db = .ok (n, db')) : ¬ db'.Unread (uid, seq) := by
  rintro ⟨r, hr, hkey, hunread⟩
  rw [(updateReadState_ok h).2.2.2] at hr
  obtain ⟨s, -, rfl⟩ := List.mem_map.mp hr
  split_ifs at hkey hunread with hs
  exact hs ⟨congrArg Prod.fst hkey, congrArg Prod.snd hkey, hunread⟩

theorem updateReadState_onlyReadState {uid seq : ℤ} {n : ℕ} {db db' : Database}
    (h : updateReadState uid seq db = .ok (n, db')) :
    List.Forall₂ (OnlyReadState uid seq) db.userEvents.rows db'.userEvents.rows := by
  rw [(updateReadState_ok h).2.2.2, List.forall₂_map_right_iff, List.forall₂_same]
  intro r _
  split_ifs with hr
  · exact .inr ⟨Prod.ext hr.1 hr.2.1, rfl⟩
  · exact .inl rfl

section ReadForGood
variable {k : ℤ × ℤ} {db db' : Database}

/-- A new row has a sequence above all those assigned before. -/
theorem Delivered.readForGood {t : DateTime} {o uid : ℤ} (h : Delivered t o db uid db')
    (hk : db.ReadForGood k) : db'.ReadForGood k where
  assigned := by
    have hold := hk.assigned
    by_cases hu : k.1 = uid
    · rw [hu, h.headSeq_self]
      rw [hu] at hold
      omega
    · rw [h.headSeq_other hu]
      exact hold
  notUnread := by
    rintro ⟨r, hr, rfl, hunread⟩
    rw [h.userEvents, List.mem_append, List.mem_singleton] at hr
    rcases hr with hr | rfl
    · exact hk.notUnread ⟨r, hr, rfl, hunread⟩
    · have hold : db.headSeq uid + 1 ≤ db.headSeq uid := hk.assigned
      omega

theorem Deliveries.readForGood {t : DateTime} {o : ℤ} {uids : List ℤ} {m : GoMap ℤ ℤ}
    (h : Deliveries t o db uids m db') (hk : db.ReadForGood k) : db'.ReadForGood k := by
  induction h with
  | nil => exact hk
  | snoc _ hd ih => exact hd.readForGood ih

theorem Database.ReadForGood.of_rows (hk : db.ReadForGood k) (hseq : db'.userSeq = db.userSeq)
    (hrows : db'.Unread k → db.Unread k) : db'.ReadForGood k := by
  refine ⟨?_, fun h => hk.notUnread (hrows h)⟩
  rw [headSeq_congr hseq]
  exact hk.assigned

theorem Stored.readForGood {e : Event} {m : GoMap ℤ ℤ} (h : Stored e db m db')
    (hk : db.ReadForGood k) : db'.ReadForGood k := by
  obtain ⟨-, -, t, db₁, -, -, hue, hus, -, hd⟩ := h
  have hopened : db₁.ReadForGood k := hk.of_rows hus (by rw [Database.Unread, hue]; exact id)
  exact hd.readForGood hopened

/-- No operation makes a read row unread, or inserts a row with an old key. -/
theorem storeSystem_readForGood (P : Platform) {op : StoreOp}
    (hstep : (storeSystem P).step db op = some db') (hk : db.ReadForGood k) :
    db'.ReadForGood k := by
  refine storeSystem_step P (I := fun db => db.ReadForGood k) ?_ ?_ ?_ db op db' hk hstep
  · intro e s m s' hs hbody
    rcases saveBody_triple e s.db s m s' rfl hbody with hstored | hdup
    · exact hstored.readForGood hs
    · rw [hdup.unchanged]
      exact hs
  · intro uid seq n db db' hdb hupd
    obtain ⟨-, hus, -, hrows⟩ := updateReadState_ok hupd
    refine hdb.of_rows hus ?_
    rintro ⟨r, hr, hkey, hunread⟩
    rw [hrows] at hr
    obtain ⟨s, hs, rfl⟩ := List.mem_map.mp hr
    split_ifs at hkey hunread
    exact ⟨s, hs, hkey, hunread⟩
  · intro cutoff n db db' hdb hclean
    obtain ⟨hus, -, -, hrows⟩ := cleanEvents_ok hclean
    refine hdb.of_rows hus ?_
    rintro ⟨r, hr, hkey, hunread⟩
    rw [hrows] at hr
    exact ⟨r, (List.mem_filter.mp hr).1, hkey, hunread⟩

theorem SeqInv.readForGood (hi : SeqInv db) {r : UserEventRow} (hr : r ∈ db.userEvents.rows)
    (hread : r.readState = true) : db.ReadForGood r.key where
  assigned := (hi.seq_range hr).2
  notUnread := by
    rintro ⟨s, hs, hkey, hunread⟩
    rw [db.userEvents.eq_of_key_eq hs hr hkey, hread] at hunread
    cases hunread

theorem updateReadState_readForGood {uid seq : ℤ} {n : ℕ} (hi : SeqInv db)
    (hunread : db.Unread (uid, seq)) (h : updateReadState uid seq db = .ok (n, db')) :
    db'.ReadForGood (uid, seq) where
  assigned := by
    obtain ⟨r, hr, hkey, -⟩ := hunread
    rw [headSeq_congr (updateReadState_ok h).2.1]
    obtain ⟨rfl, rfl⟩ : r.uid = uid ∧ r.seq = seq := Prod.mk.inj hkey
    exact (hi.seq_range hr).2
  notUnread := updateReadState_not_unread h

end ReadForGood

/-- What a `SetRead` reports as changed was unread before and is read for good after. -/
theorem mem_changes {P : Platform} {db db' : Database} {op : StoreOp} {k : ℤ × ℤ} (hi : SeqInv db)
    (hstep : (storeSystem P).step db op = some db') (hk : k ∈ op.changes db) :
    db.Unread k ∧ db'.ReadForGood k := by
  cases op with
  | setRead env uid seq =>
    obtain rfl := Option.some.inj hstep
    unfold StoreOp.changes at hk
    cases hresp : (setRead env uid seq db).1 with
    | error e => simp [hresp] at hk
    | ok resp =>
      obtain ⟨n, hupd, rfl⟩ := setRead_ok hresp
      by_cases hn : n = 1
      · simp only [hresp, hn, decide_true, if_true, List.mem_singleton] at hk
        rw [hk]
        have hunread := (updateReadState_affected hupd).mp hn
        exact ⟨hunread, updateReadState_readForGood hi hunread hupd⟩
      · simp [hresp, hn] at hk
  | save env e => cases hk
  | deleteOutdatedEvents env now ttlDays => cases hk

theorem changes_nodup (db : Database) (op : StoreOp) : (op.changes db).Nodup := by
  unfold StoreOp.changes
  split
  · split
    · split_ifs <;> simp
    · simp
  · simp

/-- The record of changes has no repeats, because what is in it is read for good. -/
theorem changes_of_reachable (P : Platform) {s : Database × List (ℤ × ℤ)}
    (h : (readSystem P).Reachable s) : s.2.Nodup ∧ ∀ k ∈ s.2, s.1.ReadForGood k := by
  have hinv : (storeSystem P).Reachable s.1 ∧ s.2.Nodup ∧ ∀ k ∈ s.2, s.1.ReadForGood k := by
    refine System.Reachable.invariant (I := fun s : Database × List (ℤ × ℤ) =>
      (storeSystem P).Reachable s.1 ∧ s.2.Nodup ∧ ∀ k ∈ s.2, s.1.ReadForGood k) ?_ ?_ h
    · rintro ⟨db, log⟩ ⟨hdb, rfl⟩
      exact ⟨.init hdb, List.nodup_nil, by simp⟩
    · rintro ⟨db, log⟩ op ⟨db', log'⟩ ⟨hreach, hnodup, hread⟩ ht
      obtain ⟨hstep, rfl⟩ := System.record_step.mp ht
      have hi := seqInv_of_reachable P hreach
      refine ⟨hreach.step hstep, List.Nodup.append hnodup (changes_nodup db op) ?_, ?_⟩
      · intro k hk hnew
        exact (hread k hk).notUnread (mem_changes hi hstep hnew).1
      · intro k hk
        rcases List.mem_append.mp hk with hk | hk
        · exact storeSystem_readForGood P hstep (hread k hk)
        · exact (mem_changes hi hstep hk).2
  exact hinv.2

theorem setRead_frame (env : TxEnv SqlError) (uid seq : ℤ) (db : Database) :
    (setRead env uid seq db).2.events = db.events ∧
      (setRead env uid seq db).2.userSeq = db.userSeq ∧
      List.Forall₂ (OnlyReadState uid seq) db.userEvents.rows
        (setRead env uid seq db).2.userEvents.rows := by
  rcases setRead_cases env uid seq db with he | ⟨n, hupd⟩
  · rw [he]
    exact ⟨rfl, rfl, List.forall₂_same.mpr fun r _ => .inl rfl⟩
  · obtain ⟨hev, hus, -, -⟩ := updateReadState_ok hupd
    exact ⟨hev, hus, updateReadState_onlyReadState hupd⟩

/-- In every reachable state: no key has been reported changed twice; `SetRead` reports a change
exactly when the row exists and is unread, and leaves it read; a read row stays read in every
continuation; and `SetRead` touches nothing but the read state of its row. -/
theorem read_exactly_once (P : Platform) {db : Database} {log : List (ℤ × ℤ)}
    (h : (readSystem P).Reachable (db, log)) :
    (∀ uid seq, log.count (uid, seq) ≤ 1) ∧
    (∀ env uid seq resp, (setRead env uid seq db).1 = .ok resp →
      (resp.changed = true ↔ db.Unread (uid, seq)) ∧
        ¬ (setRead env uid seq db).2.Unread (uid, seq)) ∧
    (∀ uid seq, ∃ resp, (setRead .calm uid seq db).1 = .ok resp) ∧
    (∀ r ∈ db.userEvents.rows, r.readState = true → ∀ ops db', (storeSystem P).run db ops = some db' →
      ¬ db'.Unread r.key) ∧
    ∀ env uid seq, (setRead env uid seq db).2.events = db.events ∧
      (setRead env uid seq db).2.userSeq = db.userSeq ∧
      List.Forall₂ (OnlyReadState uid seq) db.userEvents.rows
        (setRead env uid seq db).2.userEvents.rows := by
  have hlog := changes_of_reachable P h
  have hi : SeqInv db := seqInv_of_reachable P (System.Reachable.of_record h)
  refine ⟨?_, ?_, ?_, ?_, fun env uid seq => setRead_frame env uid seq db⟩
  · intro uid seq
    exact List.nodup_iff_count_le_one.mp hlog.1 (uid, seq)
  · intro env uid seq resp hresp
    obtain ⟨n, hupd, rfl⟩ := setRead_ok hresp
    rw [← updateReadState_affected hupd]
    exact ⟨by simp, updateReadState_not_unread hupd⟩
  · intro uid seq
    exact ⟨_, rfl⟩
  · intro r hr hread ops db' hrun
    have hgood : db'.ReadForGood r.key :=
      System.run_invariant (I := fun db => db.ReadForGood r.key)
        (fun _ _ _ hk hstep => storeSystem_readForGood P hstep hk) (hi.readForGood hr hread) ops hrun
    exact hgood.notUnread

/-- A server that compares dates by their Unix time. -/
def Platform.unix : Platform := ⟨.fixed 0, ⟨DateTime.ms, fun _ => le_refl _⟩⟩

/-- An event for two users is marked read by one of them twice, deleted, and marked again by both;
the next event has a new sequence. -/
def readOps : List StoreOp :=
  [.save .calm ⟨5, 0, [1, 2], []⟩, .setRead .calm 1 1, .setRead .calm 1 1,
    .deleteOutdatedEvents .calm (10 ^ 15) 7, .setRead .calm 2 1, .save .calm ⟨6, 0, [1], []⟩,
    .setRead .calm 1 1, .setRead .calm 1 2]

theorem read_exactly_once_readOps :
    ∃ db log, (readSystem .unix).run (.empty, []) readOps = some (db, log) ∧
      log = [(1, 1), (1, 2)] ∧ ∀ uid seq, log.count (uid, seq) ≤ 1 := by
  have hinit : (readSystem .unix).Reachable (.empty, []) := .init ⟨rfl, rfl⟩
  exact ⟨_, _, rfl, by decide +kernel, (read_exactly_once .unix (hinit.run readOps rfl)).1⟩

end MiniPush.Store
