import MiniPush.Store.Atomicity

/-! What holds of every row of the store: user ids and sequences stay within their types, and a row
of `user_events` has the create time of its event. -/
namespace MiniPush.Store
open Foundation

def Database.UidsFit (db : Database) : Prop := ∀ r ∈ db.userEvents.rows, fitsInt r.uid = true

def Database.SeqsFit (db : Database) : Prop := ∀ uid, db.headSeq uid < 2 ^ 31

def Database.TimesAgree (db : Database) : Prop :=
  ∀ r ∈ db.userEvents.rows, ∀ e ∈ db.events.rows, e.topicOffset = r.topicOffset →
    r.createTime = e.createTime

theorem Database.UidsFit.of_eq {db db' : Database} (h : db.UidsFit)
    (he : db'.userEvents = db.userEvents) : db'.UidsFit := by
  intro r hr
  rw [he] at hr
  exact h r hr

theorem Database.SeqsFit.of_eq {db db' : Database} (h : db.SeqsFit)
    (he : db'.userSeq = db.userSeq) : db'.SeqsFit := by
  intro uid
  rw [headSeq_congr he]
  exact h uid

/-- A character takes at least one byte. -/
theorem utf8mb4Length?_le {s : Bytes} {n : ℕ} (h : utf8mb4Length? s = some n) : n ≤ s.length := by
  fun_induction utf8mb4Length? s generalizing n <;> grind [Option.map_eq_some_iff]

theorem fitsPayload_iff {s : Bytes} (h : s.length ≤ 4096) :
    fitsPayload s = true ↔ (utf8mb4Length? s).isSome := by
  unfold fitsPayload
  cases hn : utf8mb4Length? s with
  | none => simp
  | some n =>
    have := utf8mb4Length?_le hn
    simp only [decide_eq_true_eq, Option.isSome_some, iff_true]
    omega

/-- What the insertion of the event and each delivery keep, `Save` keeps. -/
theorem saveBody_keeps {I : Database → Prop} (e : Event)
    (hinsert : ∀ u db db', I db → insertEvent e.offset e.createTime e.payload db = .ok (u, db') →
      I db')
    (hto : ∀ seqMap uid, Tx.Triple I (saveTo e seqMap uid) fun _ => I) :
    Tx.Triple I (saveBody e) fun _ => I := by
  unfold saveBody
  refine Tx.Triple.bind (Q := fun _ => I)
    (Tx.Triple.attempt (fun _ _ h => h) fun db u db' => hinsert u db db') fun inserted => ?_
  rcases inserted with err | _
  · simp only
    split_ifs
    · refine Tx.Triple.bind (Q := fun _ => I)
        (Tx.Triple.attempt (fun _ _ h => h) ?_) fun stored => ?_
      · intro db row db' hdb hget
        unfold getEvent at hget
        split at hget <;> cases hget
        exact hdb
      · rcases stored with err' | row
        · exact Tx.Triple.throw err
        · simp only
          split_ifs
          · exact Tx.Triple.pure _ fun _ h => h
          · exact Tx.Triple.throw err
    · exact Tx.Triple.throw err
  · refine Tx.Triple.bind (Q := fun _ => I) (Tx.Triple.statement ?_) fun _ =>
      Tx.Triple.foldlM (I := fun _ _ => I) (fun _ uid seqMap => hto seqMap uid) [] e.toUids ∅
    rintro db _ db' hdb hprep
    cases hprep
    exact hdb

private theorem saveTo_uidsFit (e : Event) (seqMap : GoMap ℤ ℤ) (uid : ℤ) :
    Tx.Triple Database.UidsFit (saveTo e seqMap uid) fun _ => Database.UidsFit := by
  unfold saveTo
  refine Tx.Triple.bind (Q := fun _ => Database.UidsFit) ?_ fun seq => ?_
  · intro s v s' hs hr
    obtain ⟨-, -, hadv⟩ := incSeq_triple s.db uid s v s' rfl hr
    exact hs.of_eq hadv.userEvents
  · refine Tx.Triple.bind (Q := fun _ => Database.UidsFit) (Tx.Triple.statement ?_) fun _ =>
      Tx.Triple.pure _ fun _ h => h
    intro db _ db' hdb hins r hr
    obtain ⟨t, -, huid, -, -, hrows, -⟩ := insertUserEvent_ok hins
    rw [hrows] at hr
    rcases List.mem_append.mp hr with hr | hr
    · exact hdb r hr
    · rw [List.mem_singleton.mp hr]
      exact huid

/-- A sequence that is too large comes back negative, and the column refuses it. -/
private theorem saveTo_seqsFit (e : Event) (seqMap : GoMap ℤ ℤ) (uid : ℤ) :
    Tx.Triple Database.SeqsFit (saveTo e seqMap uid) fun _ => Database.SeqsFit := by
  unfold saveTo
  refine Tx.Triple.bind (Q := fun seq db => 0 ≤ seq → db.SeqsFit) ?_ fun seq => ?_
  · intro s seq s' hs hr hpos v
    obtain ⟨⟨-, hlt⟩, rfl, hadv⟩ := incSeq_triple s.db uid s seq s' rfl hr
    by_cases hv : v = uid
    · subst hv
      rw [headSeq_of_find? hadv.self]
      show s.db.headSeq v + 1 < 2 ^ 31
      unfold int32 at hpos
      omega
    · rw [Database.headSeq, hadv.other v hv]
      exact hs v
  · refine Tx.Triple.bind (Q := fun _ => Database.SeqsFit) (Tx.Triple.statement ?_) fun _ =>
      Tx.Triple.pure _ fun _ h => h
    intro db _ db' hdb hins
    obtain ⟨t, -, -, hpos, -, -, -, hus, -⟩ := insertUserEvent_ok hins
    exact (hdb hpos).of_eq hus

theorem uidsFit_of_reachable (P : Platform) {db : Database} (h : (storeSystem P).Reachable db) :
    db.UidsFit := by
  refine storeSystem_invariant P (I := Database.UidsFit) ?_ (fun e => saveBody_keeps e ?_
    (saveTo_uidsFit e)) ?_ ?_ h
  · intro r hr
    simp [Database.empty] at hr
  · intro u db db' hdb hins
    obtain ⟨-, -, -, -, -, hue, -⟩ := insertEvent_ok hins
    exact hdb.of_eq hue
  · intro uid seq n db db' hdb hread r hr
    rw [(updateReadState_ok hread).2.2.2] at hr
    obtain ⟨s, hs, rfl⟩ := List.mem_map.mp hr
    have := hdb s hs
    split_ifs <;> exact this
  · intro cutoff n db db' hdb hclean r hr
    rw [(cleanEvents_ok hclean).2.2.2] at hr
    exact hdb r (List.mem_filter.mp hr).1

theorem seqsFit_of_reachable (P : Platform) {db : Database} (h : (storeSystem P).Reachable db) :
    db.SeqsFit := by
  refine storeSystem_invariant P (I := Database.SeqsFit) ?_ (fun e => saveBody_keeps e ?_
    (saveTo_seqsFit e)) ?_ ?_ h
  · intro uid
    exact (by decide : (0 : ℤ) < 2 ^ 31)
  · intro u db db' hdb hins
    obtain ⟨-, -, -, -, -, -, hus, -⟩ := insertEvent_ok hins
    exact hdb.of_eq hus
  · intro uid seq n db db' hdb hread
    exact hdb.of_eq (updateReadState_ok hread).2.1
  · intro cutoff n db db' hdb hclean
    exact hdb.of_eq (cleanEvents_ok hclean).1

theorem Stored.timesAgree {e : Event} {db db' : Database} {m : GoMap ℤ ℤ} (h : Stored e db m db')
    (hdb : db.TimesAgree) : db'.TimesAgree := by
  obtain ⟨t, rows, -, hev, hue, -, hall⟩ := h.gained.rows
  have hfresh := Table.find?_eq_none_iff.mp h.fresh
  intro r hr ev hev' hoff
  rw [hue] at hr
  rw [hev] at hev'
  rcases List.mem_append.mp hr with hr | hr <;> rcases List.mem_append.mp hev' with hev' | hev'
  · exact hdb r hr ev hev' hoff
  · obtain rfl := List.mem_singleton.mp hev'
    obtain ⟨old, hold, hoff'⟩ := db.references r hr
    exact absurd (hoff'.trans hoff.symm) (hfresh old hold)
  · exact absurd (hoff.trans (hall r hr).2.2) (hfresh ev hev')
  · obtain rfl := List.mem_singleton.mp hev'
    exact (hall r hr).1

theorem timesAgree_of_reachable (P : Platform) {db : Database} (h : (storeSystem P).Reachable db) :
    db.TimesAgree := by
  refine storeSystem_invariant P (I := Database.TimesAgree) ?_ (fun e => ?_) ?_ ?_ h
  · intro r hr
    simp [Database.empty] at hr
  · intro s m s' hs hr
    rcases saveBody_triple e s.db s m s' rfl hr with hstored | halready
    · exact hstored.timesAgree hs
    · rw [halready.unchanged]
      exact hs
  · intro uid seq n db db' hdb hread r hr ev hev hoff
    obtain ⟨hevents, -, -, hrows⟩ := updateReadState_ok hread
    rw [hrows] at hr
    rw [hevents] at hev
    obtain ⟨s, hs, rfl⟩ := List.mem_map.mp hr
    have := hdb s hs ev hev
    split_ifs at hoff ⊢ <;> exact this hoff
  · intro cutoff n db db' hdb hclean r hr ev hev hoff
    obtain ⟨-, -, hevents, hrows⟩ := cleanEvents_ok hclean
    rw [hrows] at hr
    rw [hevents] at hev
    exact hdb r (List.mem_filter.mp hr).1 ev (List.mem_filter.mp hev).1 hoff

end MiniPush.Store
