import MiniPush.Store.RowLock

/-! Sequence allocation by concurrent transactions: the commits of one user return consecutive
sequences, until the sequence leaves `int32`. -/
namespace MiniPush.Store
open Foundation System

/-- The values returned to the committed transactions are `k + 1, ..., k + n` in the order of the
commits, and the stored sequence is `k + n`. -/
structure Sequential (uid k : ℤ) {m : ℕ} (s : SeqTxs m) : Prop where
  distinct : s.returned.Nodup
  returned : s.returned = (List.range s.returned.length).map fun i : ℕ => k + i + 1
  stored : s.db.headSeq uid = k + s.returned.length

namespace Sequential
variable {uid k : ℤ} {m : ℕ} {s : SeqTxs m}

theorem of_returned (h : s.returned = (List.range s.returned.length).map fun i : ℕ => k + i + 1)
    (hdb : s.db.headSeq uid = k + s.returned.length) : Sequential uid k s := by
  constructor
  · rw [h]
    refine List.Nodup.map (fun i j hij => ?_) List.nodup_range
    simpa using hij
  · exact h
  · exact hdb

theorem start (uid : ℤ) (m : ℕ) (db : Database) :
    Sequential uid (db.headSeq uid) (SeqTxs.start m db) :=
  of_returned rfl (by simp [SeqTxs.start])

/-- A commit appends the next sequence as long as it is an `int32`. -/
theorem commit {t : Fin m} {seq : ℤ} (h : Sequential uid k s) (hi : s.Inv uid)
    (hpc : s.pc t = .running (.returned seq)) (hk : 0 ≤ k)
    (hlt : s.db.headSeq uid + 1 < 2 ^ 31) : Sequential uid k (s.commit t seq) := by
  have hmine := hi.each t
  rw [hpc] at hmine
  obtain ⟨howner, -, hseq, hadv⟩ := hmine
  have hval : seq = k + s.returned.length + 1 := by
    rw [hseq, ← h.stored, int32]
    have := h.stored
    omega
  apply of_returned
  · simp only [SeqTxs.commit, List.length_append, List.length_singleton, List.range_succ,
      List.map_append, List.map_singleton, ← h.returned, hval]
  · rw [SeqTxs.commit, (s.view_spec t).1 howner, headSeq_of_find? hadv.self, h.stored]
    simp [add_assoc]

/-- A step other than a commit changes neither the committed database nor the returned values. -/
theorem congr {s' : SeqTxs m} (h : Sequential uid k s) (hdb : s'.db = s.db)
    (hret : s'.returned = s.returned) : Sequential uid k s' := by
  apply of_returned
  · rw [hret]
    exact h.returned
  · rw [hdb, hret]
    exact h.stored

end Sequential

/-- With room for all the transactions below `2 ^ 31`, every run is sequential. -/
theorem sequential_of_room {uid : ℤ} {db : Database} {m : ℕ} (hk : 0 ≤ db.headSeq uid)
    (hroom : db.headSeq uid + m < 2 ^ 31) {s : SeqTxs m}
    (h : (incSeqSystem uid db m).Reachable s) : Sequential uid (db.headSeq uid) s := by
  suffices hboth : s.Inv uid ∧ Sequential uid (db.headSeq uid) s from hboth.2
  refine h.invariant (I := fun s => s.Inv uid ∧ Sequential uid (db.headSeq uid) s) ?_ ?_
  · rintro _ rfl
    exact ⟨SeqTxs.inv_start uid m db, .start uid m db⟩
  · intro s l s' hi hs
    refine ⟨hi.1.step hs, ?_⟩
    rcases SeqTxs.step_cases hs with ⟨pc, pc', db', locked, -, -, -, -, rfl⟩ | ⟨pc, -, rfl⟩ |
      ⟨seq, hpc, rfl⟩
    · exact hi.2.congr rfl rfl
    · exact hi.2.congr rfl rfl
    · have hcard : s.committed.card < m := by
        have hnew : l.1 ∉ s.committed := by simp [hpc]
        simpa using Finset.card_lt_univ_of_notMem hnew
      have hcount := hi.1.count
      have hstored := hi.2.stored
      exact hi.2.commit hi.1 hpc hk (by omega)

theorem sequential_of_past {uid : ℤ} {db : Database} {m : ℕ} (hk : 2 ^ 31 ≤ db.headSeq uid)
    {s : SeqTxs m} (h : (incSeqSystem uid db m).Reachable s) :
    Sequential uid (db.headSeq uid) s := by
  suffices hboth : s.Inv uid ∧ s.db = db ∧ s.returned = [] from
    (Sequential.start uid m db).congr hboth.2.1 hboth.2.2
  refine h.invariant (I := fun s => s.Inv uid ∧ s.db = db ∧ s.returned = []) ?_ ?_
  · rintro _ rfl
    exact ⟨SeqTxs.inv_start uid m db, rfl, rfl⟩
  · intro s l s' hi hs
    refine ⟨hi.1.step hs, ?_⟩
    rcases SeqTxs.step_cases hs with ⟨pc, pc', db', locked, -, -, -, -, rfl⟩ | ⟨pc, -, rfl⟩ |
      ⟨seq, hpc, rfl⟩
    · exact hi.2
    · exact hi.2
    · have hmine := hi.1.each l.1
      rw [hpc, hi.2.1] at hmine
      exact absurd hmine.2.1 (not_lt.mpr hk)

/-- A user id that the column cannot hold has no row and gets none. -/
theorem sequential_of_misfit {uid : ℤ} {db : Database} {m : ℕ} (huid : fitsInt uid = false)
    (hrow : db.userSeq.find? uid = none) {s : SeqTxs m}
    (h : (incSeqSystem uid db m).Reachable s) : Sequential uid (db.headSeq uid) s := by
  suffices hboth : s.Inv uid ∧ s.db = db ∧ s.returned = [] ∧ s.owner = none from
    (Sequential.start uid m db).congr hboth.2.1 hboth.2.2.1
  refine h.invariant (I := fun s => s.Inv uid ∧ s.db = db ∧ s.returned = [] ∧ s.owner = none) ?_ ?_
  · rintro _ rfl
    exact ⟨SeqTxs.inv_start uid m db, rfl, rfl, rfl⟩
  · intro s l s' hi hs
    refine ⟨hi.1.step hs, ?_⟩
    obtain ⟨hinv, hdb, hret, howner⟩ := hi
    have hmine := hinv.each l.1
    rcases SeqTxs.step_cases hs with ⟨pc, pc', db', locked, hpc, -, -, hexec, rfl⟩ | ⟨pc, -, rfl⟩ |
      ⟨seq, hpc, rfl⟩
    · rw [hpc] at hmine
      have hview : s.view l.1 = db := by rw [(s.view_spec l.1).2 (by simp [howner]), hdb]
      have hunlocked : locked = false := by
        rw [hview] at hexec
        cases pc with
        | update seq => exact absurd hmine.1 (by simp [howner])
        | returned v => exact absurd hmine.1 (by simp [howner])
        | selectForUpdate =>
          simp only [IncPc.exec, lockSeq, hrow] at hexec
          grind
        | insert => simp [IncPc.exec, insertSeq, huid, isDupKeyError] at hexec
        | selectAgain => simp [IncPc.exec, lockSeq, hrow] at hexec
      subst hunlocked
      exact ⟨hdb, hret, howner⟩
    · exact ⟨hdb, hret, by simp [SeqTxs.rollback, howner]⟩
    · rw [hpc] at hmine
      exact absurd hmine.1 (by simp [howner])

theorem increaseSeq_of_fits (uid : ℤ) {seq : ℤ} (db : Database) (h : fitsInt (seq + 1) = true) :
    ∃ db', increaseSeq uid seq db = .ok ((), db') := by
  have hall : (db.userSeq.rows.all fun r =>
      !decide (r.uid = uid ∧ r.seq = seq) || fitsInt (r.seq + 1)) = true := by
    rw [List.all_eq_true]
    intro r hr
    by_cases hit : r.uid = uid ∧ r.seq = seq
    · simp [hit.2, h]
    · simp [hit]
  exact ⟨_, if_pos hall⟩

/-- Run alone, `incSeq` returns as long as the sequence is an `int32`. -/
theorem runAlone_returns {uid : ℤ} {db : Database} (huid : fitsInt uid = true)
    (hlo : 0 ≤ db.headSeq uid) (hlt : db.headSeq uid < 2 ^ 31) :
    ∃ v db', IncPc.runAlone uid 4 .selectForUpdate db = (.ok (.returned v), db') := by
  have hupdate : ∀ n db₁, ∃ v db',
      IncPc.runAlone uid (n + 1) (.update (db.headSeq uid)) db₁ = (.ok (.returned v), db') := by
    intro n db₁
    have hfits : fitsInt (db.headSeq uid + 1) = true := by
      simp only [fitsInt, decide_eq_true_eq]
      omega
    obtain ⟨db', h⟩ := increaseSeq_of_fits uid db₁ hfits
    refine ⟨int32 (db.headSeq uid + 1), db', ?_⟩
    simp only [IncPc.runAlone, IncPc.exec, h]
    exact runAlone_returned uid n _ _
  cases hrow : db.userSeq.find? uid with
  | none =>
    have hhead := headSeq_of_find?_none hrow
    obtain ⟨userSeq, hins⟩ : ∃ userSeq, db.userSeq.insert? ⟨uid, 1⟩ = some userSeq := by
      simp [Table.insert?, hrow]
    rw [hhead] at hupdate
    have hselect : IncPc.exec uid db .selectForUpdate = .ok (.insert, db, false) := by
      simp [IncPc.exec, lockSeq, hrow]
    have hinsert : IncPc.exec uid db .insert = .ok (.update 0, { db with userSeq }, true) := by
      simp [IncPc.exec, insertSeq, huid, hins]
    simp only [IncPc.runAlone, hselect, hinsert]
    exact hupdate 1 _
  | some r =>
    have hhead := headSeq_of_find? hrow
    have hlock : lockSeq uid db = .ok (db.headSeq uid, db) := by
      rw [hhead] at hlo hlt ⊢
      simp only [lockSeq, hrow]
      exact if_pos ⟨by omega, hlt⟩
    by_cases h0 : db.headSeq uid = 0
    · have hdup : db.userSeq.insert? ⟨uid, 1⟩ = none :=
        Table.insert?_eq_none_iff.mpr ⟨r, Table.find?_eq_some_iff.mp hrow⟩
      have hselect : IncPc.exec uid db .selectForUpdate = .ok (.insert, db, true) := by
        simp [IncPc.exec, hlock, h0]
      have hinsert : IncPc.exec uid db .insert = .ok (.selectAgain, db, false) := by
        simp [IncPc.exec, insertSeq, huid, hdup, isDupKeyError]
      have hagain : IncPc.exec uid db .selectAgain = .ok (.update (db.headSeq uid), db, true) := by
        simp [IncPc.exec, hlock]
      rw [IncPc.runAlone, hselect]
      simp only
      rw [IncPc.runAlone, hinsert]
      simp only
      rw [IncPc.runAlone, hagain]
      exact hupdate 0 _
    · have hselect : IncPc.exec uid db .selectForUpdate = .ok (.update (db.headSeq uid), db, true) := by
        simp [IncPc.exec, hlock, h0]
      rw [IncPc.runAlone, hselect]
      exact hupdate 2 _

section Alone
variable {uid : ℤ} {db : Database} {m : ℕ} {s : SeqTxs m} {t : Fin m}

private theorem step_statement {pc pc' : IncPc} {db' : Database} {locked : Bool}
    (hpc : s.pc t = .running pc) (hret : ∀ v, pc ≠ .returned v) (hen : s.Enabled uid t pc)
    (hexec : pc.exec uid (s.view t) = .ok (pc', db', locked)) :
    s.step uid t .statement = some (s.advance t pc' db' locked) := by
  cases pc with
  | returned v => exact absurd rfl (hret v)
  | _ => simp only [SeqTxs.step, hpc, if_pos hen, hexec]

private theorem view_advance {pc pc' : IncPc} {db' : Database} {locked : Bool}
    (hexec : pc.exec uid (s.view t) = .ok (pc', db', locked)) :
    (s.advance t pc' db' locked).view t = db' := by
  cases locked with
  | true => simp [SeqTxs.view, SeqTxs.advance]
  | false => simpa [SeqTxs.view, SeqTxs.advance] using (SeqTxs.exec_unlocked hexec).symm

/-- The system can run one transaction alone while the row is free or its own. -/
theorem reachable_runAlone {n : ℕ} {pc : IncPc} {v : ℤ} {db' : Database}
    (hr : (incSeqSystem uid db m).Reachable s) (hpc : s.pc t = .running pc)
    (howner : s.owner = none ∨ s.owner = some t)
    (hrun : IncPc.runAlone uid n pc (s.view t) = (.ok (.returned v), db')) :
    ∃ s', (incSeqSystem uid db m).Reachable s' ∧
      s'.pc = Function.update s.pc t (.running (.returned v)) ∧
      s'.db = s.db ∧ s'.returned = s.returned := by
  induction n generalizing s pc with
  | zero =>
    obtain rfl := Except.ok.inj (Prod.mk.inj hrun).1
    exact ⟨s, hr, (Function.update_eq_self_iff.mpr hpc.symm).symm, rfl, rfl⟩
  | succ n ih =>
    by_cases hret : ∃ v', pc = .returned v'
    · obtain ⟨v', rfl⟩ := hret
      rw [runAlone_returned] at hrun
      obtain rfl := IncPc.returned.inj (Except.ok.inj (Prod.mk.inj hrun).1)
      exact ⟨s, hr, (Function.update_eq_self_iff.mpr hpc.symm).symm, rfl, rfl⟩
    · rw [IncPc.runAlone] at hrun
      cases hexec : pc.exec uid (s.view t) with
      | error e => simp [hexec] at hrun
      | ok r =>
        simp only [hexec] at hrun
        have hstep := step_statement hpc (fun v' he => hret ⟨v', he⟩)
          (howner.imp id .inl) hexec
        have hpc' : (s.advance t r.1 r.2.1 r.2.2).pc t = .running r.1 := by
          simp [SeqTxs.advance]
        have howner' : (s.advance t r.1 r.2.1 r.2.2).owner = none ∨
            (s.advance t r.1 r.2.1 r.2.2).owner = some t := by
          simp only [SeqTxs.advance]
          split_ifs
          · exact .inr rfl
          · exact howner
        rw [← view_advance hexec] at hrun
        obtain ⟨s', hr', hpcs, hdb, hreturned⟩ :=
          ih (hr.step (l := (t, .statement)) hstep) hpc' howner' hrun
        exact ⟨s', hr', by rw [hpcs, SeqTxs.advance, Function.update_idem], hdb, hreturned⟩

theorem reachable_commit (huid : fitsInt uid = true) (hr : (incSeqSystem uid db m).Reachable s)
    (hpc : s.pc t = .running .selectForUpdate) (howner : s.owner = none)
    (hlo : 0 ≤ s.db.headSeq uid) (hlt : s.db.headSeq uid < 2 ^ 31) :
    ∃ s', (incSeqSystem uid db m).Reachable s' ∧ s'.owner = none ∧
      s'.pc = Function.update s.pc t .committed ∧
      s'.db.headSeq uid = s.db.headSeq uid + 1 ∧
      s'.returned = s.returned ++ [int32 (s.db.headSeq uid + 1)] := by
  obtain ⟨v, db', hrun⟩ := runAlone_returns huid hlo hlt
  rw [← (s.view_spec t).2 (by simp [howner])] at hrun
  obtain ⟨s', hr', hpcs, hdb, hret⟩ := reachable_runAlone hr hpc (.inl howner) hrun
  have hpc' : s'.pc t = .running (.returned v) := by simp [hpcs]
  have hmine := (SeqTxs.inv_of_reachable hr').each t
  rw [hpc'] at hmine
  obtain ⟨howner', -, hv, hadv⟩ := hmine
  rw [hdb] at hv hadv
  have hstep : s'.step uid t .commit = some (s'.commit t v) := by
    simp only [SeqTxs.step, hpc']
  refine ⟨s'.commit t v, hr'.step (l := (t, .commit)) hstep, ?_, ?_, ?_, ?_⟩
  · simp [SeqTxs.commit, howner']
  · simp [SeqTxs.commit, hpcs]
  · rw [SeqTxs.commit, (s'.view_spec t).1 howner', headSeq_of_find? hadv.self]
  · simp [SeqTxs.commit, hret, hv]

theorem reachable_commits (huid : fitsInt uid = true) (hlo : 0 ≤ db.headSeq uid) (n : ℕ)
    (hn : n ≤ m) (hlt : db.headSeq uid + n ≤ 2 ^ 31) :
    ∃ s, (incSeqSystem uid db m).Reachable s ∧ s.owner = none ∧
      (∀ t : Fin m, n ≤ t → s.pc t = .running .selectForUpdate) ∧
      s.db.headSeq uid = db.headSeq uid + n := by
  induction n with
  | zero => exact ⟨.start m db, .init rfl, rfl, fun _ _ => rfl, by simp [SeqTxs.start]⟩
  | succ n ih =>
    obtain ⟨s, hr, howner, hpc, hhead⟩ := ih (by omega) (by push_cast at hlt; omega)
    obtain ⟨s', hr', howner', hpcs, hhead', -⟩ := reachable_commit huid hr
      (hpc ⟨n, hn⟩ le_rfl) howner (by omega) (by push_cast at hlt; omega)
    refine ⟨s', hr', howner', fun t ht => ?_, by push_cast; omega⟩
    have hne : t ≠ ⟨n, hn⟩ := fun he => by simp [he] at ht
    rw [hpcs, Function.update_of_ne hne]
    exact hpc t (by omega)

end Alone

/-- One transaction at the last `int32` returns a wrapped sequence. -/
theorem exists_not_sequential {uid : ℤ} {db : Database} {m : ℕ} (huid : fitsInt uid = true)
    (hlo : 0 ≤ db.headSeq uid) (hlt : db.headSeq uid < 2 ^ 31)
    (hroom : 2 ^ 31 ≤ db.headSeq uid + m) :
    ∃ s, (incSeqSystem uid db m).Reachable s ∧ ¬ Sequential uid (db.headSeq uid) s := by
  obtain ⟨n, hn⟩ : ∃ n : ℕ, db.headSeq uid + n + 1 = 2 ^ 31 :=
    ⟨(2 ^ 31 - 1 - db.headSeq uid).toNat, by omega⟩
  have hm : n < m := by omega
  obtain ⟨s, hr, howner, hpc, hhead⟩ := reachable_commits huid hlo n hm.le (by omega)
  obtain ⟨s', hr', -, -, -, hret⟩ := reachable_commit huid hr (hpc ⟨n, hm⟩ le_rfl) howner
    (by omega) (by omega)
  refine ⟨s', hr', fun hseq => ?_⟩
  have hmem : int32 (2 ^ 31) ∈ s'.returned := by
    rw [hret, hhead, hn]
    simp
  rw [hseq.returned] at hmem
  obtain ⟨i, -, hi⟩ := List.mem_map.mp hmem
  rw [show int32 (2 ^ 31) = -2 ^ 31 by decide] at hi
  omega

/-- Concurrent allocation is sequential in every run exactly if the sequence stays an `int32`, or
no transaction can commit at all. -/
theorem sequential_exactly_within_int32 (uid : ℤ) (db : Database) (m : ℕ)
    (hrows : ∀ r ∈ db.userSeq.rows, fitsInt r.uid = true ∧ fitsInt r.seq = true) :
    (∀ s, (incSeqSystem uid db m).Reachable s → Sequential uid (db.headSeq uid) s) ↔
      db.headSeq uid + m < 2 ^ 31 ∨ 2 ^ 31 ≤ db.headSeq uid ∨ fitsInt uid = false := by
  have hlo : 0 ≤ db.headSeq uid := by
    cases hf : db.userSeq.find? uid with
    | none => exact (headSeq_of_find?_none hf).ge
    | some r =>
      have hfit := (hrows r (Table.find?_eq_some_iff.mp hf).1).2
      rw [headSeq_of_find? hf]
      exact (of_decide_eq_true hfit).1
  constructor
  · intro hall
    by_contra hcond
    rw [not_or, not_or, Bool.not_eq_false] at hcond
    obtain ⟨hroom, hlt, huid⟩ := hcond
    obtain ⟨s, hr, hbad⟩ := exists_not_sequential huid hlo (not_le.mp hlt) (not_lt.mp hroom)
    exact hbad (hall s hr)
  · intro hcond s hr
    rcases hcond with hroom | hpast | huid
    · exact sequential_of_room hlo hroom hr
    · exact sequential_of_past hpast hr
    · apply sequential_of_misfit huid _ hr
      rw [Table.find?_eq_none_iff]
      intro r hr he
      have hfit := (hrows r hr).1
      rw [he, huid] at hfit
      cases hfit

/-- Two transactions that both find no row; the second one to insert gets a duplicate key. -/
def insertRaceRun : List (Fin 2 × SeqLabel) :=
  [(0, .statement), (1, .statement), (0, .statement), (0, .statement), (0, .commit), (1, .statement),
    (1, .statement), (1, .statement), (1, .commit)]

theorem sequential_insertRaceRun :
    ∃ s, (incSeqSystem 1 .empty 2).run (.start 2 .empty) insertRaceRun = some s ∧
      s.returned = [1, 2] ∧ Sequential 1 (Database.empty.headSeq 1) s := by
  have hrun : ((incSeqSystem 1 .empty 2).run (.start 2 .empty) insertRaceRun).map
      SeqTxs.returned = some [1, 2] := by
    decide +kernel
  obtain ⟨s, hs, hret⟩ := Option.map_eq_some_iff.mp hrun
  have hall := (sequential_exactly_within_int32 1 .empty 2 (by simp [Database.empty])).mpr
    (.inl (by decide +kernel))
  exact ⟨s, hs, hret, hall s (Reachable.run (.init rfl) _ hs)⟩

/-- A store in which user 1 has used the sequences up to the last `int32`. -/
def lastSeqDatabase : Database :=
  { Database.empty with userSeq := ⟨[⟨1, 2 ^ 31 - 1⟩], by simp⟩ }

/-- The only transaction commits with a negative sequence and moves the row past `int32`. -/
theorem last_int32_wraps :
    ∃ s, (incSeqSystem 1 lastSeqDatabase 1).Reachable s ∧ s.returned = [-2 ^ 31] ∧
      s.db.headSeq 1 = 2 ^ 31 ∧ ¬ Sequential 1 (lastSeqDatabase.headSeq 1) s := by
  have hrun : ((incSeqSystem 1 lastSeqDatabase 1).run (.start 1 lastSeqDatabase)
      [(0, .statement), (0, .statement), (0, .commit)]).map (fun s => (s.returned, s.db.headSeq 1)) =
        some ([-2 ^ 31], 2 ^ 31) := by
    decide +kernel
  obtain ⟨s, hs, hview⟩ := Option.map_eq_some_iff.mp hrun
  obtain ⟨hret, hhead⟩ := Prod.mk.inj hview
  have hr : (incSeqSystem 1 lastSeqDatabase 1).Reachable s :=
    Reachable.run (.init rfl) _ hs
  refine ⟨s, hr, hret, hhead, fun hseq => ?_⟩
  have hbad := hseq.returned
  rw [hret] at hbad
  revert hbad
  decide +kernel

end MiniPush.Store
