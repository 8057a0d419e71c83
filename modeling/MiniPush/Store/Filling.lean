import MiniPush.Store.Allocation
import MiniPush.Store.Ranges

/-! Saves that succeed, and the stores they lead to: a user can be sent any number of events up to
the last sequence. -/
namespace MiniPush.Store
open Foundation

section Statements
variable {db : Database} {uid seq offset createTime : ℤ} {payload : Bytes} {t : DateTime}

theorem insertEvent_of_fresh (ht : DateTime.ofTime? createTime = some t)
    (hfit : (fitsBigint offset && fitsPayload payload) = true)
    (hfree : db.events.find? offset = none) :
    ∃ db', insertEvent offset createTime payload db = .ok ((), db') := by
  simp only [insertEvent, ht, hfit, if_true]
  split
  · rename_i hins
    obtain ⟨r, hr, hk⟩ := Table.insert?_eq_none_iff.mp hins
    exact absurd hk (Table.find?_eq_none_iff.mp hfree r hr)
  · exact ⟨_, rfl⟩

theorem insertUserEvent_of_fresh (ht : DateTime.ofTime? createTime = some t)
    (hfit : (fitsInt uid && fitsInt seq && fitsBigint offset) = true)
    (hfree : db.userEvents.find? (uid, seq) = none) (hevent : (db.events.find? offset).isSome) :
    ∃ db', insertUserEvent uid seq createTime offset db = .ok ((), db') := by
  simp only [insertUserEvent, ht, hfit, if_true]
  split
  · rename_i hins
    obtain ⟨r, hr, hk⟩ := Table.insert?_eq_none_iff.mp hins
    exact absurd hk (Table.find?_eq_none_iff.mp hfree r hr)
  · rw [dif_pos hevent]
    exact ⟨_, rfl⟩

end Statements

theorem SeqInv.find?_next {db : Database} (h : SeqInv db) (uid : ℤ) :
    db.userEvents.find? (uid, db.headSeq uid + 1) = none := by
  rw [Table.find?_eq_none_iff]
  intro r hr hk
  obtain ⟨rfl, hs⟩ := Prod.mk.inj hk
  have := (h.seq_range hr).2
  omega

private theorem selectForUpdate_calm (uid : ℤ) : Tx.Calm (selectForUpdate uid) := by
  refine Tx.Calm.bind (Tx.Calm.attempt (Tx.Calm.statement _)) fun locked => ?_
  rcases locked with e | seq
  · cases e
    case noRows => exact Tx.Calm.pure 0
    all_goals exact Tx.Calm.throw _
  · exact Tx.Calm.pure seq

private theorem insertIfNotFound_calm (uid seq : ℤ) : Tx.Calm (insertIfNotFound uid seq) := by
  unfold insertIfNotFound
  split_ifs
  · refine Tx.Calm.bind (Tx.Calm.attempt (Tx.Calm.statement _)) fun inserted => ?_
    rcases inserted with e | _
    · simp only
      split_ifs
      · exact Tx.Calm.statement _
      · exact Tx.Calm.throw e
    · exact Tx.Calm.pure seq
  · exact Tx.Calm.pure seq

theorem incSeq_total {db : Database} {uid : ℤ} (hfit : fitsInt uid = true)
    (hnonneg : 0 ≤ db.headSeq uid) (hroom : db.headSeq uid + 1 < 2 ^ 31) :
    Tx.Total (· = db) (incSeq uid) fun v db' =>
      v = db.headSeq uid + 1 ∧ SeqAdvanced db uid db' := by
  have hcalm : Tx.Calm (incSeq uid) :=
    Tx.Calm.bind (selectForUpdate_calm uid) fun _ =>
      Tx.Calm.bind (insertIfNotFound_calm uid _) fun _ =>
        Tx.Calm.bind (Tx.Calm.statement _) fun _ => Tx.Calm.pure _
  have hreturns : Tx.Total (· = db) (incSeq uid) fun _ _ => True := by
    refine Tx.Total.of_ok hcalm ?_
    rintro db rfl
    obtain ⟨v, db', hrun⟩ := runAlone_returns hfit hnonneg (by omega)
    rw [runAlone_eq_incSeq] at hrun
    cases hr : (incSeq uid ⟨db, []⟩).1 with
    | error e =>
      rw [hr] at hrun
      cases hrun
    | ok v => exact ⟨v, rfl⟩
  intro db₁ hdb
  obtain ⟨v, db', hrun, -, -, hv, hadv⟩ := hreturns.and (incSeq_triple db uid) db₁ hdb
  exact ⟨v, db', hrun, by rw [hv, int32_of_range (by omega) hroom], hadv⟩

section Save
variable {db db' : Database} {e : Event} {t : DateTime} {uid : ℤ}

private theorem saveTo_total (ht : DateTime.ofTime? e.createTime = some t)
    (hoffset : fitsBigint e.offset = true) (hi : SeqInv db) (huid : fitsInt uid = true)
    (hroom : db.headSeq uid + 1 < 2 ^ 31) (hevent : (db.events.find? e.offset).isSome)
    (seqMap : GoMap ℤ ℤ) :
    Tx.Total (· = db) (saveTo e seqMap uid) fun _ _ => True := by
  have hnonneg : 0 ≤ db.headSeq uid := by
    rw [hi.headSeq_eq uid]
    omega
  unfold saveTo
  refine Tx.Total.bind (incSeq_total huid hnonneg hroom) fun v => ?_
  refine Tx.Total.bind (Q := fun _ _ => True) (Tx.Total.statement ?_) fun _ =>
    Tx.Total.pure _ fun _ _ => trivial
  rintro db₁ ⟨rfl, hadv⟩
  have hfit : (fitsInt uid && fitsInt (db.headSeq uid + 1) && fitsBigint e.offset) = true := by
    have hseq : fitsInt (db.headSeq uid + 1) = true := by
      simp only [fitsInt, decide_eq_true_eq]
      omega
    rw [huid, hseq, hoffset]
    rfl
  have hfree : db₁.userEvents.find? (uid, db.headSeq uid + 1) = none := by
    rw [hadv.userEvents]
    exact hi.find?_next uid
  obtain ⟨db₂, hins⟩ := insertUserEvent_of_fresh ht hfit hfree (by rw [hadv.events]; exact hevent)
  exact ⟨(), db₂, hins, trivial⟩

/-- The recipients can all be served: their ids fit the column, and the sequences that this event
gives them stay within `int32`. -/
def Servable (e : Event) (db : Database) : Prop :=
  ∀ uid ∈ e.toUids, fitsInt uid = true ∧ db.headSeq uid + e.toUids.count uid < 2 ^ 31

private theorem deliver_total (ht : DateTime.ofTime? e.createTime = some t)
    (hoffset : fitsBigint e.offset = true) (hi : SeqInv db) (hto : Servable e db)
    (hevent : (db.events.find? e.offset).isSome) :
    Tx.Total (· = db) (e.toUids.foldlM (saveTo e) ∅) fun _ _ => True := by
  have hstep : ∀ done uid rest m, e.toUids = done ++ uid :: rest →
      Tx.Total (Deliveries t e.offset db done m) (saveTo e m uid)
        (Deliveries t e.offset db (done ++ [uid])) := by
    intro done uid rest m hl db₁ hd
    obtain ⟨huid, hroom⟩ := hto uid (by rw [hl]; simp)
    obtain ⟨-, hev, -⟩ := hd.rows
    have hcount : e.toUids.count uid = done.count uid + 1 + rest.count uid := by
      rw [hl, List.count_append, List.count_cons_self]
      omega
    have hroom₁ : db₁.headSeq uid + 1 < 2 ^ 31 := by
      rw [hd.headSeq uid]
      omega
    have hserved := saveTo_total ht hoffset (hd.seqInv hi) huid hroom₁ (by rw [hev]; exact hevent) m
    obtain ⟨m', db₂, hrun, -, rfl, hd₂⟩ :=
      hserved.and (saveTo_triple e t ht m uid db₁) db₁ rfl
    exact ⟨_, db₂, hrun, hd.snoc hd₂⟩
  have hloop := Tx.Total.foldlM (I := Deliveries t e.offset db) hstep [] e.toUids rfl ∅
  rintro db rfl
  obtain ⟨m, db', hrun, -⟩ := hloop db .nil
  exact ⟨m, db', hrun, trivial⟩

private theorem saveBody_total (ht : DateTime.ofTime? e.createTime = some t)
    (hfit : (fitsBigint e.offset && fitsPayload e.payload) = true) (hi : SeqInv db)
    (hto : Servable e db) (hfree : db.events.find? e.offset = none) :
    Tx.Total (· = db) (saveBody e) fun _ _ => True := by
  rintro db rfl
  obtain ⟨db₁, hins⟩ := insertEvent_of_fresh ht hfit hfree
  obtain ⟨t', -, -, -, hev, hue, hus, hhist⟩ := insertEvent_ok hins
  have hinserted : (Tx.statement (insertEvent e.offset e.createTime e.payload)).attempt ⟨db, []⟩ =
      (.ok (.ok ()), ⟨db₁, []⟩) := by
    rw [Tx.attempt_apply, Tx.statement_of_ok hins]
  have hi₁ : SeqInv db₁ := by
    refine hi.of_rows hus (by rw [hhist]) fun r hr => ?_
    rw [hue] at hr
    exact ⟨r, hr, rfl⟩
  have hto₁ : Servable e db₁ := by
    intro uid huid
    rw [headSeq_congr hus]
    exact hto uid huid
  have hevent : (db₁.events.find? e.offset).isSome := by
    rw [Option.isSome_iff_exists]
    refine ⟨⟨e.offset, t', e.payload⟩, Table.find?_eq_some_iff.mpr ⟨?_, rfl⟩⟩
    rw [hev]
    exact List.mem_append_right _ (List.mem_singleton_self _)
  obtain ⟨m, db₂, hdeliver, -⟩ := deliver_total ht (Bool.and_eq_true_iff.mp hfit).1 hi₁ hto₁ hevent
    db₁ rfl
  refine ⟨m, db₂, ?_, trivial⟩
  rw [saveBody, Tx.bind_of_ok hinserted]
  simp only
  rw [Tx.bind_of_ok (Tx.statement_of_ok rfl), hdeliver]

/-- Where nothing fails, an event with a new offset whose recipients can be served is stored. -/
theorem save_calm_of_fresh (ht : DateTime.ofTime? e.createTime = some t)
    (hfit : (fitsBigint e.offset && fitsPayload e.payload) = true) (hi : SeqInv db)
    (hto : Servable e db) (hfree : db.events.find? e.offset = none) :
    ∃ m db', save .calm e db = (.ok m, db') ∧ Stored e db m db' := by
  have htotal := (saveBody_total ht hfit hi hto hfree).and (saveBody_triple e db)
  obtain ⟨m, db', hsave, -, hstored⟩ := withTx_calm htotal rfl
  refine ⟨m, db', hsave, hstored.resolve_right fun halready => ?_⟩
  obtain ⟨r, hr, hoff, -⟩ := halready.row
  exact Table.find?_eq_none_iff.mp hfree r hr hoff

theorem servable_of_stored (P : Platform) {e : Event} {db db' : Database} {m : GoMap ℤ ℤ}
    (hreach : (storeSystem P).Reachable db) {env : TxEnv SqlError} (hsave : (save env e db).2 = db')
    (h : Stored e db m db') : Servable e db := by
  have hreach' : (storeSystem P).Reachable db' := by
    rw [← hsave]
    exact hreach.step (l := .save env e) rfl
  have hgained := h.gained
  obtain ⟨t, rows, -, -, hue, huids, -⟩ := hgained.rows
  intro uid huid
  constructor
  · rw [← huids] at huid
    obtain ⟨r, hr, rfl⟩ := List.mem_map.mp huid
    refine uidsFit_of_reachable P hreach' r ?_
    rw [hue]
    exact List.mem_append_right _ hr
  · rw [← hgained.advanced uid]
    exact seqsFit_of_reachable P hreach' uid

private theorem Deliveries.none {o : ℤ} {m : GoMap ℤ ℤ} (h : Deliveries t o db [] m db') :
    db' = db := by
  generalize hl : ([] : List ℤ) = uids at h
  cases h with
  | nil => rfl
  | snoc => simp at hl

theorem Deliveries.single {o : ℤ} {m : GoMap ℤ ℤ} (h : Deliveries t o db [uid] m db') :
    Delivered t o db uid db' := by
  generalize hl : [uid] = uids at h
  cases h with
  | nil => cases hl
  | snoc h₁ hd =>
    obtain ⟨rfl, rfl⟩ := List.append_eq_singleton_iff.mp hl.symm |>.resolve_right (by simp)
      |>.imp_right fun h => List.singleton_inj.mp h
    rw [h₁.none] at hd
    exact hd

end Save

/-- A store with the first `n` sequences of a user, one event each. -/
structure Filled (P : Platform) (uid : ℤ) (n : ℕ) (db : Database) : Prop where
  reachable : (storeSystem P).Reachable db
  head : db.headSeq uid = n
  offsets : ∀ e ∈ db.events.rows, e.topicOffset < n
  rows : ∀ seq : ℤ, 1 ≤ seq → seq ≤ n → ∃ r ∈ db.userEvents.rows, r.key = (uid, seq)

theorem filled_empty (P : Platform) (uid : ℤ) : Filled P uid 0 .empty where
  reachable := .init rfl
  head := rfl
  offsets := by simp [Database.empty]
  rows seq hlo hhi := by omega

def nextEvent (uid : ℤ) (n : ℕ) : Event := ⟨n, 0, [uid], []⟩

theorem Filled.save {P : Platform} {uid : ℤ} {n : ℕ} {db : Database} (h : Filled P uid n db)
    (hfit : fitsInt uid = true) (hn : n + 1 < 2 ^ 31) :
    Filled P uid (n + 1) (save .calm (nextEvent uid n) db).2 := by
  have hi := seqInv_of_reachable P h.reachable
  have hto : Servable (nextEvent uid n) db := by
    intro v hv
    obtain rfl := List.mem_singleton.mp hv
    rw [h.head, nextEvent, List.count_singleton_self]
    exact ⟨hfit, by omega⟩
  have hoffset : (fitsBigint (nextEvent uid n).offset && fitsPayload []) = true := by
    have hbig : fitsBigint n = true := decide_eq_true (by omega)
    rw [Bool.and_eq_true]
    exact ⟨hbig, rfl⟩
  have hfree : db.events.find? (nextEvent uid n).offset = none := by
    rw [Table.find?_eq_none_iff]
    intro e he hk
    have := h.offsets e he
    simp only [nextEvent] at hk
    omega
  obtain ⟨t, ht⟩ : ∃ t, DateTime.ofTime? 0 = some t := ⟨_, rfl⟩
  obtain ⟨m, db', hsave, hstored⟩ := save_calm_of_fresh (e := nextEvent uid n) ht hoffset hi
    hto hfree
  rw [hsave]
  obtain ⟨-, -, t', db₁, -, hev, hue, hus, -, hd⟩ := hstored
  have hd := hd.single
  have hhead : db₁.headSeq uid = n := by rw [headSeq_congr hus, h.head]
  refine ⟨?_, ?_, ?_, ?_⟩
  · have hstep : (storeSystem P).step db (.save .calm (nextEvent uid n)) = some db' := by
      simp only [storeSystem, hsave]
    exact h.reachable.step hstep
  · rw [hd.headSeq_self, hhead]
    push_cast
    rfl
  · intro e he
    rw [hd.events, hev] at he
    rcases List.mem_append.mp he with he | he
    · have := h.offsets e he
      push_cast
      omega
    · obtain rfl := List.mem_singleton.mp he
      simp [nextEvent]
  · intro seq hlo hhi
    rw [hd.userEvents, hue, hhead]
    by_cases hlast : seq = n + 1
    · exact ⟨_, List.mem_append_right _ (List.mem_singleton_self _), by rw [hlast]; rfl⟩
    · obtain ⟨r, hr, hk⟩ := h.rows seq hlo (by push_cast at hhi; omega)
      exact ⟨r, List.mem_append_left _ hr, hk⟩

/-- Every user of the store can be sent any number of events that has a sequence. -/
theorem exists_filled (P : Platform) {uid : ℤ} (hfit : fitsInt uid = true) {n : ℕ}
    (hn : n < 2 ^ 31) : ∃ db, Filled P uid n db := by
  induction n with
  | zero => exact ⟨.empty, filled_empty P uid⟩
  | succ n ih =>
    obtain ⟨db, h⟩ := ih (by omega)
    exact ⟨_, h.save hfit hn⟩

end MiniPush.Store
