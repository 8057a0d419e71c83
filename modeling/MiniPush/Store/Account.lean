import MiniPush.Store.Ranges

/-! What the event store is for, apart from its tables: an account of the letters that users were
sent, with what became of them. The tables of the store agree with the account of every run. -/
namespace MiniPush.Store
open Foundation

/-- An event that a committed `Save` assigned to a user, and what became of it. -/
structure Letter where
  uid : ℤ
  seq : ℤ
  offset : ℤ
  createTime : ℤ
  payload : Bytes
  read : Bool
  deleted : Bool
  deriving DecidableEq

abbrev Account := List Letter

/-- What an operation commits: an event with a new offset, a read state, a deletion of events. -/
inductive StoreEffect
  | nothing
  | stored (e : Event)
  | marked (uid seq : ℤ)
  | deleted (offsets : List ℤ)

def Letter.key (l : Letter) : ℤ × ℤ := (l.uid, l.seq)

def Letter.SentBy (l : Letter) (e : Event) : Prop :=
  l.uid ∈ e.toUids ∧ l.offset = e.offset ∧ l.createTime = e.createTime ∧ l.payload = e.payload

namespace Account

def send (e : Event) (acc : Account) (uid : ℤ) : Account :=
  acc ++ [⟨uid, (acc.countP fun l => l.uid = uid) + 1, e.offset, e.createTime, e.payload, false,
    false⟩]

def mark (uid seq : ℤ) (l : Letter) : Letter :=
  if l.uid = uid ∧ l.seq = seq ∧ l.deleted = false then { l with read := true } else l

def delete (offsets : List ℤ) (l : Letter) : Letter :=
  if l.offset ∈ offsets then { l with deleted := true } else l

def apply (acc : Account) : StoreEffect → Account
  | .nothing => acc
  | .stored e => e.toUids.foldl (send e) acc
  | .marked uid seq => acc.map (mark uid seq)
  | .deleted offsets => acc.map (delete offsets)

theorem mark_same (uid seq : ℤ) (l : Letter) : (mark uid seq l).key = l.key ∧
    (mark uid seq l).deleted = l.deleted ∧ (mark uid seq l).offset = l.offset ∧
    (mark uid seq l).payload = l.payload := by
  unfold mark
  split_ifs <;> exact ⟨rfl, rfl, rfl, rfl⟩

end Account

def deletedOffsets (db db' : Database) : List ℤ :=
  (db.events.rows.map EventRow.topicOffset).filter fun o => (db'.events.find? o).isNone

def StoreOp.effect (P : Platform) (db : Database) : StoreOp → StoreEffect
  | .save env e =>
    if env.commits (saveBody e) db ∧ (db.events.find? e.offset).isNone then .stored e else .nothing
  | .setRead env uid seq =>
    if env.commits (setReadBody uid seq) db then .marked uid seq else .nothing
  | .deleteOutdatedEvents env now ttlDays =>
    .deleted (deletedOffsets db (Store.deleteOutdatedEvents P env now ttlDays db).2)

def accountSystem (P : Platform) : System (Database × Account) StoreOp where
  init s := s = (.empty, [])
  step s op := ((storeSystem P).step s.1 op).map fun db => (db, s.2.apply (op.effect P s.1))

theorem exists_account (P : Platform) {ops : List StoreOp} {db db' : Database} (acc : Account)
    (h : (storeSystem P).run db ops = some db') :
    ∃ acc', (accountSystem P).run (db, acc) ops = some (db', acc') :=
  System.exists_record (fun _ _ _ => rfl) acc h

structure Recorded (l : Letter) (r : UserEventRow) : Prop where
  uid : r.uid = l.uid
  seq : r.seq = l.seq
  offset : r.topicOffset = l.offset
  time : DateTime.ofTime? l.createTime = some r.createTime
  read : r.readState = l.read

theorem Recorded.mark {l : Letter} {r : UserEventRow} (h : Recorded l r) (hdel : l.deleted = false)
    {uid seq : ℤ} : Recorded (Account.mark uid seq l)
      (if r.uid = uid ∧ r.seq = seq ∧ r.readState = false then { r with readState := true }
        else r) := by
  obtain ⟨huid, hseq, hoff, htime, hst⟩ := h
  unfold Account.mark
  by_cases hhit : l.uid = uid ∧ l.seq = seq
  · rw [if_pos ⟨hhit.1, hhit.2, hdel⟩]
    cases hr : r.readState with
    | false =>
      rw [if_pos ⟨huid.trans hhit.1, hseq.trans hhit.2, rfl⟩]
      exact ⟨huid, hseq, hoff, htime, rfl⟩
    | true =>
      rw [if_neg (by simp)]
      exact ⟨huid, hseq, hoff, htime, hr⟩
  · rw [if_neg fun hl => hhit ⟨hl.1, hl.2.1⟩,
      if_neg fun hr => hhit ⟨huid.symm.trans hr.1, hseq.symm.trans hr.2.1⟩]
    exact ⟨huid, hseq, hoff, htime, hst⟩

/-- The tables agree with the account: the rows are the letters that were not deleted, the payload is
that of the event, and the letters are numbered like the rows ever inserted. -/
structure Booked (db : Database) (acc : Account) : Prop where
  keys : acc.map Letter.key = db.history.userEvents.map UserEventRow.key
  kept : ∀ l ∈ acc, l.deleted = false → ∃ r ∈ db.userEvents.rows, Recorded l r
  rows : ∀ r ∈ db.userEvents.rows, ∃ l ∈ acc, l.deleted = false ∧ Recorded l r
  events : ∀ l ∈ acc, l.deleted = false →
    ∃ ev ∈ db.events.rows, ev.topicOffset = l.offset ∧ ev.payload = l.payload

namespace Booked
variable {db db' : Database} {acc : Account}

theorem empty : Booked .empty [] where
  keys := rfl
  kept := by simp
  rows := by simp [Database.empty]
  events := by simp

theorem countP_eq (h : Booked db acc) (hi : SeqInv db) (uid : ℤ) :
    ((acc.countP fun l => l.uid = uid : ℕ) : ℤ) = db.headSeq uid := by
  have hleft : (acc.countP fun l => l.uid = uid) =
      (acc.map Letter.key).countP fun k => k.1 = uid := by
    rw [List.countP_map]
    rfl
  have hright : (db.assignedSeqs uid).length =
      (db.history.userEvents.map UserEventRow.key).countP fun k => k.1 = uid := by
    rw [Database.assignedSeqs, List.length_map, ← List.countP_eq_length_filter, List.countP_map]
    rfl
  rw [hi.headSeq_eq uid, hright, hleft, h.keys]

theorem keys_nodup (h : Booked db acc) (hi : SeqInv db) : (acc.map Letter.key).Nodup := by
  have hhist : db.history.userEvents.Pairwise fun r s => r.key ≠ s.key := by
    rw [List.pairwise_iff_forall_sublist]
    intro r s hsub hk
    obtain ⟨huid, hseq⟩ := Prod.mk.inj hk
    have hpair : ([r, s].filter fun a => a.uid = r.uid).map UserEventRow.seq = [r.seq, s.seq] := by
      simp [huid]
    have hassigned := (hsub.filter fun a => a.uid = r.uid).map UserEventRow.seq
    rw [hpair] at hassigned
    have hnodup : (db.assignedSeqs r.uid).Nodup := by
      rw [hi.assigned r.uid]
      exact firstSeqs_nodup _
    have hne := hassigned.nodup hnodup
    rw [hseq] at hne
    simp at hne
  rw [h.keys, List.Nodup, List.pairwise_map]
  exact hhist

/-- A change of the tables that adds events and touches no row of a user. -/
theorem of_events (h : Booked db acc) (hue : db'.userEvents = db.userEvents)
    (hhist : db'.history.userEvents = db.history.userEvents)
    (hev : ∀ ev ∈ db.events.rows, ev ∈ db'.events.rows) : Booked db' acc where
  keys := by rw [h.keys, hhist]
  kept := by
    rw [hue]
    exact h.kept
  rows := by
    rw [hue]
    exact h.rows
  events l hl hd := by
    obtain ⟨ev, hmem, hoff⟩ := h.events l hl hd
    exact ⟨ev, hev ev hmem, hoff⟩

theorem send {e : Event} {t : DateTime} {uid : ℤ} (h : Booked db acc) (hi : SeqInv db)
    (ht : DateTime.ofTime? e.createTime = some t)
    (hevent : ∃ ev ∈ db.events.rows, ev.topicOffset = e.offset ∧ ev.payload = e.payload)
    (hd : Delivered t e.offset db uid db') : Booked db' (acc.send e uid) := by
  have hnew : Recorded ⟨uid, (acc.countP fun l => l.uid = uid) + 1, e.offset, e.createTime, e.payload,
      false, false⟩ ⟨uid, db.headSeq uid + 1, t, false, e.offset⟩ :=
    ⟨rfl, by rw [h.countP_eq hi uid], rfl, ht, rfl⟩
  constructor
  · rw [Account.send, List.map_append, h.keys, hd.history, List.map_append, List.map_singleton,
      List.map_singleton, Letter.key, h.countP_eq hi uid]
    rfl
  · intro l hl hdel
    rw [hd.userEvents]
    rcases List.mem_append.mp hl with hl | hl
    · obtain ⟨r, hr, hrec⟩ := h.kept l hl hdel
      exact ⟨r, List.mem_append_left _ hr, hrec⟩
    · rw [List.mem_singleton.mp hl]
      exact ⟨_, List.mem_append_right _ (List.mem_singleton_self _), hnew⟩
  · intro r hr
    rw [hd.userEvents] at hr
    rcases List.mem_append.mp hr with hr | hr
    · obtain ⟨l, hl, hdel, hrec⟩ := h.rows r hr
      exact ⟨l, List.mem_append_left _ hl, hdel, hrec⟩
    · rw [List.mem_singleton.mp hr]
      exact ⟨_, List.mem_append_right _ (List.mem_singleton_self _), rfl, hnew⟩
  · intro l hl hdel
    rw [hd.events]
    rcases List.mem_append.mp hl with hl | hl
    · exact h.events l hl hdel
    · rw [List.mem_singleton.mp hl]
      exact hevent

theorem deliveries {e : Event} {t : DateTime} {uids : List ℤ} {m : GoMap ℤ ℤ} (h : Booked db acc)
    (hi : SeqInv db) (ht : DateTime.ofTime? e.createTime = some t)
    (hevent : ∃ ev ∈ db.events.rows, ev.topicOffset = e.offset ∧ ev.payload = e.payload)
    (hd : Deliveries t e.offset db uids m db') :
    Booked db' (uids.foldl (Account.send e) acc) := by
  induction hd with
  | nil => exact h
  | @snoc uids m db₁ db₂ uid h₁ hd₁ ih =>
    rw [List.foldl_append]
    obtain ⟨-, hev, -⟩ := h₁.rows
    exact ih.send (h₁.seqInv hi) ht (by rw [hev]; exact hevent) hd₁

theorem stored {e : Event} {m : GoMap ℤ ℤ} (h : Booked db acc) (hi : SeqInv db)
    (hs : Stored e db m db') : Booked db' (acc.apply (.stored e)) := by
  obtain ⟨-, -, t, db₁, ht, hev, hue, hus, hhist, hd⟩ := hs
  have h₁ : Booked db₁ acc := by
    refine h.of_events hue (by rw [hhist]) fun ev hmem => ?_
    rw [hev]
    exact List.mem_append_left _ hmem
  have hi₁ : SeqInv db₁ := by
    refine hi.of_rows hus (by rw [hhist]) fun r hr => ?_
    rw [hue] at hr
    exact ⟨r, hr, rfl⟩
  refine h₁.deliveries hi₁ ht ⟨⟨e.offset, t, e.payload⟩, ?_, rfl, rfl⟩ hd
  rw [hev]
  exact List.mem_append_right _ (List.mem_singleton_self _)

/-- The update of `SetRead` reaches the letter that is not deleted. -/
theorem marked {uid seq : ℤ} {n : ℕ} (h : Booked db acc)
    (hread : updateReadState uid seq db = .ok (n, db')) :
    Booked db' (acc.apply (.marked uid seq)) := by
  obtain ⟨hev, -, hhist, hrows⟩ := updateReadState_ok hread
  constructor
  · rw [Account.apply, List.map_map, hhist, ← h.keys]
    exact List.map_congr_left fun l _ => (Account.mark_same uid seq l).1
  · intro l' hl' hdel
    obtain ⟨l, hl, rfl⟩ := List.mem_map.mp hl'
    rw [(Account.mark_same uid seq l).2.1] at hdel
    obtain ⟨r, hr, hrec⟩ := h.kept l hl hdel
    rw [hrows]
    exact ⟨_, List.mem_map_of_mem hr, hrec.mark hdel⟩
  · intro r' hr'
    rw [hrows] at hr'
    obtain ⟨r, hr, rfl⟩ := List.mem_map.mp hr'
    obtain ⟨l, hl, hdel, hrec⟩ := h.rows r hr
    exact ⟨_, List.mem_map_of_mem hl, by rw [(Account.mark_same uid seq l).2.1, hdel], hrec.mark hdel⟩
  · intro l' hl' hdel
    obtain ⟨l, hl, rfl⟩ := List.mem_map.mp hl'
    rw [(Account.mark_same uid seq l).2.1] at hdel
    rw [hev, (Account.mark_same uid seq l).2.2.1, (Account.mark_same uid seq l).2.2.2]
    exact h.events l hl hdel

theorem deleted (h : Booked db acc) (hhist : db'.history = db.history)
    (hev : ∀ ev ∈ db.events.rows, (db'.events.find? ev.topicOffset).isSome → ev ∈ db'.events.rows)
    (hrows : db'.userEvents.rows =
      db.userEvents.rows.filter fun r => (db'.events.find? r.topicOffset).isSome) :
    Booked db' (acc.apply (.deleted (deletedOffsets db db'))) := by
  have hgone : ∀ l ∈ acc, l.deleted = false →
      (l.offset ∈ deletedOffsets db db' ↔ db'.events.find? l.offset = none) := by
    intro l hl hdel
    obtain ⟨ev, hmem, hoff, -⟩ := h.events l hl hdel
    simp only [deletedOffsets, List.mem_filter, List.mem_map, Option.isNone_iff_eq_none]
    exact ⟨fun hm => hm.2, fun hm => ⟨⟨ev, hmem, hoff⟩, hm⟩⟩
  have hdelete : ∀ l ∈ acc, (Account.delete (deletedOffsets db db') l).deleted = false →
      Account.delete (deletedOffsets db db') l = l ∧ l.deleted = false ∧
        (db'.events.find? l.offset).isSome := by
    intro l hl hdel
    unfold Account.delete at hdel ⊢
    split_ifs at hdel ⊢ with hoff
    refine ⟨rfl, hdel, ?_⟩
    rw [hgone l hl hdel] at hoff
    exact Option.isSome_iff_ne_none.mpr hoff
  constructor
  · rw [Account.apply, List.map_map, hhist, ← h.keys]
    refine List.map_congr_left fun l _ => ?_
    simp only [Function.comp_apply, Account.delete]
    split_ifs <;> rfl
  · intro l' hl' hdel'
    obtain ⟨l, hl, rfl⟩ := List.mem_map.mp hl'
    obtain ⟨he, hdel, hsome⟩ := hdelete l hl hdel'
    obtain ⟨r, hr, hrec⟩ := h.kept l hl hdel
    rw [he, hrows]
    exact ⟨r, List.mem_filter.mpr ⟨hr, by rw [hrec.offset]; exact hsome⟩, hrec⟩
  · intro r hr
    rw [hrows] at hr
    obtain ⟨hmem, hsome⟩ := List.mem_filter.mp hr
    obtain ⟨l, hl, hdel, hrec⟩ := h.rows r hmem
    have hkeep : Account.delete (deletedOffsets db db') l = l := by
      rw [hrec.offset] at hsome
      refine if_neg fun hoff => ?_
      rw [(hgone l hl hdel).mp hoff] at hsome
      cases hsome
    exact ⟨l, List.mem_map.mpr ⟨l, hl, hkeep⟩, hdel, hrec⟩
  · intro l' hl' hdel'
    obtain ⟨l, hl, rfl⟩ := List.mem_map.mp hl'
    obtain ⟨he, hdel, hsome⟩ := hdelete l hl hdel'
    obtain ⟨ev, hmem, hoff, hpay⟩ := h.events l hl hdel
    rw [he]
    exact ⟨ev, hev ev hmem (by rw [hoff]; exact hsome), hoff, hpay⟩

end Booked

private theorem save_booked {db : Database} {acc : Account} (P : Platform) (env : TxEnv SqlError)
    (e : Event) (hi : SeqInv db) (h : Booked db acc) :
    Booked (save env e db).2 (acc.apply ((StoreOp.save env e).effect P db)) := by
  rw [StoreOp.effect]
  cases hc : env.commits (saveBody e) db with
  | false =>
    obtain ⟨err, he⟩ := withTx_of_not_commits hc
    rw [if_neg (by simp), save, he]
    exact h
  | true =>
    obtain ⟨m, s, hbody, hsave⟩ := withTx_of_commits hc
    have hdb : (save env e db).2 = s.db := by
      rcases hsave with he | ⟨err, -, he⟩ <;> rw [save, he]
    rw [hdb]
    rcases saveBody_triple e db ⟨db, env.faults⟩ m s rfl hbody with hstored | halready
    · rw [if_pos ⟨rfl, by rw [hstored.fresh]; rfl⟩]
      exact h.stored hi hstored
    · obtain ⟨r, hr, hoff, -⟩ := halready.row
      have hfound : db.events.find? e.offset = some r := Table.find?_eq_some_iff.mpr ⟨hr, hoff⟩
      rw [if_neg (by rw [hfound]; simp), halready.unchanged]
      exact h

private theorem setRead_booked {db : Database} {acc : Account} (P : Platform) (env : TxEnv SqlError)
    (uid seq : ℤ) (h : Booked db acc) :
    Booked (setRead env uid seq db).2 (acc.apply ((StoreOp.setRead env uid seq).effect P db)) := by
  rw [StoreOp.effect, setRead]
  cases hc : env.commits (setReadBody uid seq) db with
  | false =>
    obtain ⟨err, he⟩ := withTx_of_not_commits hc
    rw [if_neg (by simp), he]
    exact h
  | true =>
    obtain ⟨resp, s, hbody, hset⟩ := withTx_of_commits hc
    have hdb : (withTx env (setReadBody uid seq) db).2 = s.db := by
      rcases hset with he | ⟨err, -, he⟩ <;> rw [he]
    obtain ⟨n, hread, -⟩ := setReadBody_triple uid seq db ⟨db, env.faults⟩ resp s rfl hbody
    rw [if_pos rfl, hdb]
    exact h.marked hread

private theorem deleteOutdatedEvents_booked {db : Database} {acc : Account} (P : Platform)
    (env : TxEnv SqlError) (now ttlDays : ℤ) (h : Booked db acc) :
    Booked (deleteOutdatedEvents P env now ttlDays db).2
      (acc.apply ((StoreOp.deleteOutdatedEvents env now ttlDays).effect P db)) := by
  rw [StoreOp.effect]
  rcases deleteOutdatedEvents_cases P env now ttlDays db with he | ⟨n, hclean⟩
  · rw [he]
    refine h.deleted rfl (fun ev hev _ => hev) (List.filter_eq_self.mpr fun r hr => ?_).symm
    obtain ⟨ev, hev, hoff⟩ := db.references r hr
    rw [Table.find?_eq_some_iff.mpr ⟨hev, hoff⟩]
    rfl
  · obtain ⟨-, hhist, hevents, hrows⟩ := cleanEvents_ok hclean
    refine h.deleted hhist (fun ev hev hsome => ?_) hrows
    obtain ⟨ev', hev'⟩ := Option.isSome_iff_exists.mp hsome
    obtain ⟨hmem, hoff⟩ := Table.find?_eq_some_iff.mp hev'
    have hold : ev' ∈ db.events.rows := by
      rw [hevents] at hmem
      exact (List.mem_filter.mp hmem).1
    rwa [← db.events.eq_of_key_eq hold hev hoff]

theorem booked_of_reachable (P : Platform) {s : Database × Account}
    (h : (accountSystem P).Reachable s) : SeqInv s.1 ∧ Booked s.1 s.2 := by
  refine h.invariant (I := fun s => SeqInv s.1 ∧ Booked s.1 s.2) ?_ ?_
  · rintro _ rfl
    exact ⟨seqInv_empty, .empty⟩
  · rintro ⟨db, acc⟩ op ⟨db', acc'⟩ ⟨hi, hb⟩ hstep
    obtain ⟨db₁, hdb₁, he⟩ := Option.map_eq_some_iff.mp hstep
    obtain ⟨rfl, rfl⟩ := Prod.mk.inj he
    cases op with
    | save env e =>
      obtain rfl := Option.some.inj hdb₁
      exact ⟨save_seqInv env e hi, save_booked P env e hi hb⟩
    | setRead env uid seq =>
      obtain rfl := Option.some.inj hdb₁
      exact ⟨setRead_seqInv env uid seq hi, setRead_booked P env uid seq hb⟩
    | deleteOutdatedEvents env now ttlDays =>
      obtain rfl := Option.some.inj hdb₁
      exact ⟨deleteOutdatedEvents_seqInv P env now ttlDays hi,
        deleteOutdatedEvents_booked P env now ttlDays hb⟩

private theorem sentBy_foldl {e : Event} {uids : List ℤ} {acc : Account} {l : Letter}
    (hl : l ∈ uids.foldl (Account.send e) acc) (huids : ∀ uid ∈ uids, uid ∈ e.toUids) :
    l ∈ acc ∨ l.SentBy e := by
  induction uids generalizing acc with
  | nil => exact .inl hl
  | cons uid uids ih =>
    rcases ih hl fun v hv => huids v (List.mem_cons_of_mem _ hv) with hmem | hsent
    · rcases List.mem_append.mp hmem with hmem | hmem
      · exact .inl hmem
      · rw [List.mem_singleton.mp hmem]
        exact .inr ⟨huids uid List.mem_cons_self, rfl, rfl, rfl⟩
    · exact .inr hsent

private theorem sentBy_effect (P : Platform) {op : StoreOp} {db : Database} {acc : Account}
    {l : Letter} (hl : l ∈ acc.apply (op.effect P db)) :
    (∃ l₀ ∈ acc, ∀ e, l₀.SentBy e → l.SentBy e) ∨ ∃ env e, op = .save env e ∧ l.SentBy e := by
  cases heff : op.effect P db with
  | nothing =>
    rw [heff] at hl
    exact .inl ⟨l, hl, fun _ he => he⟩
  | stored e =>
    rw [heff] at hl
    rcases sentBy_foldl hl fun _ hv => hv with hold | hnew
    · exact .inl ⟨l, hold, fun _ he => he⟩
    · cases op with
      | save env e' =>
        rw [StoreOp.effect] at heff
        split_ifs at heff
        obtain rfl := StoreEffect.stored.inj heff
        exact .inr ⟨env, e', rfl, hnew⟩
      | setRead env uid seq =>
        rw [StoreOp.effect] at heff
        split_ifs at heff
      | deleteOutdatedEvents env now ttlDays => cases heff
  | marked uid seq =>
    rw [heff] at hl
    obtain ⟨l₀, hl₀, rfl⟩ := List.mem_map.mp hl
    refine .inl ⟨l₀, hl₀, fun e he => ?_⟩
    unfold Account.mark
    split_ifs <;> exact he
  | deleted offsets =>
    rw [heff] at hl
    obtain ⟨l₀, hl₀, rfl⟩ := List.mem_map.mp hl
    refine .inl ⟨l₀, hl₀, fun e he => ?_⟩
    unfold Account.delete
    split_ifs <;> exact he

/-- Every letter was in the account before the run, but for what became of it, or was sent by a
`Save` of the run to a recipient of its event. -/
theorem sentBy_of_run (P : Platform) {ops : List StoreOp} {s s' : Database × Account}
    (h : (accountSystem P).run s ops = some s') {l : Letter} (hl : l ∈ s'.2) :
    (∃ l₀ ∈ s.2, ∀ e, l₀.SentBy e → l.SentBy e) ∨ ∃ env e, .save env e ∈ ops ∧ l.SentBy e := by
  induction ops generalizing s with
  | nil =>
    obtain rfl : s = s' := Option.some.inj h
    exact .inl ⟨l, hl, fun _ he => he⟩
  | cons op ops ih =>
    rw [System.run_cons, Option.bind_eq_some_iff] at h
    obtain ⟨s₁, hstep, hrest⟩ := h
    rcases ih hrest with ⟨l₁, hl₁, hsent⟩ | ⟨env, e, hmem, hsent⟩
    · obtain ⟨db₁, -, rfl⟩ := Option.map_eq_some_iff.mp hstep
      rcases sentBy_effect P hl₁ with ⟨l₀, hl₀, hsent₀⟩ | ⟨env, e, rfl, hsent₁⟩
      · exact .inl ⟨l₀, hl₀, fun e he => hsent e (hsent₀ e he)⟩
      · exact .inr ⟨env, e, List.mem_cons_self, hsent e hsent₁⟩
    · exact .inr ⟨env, e, List.mem_cons_of_mem _ hmem, hsent⟩

end MiniPush.Store
