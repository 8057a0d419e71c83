import MiniPush.Ws.CloseAll
import MiniPush.Ws.Opening

/-! The close of all sessions that waits for one closing itself: the two keep each other for good, for the
read lock of the store is given back only after the last session is closed. -/
namespace MiniPush.Ws.HubLocks
open Foundation

variable {ι : Type} [DecidableEq ι] {s s' : HubState ι} {l : Label ι} {e : Effect ι} {g : Gor ι} {i : ι}
  {uid : ι → ℤ} {enableClientMsg : Bool}

/-- The statement is followed by an `RUnlock` of the store. -/
def Stmt.reads : Stmt ι → Bool
  | .closeEach _ => true
  | _ => false

/-- The read locks of the store that a thread has to give back. -/
def Thread.reading : Thread ι → ℕ
  | .running todo => todo.countP Stmt.reads
  | _ => 0

omit [DecidableEq ι] in
theorem countP_reads_ofOp (j : ι) (ops : List HandlerOp) :
    (ops.map (Stmt.ofOp j)).countP Stmt.reads = 0 := by
  rw [List.countP_eq_zero]
  intro x hx
  obtain ⟨op, -, rfl⟩ := List.mem_map.mp hx
  cases op <;> simp [Stmt.ofOp, Stmt.reads]

theorem execHeld_reading {todo : List (Stmt ι)} {op : HeldStmt} (h : s.execHeld g i todo op = some e) :
    e.data.store.readers = s.store.readers := by
  cases op with
  | push v =>
    simp only [HubState.execHeld] at h
    split_ifs at h
    obtain rfl := Option.some.inj h
    rfl
  | shut stop =>
    cases stop <;> obtain rfl := Option.some.inj h <;> rfl
  | del =>
    obtain ⟨store, hstore, rfl⟩ := Option.map_eq_some_iff.mp h
    unfold RWMutex.lock? at hstore
    split_ifs at hstore
    obtain rfl := Option.some.inj hstore
    rfl
  | remove =>
    simp only [HubState.execHeld] at h
    split_ifs at h <;> obtain rfl := Option.some.inj h <;> rfl
  | closeFrame _ | writing _ | offline =>
    obtain rfl := Option.some.inj h
    rfl

/-- A statement takes a read lock where it adds to what is to be given back, and gives back at most what
it takes off. -/
theorem exec_reading {todo : List (Stmt ι)} {stmt : Stmt ι} (h : s.exec g todo stmt = some e)
    (hle : (Thread.running (stmt :: todo)).reading ≤ s.store.readers) :
    e.thread.reading + s.store.readers ≤
      e.data.store.readers + (Thread.running (stmt :: todo)).reading := by
  have hlock : ∀ {store : RWMutex (Gor ι)}, s.store.lock? g = some store →
      store.readers = s.store.readers := by
    intro store hstore
    unfold RWMutex.lock? at hstore
    split_ifs at hstore
    obtain rfl := Option.some.inj hstore
    rfl
  cases stmt with
  | append j v =>
    simp only [HubState.exec] at h
    split_ifs at h <;> obtain rfl := Option.some.inj h <;>
      simp [HubState.goOn, HubState.hold, Thread.reading, Stmt.reads, Nat.add_comm]
  | close j stop =>
    simp only [HubState.exec] at h
    split_ifs at h <;> obtain rfl := Option.some.inj h <;>
      simp [HubState.goOn, HubState.hold, HubState.setHandler, Thread.reading, Stmt.reads, Nat.add_comm]
  | write j frame =>
    obtain rfl := Option.some.inj h
    simp [HubState.goOn, Thread.reading, Stmt.reads, Nat.add_comm]
  | del j tell | add j =>
    obtain ⟨store, hstore, rfl⟩ := Option.map_eq_some_iff.mp h
    simp [HubState.goOn, Thread.reading, Stmt.reads, hlock hstore, Nat.add_comm]
  | remove j tell =>
    simp only [HubState.exec] at h
    split at h
    · obtain rfl := Option.some.inj h
      split_ifs <;> simp [HubState.goOn, RWMutex.unlock, Thread.reading, Stmt.reads, Nat.add_comm]
    · cases h
  | insert j =>
    simp only [HubState.exec] at h
    split_ifs at h
    obtain rfl := Option.some.inj h
    simp [HubState.goOn, RWMutex.unlock, Thread.reading, Stmt.reads, Nat.add_comm]
  | get j =>
    simp only [HubState.exec] at h
    split at h
    · obtain rfl := Option.some.inj h
      split_ifs <;> simp [HubState.goOn, Thread.reading, Stmt.reads, Nat.add_comm]
    · cases h
  | closeEach rest =>
    cases rest with
    | nil =>
      obtain rfl := Option.some.inj h
      simp only [Thread.reading, List.countP_cons, Stmt.reads, if_true] at hle
      simp only [HubState.goOn, RWMutex.runlock, Thread.reading, List.countP_cons, Stmt.reads, if_true]
      omega
    | cons j rest =>
      obtain rfl := Option.some.inj h
      simp [HubState.goOn, Thread.reading, List.countP_cons, Stmt.reads, Nat.add_comm]
  | online j | offline | e2e | notify =>
    obtain rfl := Option.some.inj h
    simp [HubState.goOn, Thread.reading, Stmt.reads, Nat.add_comm]
  | exit =>
    obtain rfl := Option.some.inj h
    simp [HubState.goOn, Thread.reading]
  | written _ _ | getByUid _ | closeAll => cases h

theorem turn_reading {todo : List (Stmt ι)} (h : s.turn g todo = some e)
    (htodo : todo.countP Stmt.reads = 0) : e.thread.reading = 0 ∧ e.data.store = s.store := by
  unfold HubState.turn at h
  split_ifs at h
  obtain rfl := Option.some.inj h
  exact ⟨htodo, rfl⟩

theorem leave_reading (h : s.leave g = some e) : e.thread.reading = 0 ∧ e.data.store = s.store := by
  unfold HubState.leave at h
  split_ifs at h
  obtain rfl := Option.some.inj h
  exact ⟨rfl, rfl⟩

theorem call_reading {todo : List (Stmt ι)} (h : s.call g todo = some e)
    (htodo : todo.countP Stmt.reads = 0) : e.thread.reading = 0 ∧ e.data.store = s.store := by
  unfold HubState.call at h
  split_ifs at h
  obtain rfl := Option.some.inj h
  exact ⟨htodo, rfl⟩

theorem effect_reading (h : s.effect uid enableClientMsg l = some e)
    (hle : (s.thread e.gor).reading ≤ s.store.readers) :
    e.thread.reading + s.store.readers ≤ e.data.store.readers + (s.thread e.gor).reading := by
  have hquiet : e.thread.reading = 0 ∧ e.data.store = s.store →
      e.thread.reading + s.store.readers ≤ e.data.store.readers + (s.thread e.gor).reading := by
    rintro ⟨hzero, hdata⟩
    rw [hzero, hdata]
    omega
  cases l with
  | serve i => exact hquiet (call_reading h (by simp [Stmt.reads]))
  | kickoff k i => exact hquiet (call_reading h (by simp [Stmt.reads]))
  | read i result => exact hquiet (turn_reading h (countP_reads_ofOp i _))
  | recvReturn i =>
    simp only [HubState.effect] at h
    split_ifs at h
    exact hquiet (leave_reading h)
  | take i =>
    simp only [HubState.effect] at h
    split at h
    · cases h
    · obtain ⟨e', he', rfl⟩ := Option.map_eq_some_iff.mp h
      rename_i v _ _
      obtain ⟨hzero, -⟩ := turn_reading he' (by cases v <;> simp [sendOps, Stmt.reads])
      exact hquiet ⟨hzero, rfl⟩
  | drained i =>
    simp only [HubState.effect] at h
    split_ifs at h
    exact hquiet (leave_reading h)
  | tick i => exact hquiet (turn_reading h (by simp [Stmt.reads]))
  | wrote i ok =>
    simp only [HubState.effect] at h
    split at h
    · rename_i k frame todo hheld hthread
      obtain rfl := Option.some.inj h
      have hold : (s.thread (.send i)).reading = todo.countP Stmt.reads := by
        rw [hthread]
        simp [Thread.reading, Stmt.reads]
      change (List.countP Stmt.reads _) + s.store.readers ≤ s.store.readers + (s.thread (.send i)).reading
      rw [hold, List.countP_append, countP_reads_ofOp]
      omega
    · cases h
  | leaderKickoff sids =>
    exact hquiet (turn_reading h (by rw [List.countP_map, List.countP_eq_zero]; simp [Stmt.reads]))
  | leaderHeadSeq uids =>
    exact hquiet (turn_reading h (by rw [List.countP_map, List.countP_eq_zero]; simp [Stmt.reads]))
  | leaderClosed => exact hquiet (leave_reading h)
  | stop => exact hquiet (turn_reading h (by simp [Stmt.reads]))
  | getByUid slice =>
    simp only [HubState.effect] at h
    split at h
    · rename_i u todo hheld hthread
      split_ifs at h
      obtain rfl := Option.some.inj h
      have hold : (s.thread .run).reading = todo.countP Stmt.reads := by
        rw [hthread]
        simp [Thread.reading, Stmt.reads]
      have hnew : (slice.map fun j => Stmt.append j .msg).countP Stmt.reads = 0 := by
        rw [List.countP_map, List.countP_eq_zero]
        simp [Stmt.reads]
      change (List.countP Stmt.reads _) + s.store.readers ≤ s.store.readers + (s.thread .run).reading
      rw [hold, List.countP_append, hnew]
      omega
    · cases h
  | closeAll order =>
    simp only [HubState.effect] at h
    split at h
    · rename_i todo hheld hthread
      split_ifs at h
      obtain ⟨store, hstore, rfl⟩ := Option.map_eq_some_iff.mp h
      have hold : (s.thread .run).reading = todo.countP Stmt.reads := by
        rw [hthread]
        simp [Thread.reading, Stmt.reads]
      have hreaders : store.readers = s.store.readers + 1 := by
        unfold RWMutex.rlock? at hstore
        split_ifs at hstore
        obtain rfl := Option.some.inj hstore
        rfl
      change (List.countP Stmt.reads _) + s.store.readers ≤ store.readers + (s.thread .run).reading
      rw [hold, hreaders, List.countP_cons]
      simp only [Stmt.reads, if_true]
      omega
    · cases h
  | work g =>
    simp only [HubState.effect] at h
    split at h
    · rename_i hheld hthread
      obtain ⟨hgor, ht, -⟩ := execHeld_spec h
      rw [hgor, ht, execHeld_reading h, hthread]
      omega
    · rename_i stmt todo hheld hthread
      have hgor := (exec_spec h).1
      rw [hgor, hthread] at hle ⊢
      exact exec_reading h hle
    · cases h

/-- `Hub.Run` has the read locks that it has to give back, and has one to give back whenever it closes a
session. -/
structure Reads (s : HubState ι) : Prop where
  held : (s.thread .run).reading ≤ s.store.readers
  closing : ∀ i, s.closesNext i = true → 1 ≤ (s.thread .run).reading

omit [DecidableEq ι] in
theorem Sound.reading_of_ne (hs : Sound s) (hg : g ≠ .run) : (s.thread g).reading = 0 := by
  cases ht : s.thread g with
  | absent | finished => rfl
  | running todo =>
    refine List.countP_eq_zero.mpr fun x hx hreads => ?_
    have hplaced := hs.placed g
    rw [ht] at hplaced
    obtain ⟨rest, rfl⟩ : ∃ rest, x = .closeEach rest := by
      cases x <;> first | exact ⟨_, rfl⟩ | cases hreads
    cases hheld : s.locks.held g with
    | some p =>
      rw [hheld] at hplaced
      exact hg (hplaced.2 _ hx)
    | none =>
      rw [hheld] at hplaced
      cases todo with
      | nil => cases hx
      | cons stmt todo =>
        rcases List.mem_cons.mp hx with rfl | hx
        · exact hg hplaced.1
        · exact hg (hplaced.2 _ hx)

theorem Reads.step (hr : Reads s) (hs : Sound s) (h : s.effect uid enableClientMsg l = some e)
    (ha : Applied s e s') : Reads s' := by
  by_cases hg : e.gor = .run
  · have hread := effect_reading h (by rw [hg]; exact hr.held)
    have hheld := hr.held
    have hself : s'.thread .run = e.thread := by rw [← hg, ha.thread_self]
    rw [hg] at hread
    refine ⟨?_, fun i hi => ?_⟩
    · rw [ha.data, hself]
      omega
    · rw [HubState.closesNext, ← hg, ha.held_self, ha.thread_self] at hi
      obtain ⟨rfl, -, hfree, rest, todo, hthread⟩ := (hs.steps h).comesToClose hs hg hi
      simp only [HubState.effect, hfree, hthread] at h
      obtain rfl := Option.some.inj h
      rw [hself]
      simp [HubState.goOn, Thread.reading, List.countP_cons, Stmt.reads]
  · have hread := effect_reading h (by rw [hs.reading_of_ne hg]; omega)
    rw [hs.reading_of_ne hg] at hread
    have hheld := hr.held
    rcases ha.thread_of_ne (fun he => hg he.symm) with ht | ⟨-, ht⟩
    · refine ⟨?_, fun i hi => ?_⟩
      · rw [ha.data, ht]
        omega
      · rw [ht]
        exact hr.closing i (ha.closesNext_of_ne hg hi)
    · refine ⟨?_, fun i hi => ?_⟩
      · rw [ha.data, ht]
        exact Nat.zero_le _
      · rw [HubState.closesNext, ht, closesAt_iff] at hi
        obtain ⟨-, todo, he⟩ := hi
        cases he

theorem sound_reads_of_reachable (h : (lockSystem uid enableClientMsg).Reachable s) : Sound s ∧ Reads s := by
  refine System.Reachable.invariant (I := fun s => Sound s ∧ Reads s) ?_ ?_ h
  · rintro _ rfl
    refine ⟨sound_start, Nat.le_refl _, fun i hi => ?_⟩
    cases hi
  · rintro s l s' ⟨hs, hr⟩ hstep
    obtain ⟨e, he, ha⟩ := Option.bind_eq_some_iff.mp hstep
    have ha' := applied_of_apply ha
    exact ⟨hs.step (hs.steps he) ha', hr.step hs he ha'⟩

/-- `HandlerStore.close` waits for the mutex of a session, whose `sendLoop` has it and waits for the store. -/
structure Clinched (s : HubState ι) (i : ι) : Prop where
  next : s.closesNext i = true
  wants : ∃ op, s.locks.held (.send i) = some (i, op) ∧ op.wantsStore = true

section Clinched

theorem Clinched.run_stands (hc : Clinched s i) (hl : l.gor = .run) :
    s.effect uid enableClientMsg l = none := by
  obtain ⟨hheld, todo, hthread⟩ := closesAt_iff.mp hc.next
  obtain ⟨op, hop, -⟩ := hc.wants
  have howner := s.locks.owner_of_held hop
  have hidle : s.idle .run = false := by simp [HubState.idle, hthread]
  cases l with
  | leaderKickoff _ | leaderHeadSeq _ | stop => simp [HubState.effect, HubState.turn, hidle]
  | leaderClosed => simp [HubState.effect, HubState.leave, hidle]
  | getByUid _ | closeAll _ => simp [HubState.effect, hheld, hthread]
  | work g =>
    obtain rfl : g = .run := hl
    simp [HubState.effect, hheld, hthread, HubState.exec, howner]
  | _ => cases hl

theorem Clinched.send_step (hc : Clinched s i) (hr : Reads s) (hl : l.gor = .send i)
    (h : s.effect uid enableClientMsg l = some e) : e.gor = .send i ∧ e.held = some (i, .remove) := by
  obtain ⟨op, hop, hwants⟩ := hc.wants
  have hreaders := (hr.closing i hc.next).trans hr.held
  have hidle : s.idle (.send i) = false := by simp [HubState.idle, hop]
  cases l with
  | take j =>
    obtain rfl : j = i := Gor.send.inj hl
    simp only [HubState.effect, HubState.turn, hidle] at h
    split at h <;> cases h
  | drained j =>
    obtain rfl : j = i := Gor.send.inj hl
    simp [HubState.effect, HubState.leave, hidle] at h
  | tick j =>
    obtain rfl : j = i := Gor.send.inj hl
    simp [HubState.effect, HubState.turn, hidle] at h
  | wrote j ok =>
    obtain rfl : j = i := Gor.send.inj hl
    simp [HubState.effect, hop] at h
  | work g =>
    obtain rfl : g = .send i := hl
    simp only [HubState.effect, hop] at h
    split at h
    · rename_i j op' todo hj hthread
      obtain ⟨rfl, rfl⟩ := Prod.mk.inj (Option.some.inj hj)
      cases op with
      | del =>
        obtain ⟨store, -, rfl⟩ := Option.map_eq_some_iff.mp h
        exact ⟨rfl, rfl⟩
      | remove =>
        have hbusy : s.store.granted = false := by
          simp only [RWMutex.granted, decide_eq_false_iff_not]
          omega
        simp [HubState.execHeld, hbusy] at h
      | _ => cases hwants
    · rename_i hj _
      cases hj
    · cases h
  | _ => cases hl

theorem Clinched.step (hc : Clinched s i) (hr : Reads s) (h : s.effect uid enableClientMsg l = some e)
    (ha : Applied s e s') : Clinched s' i := by
  have hgor := (advances_of_effect h).gor_eq
  have hrun : e.gor ≠ .run := by
    intro hg
    rw [hc.run_stands (hgor.symm.trans hg)] at h
    cases h
  have hnext : s'.closesNext i = true := by
    obtain ⟨hheld, todo, hthread⟩ := closesAt_iff.mp hc.next
    rw [HubState.closesNext, ha.held_of_ne hrun.symm]
    rcases ha.thread_of_ne hrun.symm with ht | ⟨-, ht⟩
    · rw [ht]
      exact hc.next
    · exact absurd ht (by
        rw [ha.thread, Function.update_of_ne hrun.symm]
        cases e.start with
        | none => simp [hthread]
        | some j =>
          change s.startLoops j .run ≠ _
          simp [HubState.startLoops, hthread])
  by_cases hg : e.gor = .send i
  · obtain ⟨-, hheld⟩ := hc.send_step hr (hgor.symm.trans hg) h
    exact ⟨hnext, .remove, by rw [← hg, ha.held_self, hheld], rfl⟩
  · obtain ⟨op, hop, hwants⟩ := hc.wants
    exact ⟨hnext, op, by rw [ha.held_of_ne (fun he => hg he.symm)]; exact hop, hwants⟩

end Clinched

/-- Closing all sessions while one of them closes itself is stuck for good: in every continuation `Hub.Run`
waits for the mutex of that session and takes no step, so that it never reports that it stopped. -/
theorem clinched_for_good (uid : ι → ℤ) (enableClientMsg : Bool) {s : HubState ι}
    (h : (lockSystem uid enableClientMsg).Reachable s) {i : ι} (hnext : s.closesNext i = true) {g : Gor ι}
    {op : HeldStmt} (hheld : s.locks.held g = some (i, op)) (hwants : op.wantsStore = true)
    (ls : List (Label ι)) {t : HubState ι} (hrun : (lockSystem uid enableClientMsg).run s ls = some t) :
    t.closesNext i = true ∧
      ∀ l : Label ι, l.gor = .run → (lockSystem uid enableClientMsg).step t l = none := by
  obtain ⟨hs, hr⟩ := sound_reads_of_reachable h
  obtain rfl : g = .send i := by
    have hof := (hs.placed_at hheld rfl).ofHeld
    cases op with
    | del | remove => exact hof
    | _ => cases hwants
  obtain ⟨-, hc⟩ : (Sound t ∧ Reads t) ∧ Clinched t i := by
    refine System.run_invariant (I := fun s => (Sound s ∧ Reads s) ∧ Clinched s i) ?_
      ⟨⟨hs, hr⟩, hnext, op, hheld, hwants⟩ ls hrun
    rintro s l s' ⟨⟨hs, hr⟩, hc⟩ hstep
    obtain ⟨e, he, ha⟩ := Option.bind_eq_some_iff.mp hstep
    have ha' := applied_of_apply ha
    exact ⟨⟨hs.step (hs.steps he) ha', hr.step hs he ha'⟩, hc.step hr he ha'⟩
  refine ⟨hc.next, fun l hl => ?_⟩
  have hnone : t.effect uid enableClientMsg l = none := hc.run_stands hl
  simp [lockSystem, hnone]

/-- The context ends while `sendLoop` closes its session; the run goes on with a call of `Kickoff`. -/
theorem clinched_for_good_broken :
    ∃ s t : HubState Unit, (lockSystem (fun _ => 7) true).Reachable s ∧ s.closesNext () = true ∧
      s.locks.held (.send ()) = some ((), .remove) ∧
      (lockSystem (fun _ => 7) true).run s [.kickoff 0 ()] = some t ∧ t.closesNext () = true ∧
      ∀ l : Label Unit, l.gor = .run → (lockSystem (fun _ => 7) true).step t l = none := by
  have hrun : ((lockSystem (fun _ => 7) true).run .start (brokenRun ++
      [.stop, .closeAll [()], .work .run, .work (.send ()), .work (.send ())])).map (fun s =>
        (s.closesNext (), s.locks.held (.send ()),
          ((lockSystem (fun _ => 7) true).run s [.kickoff 0 ()]).isSome)) =
      some (true, some ((), .remove), true) := by
    decide +kernel
  obtain ⟨s, hs, hview⟩ := Option.map_eq_some_iff.mp hrun
  simp only [Prod.mk.injEq] at hview
  obtain ⟨hnext, hheld, hgo⟩ := hview
  obtain ⟨t, ht⟩ := Option.isSome_iff_exists.mp hgo
  have hreach : (lockSystem (fun _ => 7) true).Reachable s := System.Reachable.run (.init rfl) _ hs
  exact ⟨s, t, hreach, hnext, hheld, ht, clinched_for_good _ true hreach hnext hheld rfl _ ht⟩

end MiniPush.Ws.HubLocks
