import MiniPush.Ws.LockView

/-! What `Hub.Run` and the calls of `Hub.Kickoff` do to the handlers of the sessions, step by step. -/
namespace MiniPush.Ws.HubLocks
open Foundation CloseProtocol

variable {ι : Type}

namespace Stmt

/-- Statements of `Hub.Run` in its loop, and of a call of `Hub.Kickoff` before it returns. -/
def works : Stmt ι → Bool
  | .append _ _ | .get _ | .getByUid _ => true
  | .del _ tell | .remove _ tell => !tell
  | _ => false

def ofTask : Stmt ι → Bool
  | .closeAll | .closeEach _ | .notify | .exit => true
  | .close _ stop => stop
  | stmt => stmt.works

/-- Statements that look handlers up or close them, and the return. -/
def looksUp : Stmt ι → Bool
  | .get _ | .getByUid _ | .closeAll | .closeEach _ | .close _ _ | .exit => true
  | _ => false

theorem hubOp_of_looksUp {stmt : Stmt ι} (h : stmt.looksUp = true) : stmt.hubOp = none := by
  cases stmt <;> first | rfl | cases h

theorem ofTask_of_works {stmt : Stmt ι} (h : stmt.works = true) : stmt.ofTask = true := by
  cases stmt <;> first | exact h | cases h

end Stmt

/-- `Hub.Run` after the end of its context. The handlers that are left to close are in the store. -/
inductive Closing (stored : Finset ι) : List (Stmt ι) → Prop
  | closeAll : Closing stored [.closeAll, .notify, .exit]
  | closeEach {rest : List ι} (hnodup : rest.Nodup) (hstored : ∀ j ∈ rest, j ∈ stored) :
      Closing stored [.closeEach rest, .notify, .exit]
  | close {j : ι} {rest : List ι} (hnodup : (j :: rest).Nodup) (hstored : ∀ j' ∈ j :: rest, j' ∈ stored) :
      Closing stored [.close j true, .closeEach rest, .notify, .exit]
  | notify : Closing stored [.notify, .exit]
  | exit : Closing stored [.exit]

/-- A task looks handlers up only when it is done with those it has found. -/
def Ordered (todo : List (Stmt ι)) : Prop := todo.Pairwise fun x y => x.looksUp = true → y.hubOp = none

def RunShape (stored : Finset ι) (todo : List (Stmt ι)) : Prop :=
  (∀ x ∈ todo, x.works = true) ∨ Closing stored todo

structure Tasks (s : HubState ι) : Prop where
  ofTask : ∀ k, ∀ x ∈ (s.thread (.task k)).todo, x.ofTask = true
  ordered : ∀ k, Ordered (s.thread (.task k)).todo
  run : RunShape s.stored (s.thread (.task none)).todo

section Shape
variable {stored stored' : Finset ι} {todo : List (Stmt ι)} {x : Stmt ι}

theorem ordered_of_quiet (h : ∀ x ∈ todo, x.hubOp = none) : Ordered todo :=
  List.pairwise_of_forall_mem_list fun _ _ y hy _ => h y hy

theorem Ordered.tail (h : Ordered (x :: todo)) : Ordered todo := (List.pairwise_cons.mp h).2

theorem Ordered.quiet (h : Ordered (x :: todo)) (hx : x.looksUp = true) : ∀ y ∈ todo, y.hubOp = none :=
  fun y hy => (List.pairwise_cons.mp h).1 y hy hx

theorem Ordered.cons (h : Ordered todo) (hx : x.looksUp = false) : Ordered (x :: todo) := by
  refine List.pairwise_cons.mpr ⟨fun y _ hup => ?_, h⟩
  rw [hx] at hup
  cases hup

theorem Ordered.cons_quiet (h : Ordered todo) (hquiet : ∀ y ∈ todo, y.hubOp = none) : Ordered (x :: todo) :=
  List.pairwise_cons.mpr ⟨fun y hy _ => hquiet y hy, h⟩

theorem RunShape.works (h : RunShape stored (x :: todo)) (hx : x.works = true) :
    ∀ y ∈ x :: todo, y.works = true := by
  rcases h with h | h
  · exact h
  · cases h <;> cases hx

theorem RunShape.closing (h : RunShape stored (x :: todo)) (hx : x.works = false) : Closing stored (x :: todo) := by
  refine h.resolve_left fun hworks => ?_
  rw [hworks x List.mem_cons_self] at hx
  cases hx

theorem RunShape.tail (h : RunShape stored (x :: todo)) (hx : x.works = true) : RunShape stored todo :=
  .inl fun y hy => h.works hx y (List.mem_cons_of_mem _ hy)

theorem RunShape.mono (h : RunShape stored todo) (hsub : stored ⊆ stored') : RunShape stored' todo := by
  refine h.imp_right fun hclosing => ?_
  cases hclosing with
  | closeAll => exact .closeAll
  | closeEach hnodup hstored => exact .closeEach hnodup fun j hj => hsub (hstored j hj)
  | close hnodup hstored => exact .close hnodup fun j hj => hsub (hstored j hj)
  | notify => exact .notify
  | exit => exact .exit

/-- A handler can be taken from the store only while `Hub.Run` has none left to close. -/
theorem RunShape.of_reading (h : RunShape stored todo) (hreading : todo.countP Stmt.reads = 0) :
    RunShape stored' todo := by
  refine h.imp_right fun hclosing => ?_
  cases hclosing with
  | closeAll => exact .closeAll
  | notify => exact .notify
  | exit => exact .exit
  | closeEach _ _ | close _ _ => simp [Stmt.reads] at hreading

end Shape

variable [DecidableEq ι]

/-- What a step of a task can do. -/
inductive TaskStep (s : HubState ι) : Option ℕ → Effect ι → Prop
  | turn {todo : List (Stmt ι)} (hheld : s.locks.held (.task none) = none)
      (hthread : s.thread (.task none) = .running [])
      (htodo : (∀ x ∈ todo, x.works = true ∧ x.hubOp = none) ∨ todo = [.closeAll, .notify, .exit]) :
      TaskStep s none (s.goOn (.task none) todo)
  | leave (hheld : s.locks.held (.task none) = none) (hthread : s.thread (.task none) = .running []) :
      TaskStep s none ⟨.task none, none, .finished, none, s.toData⟩
  | call {k : ℕ} {i : ι} (hheld : s.locks.held (.task (some k)) = none)
      (hthread : s.thread (.task (some k)) = .absent) :
      TaskStep s (some k) (s.goOn (.task (some k)) [.get i, .exit])
  | exit {k : Option ℕ} {todo : List (Stmt ι)} (hheld : s.locks.held (.task k) = none)
      (hthread : s.thread (.task k) = .running (.exit :: todo)) :
      TaskStep s k ⟨.task k, none, .finished, none, s.toData⟩
  | pass {k : Option ℕ} {x : Stmt ι} {todo : List (Stmt ι)} {store : RWMutex (Gor ι)}
      (hheld : s.locks.held (.task k) = none) (hthread : s.thread (.task k) = .running (x :: todo))
      (hx : x = .notify ∨ x = .closeEach [] ∨ ∃ i, x = .get i ∧ i ∉ s.stored) :
      TaskStep s k { s.goOn (.task k) todo with data := { s.toData with store } }
  | found {k : Option ℕ} {i : ι} {todo : List (Stmt ι)} (hheld : s.locks.held (.task k) = none)
      (hthread : s.thread (.task k) = .running (.get i :: todo)) (hi : i ∈ s.stored) :
      TaskStep s k (s.goOn (.task k) (.append i .kickoff :: .del i false :: todo))
  | listed {u : ℤ} {slice : List ι} {todo : List (Stmt ι)} (hheld : s.locks.held (.task none) = none)
      (hthread : s.thread (.task none) = .running (.getByUid u :: todo)) (hnodup : slice.Nodup)
      (hstored : ∀ j ∈ slice, j ∈ s.stored) :
      TaskStep s none (s.goOn (.task none) (slice.map (.append · .msg) ++ todo))
  | ignored {k : Option ℕ} {i : ι} {v : SessionData} {todo : List (Stmt ι)}
      (hheld : s.locks.held (.task k) = none) (hthread : s.thread (.task k) = .running (.append i v :: todo))
      (hclosing : (s.handler i).closing = true) : TaskStep s k (s.goOn (.task k) todo)
  | append {k : Option ℕ} {i : ι} {v : SessionData} {todo : List (Stmt ι)}
      (hheld : s.locks.held (.task k) = none) (hthread : s.thread (.task k) = .running (.append i v :: todo)) :
      TaskStep s k (s.hold (.task k) i (.push v) todo)
  | push {k : Option ℕ} {i : ι} {v : SessionData} {todo : List (Stmt ι)}
      (hheld : s.locks.held (.task k) = some (i, .push v)) (hthread : s.thread (.task k) = .running todo)
      (hroom : s.full i = false) :
      TaskStep s k { s.goOn (.task k) todo with
        data := s.setHandler i { s.handler i with dataChan := (s.handler i).dataChan ++ [v] } }
  | del {k : Option ℕ} {i : ι} {todo : List (Stmt ι)} {store : RWMutex (Gor ι)}
      (hheld : s.locks.held (.task k) = none)
      (hthread : s.thread (.task k) = .running (.del i false :: todo)) :
      TaskStep s k { s.goOn (.task k) (.remove i false :: todo) with data := { s.toData with store } }
  | remove {k : Option ℕ} {i : ι} {todo : List (Stmt ι)} {store : RWMutex (Gor ι)}
      (hheld : s.locks.held (.task k) = none)
      (hthread : s.thread (.task k) = .running (.remove i false :: todo)) (hgranted : s.store.granted = true) :
      TaskStep s k { s.goOn (.task k) todo with
        data := { s.toData with stored := s.stored.erase i, store } }
  | closeAll {order : List ι} {todo : List (Stmt ι)} {store : RWMutex (Gor ι)}
      (hheld : s.locks.held (.task none) = none)
      (hthread : s.thread (.task none) = .running (.closeAll :: todo)) (hnodup : order.Nodup)
      (hstored : order.toFinset = s.stored) :
      TaskStep s none { s.goOn (.task none) (.closeEach order :: todo) with data := { s.toData with store } }
  | closeEach {j : ι} {rest : List ι} {todo : List (Stmt ι)} (hheld : s.locks.held (.task none) = none)
      (hthread : s.thread (.task none) = .running (.closeEach (j :: rest) :: todo)) :
      TaskStep s none (s.goOn (.task none) (.close j true :: .closeEach rest :: todo))
  | closed {j : ι} {todo : List (Stmt ι)} (hheld : s.locks.held (.task none) = none)
      (hthread : s.thread (.task none) = .running (.close j true :: todo))
      (hclosing : (s.handler j).closing = true) : TaskStep s none (s.goOn (.task none) todo)
  | close {j : ι} {todo : List (Stmt ι)} (hheld : s.locks.held (.task none) = none)
      (hthread : s.thread (.task none) = .running (.close j true :: todo))
      (hopen : (s.handler j).closing = false) :
      TaskStep s none { s.hold (.task none) j (.closeFrame true) todo with
        data := s.setHandler j { s.handler j with closing := true } }
  | closing {j : ι} {op op' : HeldStmt} {todo : List (Stmt ι)}
      (hheld : s.locks.held (.task none) = some (j, op)) (hop : op.isPush = false) (hop' : op'.isPush = false)
      (hthread : s.thread (.task none) = .running todo) : TaskStep s none (s.hold (.task none) j op' todo)
  | shut {j : ι} {todo : List (Stmt ι)} (hheld : s.locks.held (.task none) = some (j, .shut true))
      (hthread : s.thread (.task none) = .running todo) :
      TaskStep s none { s.goOn (.task none) todo with
        data := s.setHandler j { s.handler j with chanClosed := true } }

section Spec
variable {s : HubState ι} {k : Option ℕ} {e : Effect ι} {l : Label ι} {uid : ι → ℤ} {enableClientMsg : Bool}

omit [DecidableEq ι] in
theorem Gor.task_eq_run (h : Gor.task k = (.run : Gor ι)) : k = none := by
  cases k with
  | none => rfl
  | some k => cases h

theorem TaskStep.of_held (hsound : Sound s) {i : ι} {op : HeldStmt} {todo : List (Stmt ι)}
    (hheld : s.locks.held (.task k) = some (i, op)) (hthread : s.thread (.task k) = .running todo)
    (h : s.execHeld (.task k) i todo op = some e) : TaskStep s k e := by
  have hof := (hsound.placed_at hheld hthread).1
  have hsend : ∀ j, Gor.task k ≠ (.send j : Gor ι) := by
    intro j
    cases k <;> simp [Gor.task]
  cases op with
  | push v =>
    simp only [HubState.execHeld] at h
    split_ifs at h with hfull
    obtain rfl := Option.some.inj h
    exact .push hheld hthread (Bool.eq_false_iff.mpr hfull)
  | closeFrame stop =>
    cases stop with
    | false => exact absurd hof (hsend i)
    | true =>
      obtain rfl := Gor.task_eq_run hof
      obtain rfl := Option.some.inj h
      exact .closing hheld rfl rfl hthread
  | writing stop =>
    cases stop with
    | false => exact absurd hof (hsend i)
    | true =>
      obtain rfl := Gor.task_eq_run hof
      obtain rfl := Option.some.inj h
      exact .closing hheld rfl rfl hthread
  | shut stop =>
    cases stop with
    | false => exact absurd hof (hsend i)
    | true =>
      obtain rfl := Gor.task_eq_run hof
      obtain rfl := Option.some.inj h
      exact .shut hheld hthread
  | del | remove | offline => exact absurd hof (hsend i)

theorem TaskStep.of_stmt (hsound : Sound s) (htasks : Tasks s) {stmt : Stmt ι} {todo : List (Stmt ι)}
    (hheld : s.locks.held (.task k) = none) (hthread : s.thread (.task k) = .running (stmt :: todo))
    (h : s.exec (.task k) todo stmt = some e) : TaskStep s k e := by
  have hof := (hsound.placed_at hheld hthread).1
  have htask : stmt.ofTask = true := htasks.ofTask k stmt (by rw [hthread]; exact List.mem_cons_self)
  cases stmt with
  | append i v =>
    simp only [HubState.exec] at h
    split_ifs at h with hbusy hclosing
    · obtain rfl := Option.some.inj h
      exact .ignored hheld hthread hclosing
    · obtain rfl := Option.some.inj h
      exact .append hheld hthread
  | close j stop =>
    cases stop with
    | false => cases htask
    | true =>
      obtain rfl := Gor.task_eq_run hof
      simp only [HubState.exec] at h
      split_ifs at h with hbusy hclosing
      · obtain rfl := Option.some.inj h
        exact .closed hheld hthread hclosing
      · obtain rfl := Option.some.inj h
        exact .close hheld hthread (Bool.eq_false_iff.mpr hclosing)
  | del i tell =>
    cases tell with
    | true => cases htask
    | false =>
      obtain ⟨store, -, rfl⟩ := Option.map_eq_some_iff.mp h
      exact .del hheld hthread
  | remove i tell =>
    cases tell with
    | true => cases htask
    | false =>
      simp only [HubState.exec] at h
      split at h
      · next hgranted =>
        obtain rfl := Option.some.inj h
        rw [if_neg (by simp)]
        exact .remove hheld hthread hgranted
      · cases h
  | get i =>
    simp only [HubState.exec] at h
    split at h
    · obtain rfl := Option.some.inj h
      split_ifs with hi
      · exact .found hheld hthread hi
      · exact .pass hheld hthread (.inr (.inr ⟨i, rfl, hi⟩))
    · cases h
  | closeEach rest =>
    obtain rfl := Gor.task_eq_run hof
    cases rest with
    | nil =>
      obtain rfl := Option.some.inj h
      exact .pass hheld hthread (.inr (.inl rfl))
    | cons j rest =>
      obtain rfl := Option.some.inj h
      exact .closeEach hheld hthread
  | notify =>
    obtain rfl := Option.some.inj h
    exact .pass hheld hthread (.inl rfl)
  | exit =>
    obtain rfl := Option.some.inj h
    exact .exit hheld hthread
  | getByUid _ | closeAll => cases h
  | write _ _ | written _ _ | offline | e2e | add _ | insert _ | online _ => cases htask

theorem TaskStep.of_turn {todo : List (Stmt ι)} (h : s.turn .run todo = some e)
    (htodo : (∀ x ∈ todo, x.works = true ∧ x.hubOp = none) ∨ todo = [.closeAll, .notify, .exit]) :
    TaskStep s none e := by
  unfold HubState.turn at h
  split_ifs at h with hidle
  obtain rfl := Option.some.inj h
  exact .turn (idle_iff.mp hidle).1 (idle_iff.mp hidle).2 htodo

theorem taskStep_of_effect (hsound : Sound s) (htasks : Tasks s) (hl : l.gor = .task k)
    (h : s.effect uid enableClientMsg l = some e) : TaskStep s k e := by
  cases l with
  | kickoff k' i =>
    obtain rfl : k = some k' := by
      cases k with
      | none => cases hl
      | some k => rw [Gor.kickoff.inj hl]
    simp only [HubState.effect, HubState.call] at h
    split_ifs at h with habsent
    obtain rfl := Option.some.inj h
    exact .call (hsound.held_of_absent habsent) habsent
  | leaderKickoff sids =>
    obtain rfl := Gor.task_eq_run hl.symm
    exact .of_turn h (.inl (by simp [Stmt.works, Stmt.hubOp]))
  | leaderHeadSeq uids =>
    obtain rfl := Gor.task_eq_run hl.symm
    exact .of_turn h (.inl (by simp [Stmt.works, Stmt.hubOp]))
  | stop =>
    obtain rfl := Gor.task_eq_run hl.symm
    exact .of_turn h (.inr rfl)
  | leaderClosed =>
    obtain rfl := Gor.task_eq_run hl.symm
    simp only [HubState.effect, HubState.leave] at h
    split_ifs at h with hidle
    obtain rfl := Option.some.inj h
    exact .leave (idle_iff.mp hidle).1 (idle_iff.mp hidle).2
  | getByUid slice =>
    obtain rfl := Gor.task_eq_run hl.symm
    simp only [HubState.effect] at h
    split at h
    · next hheld hthread =>
      split_ifs at h with hslice
      obtain rfl := Option.some.inj h
      refine .listed hheld hthread hslice.2.1 fun j hj => ?_
      have hmem : j ∈ slice.toFinset := List.mem_toFinset.mpr hj
      rw [hslice.2.2] at hmem
      exact (Finset.mem_filter.mp hmem).1
    · cases h
  | closeAll order =>
    obtain rfl := Gor.task_eq_run hl.symm
    simp only [HubState.effect] at h
    split at h
    · next hheld hthread =>
      split_ifs at h with horder
      obtain ⟨store, -, rfl⟩ := Option.map_eq_some_iff.mp h
      exact .closeAll hheld hthread horder.1 horder.2
    · cases h
  | work g =>
    obtain rfl : g = .task k := hl
    simp only [HubState.effect] at h
    split at h
    · next hheld hthread => exact .of_held hsound hheld hthread h
    · next hheld hthread => exact .of_stmt hsound htasks hheld hthread h
    · cases h
  | _ => cases k <;> cases hl

end Spec

section Step
variable {s s' : HubState ι} {k : Option ℕ} {e : Effect ι} {enableClientMsg w : Bool} {i : ι}
  {t : CloseProtocol.Session Unit}

theorem TaskStep.spec (h : TaskStep s k e) :
    e.gor = .task k ∧ e.start = none ∧ (s.store.granted = true ∨ s.stored ⊆ e.data.stored) := by
  cases h with
  | remove _ _ hgranted => exact ⟨rfl, rfl, .inl hgranted⟩
  | _ => exact ⟨rfl, rfl, .inr (Finset.Subset.refl _)⟩

theorem TaskStep.shape (h : TaskStep s k e) (ht : Tasks s) :
    (∀ x ∈ e.thread.todo, x.ofTask = true) ∧ Ordered e.thread.todo ∧
      (k = none → RunShape e.data.stored e.thread.todo) := by
  have hof := ht.ofTask k
  have hord := ht.ordered k
  have hrun : k = none → RunShape s.stored (s.thread (.task k)).todo := by
    rintro rfl
    exact ht.run
  cases h with
  | turn hheld hthread htodo =>
    rcases htodo with hworks | rfl
    · exact ⟨fun x hx => Stmt.ofTask_of_works (hworks x hx).1, ordered_of_quiet fun x hx => (hworks x hx).2,
        fun _ => .inl fun x hx => (hworks x hx).1⟩
    · refine ⟨?_, ordered_of_quiet ?_, fun _ => .inr .closeAll⟩
      · simp [HubState.goOn, Thread.todo, Stmt.ofTask]
      · simp [HubState.goOn, Thread.todo, Stmt.hubOp]
  | leave _ _ | exit _ _ => exact ⟨List.forall_mem_nil _, .nil, fun _ => .inl (List.forall_mem_nil _)⟩
  | call _ _ =>
    refine ⟨?_, ordered_of_quiet ?_, fun hk => by cases hk⟩
    · simp [HubState.goOn, Thread.todo, Stmt.ofTask, Stmt.works]
    · simp [HubState.goOn, Thread.todo, Stmt.hubOp]
  | pass _ hthread hx =>
    rw [hthread] at hof hord hrun
    refine ⟨(List.forall_mem_cons.mp hof).2, hord.tail, fun hk => ?_⟩
    rcases hx with rfl | rfl | ⟨i, rfl, -⟩
    · cases (hrun hk).closing rfl
      exact .inr .exit
    · cases (hrun hk).closing rfl
      exact .inr .notify
    · exact (hrun hk).tail rfl
  | found _ hthread _ =>
    rw [hthread] at hof hord hrun
    refine ⟨?_, (hord.tail.cons rfl).cons rfl, fun hk => .inl ?_⟩
    · exact List.forall_mem_cons.mpr ⟨rfl, List.forall_mem_cons.mpr ⟨rfl, (List.forall_mem_cons.mp hof).2⟩⟩
    · have hworks := (List.forall_mem_cons.mp ((hrun hk).works rfl)).2
      exact List.forall_mem_cons.mpr ⟨rfl, List.forall_mem_cons.mpr ⟨rfl, hworks⟩⟩
  | @listed _ slice _ _ hthread _ _ =>
    rw [hthread] at hof hord hrun
    refine ⟨fun x hx => ?_, ?_, fun hk => .inl fun x hx => ?_⟩
    · rcases List.mem_append.mp hx with hx | hx
      · obtain ⟨j, -, rfl⟩ := List.mem_map.mp hx
        rfl
      · exact (List.forall_mem_cons.mp hof).2 x hx
    · refine List.pairwise_append.mpr ⟨?_, hord.tail, fun x _ y hy _ => hord.quiet rfl y hy⟩
      exact List.pairwise_map.mpr (List.pairwise_of_forall fun _ _ hup => by cases hup)
    · rcases List.mem_append.mp hx with hx | hx
      · obtain ⟨j, -, rfl⟩ := List.mem_map.mp hx
        rfl
      · exact (List.forall_mem_cons.mp ((hrun hk).works rfl)).2 x hx
  | ignored _ hthread _ | append _ hthread =>
    rw [hthread] at hof hord hrun
    exact ⟨(List.forall_mem_cons.mp hof).2, hord.tail, fun hk => (hrun hk).tail rfl⟩
  | push _ hthread _ | closing _ _ _ hthread | shut _ hthread =>
    rw [hthread] at hof hord hrun
    exact ⟨hof, hord, hrun⟩
  | del _ hthread =>
    rw [hthread] at hof hord hrun
    refine ⟨List.forall_mem_cons.mpr ⟨rfl, (List.forall_mem_cons.mp hof).2⟩, hord.tail.cons rfl, fun hk => .inl ?_⟩
    exact List.forall_mem_cons.mpr ⟨rfl, (List.forall_mem_cons.mp ((hrun hk).works rfl)).2⟩
  | remove _ hthread _ =>
    rw [hthread] at hof hord hrun
    exact ⟨(List.forall_mem_cons.mp hof).2, hord.tail,
      fun hk => .inl (List.forall_mem_cons.mp ((hrun hk).works rfl)).2⟩
  | @closeAll order _ _ _ hthread hnodup hstored =>
    rw [hthread] at hof hord hrun
    refine ⟨List.forall_mem_cons.mpr ⟨rfl, (List.forall_mem_cons.mp hof).2⟩,
      hord.tail.cons_quiet (hord.quiet rfl), fun hk => .inr ?_⟩
    cases (hrun hk).closing rfl
    refine .closeEach hnodup fun j hj => ?_
    change j ∈ s.stored
    rw [← hstored]
    exact List.mem_toFinset.mpr hj
  | closeEach _ hthread =>
    rw [hthread] at hof hord hrun
    have hquiet := hord.quiet rfl
    refine ⟨?_, (hord.tail.cons_quiet hquiet).cons_quiet (List.forall_mem_cons.mpr ⟨rfl, hquiet⟩), fun hk => .inr ?_⟩
    · exact List.forall_mem_cons.mpr ⟨rfl, List.forall_mem_cons.mpr ⟨rfl, (List.forall_mem_cons.mp hof).2⟩⟩
    · cases (hrun hk).closing rfl with
      | closeEach hnodup hstored => exact .close hnodup hstored
  | closed _ hthread _ | close _ hthread _ =>
    rw [hthread] at hof hord hrun
    refine ⟨(List.forall_mem_cons.mp hof).2, hord.tail, fun hk => .inr ?_⟩
    cases (hrun hk).closing rfl with
    | close hnodup hstored =>
      exact .closeEach (List.nodup_cons.mp hnodup).2 fun j hj => hstored j (List.mem_cons_of_mem _ hj)

theorem Tasks.run_kept (ht : Tasks s) (hreads : Reads s) {stored : Finset ι}
    (hkept : s.store.granted = true ∨ s.stored ⊆ stored) : RunShape stored (s.thread (.task none)).todo := by
  rcases hkept with hgranted | hsub
  · refine ht.run.of_reading ?_
    have hreading := hreads.held
    rw [of_decide_eq_true hgranted, Nat.le_zero] at hreading
    rw [← hreading]
    change _ = (s.thread (.task none)).reading
    cases s.thread (.task none) <;> rfl
  · exact ht.run.mono hsub

theorem Tasks.frame (ht : Tasks s) (hreads : Reads s) (ha : Applied s e s') (hgor : ∀ k, e.gor ≠ .task k)
    (hkept : s.store.granted = true ∨ s.stored ⊆ e.data.stored) : Tasks s' where
  ofTask k := by
    rw [(ha.task_eq (hgor k)).2]
    exact ht.ofTask k
  ordered k := by
    rw [(ha.task_eq (hgor k)).2]
    exact ht.ordered k
  run := by
    rw [(ha.task_eq (hgor none)).2, ha.data]
    exact ht.run_kept hreads hkept

theorem Tasks.step (ht : Tasks s) (hreads : Reads s) (h : TaskStep s k e) (ha : Applied s e s') : Tasks s' := by
  obtain ⟨hgor, -, hkept⟩ := h.spec
  obtain ⟨hof, hord, hrun⟩ := h.shape ht
  have hself : s'.thread (.task k) = e.thread := by rw [← hgor, ha.thread_self]
  have hother : ∀ k', k' ≠ k → s'.thread (.task k') = s.thread (.task k') := by
    intro k' hk
    refine (ha.task_eq ?_).2
    rw [hgor]
    exact fun he => hk (Gor.task_inj he).symm
  refine ⟨fun k' => ?_, fun k' => ?_, ?_⟩
  · by_cases hk : k' = k
    · rw [hk, hself]
      exact hof
    · rw [hother k' hk]
      exact ht.ofTask k'
  · by_cases hk : k' = k
    · rw [hk, hself]
      exact hord
    · rw [hother k' hk]
      exact ht.ordered k'
  · rw [ha.data]
    by_cases hk : none = k
    · rw [hk, hself]
      exact hrun hk.symm
    · rw [hother none hk]
      exact ht.run_kept hreads hkept

end Step

end MiniPush.Ws.HubLocks
