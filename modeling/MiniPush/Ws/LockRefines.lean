import MiniPush.Ws.LockTasks

/-! Each session of a hub with its locks goes through states of `closeSystem`. -/
namespace MiniPush.Ws.HubLocks
open Foundation CloseProtocol

variable {ι : Type} [DecidableEq ι]

section Follows
variable {s s' : HubState ι} {k : Option ℕ} {e : Effect ι} {enableClientMsg w : Bool} {i : ι}
  {t : CloseProtocol.Session Unit}

/-- A step of a task, as the session sees it. -/
def TaskFollows (enableClientMsg : Bool) (k : Option ℕ) (i : ι) (t : CloseProtocol.Session Unit) (e : Effect ι) :
    Prop :=
  ∃ g pos, (closeSystem enableClientMsg).Reachable { t with handler := g, task := Function.update t.task k pos } ∧
    g.Matches (e.data.fields i) ∧ taskOps i e.held e.thread = hubOps i pos ∧
    (pos = .stopped → k = none ∧ Past i e.thread)

theorem Past.tail {x : Stmt ι} {todo : List (Stmt ι)} (h : Past i (.running (x :: todo))) (hx : x ≠ .exit) :
    x.passes i = true ∧ Past i (.running todo) := by
  rcases h with h | ⟨hexit, hpasses⟩
  · cases h
  · obtain ⟨hhead, htail⟩ := List.forall_mem_cons.mp hpasses
    exact ⟨hhead, .inr ⟨(List.mem_cons.mp hexit).resolve_left (Ne.symm hx), htail⟩⟩

theorem Past.cons {x : Stmt ι} {todo : List (Stmt ι)} (h : Past i (.running todo)) (hx : x.passes i = true) :
    Past i (.running (x :: todo)) := by
  rcases h with h | ⟨hexit, hpasses⟩
  · cases h
  · exact .inr ⟨List.mem_cons_of_mem _ hexit, List.forall_mem_cons.mpr ⟨hx, hpasses⟩⟩

theorem Past.closeEach {j : ι} {rest : List ι} {todo : List (Stmt ι)}
    (h : Past i (.running (.closeEach (j :: rest) :: todo))) :
    Past i (.running (.close j true :: .closeEach rest :: todo)) := by
  obtain ⟨hpasses, htail⟩ := h.tail (by simp)
  have hnot : i ∉ j :: rest := of_decide_eq_true hpasses
  rw [List.mem_cons, not_or] at hnot
  have hlater : (Stmt.closeEach rest).passes i = true := decide_eq_true hnot.2
  have hnext : (Stmt.close j true).passes i = true := decide_eq_true (Ne.symm hnot.1)
  exact (htail.cons hlater).cons hnext

theorem not_past_nil : ¬ Past i (.running []) := by
  simp [Past, Thread.todo]

/-- What a task has left for the session when its next statement is for another one, or for none. -/
theorem taskOps_cons {x : Stmt ι} {todo : List (Stmt ι)} (hx : (x.hubOp.toList).filter (HubOp.about i) = []) :
    taskOps i none (.running (x :: todo)) = taskOps i none (.running todo) := by
  cases h : x.hubOp with
  | none => simp [taskOps, Thread.todo, h]
  | some op =>
    rw [h] at hx
    simp only [Option.toList_some, List.filter_cons, List.filter_nil] at hx
    simp only [taskOps, Thread.todo, Option.bind_none, Option.toList_none, List.nil_append,
      List.filterMap_cons, h, List.filter_cons]
    split_ifs at hx with habout
    rw [if_neg habout]

theorem taskOps_append (v : SessionData) (todo : List (Stmt ι)) :
    taskOps i none (.running (.append i v :: todo)) = .append i v :: taskOps i none (.running todo) := by
  simp [taskOps, Thread.todo, Stmt.hubOp, HubOp.about]

theorem taskOps_remove (tell : Bool) (todo : List (Stmt ι)) :
    taskOps i none (.running (.remove i tell :: todo)) = .remove i :: taskOps i none (.running todo) := by
  simp [taskOps, Thread.todo, Stmt.hubOp, HubOp.about]

theorem taskOps_push (j : ι) (v : SessionData) (todo : List (Stmt ι)) :
    taskOps i (some (j, .push v)) (.running todo) = taskOps i none (.running (.append j v :: todo)) := rfl

theorem taskOps_held {j : ι} {op : HeldStmt} (hop : op.isPush = false) (thread : Thread ι) :
    taskOps i (some (j, op)) thread = taskOps i none thread := by
  cases op with
  | push _ => cases hop
  | _ => rfl

theorem taskOps_quiet {todo : List (Stmt ι)} (h : ∀ x ∈ todo, x.hubOp = none) :
    taskOps i none (.running todo) = [] := by
  have hnone : todo.filterMap Stmt.hubOp = [] := List.filterMap_eq_nil_iff.mpr h
  simp [taskOps, Thread.todo, hnone]

theorem taskOps_listed {slice : List ι} {todo : List (Stmt ι)} (hslice : slice.Nodup)
    (htodo : ∀ x ∈ todo, x.hubOp = none) :
    taskOps i none (.running (slice.map (.append · .msg) ++ todo)) = if i ∈ slice then [.append i .msg] else [] := by
  have hnone : todo.filterMap Stmt.hubOp = [] := List.filterMap_eq_nil_iff.mpr htodo
  have hsome : (slice.map fun j => Stmt.append j .msg).filterMap Stmt.hubOp =
      slice.map fun j => HubOp.append j .msg := by
    rw [List.filterMap_map]
    exact congrFun List.filterMap_eq_map' slice
  simp only [taskOps, Thread.todo, Option.bind_none, Option.toList_none, List.nil_append,
    List.filterMap_append, hnone, hsome, List.append_nil, HubOp.filter_slice hslice]

theorem Shown.taskStays (hs : Shown w i s t) (hr : (closeSystem enableClientMsg).Reachable t)
    (hfields : e.data.fields i = s.fields i)
    (hops : taskOps i e.held e.thread = taskOps i (s.locks.held (.task k)) (s.thread (.task k)))
    (hpast : k = none → Past i (s.thread (.task k)) → Past i e.thread) : TaskFollows enableClientMsg k i t e := by
  refine ⟨t.handler, t.task k, ?_, ?_, hops.trans (hs.ops k), fun hk => ?_⟩
  · rw [Function.update_eq_self]
    exact hr
  · rw [hfields]
    exact hs.fields
  · obtain ⟨rfl, hold⟩ := hs.past k hk
    exact ⟨rfl, hpast rfl hold⟩

/-- A statement for another session, or for none. -/
theorem Shown.taskPasses (hs : Shown w i s t) (hr : (closeSystem enableClientMsg).Reachable t) {x : Stmt ι}
    {todo : List (Stmt ι)} (hheld : s.locks.held (.task k) = none)
    (hthread : s.thread (.task k) = .running (x :: todo)) (hx : (x.hubOp.toList).filter (HubOp.about i) = [])
    (hexit : x ≠ .exit) (hfields : e.data.fields i = s.fields i) (hnew : e.thread = .running todo)
    (hops : taskOps i e.held (.running todo) = taskOps i none (.running todo)) :
    TaskFollows enableClientMsg k i t e := by
  refine hs.taskStays hr hfields ?_ fun _ hp => ?_
  · rw [hnew, hops, hheld, hthread, taskOps_cons hx]
  · rw [hthread] at hp
    rw [hnew]
    exact (hp.tail hexit).2

/-- A task that looks handlers up has nothing in hand. -/
theorem Shown.taskIdle (hs : Shown w i s t) (ht : Tasks s) {x : Stmt ι} {todo : List (Stmt ι)}
    (hheld : s.locks.held (.task k) = none) (hthread : s.thread (.task k) = .running (x :: todo))
    (hup : x.looksUp = true) (hpasses : x.passes i = false) :
    taskOps i none (.running todo) = [] ∧ t.task k = .idle := by
  have hord := ht.ordered k
  rw [hthread] at hord
  have hquiet : taskOps i none (.running todo) = [] := taskOps_quiet (hord.quiet hup)
  refine ⟨hquiet, ?_⟩
  have hops : [] = hubOps i (t.task k) := by
    rw [← hs.ops k, hheld, hthread, taskOps_cons (by rw [Stmt.hubOp_of_looksUp hup]; rfl), hquiet]
  refine (idle_or_stopped hops).resolve_right fun hstopped => ?_
  obtain ⟨rfl, hold⟩ := hs.past k hstopped
  rw [hthread] at hold
  have hexit : x ≠ .exit := by
    rintro rfl
    cases hpasses
  rw [(hold.tail hexit).1] at hpasses
  cases hpasses

theorem Shown.taskKeepsIdle (hs : Shown w i s t) (hr : (closeSystem enableClientMsg).Reachable t)
    (hidle : t.task k = .idle) (hfields : e.data.fields i = s.fields i) (hops : taskOps i e.held e.thread = []) :
    TaskFollows enableClientMsg k i t e := by
  refine ⟨t.handler, .idle, ?_, ?_, hops, fun h => by cases h⟩
  · rw [← hidle, Function.update_eq_self]
    exact hr
  · rw [hfields]
    exact hs.fields

theorem Shown.taskAppends (hs : Shown w i s t) (hr : (closeSystem enableClientMsg).Reachable t)
    {data : SessionData} {rest : List (HubOp ι)}
    (hops : taskOps i (s.locks.held (.task k)) (s.thread (.task k)) = .append i data :: rest)
    (ho : (s.fields i).offer data = some (e.data.fields i)) (hrest : taskOps i e.held e.thread = rest) :
    TaskFollows enableClientMsg k i t e := by
  obtain ⟨g, pos, hdeliver, hm, hpos, hne⟩ :=
    deliver_append hs.fields (Session.inv_of_reachable hr).sound (hops.symm.trans (hs.ops k)) ho
  refine ⟨g, pos, hr.step (l := .deliver k) ?_, hm, hrest.trans hpos, fun h => absurd h hne⟩
  rw [Session.step_of_next hr, Session.next, hdeliver]
  rfl

theorem Shown.taskRemoves (hs : Shown w i s t) (hr : (closeSystem enableClientMsg).Reachable t)
    {rest : List (HubOp ι)}
    (hops : taskOps i (s.locks.held (.task k)) (s.thread (.task k)) = .remove i :: rest)
    (hfields : e.data.fields i = { s.fields i with stored := false }) (hrest : taskOps i e.held e.thread = rest) :
    TaskFollows enableClientMsg k i t e := by
  obtain ⟨htask, rfl⟩ := deleting_of_remove (hops.symm.trans (hs.ops k))
  have hm := hs.fields
  refine ⟨{ t.handler with stored := false }, .idle, hr.step (l := .deliver k) ?_, ?_, hrest, fun h => by cases h⟩
  · rw [Session.step_of_next hr, Session.next, htask]
    rfl
  · rw [hfields]
    exact ⟨rfl, hm.closing, hm.chan, hm.own⟩

theorem Shown.taskFinds (hs : Shown w i s t) (hr : (closeSystem enableClientMsg).Reachable t)
    (hidle : t.task k = .idle) (hi : i ∈ s.stored) (hfields : e.data.fields i = s.fields i)
    (hops : taskOps i e.held e.thread = [.append i .kickoff, .remove i]) : TaskFollows enableClientMsg k i t e := by
  refine ⟨t.handler, .kickoff, hr.step (l := .kickoff k) ?_, ?_, hops, fun h => by cases h⟩
  · rw [Session.step_of_next hr]
    exact if_pos ⟨hidle, hs.fields.stored.trans (decide_eq_true hi)⟩
  · rw [hfields]
    exact hs.fields

theorem Shown.taskLists (hs : Shown w i s t) (hr : (closeSystem enableClientMsg).Reachable t)
    (hidle : t.task none = .idle) (hi : i ∈ s.stored) (hfields : e.data.fields i = s.fields i)
    (hops : taskOps i e.held e.thread = [.append i .msg]) : TaskFollows enableClientMsg none i t e := by
  refine ⟨t.handler, .headSeq 0, hr.step (l := .headSeq 0) ?_, ?_, hops, fun h => by cases h⟩
  · rw [Session.step_of_next hr]
    exact if_pos ⟨hidle, hs.fields.stored.trans (decide_eq_true hi)⟩
  · rw [hfields]
    exact hs.fields

/-- `HandlerStore.close` closes the handler, or finds it closing. -/
theorem Shown.taskStops (hs : Shown w i s t) (hr : (closeSystem enableClientMsg).Reachable t)
    (hidle : t.task none = .idle) (hi : i ∈ s.stored)
    (hfields : e.data.fields i = { s.fields i with closing := true })
    (hops : taskOps i e.held e.thread = []) (hpast : Past i e.thread) : TaskFollows enableClientMsg none i t e := by
  have hm := hs.fields
  refine ⟨t.handler.stop, .stopped, hr.step (l := .stop) ?_, ?_, hops, fun _ => ⟨rfl, hpast⟩⟩
  · rw [Session.step_of_next hr, Session.next, if_pos hidle,
      if_pos (hm.stored.trans (decide_eq_true hi))]
  · rw [hfields]
    unfold Handler.stop
    split_ifs with hclosing
    · exact ⟨hm.stored, hclosing, hm.chan, hm.own⟩
    · exact ⟨hm.stored, rfl, hm.chan, hm.own⟩

/-- `Hub.Run` at the handler of the session, which it closes or finds closing. -/
theorem Shown.stopped (hs : Shown w i s t) (ht : Tasks s) (hr : (closeSystem enableClientMsg).Reachable t)
    {todo : List (Stmt ι)} (hheld : s.locks.held (.task none) = none)
    (hthread : s.thread (.task none) = .running (.close i true :: todo))
    (hfields : e.data.fields i = { s.fields i with closing := true })
    (hquiet : taskOps i e.held e.thread = taskOps i none (.running todo)) (hnew : e.thread = .running todo) :
    TaskFollows enableClientMsg none i t e := by
  obtain ⟨hnone, hidle⟩ := hs.taskIdle ht hheld hthread rfl (by simp [Stmt.passes])
  have hrun := ht.run
  rw [hthread] at hrun
  cases hrun.closing rfl with
  | @close _ rest hnodup hstored =>
    refine hs.taskStops hr hidle (hstored i List.mem_cons_self) hfields (hquiet.trans hnone) ?_
    · rw [hnew]
      refine .inr ⟨by simp [Thread.todo], ?_⟩
      have hnot : i ∉ rest := (List.nodup_cons.mp hnodup).1
      simp [Thread.todo, Stmt.passes, hnot]

theorem TaskStep.follows (h : TaskStep s k e) (ht : Tasks s) (hsound : Sound s) (hs : Shown w i s t)
    (hr : (closeSystem enableClientMsg).Reachable t) : TaskFollows enableClientMsg k i t e := by
  have hord := ht.ordered k
  cases h with
  | @turn todo hheld hthread htodo =>
    have hquiet : ∀ x ∈ todo, x.hubOp = none := by
      rcases htodo with hworks | rfl
      · exact fun x hx => (hworks x hx).2
      · simp [Stmt.hubOp]
    refine hs.taskStays hr rfl ?_ fun _ hp => ?_
    · rw [hheld, hthread]
      exact taskOps_quiet hquiet
    · rw [hthread] at hp
      exact absurd hp not_past_nil
  | leave hheld hthread =>
    refine hs.taskStays hr rfl ?_ fun _ _ => .inl rfl
    rw [hheld, hthread]
    rfl
  | call hheld hthread =>
    refine hs.taskStays hr rfl ?_ fun hk => by cases hk
    rw [hheld, hthread]
    exact taskOps_quiet (by simp [Stmt.hubOp])
  | exit hheld hthread =>
    rw [hthread] at hord
    refine hs.taskStays hr rfl ?_ fun _ _ => .inl rfl
    rw [hheld, hthread, taskOps_cons rfl]
    exact (taskOps_quiet (hord.quiet rfl)).symm
  | @pass _ x todo store hheld hthread hx =>
    have hquiet : x.hubOp = none ∧ x ≠ .exit := by
      rcases hx with rfl | rfl | ⟨j, rfl, -⟩ <;> simp [Stmt.hubOp]
    exact hs.taskPasses hr hheld hthread (by rw [hquiet.1]; rfl) hquiet.2 rfl rfl rfl
  | @found _ j todo hheld hthread hj =>
    obtain ⟨hnone, hidle⟩ := hs.taskIdle ht hheld hthread rfl rfl
    by_cases hij : j = i
    · subst hij
      refine hs.taskFinds hr hidle hj rfl ?_
      change taskOps j none (.running (.append j .kickoff :: .remove j false :: todo)) = _
      rw [taskOps_append, taskOps_remove, hnone]
    · refine hs.taskKeepsIdle hr hidle rfl ?_
      change taskOps i none (.running (.append j .kickoff :: .del j false :: todo)) = _
      rw [taskOps_cons (by simp [Stmt.hubOp, HubOp.about, hij]),
        taskOps_cons (by simp [Stmt.hubOp, HubOp.about, hij]), hnone]
  | @listed u slice todo hheld hthread hnodup hstored =>
    obtain ⟨-, hidle⟩ := hs.taskIdle ht hheld hthread rfl rfl
    rw [hthread] at hord
    have hnew := taskOps_listed (i := i) hnodup (hord.quiet rfl)
    by_cases hi : i ∈ slice
    · rw [if_pos hi] at hnew
      exact hs.taskLists hr hidle (hstored i hi) rfl hnew
    · rw [if_neg hi] at hnew
      exact hs.taskKeepsIdle hr hidle rfl hnew
  | @ignored _ j v todo hheld hthread hclosing =>
    by_cases hij : j = i
    · subst hij
      have hops : taskOps j (s.locks.held (.task k)) (s.thread (.task k)) =
          .append j v :: taskOps j none (.running todo) := by
        rw [hheld, hthread, taskOps_append]
      refine hs.taskAppends hr hops ?_ rfl
      have hshut : (s.fields j).closing = true := hclosing
      rw [HandlerRun.offer, if_pos hshut]
      rfl
    · exact hs.taskPasses hr hheld hthread (by simp [Stmt.hubOp, HubOp.about, hij]) (by simp) rfl rfl rfl
  | @append _ j v todo hheld hthread =>
    refine hs.taskStays hr rfl ?_ fun _ hp => ?_
    · rw [hheld, hthread, ← taskOps_push]
      rfl
    · rw [hthread] at hp
      exact (hp.tail (by simp)).2
  | @push _ j v todo hheld hthread hroom =>
    by_cases hij : j = i
    · subst hij
      have hops : taskOps j (s.locks.held (.task k)) (s.thread (.task k)) =
          .append j v :: taskOps j none (.running todo) := by
        rw [hheld, hthread, taskOps_push, taskOps_append]
      refine hs.taskAppends hr hops ?_ rfl
      rw [fields_setHandler_self]
      exact offer_of_push (hsound.entered _ _ _ hheld) hroom
    · refine hs.taskStays hr (fields_setHandler_of_ne s (Ne.symm hij) _) ?_ fun _ hp => ?_
      · rw [hheld, hthread, taskOps_push, taskOps_cons (by simp [Stmt.hubOp, HubOp.about, hij])]
        rfl
      · rw [hthread] at hp
        exact hp
  | del hheld hthread =>
    refine hs.taskStays hr rfl ?_ fun _ hp => ?_
    · rw [hheld, hthread]
      rfl
    · rw [hthread] at hp
      exact (hp.tail (by simp)).2.cons rfl
  | @remove _ j todo store hheld hthread hgranted =>
    by_cases hij : j = i
    · subst hij
      have hops : taskOps j (s.locks.held (.task k)) (s.thread (.task k)) =
          .remove j :: taskOps j none (.running todo) := by
        rw [hheld, hthread, taskOps_remove]
      exact hs.taskRemoves hr hops (fields_erase_self store) rfl
    · exact hs.taskPasses hr hheld hthread (by simp [Stmt.hubOp, HubOp.about, hij]) (by simp)
        (fields_erase_of_ne (Ne.symm hij) store) rfl rfl
  | closeAll hheld hthread _ _ =>
    refine hs.taskStays hr rfl ?_ fun _ hp => ?_
    · rw [hheld, hthread, taskOps_cons rfl]
      exact taskOps_cons rfl
    · rw [hthread] at hp
      cases (hp.tail (by simp)).1
  | closeEach hheld hthread =>
    refine hs.taskStays hr rfl ?_ fun _ hp => ?_
    · rw [hheld, hthread, taskOps_cons rfl]
      exact (taskOps_cons rfl).trans (taskOps_cons rfl)
    · rw [hthread] at hp
      exact hp.closeEach
  | @closed j todo hheld hthread hclosing =>
    by_cases hij : j = i
    · subst hij
      refine hs.stopped ht hr hheld hthread ?_ rfl rfl
      change s.fields j = _
      unfold Data.fields
      rw [hclosing]
    · exact hs.taskPasses hr hheld hthread rfl (by simp) rfl rfl rfl
  | @close j todo hheld hthread hopen =>
    by_cases hij : j = i
    · subst hij
      exact hs.stopped ht hr hheld hthread (fields_setHandler_self s j _) rfl rfl
    · exact hs.taskPasses hr hheld hthread rfl (by simp) (fields_setHandler_of_ne s (Ne.symm hij) _) rfl rfl
  | closing hheld hop hop' hthread =>
    refine hs.taskStays hr rfl ?_ fun _ hp => ?_
    · rw [hheld, hthread, taskOps_held hop]
      exact taskOps_held hop' _
    · rw [hthread] at hp
      exact hp
  | @shut j todo hheld hthread =>
    refine hs.taskStays hr ?_ ?_ fun _ hp => ?_
    · by_cases hij : j = i
      · rw [hij]
        exact fields_setHandler_self s i _
      · exact fields_setHandler_of_ne s (Ne.symm hij) _
    · rw [hheld, hthread]
      rfl
    · rw [hthread] at hp
      exact hp

end Follows

section Refinement
variable {s s' : HubState ι} {e : Effect ι} {l : Label ι} {uid : ι → ℤ} {enableClientMsg w : Bool} {i : ι}
  {k : Option ℕ} {t : CloseProtocol.Session Unit}

theorem Shown.taskMoved (hs : Shown w i s t) (hgor : e.gor = .task k) (hstart : e.start = none)
    (hf : TaskFollows enableClientMsg k i t e) (ha : Applied s e s') :
    ∃ t', (closeSystem enableClientMsg).Reachable t' ∧ Shown w i s' t' := by
  obtain ⟨g, pos, hreach, hm, hops, hpast⟩ := hf
  have hunmoved {g : Gor ι} (hg : g ≠ .task k) := ha.unmoved hgor hstart hg
  have hself : s'.thread (.task k) = e.thread := by rw [← hgor, ha.thread_self]
  refine ⟨_, hreach, ?_, ?_, fun side => ?_, hs.own, fun k' => ?_, fun k' hk' => ?_⟩
  · rw [ha.data]
    exact hm
  · rw [(hunmoved (Gor.serve_ne_task i k)).2]
    exact hs.serve
  · obtain ⟨hheld, hthread⟩ := hunmoved (Gor.loop_ne_task i side k)
    rw [hheld, hthread]
    exact hs.loops side
  · change _ = hubOps i (Function.update t.task k pos k')
    by_cases hk : k' = k
    · rw [hk, hself, ← hgor, ha.held_self, Function.update_self]
      exact hops
    · obtain ⟨hheld, hthread⟩ := hunmoved fun he => hk (Gor.task_inj he)
      rw [hheld, hthread, Function.update_of_ne hk]
      exact hs.ops k'
  · change Function.update t.task k pos k' = .stopped at hk'
    by_cases hk : k' = k
    · subst hk
      rw [Function.update_self] at hk'
      obtain ⟨rfl, hnew⟩ := hpast hk'
      rw [hself]
      exact ⟨rfl, hnew⟩
    · rw [Function.update_of_ne hk] at hk'
      obtain ⟨rfl, hold⟩ := hs.past k' hk'
      rw [(hunmoved fun he => hk (Gor.task_inj he)).2]
      exact ⟨rfl, hold⟩

/-- The invariant of the refinement: each session is in states of `closeSystem`, one for each result of a write
that its `sendLoop` is in. -/
structure Refines (enableClientMsg : Bool) (s : HubState ι) : Prop where
  sound : Sound s
  reads : Reads s
  opens : Opens s
  tasks : Tasks s
  shown : ∀ w i, ∃ t, (closeSystem enableClientMsg).Reachable t ∧ Shown w i s t

theorem refines_start : Refines enableClientMsg (HubState.start : HubState ι) where
  sound := sound_start
  reads := ⟨Nat.le_refl _, fun i hi => by cases hi⟩
  opens := opens_start
  tasks := by
    refine ⟨fun k => ?_, fun k => ?_, .inl (List.forall_mem_nil _)⟩
    · cases k <;> exact List.forall_mem_nil _
    · cases k <;> exact .nil
  shown w i := by
    refine ⟨.start, .init rfl, ⟨rfl, rfl, rfl, List.forall_mem_nil _⟩, rfl, fun side => ?_, fun side => ?_,
      fun k => ?_, fun k hk => by cases hk⟩
    · cases side <;> exact .absent
    · cases side <;> exact List.forall_mem_nil _
    · cases k <;> rfl

section Step
variable {j : ι} (hi : Refines enableClientMsg s) (h : s.effect uid enableClientMsg l = some e)
  (ha : Applied s e s')
include hi h ha

theorem Refines.serve (hl : l.gor = .serve j) :
    Tasks s' ∧ ∀ w i, ∃ t, (closeSystem enableClientMsg).Reachable t ∧ Shown w i s' t := by
  have hb := advances_of_effect h
  have hgor : e.gor = .serve j := hb.gor_eq.trans hl
  have htask : ∀ k, e.gor ≠ .task k := by
    intro k
    rw [hgor]
    exact Gor.serve_ne_task j k
  constructor
  · obtain ⟨t, hr, hs⟩ := hi.shown true j
    obtain ⟨⟨-, hkept⟩, -⟩ := hs.serveStep hr hi.opens hl h ha
    exact hi.tasks.frame hi.reads ha htask (.inr hkept)
  · intro w i
    obtain ⟨tj, hrj, hsj⟩ := hi.shown w j
    obtain ⟨⟨hothers, -⟩, hown⟩ := hsj.serveStep hrj hi.opens hl h ha
    by_cases hij : i = j
    · rw [hij]
      exact hown
    · obtain ⟨t, hr, hs⟩ := hi.shown w i
      have hserve : e.gor ≠ .serve i := by
        rw [hgor]
        exact fun he => hij (Gor.serve.inj he).symm
      refine ⟨t, hr, hs.frame ha (hi.opens.start_ne hb (Ne.symm hserve)) (hothers i hij) hserve ?_ htask⟩
      intro side
      rw [hgor]
      exact Gor.serve_ne_loop j i side

omit ha in
theorem Refines.loopMove {side : Side} (hl : l.gor = .loop j side) (w : Bool)
    (hwrote : ∀ ok, l = .wrote j ok → ok = w) :
    ∃ t, (closeSystem enableClientMsg).Reachable t ∧ Shown w j s t ∧ LoopMove enableClientMsg w j side s t e := by
  obtain ⟨t, hr, hs⟩ := hi.shown w j
  refine ⟨t, hr, hs, ?_⟩
  by_cases hwork : ∃ g, l = .work g
  · obtain ⟨g, rfl⟩ := hwork
    obtain rfl : g = .loop j side := hl
    exact hs.loopWork hr hi.sound h
  · exact hs.loopTurn hr hl (fun g hg => hwork ⟨g, hg⟩) hwrote hi.sound h

theorem Refines.loop (hsound : Sound s') (side : Side) (hl : l.gor = .loop j side) :
    Tasks s' ∧ ∀ w i, ∃ t, (closeSystem enableClientMsg).Reachable t ∧ Shown w i s' t := by
  obtain ⟨w₀, hw₀⟩ : ∃ w, ∀ ok, l = .wrote j ok → ok = w := by
    by_cases hwrote : ∃ ok, l = .wrote j ok
    · obtain ⟨ok, rfl⟩ := hwrote
      exact ⟨ok, fun ok' hok => (Label.wrote.inj hok).2.symm⟩
    · exact ⟨true, fun ok hok => absurd ⟨ok, hok⟩ hwrote⟩
  obtain ⟨t₀, hr₀, hs₀, hmove₀⟩ := hi.loopMove h hl w₀ hw₀
  have hgor := hmove₀.gor
  have htask : ∀ k, e.gor ≠ .task k := by
    intro k
    rw [hgor]
    exact Gor.loop_ne_task j side k
  refine ⟨hi.tasks.frame hi.reads ha htask hmove₀.kept, fun w i => ?_⟩
  by_cases hij : i = j
  · subst hij
    by_cases hwrote : ∃ ok, l = .wrote i ok
    · -- the result of the write is known now, and the state that had foretold it is taken
      obtain ⟨ok, rfl⟩ := hwrote
      obtain rfl := hw₀ ok rfl
      obtain ⟨t, hr, hs⟩ := hs₀.loopMoved hmove₀ ha
      exact ⟨t, hr, hs.wrote hi.sound hsound h ha⟩
    · obtain ⟨t, hr, hs, hmove⟩ := hi.loopMove h hl w fun ok hok => absurd ⟨ok, hok⟩ hwrote
      exact hs.loopMoved hmove ha
  · obtain ⟨t, hr, hs⟩ := hi.shown w i
    refine ⟨t, hr, hs.frame ha (by simp [hmove₀.start]) (hmove₀.others i hij) ?_ (fun x => ?_) htask⟩
    · rw [hgor]
      exact (Gor.serve_ne_loop i j side).symm
    · rw [hgor]
      exact fun he => hij (Gor.eq_of_loop_eq he).symm

theorem Refines.task (hl : l.gor = .task k) :
    Tasks s' ∧ ∀ w i, ∃ t, (closeSystem enableClientMsg).Reachable t ∧ Shown w i s' t := by
  have hstep := taskStep_of_effect hi.sound hi.tasks hl h
  obtain ⟨hgor, hstart, -⟩ := hstep.spec
  refine ⟨hi.tasks.step hi.reads hstep ha, fun w i => ?_⟩
  obtain ⟨t, hr, hs⟩ := hi.shown w i
  exact hs.taskMoved hgor hstart (hstep.follows hi.tasks hi.sound hs hr) ha

theorem Refines.step : Refines enableClientMsg s' := by
  have hsound := hi.sound.step (hi.sound.steps h) ha
  obtain ⟨htasks, hshown⟩ : Tasks s' ∧ ∀ w i, ∃ t, (closeSystem enableClientMsg).Reachable t ∧ Shown w i s' t := by
    cases hl : l.gor with
    | serve j => exact hi.serve h ha hl
    | recv j => exact hi.loop h ha hsound .recv hl
    | send j => exact hi.loop h ha hsound .send hl
    | run => exact hi.task h ha (k := none) hl
    | kickoff n => exact hi.task h ha (k := some n) hl
  exact ⟨hsound, hi.reads.step hi.sound h ha, hi.opens.step h ha, htasks, hshown⟩

end Step

/-- Every session of a hub, in every run, is in a state that `closeSystem` reaches with the same handler, the same
loops and the same tasks. -/
theorem session_refines (h : (lockSystem uid enableClientMsg).Reachable s) (w : Bool) (i : ι) :
    ∃ t, (closeSystem enableClientMsg).Reachable t ∧ Shown w i s t := by
  have hi : Refines enableClientMsg s := by
    refine h.invariant ?_ ?_
    · rintro _ rfl
      exact refines_start
    · intro s l s' hi hstep
      obtain ⟨e, he, ha⟩ := Option.bind_eq_some_iff.mp hstep
      exact hi.step he (applied_of_apply ha)
  exact hi.shown w i

end Refinement

end MiniPush.Ws.HubLocks
