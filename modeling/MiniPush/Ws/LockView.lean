import MiniPush.Ws.Clinch
import MiniPush.Ws.SessionRefines

/-! A session in the model of the hub's locks and in `closeSystem`. A statement that the locks cut into several
is in `closeSystem` where its effect is. `sendLoop` of `closeSystem` knows at its receive whether the write will
succeed, so that a session in a write has two states there, one for each result. -/
namespace MiniPush.Ws.HubLocks
open Foundation CloseProtocol

variable {ι : Type}

def Gor.loop (i : ι) : Side → Gor ι
  | .recv => .recv i
  | .send => .send i

theorem Gor.eq_of_loop_eq {i j : ι} {side side' : Side} (h : Gor.loop i side = .loop j side') : i = j := by
  cases side <;> cases side' <;> cases h <;> rfl

/-- `Hub.Run`, and the calls of `Hub.Kickoff`. -/
def Gor.task : Option ℕ → Gor ι
  | none => .run
  | some k => .kickoff k

theorem Gor.serve_ne_loop (i j : ι) (side : Side) : Gor.serve i ≠ .loop j side := by
  cases side <;> simp [Gor.loop]

theorem Gor.serve_ne_task (i : ι) (k : Option ℕ) : Gor.serve i ≠ .task k := by
  cases k <;> simp [Gor.task]

theorem Gor.loop_ne_task (i : ι) (side : Side) (k : Option ℕ) : Gor.loop i side ≠ .task k := by
  cases side <;> cases k <;> simp [Gor.loop, Gor.task]

theorem Gor.loop_ne_loop (i : ι) {side side' : Side} (h : side ≠ side') : Gor.loop i side ≠ .loop i side' := by
  cases side <;> cases side' <;> simp_all [Gor.loop]

theorem Gor.task_inj {k k' : Option ℕ} (h : Gor.task k = (.task k' : Gor ι)) : k = k' := by
  cases k <;> cases k' <;> cases h <;> rfl

def stmts (i : ι) (ops : List (Op Unit)) : List (Stmt ι) := ops.map fun op => .ofOp i op.view

/-- Statements of `Handler.close`, entered by a loop of the session, before the handler is deleted. -/
def HeldStmt.deletes : HeldStmt → Bool
  | .closeFrame stop | .writing stop | .shut stop => !stop
  | .del | .remove => true
  | .push _ | .offline => false

/-- Where a loop stands in both models, if the write it is in succeeds as `w` says. -/
inductive LoopShows (w : Bool) (i : ι) : Option (ι × HeldStmt) → Thread ι → LoopPos Unit → Prop
  | absent : LoopShows w i none .absent .absent
  | running (ops : List (Op Unit)) : LoopShows w i none (.running (stmts i ops)) (.running ops)
  | exiting : LoopShows w i none (.running [.exit]) .finished
  | removing (ops : List (Op Unit)) :
      LoopShows w i none (.running (.remove i true :: stmts i ops)) (.running (.del :: ops))
  | write {frame : Frame} {ops : List (Op Unit)} (hops : ops.map Op.view = frame.ops w) :
      LoopShows w i none (.running [.write i frame]) (.running ops)
  | written {frame : Frame} {ops : List (Op Unit)} (hops : ops.map Op.view = frame.ops w) :
      LoopShows w i none (.running [.written i frame]) (.running ops)
  | push (v : CloseProtocol.SessionData Unit) (ops : List (Op Unit)) :
      LoopShows w i (some (i, .push v.view)) (.running (stmts i ops)) (.running (.append v :: ops))
  | deleting {op : HeldStmt} (hop : op.deletes = true) (ops : List (Op Unit)) :
      LoopShows w i (some (i, op)) (.running (stmts i ops)) (.running (.del :: ops))
  | offline (ops : List (Op Unit)) :
      LoopShows w i (some (i, .offline)) (.running (stmts i ops)) (.running (.offline :: ops))
  | finished : LoopShows w i none .finished .finished

theorem LoopShows.after (w : Bool) (i : ι) (ops : List (Op Unit)) :
    LoopShows w i none (.running (stmts i ops)) (.after ops) := by
  unfold LoopPos.after
  split
  · exact .exiting
  · exact .running ops

theorem LoopShows.turn {w : Bool} {i : ι} {pos : LoopPos Unit} (h : LoopShows w i none (.running []) pos) :
    pos = .running [] := by
  generalize hthread : Thread.running ([] : List (Stmt ι)) = thread at h
  cases h with
  | running ops =>
    have hops := Thread.running.inj hthread
    rw [List.map_eq_nil_iff.mp hops.symm]
  | _ => cases hthread

theorem LoopShows.of_written {w : Bool} {i j : ι} {frame : Frame} {todo : List (Stmt ι)} {pos : LoopPos Unit}
    (h : LoopShows w i none (.running (.written j frame :: todo)) pos) :
    j = i ∧ todo = [] ∧ ∃ ops, pos = .running ops ∧ ops.map Op.view = frame.ops w := by
  generalize hthread : Thread.running (.written j frame :: todo) = thread at h
  cases h with
  | running ops =>
    obtain ⟨op, ops', -, hop, -⟩ := List.map_eq_cons_iff.mp (Thread.running.inj hthread).symm
    cases op <;> cases hop
  | written hops =>
    cases hthread
    exact ⟨rfl, rfl, _, rfl, hops⟩
  | _ => cases hthread

theorem LoopShows.unheld {w : Bool} {i : ι} {held : Option (ι × HeldStmt)} {thread : Thread ι}
    (h : LoopShows w i held thread .absent) : held = none := by
  cases h
  rfl

/-- The result that is foretold matters only inside a write. -/
theorem LoopShows.recast {w w' : Bool} {i : ι} {held : Option (ι × HeldStmt)} {thread : Thread ι} {pos : LoopPos Unit}
    (h : LoopShows w i held thread pos)
    (hnot : ∀ frame, thread ≠ .running [.write i frame] ∧ thread ≠ .running [.written i frame]) :
    LoopShows w' i held thread pos := by
  cases h with
  | absent => exact .absent
  | running ops => exact .running ops
  | exiting => exact .exiting
  | removing ops => exact .removing ops
  | write _ => exact absurd rfl (hnot _).1
  | written _ => exact absurd rfl (hnot _).2
  | push v ops => exact .push v ops
  | deleting hop ops => exact .deleting hop ops
  | offline ops => exact .offline ops
  | finished => exact .finished

def servePos : Thread ι → ServePos
  | .absent | .running (.add _ :: _) | .running (.insert _ :: _) => .idle
  | .running (.online _ :: _) => .added
  | _ => .returned

def Thread.todo : Thread ι → List (Stmt ι)
  | .running todo => todo
  | .absent | .finished => []

def Stmt.hubOp : Stmt ι → Option (HubOp ι)
  | .append i v => some (.append i v)
  | .del i _ | .remove i _ => some (.remove i)
  | _ => none

def HeldStmt.hubOp (i : ι) : HeldStmt → Option (HubOp ι)
  | .push v => some (.append i v)
  | _ => none

/-- `Hub.Run` does not come to the handler of `i` with this statement, nor to one after it. -/
def Stmt.passes [DecidableEq ι] (i : ι) : Stmt ι → Bool
  | .get _ | .getByUid _ | .closeAll => false
  | .close j _ => j ≠ i
  | .closeEach rest => i ∉ rest
  | _ => true

/-- `Hub.Run` has left its loop, and will not come to the handler of the session again. -/
def Past [DecidableEq ι] (i : ι) (thread : Thread ι) : Prop :=
  thread = .finished ∨ .exit ∈ thread.todo ∧ ∀ x ∈ thread.todo, x.passes i = true

variable [DecidableEq ι]

/-- The fields of the handler of `i`, as `HandlerRun` has them. -/
def Data.fields (d : Data ι) (i : ι) : HandlerRun :=
  { HandlerRun.start with
    stored := i ∈ d.stored
    closing := (d.handler i).closing
    dataChan := (d.handler i).dataChan }

/-- The statements on the handler of `i` that a task has left. -/
def taskOps (i : ι) (held : Option (ι × HeldStmt)) (thread : Thread ι) : List (HubOp ι) :=
  ((held.bind fun p => p.2.hubOp p.1).toList ++ thread.todo.filterMap Stmt.hubOp).filter (HubOp.about i)

structure Shown (w : Bool) (i : ι) (s : HubState ι) (t : CloseProtocol.Session Unit) : Prop where
  fields : t.handler.Matches (s.fields i)
  serve : t.serve = servePos (s.thread (.serve i))
  loops : ∀ side, LoopShows w i (s.locks.held (.loop i side)) (s.thread (.loop i side)) (t.loop side)
  own : ∀ side, ∀ op ∈ (t.loop side).todo, op.Own
  ops : ∀ k, taskOps i (s.locks.held (.task k)) (s.thread (.task k)) = hubOps i (t.task k)
  past : ∀ k, t.task k = .stopped → k = none ∧ Past i (s.thread (.task none))

section Fields
variable {d : Data ι} {i j : ι}

theorem fields_setHandler_of_ne (s : HubState ι) (hj : j ≠ i) (h : Handler) :
    (s.setHandler i h).fields j = s.fields j := by
  simp only [Data.fields, s.setHandler_of_ne hj]
  rfl

theorem fields_setHandler_self (s : HubState ι) (i : ι) (h : Handler) :
    (s.setHandler i h).fields i = { s.fields i with closing := h.closing, dataChan := h.dataChan } := by
  simp only [Data.fields, s.setHandler_self]
  rfl

theorem fields_erase_of_ne (hj : j ≠ i) (store : RWMutex (Gor ι)) :
    Data.fields { d with stored := d.stored.erase i, store } j = d.fields j := by
  simp [Data.fields, hj]

theorem fields_erase_self (store : RWMutex (Gor ι)) :
    Data.fields { d with stored := d.stored.erase i, store } i = { d.fields i with stored := false } := by
  simp [Data.fields]

theorem offer_of_push {s : HubState ι} {v : SessionData} (hopen : (s.handler i).closing = false)
    (hroom : s.full i = false) :
    (s.fields i).offer v = some { s.fields i with dataChan := (s.handler i).dataChan ++ [v] } := by
  have hlength : (s.handler i).dataChan.length < HandlerRun.dataChanCap := by
    simpa [HubState.full] using hroom
  have hclosing : (s.fields i).closing = false := hopen
  rw [HandlerRun.offer, if_neg (Bool.eq_false_iff.mp hclosing)]
  exact if_pos hlength

end Fields

/-- A step of a loop of the session, in both models. -/
structure LoopMove (enableClientMsg w : Bool) (i : ι) (side : Side) (s : HubState ι)
    (t : CloseProtocol.Session Unit) (e : Effect ι) : Prop where
  gor : e.gor = .loop i side
  start : e.start = none
  others : ∀ j, j ≠ i → e.data.fields j = s.fields j
  kept : s.store.granted = true ∨ s.stored ⊆ e.data.stored
  follows : ∃ g pos, (closeSystem enableClientMsg).Reachable (t.setLoop side g pos) ∧
    g.Matches (e.data.fields i) ∧ LoopShows w i e.held e.thread pos ∧ ∀ op ∈ pos.todo, op.Own

section Loop
variable {enableClientMsg w : Bool} {i : ι} {side : Side} {s : HubState ι} {t : CloseProtocol.Session Unit}
  {e : Effect ι} {uid : ι → ℤ}

omit [DecidableEq ι] in
theorem setLoop_self (t : CloseProtocol.Session Unit) (side : Side) :
    t.setLoop side t.handler (t.loop side) = t := by
  cases side <;> rfl

/-- A statement that has its effect later, or has had it. -/
theorem LoopMove.stay (hr : (closeSystem enableClientMsg).Reachable t) (hgor : e.gor = .loop i side)
    (hstart : e.start = none) (hothers : ∀ j, e.data.fields j = s.fields j) (hkept : s.stored ⊆ e.data.stored)
    (hm : t.handler.Matches (s.fields i)) (hown : ∀ op ∈ (t.loop side).todo, op.Own)
    (hshows : LoopShows w i e.held e.thread (t.loop side)) : LoopMove enableClientMsg w i side s t e where
  gor := hgor
  start := hstart
  others j _ := hothers j
  kept := .inr hkept
  follows := ⟨t.handler, t.loop side, by rwa [setLoop_self], by rwa [hothers], hshows, hown⟩

theorem LoopMove.exec (hr : (closeSystem enableClientMsg).Reachable t) (hgor : e.gor = .loop i side)
    (hstart : e.start = none) (hothers : ∀ j, j ≠ i → e.data.fields j = s.fields j)
    (hkept : s.store.granted = true ∨ s.stored ⊆ e.data.stored) {op : Op Unit} {ops : List (Op Unit)}
    (hloop : t.loop side = .running (op :: ops)) {g : CloseProtocol.Handler Unit} {pos : LoopPos Unit}
    (he : t.handler.exec ops op = some (g, pos)) (hm : g.Matches (e.data.fields i))
    (hshows : LoopShows w i e.held e.thread pos) (hown : ∀ op ∈ pos.todo, op.Own) :
    LoopMove enableClientMsg w i side s t e :=
  ⟨hgor, hstart, hothers, hkept, g, pos, Session.reachable_work hr hloop he, hm, hshows, hown⟩

omit [DecidableEq ι] in
theorem own_after {ops : List (Op Unit)} (h : ∀ op ∈ ops, op.Own) : ∀ op ∈ (LoopPos.after ops).todo, op.Own :=
  fun op hop => h op (LoopPos.mem_todo_after hop)

section Statement
variable {ops : List (Op Unit)}

/-- The delete of the handler, with the store's lock granted. -/
theorem Shown.loopRemove (hs : Shown w i s t) (hr : (closeSystem enableClientMsg).Reachable t)
    (hloop : t.loop side = .running (.del :: ops)) (hgranted : s.store.granted = true)
    (hgor : e.gor = .loop i side) (hstart : e.start = none) {store : RWMutex (Gor ι)}
    (hdata : e.data = { s.toData with stored := s.stored.erase i, store })
    (hin : i ∈ s.stored → LoopShows w i e.held e.thread (.running (.offline :: ops)))
    (hout : i ∉ s.stored → LoopShows w i e.held e.thread (.after ops)) :
    LoopMove enableClientMsg w i side s t e := by
  have hm := hs.fields
  have hown := hs.own side
  rw [hloop] at hown
  have hothers : ∀ j, j ≠ i → e.data.fields j = s.fields j := by
    intro j hj
    rw [hdata, fields_erase_of_ne hj]
  have hself : e.data.fields i = { s.fields i with stored := false } := by
    rw [hdata, fields_erase_self]
  have hops : ∀ op ∈ ops, op.Own := fun op hop => hown op (List.mem_cons_of_mem _ hop)
  by_cases hi : i ∈ s.stored
  · have hexec : t.handler.exec ops .del = some ({ t.handler with stored := false }, .after (.offline :: ops)) := by
      rw [Handler.exec, if_pos (hm.stored.trans (decide_eq_true hi))]
    refine .exec hr hgor hstart hothers (.inl hgranted) hloop hexec ?_ (hin hi)
      (List.forall_mem_cons.mpr ⟨trivial, hops⟩)
    rw [hself]
    exact ⟨rfl, hm.closing, hm.chan, hm.own⟩
  · have hgone : t.handler.stored = false := hm.stored.trans (decide_eq_false hi)
    have hexec : t.handler.exec ops .del = some (t.handler, .after ops) := by
      rw [Handler.exec, if_neg (Bool.eq_false_iff.mp hgone)]
    refine .exec hr hgor hstart hothers (.inl hgranted) hloop hexec ?_ (hout hi) (own_after hops)
    rw [hself]
    exact ⟨hgone, hm.closing, hm.chan, hm.own⟩

theorem Shown.loopStmt (hs : Shown w i s t) (hr : (closeSystem enableClientMsg).Reachable t) {op : Op Unit}
    (hloop : t.loop side = .running (op :: ops))
    (h : s.exec (.loop i side) (stmts i ops) (.ofOp i op.view) = some e) :
    LoopMove enableClientMsg w i side s t e := by
  have hm := hs.fields
  have hown := hs.own side
  have hstay := hs.own side
  rw [hloop] at hown
  obtain ⟨hop, hops⟩ := List.forall_mem_cons.mp hown
  cases op with
  | append v =>
    simp only [Op.view, Stmt.ofOp, HubState.exec] at h
    split_ifs at h with hbusy hclosing
    · obtain rfl := Option.some.inj h
      have hexec : t.handler.exec ops (.append v) = some (t.handler, .after ops) := by
        rw [Handler.exec, Handler.appendDataChan, if_pos (hm.closing.trans hclosing)]
        rfl
      exact .exec hr rfl rfl (fun _ _ => rfl) (.inr (Finset.Subset.refl _)) hloop hexec hm (.after w i ops)
        (own_after hops)
    · obtain rfl := Option.some.inj h
      refine .stay hr rfl rfl (fun _ => rfl) (Finset.Subset.refl _) hm hstay ?_
      rw [hloop]
      exact .push v ops
  | close cause =>
    simp only [Op.view, Stmt.ofOp, HubState.exec] at h
    split_ifs at h with hbusy hclosing
    · obtain rfl := Option.some.inj h
      have hexec : t.handler.exec ops (.close cause) = some (t.handler, .after ops) := by
        rw [Handler.exec, if_pos (hm.closing.trans hclosing)]
      exact .exec hr rfl rfl (fun _ _ => rfl) (.inr (Finset.Subset.refl _)) hloop hexec hm (.after w i ops)
        (own_after hops)
    · obtain rfl := Option.some.inj h
      have hopen : ¬ t.handler.closing = true := by
        rw [hm.closing]
        exact hclosing
      have hexec : t.handler.exec ops (.close cause) = some (t.handler.shut cause, .after (.del :: ops)) := by
        rw [Handler.exec, if_neg hopen, if_neg hop]
      refine .exec hr rfl rfl (fun j hj => fields_setHandler_of_ne s hj _) (.inr (Finset.Subset.refl _)) hloop hexec
        ?_ (.deleting rfl ops) (List.forall_mem_cons.mpr ⟨trivial, hops⟩)
      rw [fields_setHandler_self]
      exact ⟨hm.stored, rfl, hm.chan, hm.own⟩
  | del =>
    obtain ⟨store, -, rfl⟩ := Option.map_eq_some_iff.mp h
    refine .stay hr rfl rfl (fun _ => rfl) (Finset.Subset.refl _) hm hstay ?_
    rw [hloop]
    exact .removing ops
  | offline =>
    obtain rfl := Option.some.inj h
    exact .exec hr rfl rfl (fun _ _ => rfl) (.inr (Finset.Subset.refl _)) hloop rfl
      ⟨hm.stored, hm.closing, hm.chan, hm.own⟩ (.after w i ops) (own_after hops)
  | e2e =>
    obtain rfl := Option.some.inj h
    exact .exec hr rfl rfl (fun _ _ => rfl) (.inr (Finset.Subset.refl _)) hloop rfl hm (.after w i ops)
      (own_after hops)
  | exit =>
    obtain rfl := Option.some.inj h
    exact .exec hr rfl rfl (fun _ _ => rfl) (.inr (Finset.Subset.refl _)) hloop rfl hm .finished
      (List.forall_mem_nil _)

/-- The send of `appendDataChan`. -/
theorem Shown.loopPush (hs : Shown w i s t) (hr : (closeSystem enableClientMsg).Reachable t) (hsound : Sound s)
    {v : CloseProtocol.SessionData Unit} (hheld : s.locks.held (.loop i side) = some (i, .push v.view))
    (hloop : t.loop side = .running (.append v :: ops))
    (h : s.execHeld (.loop i side) i (stmts i ops) (.push v.view) = some e) :
    LoopMove enableClientMsg w i side s t e := by
  have hown := hs.own side
  rw [hloop] at hown
  obtain ⟨hv, hops⟩ := List.forall_mem_cons.mp hown
  simp only [HubState.execHeld] at h
  split_ifs at h with hfull
  obtain rfl := Option.some.inj h
  obtain ⟨g, happend, hg⟩ := hs.fields.offer (Session.inv_of_reachable hr).sound hv
    (offer_of_push (hsound.entered _ _ _ hheld) (Bool.eq_false_iff.mpr hfull))
  refine .exec hr rfl rfl (fun j hj => fields_setHandler_of_ne s hj _) (.inr (Finset.Subset.refl _)) hloop
    (Option.map_eq_some_iff.mpr ⟨g, happend, rfl⟩) ?_ (.after w i ops) (own_after hops)
  rw [fields_setHandler_self]
  exact hg

/-- The statements of `Handler.close` up to the delete of the handler. -/
theorem Shown.loopDeleting (hs : Shown w i s t) (hr : (closeSystem enableClientMsg).Reachable t) {op : HeldStmt}
    (hop : op.deletes = true) (hloop : t.loop side = .running (.del :: ops))
    (h : s.execHeld (.loop i side) i (stmts i ops) op = some e) : LoopMove enableClientMsg w i side s t e := by
  have hshows : ∀ {op' : HeldStmt}, op'.deletes = true →
      LoopShows w i (some (i, op')) (.running (stmts i ops)) (t.loop side) := by
    intro op' hop'
    rw [hloop]
    exact .deleting hop' ops
  cases op with
  | closeFrame stop | writing stop =>
    obtain rfl := Option.some.inj h
    exact .stay hr rfl rfl (fun _ => rfl) (Finset.Subset.refl _) hs.fields (hs.own side) (hshows hop)
  | shut stop =>
    cases stop with
    | true => cases hop
    | false =>
      obtain rfl := Option.some.inj h
      refine .stay hr rfl rfl (fun j => ?_) (Finset.Subset.refl _) hs.fields (hs.own side) (hshows rfl)
      by_cases hj : j = i
      · rw [hj]
        exact fields_setHandler_self s i _
      · exact fields_setHandler_of_ne s hj _
  | del =>
    obtain ⟨store, -, rfl⟩ := Option.map_eq_some_iff.mp h
    exact .stay hr rfl rfl (fun _ => rfl) (Finset.Subset.refl _) hs.fields (hs.own side) (hshows rfl)
  | remove =>
    simp only [HubState.execHeld] at h
    split_ifs at h with hgranted hi
    · obtain rfl := Option.some.inj h
      exact hs.loopRemove hr hloop hgranted rfl rfl rfl (fun _ => .offline ops) fun hn => absurd hi hn
    · obtain rfl := Option.some.inj h
      exact hs.loopRemove hr hloop hgranted rfl rfl rfl (fun hi' => absurd hi' hi) fun _ => .after w i ops
  | push _ | offline => cases hop

end Statement

theorem Shown.loopWork (hs : Shown w i s t) (hr : (closeSystem enableClientMsg).Reachable t) (hsound : Sound s)
    (h : s.effect uid enableClientMsg (.work (.loop i side)) = some e) : LoopMove enableClientMsg w i side s t e := by
  have hshows := hs.loops side
  have hm := hs.fields
  have hown := hs.own side
  have hstay := hs.own side
  simp only [HubState.effect] at h
  generalize hheld : s.locks.held (.loop i side) = held at h hshows
  generalize hthread : s.thread (.loop i side) = thread at h hshows
  generalize hloop : t.loop side = pos at hshows hown
  cases hshows with
  | absent | finished => cases h
  | running ops =>
    cases ops with
    | nil => cases h
    | cons op ops => exact hs.loopStmt hr hloop h
  | exiting =>
    obtain rfl := Option.some.inj h
    refine .stay hr rfl rfl (fun _ => rfl) (Finset.Subset.refl _) hm hstay ?_
    rw [hloop]
    exact .finished
  | removing ops =>
    simp only [HubState.exec] at h
    split at h
    · next hgranted =>
      obtain rfl := Option.some.inj h
      refine hs.loopRemove hr hloop hgranted rfl rfl rfl (fun hi => ?_) fun hi => ?_
      · rw [if_pos ⟨hi, trivial⟩]
        exact .running (.offline :: ops)
      · rw [if_neg fun hp => hi hp.1]
        exact .after w i ops
    · cases h
  | write hops =>
    obtain rfl := Option.some.inj h
    refine .stay hr rfl rfl (fun _ => rfl) (Finset.Subset.refl _) hm hstay ?_
    rw [hloop]
    exact .written hops
  | written hops => cases h
  | push v ops => exact hs.loopPush hr hsound hheld hloop h
  | deleting hop ops => exact hs.loopDeleting hr hop hloop h
  | offline ops =>
    obtain rfl := Option.some.inj h
    exact .exec hr rfl rfl (fun _ _ => rfl) (.inr (Finset.Subset.refl _)) hloop rfl
      ⟨hm.stored, hm.closing, hm.chan, hm.own⟩ (.after w i ops) (own_after (List.forall_mem_cons.mp hown).2)

omit [DecidableEq ι] in
theorem stmts_of_view {ops : List (Op Unit)} {todo : List HandlerOp} (h : ops.map Op.view = todo) :
    todo.map (Stmt.ofOp i) = stmts i ops := by
  rw [← h, List.map_map]
  rfl

theorem Shown.turn (hs : Shown w i s t) (side : Side) (hidle : s.idle (.loop i side) = true) :
    t.loop side = .running [] := by
  have hshows := hs.loops side
  obtain ⟨hheld, hthread⟩ := idle_iff.mp hidle
  rw [hheld, hthread] at hshows
  exact hshows.turn

theorem Shown.loopTurn (hs : Shown w i s t) (hr : (closeSystem enableClientMsg).Reachable t) {l : Label ι}
    (hl : l.gor = .loop i side) (hwork : ∀ g, l ≠ .work g) (hwrote : ∀ ok, l = .wrote i ok → ok = w)
    (hsound : Sound s) (h : s.effect uid enableClientMsg l = some e) :
    LoopMove enableClientMsg w i side s t e := by
  have hm := hs.fields
  have hkept := Finset.Subset.refl s.stored
  cases side with
  | recv =>
    cases l with
    | read j result =>
      obtain rfl : j = i := Gor.recv.inj hl
      simp only [HubState.effect, HubState.turn] at h
      split_ifs at h with hidle
      obtain rfl := Option.some.inj h
      obtain ⟨r, rfl⟩ := ReadResult.exists_view result
      refine ⟨rfl, rfl, fun _ _ => rfl, .inr hkept, _, _, Session.reachable_read hr (hs.turn .recv hidle) r, hm,
        ?_, r.own_ops enableClientMsg⟩
      rw [HubState.goOn, stmts_of_view (r.view_ops enableClientMsg)]
      exact .running _
    | recvReturn j =>
      obtain rfl : j = i := Gor.recv.inj hl
      simp only [HubState.effect, HubState.leave] at h
      split_ifs at h with hclosing hidle
      obtain rfl := Option.some.inj h
      exact ⟨rfl, rfl, fun _ _ => rfl, .inr hkept, _, _, Session.reachable_recvReturn hr (hs.turn .recv hidle)
        (hm.closing.trans hclosing), hm, .finished, List.forall_mem_nil _⟩
    | work g => exact absurd rfl (hwork g)
    | _ => cases hl
  | send =>
    cases l with
    | take j =>
      obtain rfl : j = i := Gor.send.inj hl
      simp only [HubState.effect, HubState.turn] at h
      split at h
      · cases h
      · next v rest hchan =>
        split_ifs at h with hidle
        · obtain rfl := Option.some.inj h
          obtain ⟨g, todo, hreach, hg, hops, hown⟩ :=
            Session.reachable_take hr (hs.turn .send hidle) hm hchan w
          refine ⟨rfl, rfl, fun k hk => fields_setHandler_of_ne s hk _, .inr hkept, g, _, hreach, ?_, ?_, hown⟩
          · rw [fields_setHandler_self]
            exact hg
          · cases v with
            | error =>
              have hstmts := stmts_of_view (i := j) hops
              change LoopShows w j none (.running [.close j false, .exit]) _
              rw [show [Stmt.close j false, .exit] = stmts j todo from hstmts]
              exact .running todo
            | msg | kickoff => exact .write hops
        · cases h
    | drained j =>
      obtain rfl : j = i := Gor.send.inj hl
      simp only [HubState.effect, HubState.leave] at h
      split_ifs at h with hclosed hidle
      obtain rfl := Option.some.inj h
      obtain ⟨hchan, hg⟩ := hm.drained hclosed.2
      exact ⟨rfl, rfl, fun _ _ => rfl, .inr hkept, _, _, Session.reachable_drained hr (hs.turn .send hidle)
        (hm.closing.trans (hsound.closed j hclosed.1)) hchan, hg, .finished, List.forall_mem_nil _⟩
    | tick j =>
      obtain rfl : j = i := Gor.send.inj hl
      simp only [HubState.effect, HubState.turn] at h
      split_ifs at h with hidle
      obtain rfl := Option.some.inj h
      have hturn := hs.turn .send hidle
      cases w with
      | true =>
        refine .stay hr rfl rfl (fun _ => rfl) hkept hm (hs.own .send) ?_
        rw [hturn]
        exact .write rfl
      | false =>
        exact ⟨rfl, rfl, fun _ _ => rfl, .inr hkept, _, _, Session.reachable_pingFailed hr hturn, hm, .write rfl,
          by simp [LoopPos.todo, Op.Own]⟩
    | wrote j ok =>
      obtain rfl : j = i := Gor.send.inj hl
      obtain rfl := hwrote ok rfl
      simp only [HubState.effect] at h
      split at h
      · next k frame todo hheld hthread =>
        obtain rfl := Option.some.inj h
        have hshows := hs.loops .send
        rw [show Gor.loop j .send = .send j from rfl, hheld, hthread] at hshows
        obtain ⟨rfl, rfl, ops, hpos, hops⟩ := hshows.of_written
        refine .stay hr rfl rfl (fun _ => rfl) hkept hm (hs.own .send) ?_
        rw [hpos, HubState.goOn, List.append_nil, stmts_of_view hops]
        exact .running ops
      · cases h
    | work g => exact absurd rfl (hwork g)
    | _ => cases hl

end Loop

section Applied
variable {enableClientMsg w : Bool} {i : ι} {side : Side} {s s' : HubState ι} {t : CloseProtocol.Session Unit}
  {e : Effect ι} {uid : ι → ℤ} {l : Label ι}

theorem Applied.thread_eq (ha : Applied s e s') {g : Gor ι} (hg : g ≠ e.gor)
    (hstart : ∀ j side, e.start = some j → g ≠ .loop j side) : s'.thread g = s.thread g := by
  rw [ha.thread, Function.update_of_ne hg]
  cases hj : e.start with
  | none => rfl
  | some j =>
    change s.startLoops j g = _
    have hsend : g ≠ .send j := hstart j .send hj
    have hrecv : g ≠ .recv j := hstart j .recv hj
    unfold HubState.startLoops
    rw [Function.update_of_ne hsend, Function.update_of_ne hrecv]

theorem Applied.unmoved (ha : Applied s e s') {g g' : Gor ι} (hgor : e.gor = g') (hstart : e.start = none)
    (hg : g ≠ g') : s'.locks.held g = s.locks.held g ∧ s'.thread g = s.thread g := by
  subst hgor
  refine ⟨ha.held_of_ne hg, ha.thread_eq hg fun j _ hj => ?_⟩
  rw [hstart] at hj
  cases hj

theorem Applied.task_eq (ha : Applied s e s') {k : Option ℕ} (hgor : e.gor ≠ .task k) :
    s'.locks.held (.task k) = s.locks.held (.task k) ∧ s'.thread (.task k) = s.thread (.task k) :=
  ⟨ha.held_of_ne (Ne.symm hgor), ha.thread_eq (Ne.symm hgor) fun j side _ => (Gor.loop_ne_task j side k).symm⟩

/-- A step that has no part in the session. -/
theorem Shown.frame (hs : Shown w i s t) (ha : Applied s e s') (hstart : e.start ≠ some i)
    (hfields : e.data.fields i = s.fields i) (hserve : e.gor ≠ .serve i) (hloop : ∀ side, e.gor ≠ .loop i side)
    (htask : ∀ k, e.gor ≠ .task k) : Shown w i s' t where
  fields := by
    rw [ha.data, hfields]
    exact hs.fields
  serve := by
    rw [ha.thread_eq (Ne.symm hserve) fun j side _ => Gor.serve_ne_loop i j side]
    exact hs.serve
  loops side := by
    rw [ha.held_of_ne (Ne.symm (hloop side)), ha.thread_eq (Ne.symm (hloop side)) fun j x hj he => ?_]
    · exact hs.loops side
    · exact hstart (Gor.eq_of_loop_eq he ▸ hj)
  own := hs.own
  ops k := by
    rw [(ha.task_eq (htask k)).1, (ha.task_eq (htask k)).2]
    exact hs.ops k
  past k hk := by
    rw [(ha.task_eq (htask none)).2]
    exact hs.past k hk

theorem Shown.loopMoved (hs : Shown w i s t) (hmove : LoopMove enableClientMsg w i side s t e)
    (ha : Applied s e s') : ∃ t', (closeSystem enableClientMsg).Reachable t' ∧ Shown w i s' t' := by
  obtain ⟨g, pos, hreach, hm, hshows, hown⟩ := hmove.follows
  have hgor := hmove.gor
  have hunmoved {g : Gor ι} (hg : g ≠ .loop i side) := ha.unmoved hgor hmove.start hg
  have htask : ∀ k, Gor.task k ≠ .loop i side := fun k => (Gor.loop_ne_task i side k).symm
  refine ⟨_, hreach, ?_, ?_, fun x => ?_, fun x => ?_, fun k => ?_, fun k hk => ?_⟩
  · rw [Session.setLoop_handler, ha.data]
    exact hm
  · rw [Session.setLoop_serve, (hunmoved (Gor.serve_ne_loop i i side)).2]
    exact hs.serve
  · by_cases hx : x = side
    · rw [hx, Session.setLoop_loop_self, ← hgor, ha.held_self, ha.thread_self]
      exact hshows
    · obtain ⟨hheld, hthread⟩ := hunmoved (Gor.loop_ne_loop i hx)
      rw [Session.setLoop_loop_of_ne _ _ _ _ hx, hheld, hthread]
      exact hs.loops x
  · by_cases hx : x = side
    · rw [hx, Session.setLoop_loop_self]
      exact hown
    · rw [Session.setLoop_loop_of_ne _ _ _ _ hx]
      exact hs.own x
  · rw [Session.setLoop_task, (hunmoved (htask k)).1, (hunmoved (htask k)).2]
    exact hs.ops k
  · rw [Session.setLoop_task] at hk
    rw [(hunmoved (htask none)).2]
    exact hs.past k hk

omit [DecidableEq ι] in
theorem WellPlaced.ne_write {held : Option (ι × HeldStmt)} {thread : Thread ι}
    (h : WellPlaced (.recv i) held thread) (frame : Frame) :
    thread ≠ .running [.write i frame] ∧ thread ≠ .running [.written i frame] := by
  constructor
  · rintro rfl
    cases held with
    | none => cases h.1
    | some p => exact (h.2 _ List.mem_cons_self).elim
  · rintro rfl
    cases held with
    | none => cases h.1
    | some p => exact (h.2 _ List.mem_cons_self).elim

omit [DecidableEq ι] in
theorem map_ofOp_ne_write (ops : List HandlerOp) (frame : Frame) :
    Thread.running (ops.map (Stmt.ofOp i)) ≠ .running [.write i frame] ∧
      Thread.running (ops.map (Stmt.ofOp i)) ≠ .running [.written i frame] := by
  constructor
  · intro he
    obtain ⟨op, ops', -, hop, -⟩ := List.map_eq_cons_iff.mp (Thread.running.inj he)
    cases op <;> cases hop
  · intro he
    obtain ⟨op, ops', -, hop, -⟩ := List.map_eq_cons_iff.mp (Thread.running.inj he)
    cases op <;> cases hop

/-- After a write has ended the session is in no write, so that either result may be foretold. -/
theorem Shown.wrote {ok : Bool} (hs : Shown ok i s' t) (hsound : Sound s) (hsound' : Sound s')
    (h : s.effect uid enableClientMsg (.wrote i ok) = some e) (ha : Applied s e s') : Shown w i s' t := by
  refine ⟨hs.fields, hs.serve, fun side => (hs.loops side).recast fun frame => ?_, hs.own, hs.ops, hs.past⟩
  cases side with
  | recv => exact (hsound'.placed (.recv i)).ne_write frame
  | send =>
    cases hsound.steps h with
    | plain _ _ _ hwrote _ _ => exact absurd rfl (hwrote i ok)
    | @wrote _ frame' todo _ _ hthread =>
      have hlast := hsound.writesLast (.send i)
      rw [hthread] at hlast
      obtain rfl : todo = [] := hlast
      have hself : s'.thread (.loop i .send) = .running ((frame'.ops ok).map (.ofOp i) ++ []) := ha.thread_self
      rw [hself, List.append_nil]
      exact map_ofOp_ne_write _ frame

theorem Shown.serveMoved (hs : Shown w i s t) (ha : Applied s e s') (hgor : e.gor = .serve i)
    (hstart : e.start = none) {g : CloseProtocol.Handler Unit} (hm : g.Matches (e.data.fields i)) :
    Shown w i s' { t with handler := g, serve := servePos e.thread } := by
  have hunmoved {g : Gor ι} (hg : g ≠ .serve i) := ha.unmoved hgor hstart hg
  have hloop : ∀ side, Gor.loop i side ≠ .serve i := fun side => (Gor.serve_ne_loop i i side).symm
  have htask : ∀ k, Gor.task k ≠ .serve i := fun k => (Gor.serve_ne_task i k).symm
  refine ⟨?_, ?_, fun side => ?_, hs.own, fun k => ?_, fun k hk => ?_⟩
  · rw [ha.data]
    exact hm
  · rw [← hgor, ha.thread_self]
  · rw [(hunmoved (hloop side)).1, (hunmoved (hloop side)).2]
    exact hs.loops side
  · rw [(hunmoved (htask k)).1, (hunmoved (htask k)).2]
    exact hs.ops k
  · rw [(hunmoved (htask none)).2]
    exact hs.past k hk

theorem Shown.serveStays (hs : Shown w i s t) (ha : Applied s e s') (hgor : e.gor = .serve i)
    (hstart : e.start = none) (hfields : e.data.fields i = s.fields i) (hpos : servePos e.thread = t.serve) :
    Shown w i s' t := by
  have hm : t.handler.Matches (e.data.fields i) := by
    rw [hfields]
    exact hs.fields
  have hmoved := hs.serveMoved ha hgor hstart hm
  rw [hpos] at hmoved
  exact hmoved

/-- `SessionOnline` is sent, and the loops are started. -/
theorem Shown.opened (hs : Shown w i s t) (hr : (closeSystem enableClientMsg).Reachable t)
    (hserve : t.serve = .added) (hgor : e.gor = .serve i) (hstart : e.start = some i)
    (hthread : e.thread = .running [.exit]) (hdata : e.data = s.toData) (ha : Applied s e s') :
    ∃ t', (closeSystem enableClientMsg).Reachable t' ∧ Shown w i s' t' := by
  have hstep : (closeSystem enableClientMsg).step t .online = some { t with
      serve := .returned
      recv := .running []
      send := .running []
      handler := { t.handler with emitted := t.handler.emitted ++ [.sessionOnline] } } := by
    rw [Session.step_of_next hr]
    exact if_pos hserve
  have hledger := (Session.inv_of_reachable hr).ledger
  unfold Session.Ledger at hledger
  rw [hserve] at hledger
  obtain ⟨-, hrecv, hsend⟩ := hledger
  have hm := hs.fields
  have hloop : ∀ side, LoopShows w i (s'.locks.held (.loop i side)) (s'.thread (.loop i side)) (.running []) := by
    intro side
    have hne : Gor.loop i side ≠ e.gor := hgor ▸ (Gor.serve_ne_loop i i side).symm
    have hshows := hs.loops side
    have habsent : t.loop side = .absent := by cases side <;> assumption
    have hnew : s'.thread (.loop i side) = .running [] := by
      rw [ha.thread, Function.update_of_ne hne, hstart]
      change s.startLoops i (.loop i side) = _
      cases side <;> simp [Gor.loop, HubState.startLoops]
    rw [habsent] at hshows
    rw [ha.held_of_ne hne, hshows.unheld, hnew]
    exact .running []
  have htask : ∀ k, e.gor ≠ .task k := fun k => hgor ▸ Gor.serve_ne_task i k
  refine ⟨_, hr.step hstep, ?_, ?_, fun side => ?_, fun side => ?_, fun k => ?_, fun k hk => ?_⟩
  · rw [ha.data, hdata]
    exact ⟨hm.stored, hm.closing, hm.chan, hm.own⟩
  · rw [← hgor, ha.thread_self, hthread]
    rfl
  · cases side <;> exact hloop _
  · cases side <;> exact List.forall_mem_nil _
  · rw [(ha.task_eq (htask k)).1, (ha.task_eq (htask k)).2]
    exact hs.ops k
  · rw [(ha.task_eq (htask none)).2]
    exact hs.past k hk

/-- A step of `ServeHTTP`, for its own session and for the others. -/
theorem Shown.serveStep (hs : Shown w i s t) (hr : (closeSystem enableClientMsg).Reachable t) (ho : Opens s)
    (hl : l.gor = .serve i) (h : s.effect uid enableClientMsg l = some e) (ha : Applied s e s') :
    ((∀ j, j ≠ i → e.data.fields j = s.fields j) ∧ s.stored ⊆ e.data.stored) ∧
      ∃ t', (closeSystem enableClientMsg).Reachable t' ∧ Shown w i s' t' := by
  have hm := hs.fields
  have hserve := hs.serve
  cases l with
  | serve j =>
    obtain rfl : j = i := Gor.serve.inj hl
    simp only [HubState.effect, HubState.call] at h
    split_ifs at h with habsent
    obtain rfl := Option.some.inj h
    rw [habsent] at hserve
    exact ⟨⟨fun _ _ => rfl, Finset.Subset.refl _⟩, t, hr, hs.serveStays ha rfl rfl rfl hserve.symm⟩
  | work g =>
    obtain rfl : g = .serve i := hl
    obtain ⟨b, hat⟩ : ∃ b, ServeAt i b (s.thread (.serve i)) :=
      (ho.serve i).elim (fun h => ⟨false, h.2⟩) fun h => ⟨true, h.2⟩
    simp only [HubState.effect, ho.unheld i] at h
    generalize hthread : s.thread (.serve i) = thread at h hat hserve
    cases hat with
    | absent | finished => cases h
    | add =>
      obtain ⟨store, -, rfl⟩ := Option.map_eq_some_iff.mp h
      exact ⟨⟨fun _ _ => rfl, Finset.Subset.refl _⟩, t, hr, hs.serveStays ha rfl rfl rfl hserve.symm⟩
    | insert =>
      simp only [HubState.exec] at h
      split_ifs at h with hgranted
      obtain rfl := Option.some.inj h
      have hstep : (closeSystem enableClientMsg).step t .add =
          some { t with serve := .added, handler := { t.handler with stored := true } } := by
        rw [Session.step_of_next hr]
        exact if_pos hserve
      refine ⟨⟨fun j hj => ?_, Finset.subset_insert i s.stored⟩, _, hr.step hstep, hs.serveMoved ha rfl rfl ?_⟩
      · simp [Data.fields, hj]
      · exact ⟨by simp [Data.fields], hm.closing, hm.chan, hm.own⟩
    | online =>
      obtain rfl := Option.some.inj h
      exact ⟨⟨fun _ _ => rfl, Finset.Subset.refl _⟩, hs.opened hr hserve rfl rfl rfl rfl ha⟩
    | exit =>
      obtain rfl := Option.some.inj h
      exact ⟨⟨fun _ _ => rfl, Finset.Subset.refl _⟩, t, hr, hs.serveStays ha rfl rfl rfl hserve.symm⟩
  | _ => cases hl

end Applied

end MiniPush.Ws.HubLocks
