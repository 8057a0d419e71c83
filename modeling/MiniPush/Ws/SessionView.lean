import MiniPush.Ws.CloseSafety
import MiniPush.Ws.HandlerLocks

/-! The two models of a session side by side. `HandlerRun`, of which the whole server is made, keeps of a value in
`dataChan` only what `sendLoop` tells apart, and says of a loop whether it waits under the handler's mutex. Each
of its steps is one of `closeSystem`, or none. -/
namespace MiniPush.Ws
open Foundation

namespace CloseProtocol
variable {α : Type}

def SessionData.view (v : SessionData α) : Ws.SessionData :=
  match v.error, v.serverMsg with
  | some _, _ => .error
  | none, some .kickoff => .kickoff
  | none, _ => .msg

def Op.view : Op α → HandlerOp
  | .append v => .append v.view
  | .close _ => .close
  | .del => .del
  | .offline => .offline
  | .e2e => .e2e
  | .exit => .exit

section View
variable {op : Op α}

theorem Op.view_eq_append {data : Ws.SessionData} (h : op.view = .append data) :
    ∃ v, op = .append v ∧ v.view = data := by
  cases op with
  | append v => exact ⟨v, rfl, HandlerOp.append.inj h⟩
  | _ => cases h

theorem Op.view_eq_close (h : op.view = .close) : ∃ cause, op = .close cause := by
  cases op with
  | close cause => exact ⟨cause, rfl⟩
  | _ => cases h

/-- The other statements are the same in both models. -/
theorem Op.eq_of_view {op' : Op α} (hop : ∀ v, op' ≠ .append v)
    (hclose : ∀ cause, op' ≠ .close cause) (h : op.view = op'.view) : op = op' := by
  cases op' with
  | append v => exact absurd rfl (hop v)
  | close cause => exact absurd rfl (hclose cause)
  | _ => cases op <;> first | rfl | cases h

end View

def ReadResult.view : ReadResult α → Ws.ReadResult
  | .closeFrame => .closeFrame
  | .error => .error
  | .badMessage _ => .badMessage
  | .request _ => .request
  | .im _ => .im
  | .unsupported _ => .unsupported

theorem ReadResult.view_ops (enableClientMsg : Bool) (result : ReadResult α) :
    (result.ops enableClientMsg).map Op.view = result.view.ops enableClientMsg := by
  cases result with
  | im _ => cases enableClientMsg <;> rfl
  | _ => rfl

theorem ReadResult.exists_view (result : Ws.ReadResult) : ∃ r : ReadResult Unit, r.view = result := by
  cases result with
  | closeFrame => exact ⟨.closeFrame, rfl⟩
  | error => exact ⟨.error, rfl⟩
  | badMessage => exact ⟨.badMessage (), rfl⟩
  | request => exact ⟨.request (), rfl⟩
  | im => exact ⟨.im (), rfl⟩
  | unsupported => exact ⟨.unsupported (), rfl⟩

theorem SessionData.view_ops {v : SessionData α} {written : Bool} {todo : List (Op α)}
    (h : v.ops written = some todo) : todo.map Op.view = v.view.ops written := by
  obtain ⟨error, serverMsg⟩ := v
  cases error with
  | some cause =>
    cases h
    rfl
  | none =>
    cases serverMsg with
    | none => cases h
    | some msg => cases msg <;> cases written <;> cases h <;> rfl

/-- A statement of the session's own goroutines: only `Hub.Run` closes a handler because the server stops. -/
def Op.Own : Op α → Prop
  | .append v => v.error ≠ some .serverStop
  | .close cause => cause ≠ .serverStop
  | _ => True

theorem ReadResult.own_ops (enableClientMsg : Bool) (result : ReadResult α) :
    ∀ op ∈ result.ops enableClientMsg, op.Own := by
  cases result with
  | im _ => cases enableClientMsg <;> simp [ops, Op.Own]
  | _ => simp [ops, Op.Own]

theorem SessionData.own_ops {v : SessionData α} (hv : v.error ≠ some .serverStop) {written : Bool}
    {todo : List (Op α)} (h : v.ops written = some todo) : ∀ op ∈ todo, op.Own := by
  unfold ops at h
  split at h
  · rename_i cause herror
    cases h
    have hcause : cause ≠ .serverStop := fun hc => hv (by rw [herror, hc])
    simp [Op.Own, hcause]
  · cases h
  · split_ifs at h
    · cases h
      simp [Op.Own]
    · cases h
      simp [Op.Own]
    · cases h
      simp

/-- Where a loop stands in both models. A wait under the mutex is a wait for the statement. -/
inductive Shows : LoopState → LoopPos α → Prop
  | absent : Shows .absent .absent
  | running {todo : List HandlerOp} {ops : List (Op α)} (h : ops.map Op.view = todo) :
      Shows (.running none todo) (.running ops)
  | exiting : Shows (.running none [.exit]) .finished
  | push {v : SessionData α} {todo : List HandlerOp} {ops : List (Op α)} (h : ops.map Op.view = todo) :
      Shows (.running (some (.push v.view)) todo) (.running (.append v :: ops))
  | del {todo : List HandlerOp} {ops : List (Op α)} (h : ops.map Op.view = todo) :
      Shows (.running (some .del) todo) (.running (.del :: ops))
  | offline {todo : List HandlerOp} {ops : List (Op α)} (h : ops.map Op.view = todo) :
      Shows (.running (some .offline) todo) (.running (.offline :: ops))
  | finished : Shows .finished .finished

theorem Shows.after {todo : List HandlerOp} {ops : List (Op α)} (h : ops.map Op.view = todo) :
    Shows (.running none todo) (LoopPos.after ops) := by
  unfold LoopPos.after
  split
  · obtain rfl := h
    exact .exiting
  · exact .running h

theorem Shows.turn {pos : LoopPos α} (h : Shows (.running none []) pos) : pos = .running [] := by
  cases h with
  | running h => rw [List.map_eq_nil_iff.mp h]

/-- A loop that has a statement left is at it, or was found returned after its last one. -/
theorem Shows.statement {op : HandlerOp} {todo : List HandlerOp} {pos : LoopPos α}
    (h : Shows (.running none (op :: todo)) pos) :
    (∃ (op' : Op α) (ops : List (Op α)), pos = .running (op' :: ops) ∧ op'.view = op ∧ ops.map Op.view = todo) ∨
      op = .exit ∧ pos = .finished := by
  cases h with
  | running h =>
    obtain ⟨op', ops, rfl, hop, hops⟩ := List.map_eq_cons_iff.mp h
    exact .inl ⟨op', ops, rfl, hop, hops⟩
  | exiting => exact .inr ⟨rfl, rfl⟩

/-- The fields of the handler in both models. -/
structure Handler.Matches (g : Handler α) (h : HandlerRun) : Prop where
  stored : g.stored = h.stored
  closing : g.closing = h.closing
  chan : g.dataChan.map SessionData.view = h.dataChan
  own : ∀ v ∈ g.dataChan, v.error ≠ some .serverStop

theorem Handler.Matches.offer {g : Handler α} {h h' : HandlerRun} (hm : g.Matches h) (hs : g.Sound)
    {v : SessionData α} (hv : v.error ≠ some .serverStop) (ho : h.offer v.view = some h') :
    ∃ g', g.appendDataChan v = some g' ∧ g'.Matches h' := by
  have hlength : g.dataChan.length = h.dataChan.length := by rw [← hm.chan, List.length_map]
  unfold HandlerRun.offer at ho
  split_ifs at ho with hclosing hroom
  · obtain rfl := Option.some.inj ho
    exact ⟨g, by rw [appendDataChan, hm.closing, if_pos hclosing], hm⟩
  · obtain rfl := Option.some.inj ho
    have hopen : g.closes = 0 := by
      rw [hs.closes, hm.closing, if_neg hclosing]
    have happend : g.appendDataChan v = some { g with dataChan := g.dataChan ++ [v] } := by
      rw [appendDataChan, hm.closing, if_neg hclosing, hopen, if_neg (lt_irrefl 0), hlength]
      exact if_pos hroom
    refine ⟨_, happend, hm.stored, hm.closing, by simp [hm.chan], fun w hw => ?_⟩
    rcases List.mem_append.mp hw with hw | hw
    · exact hm.own w hw
    · rw [List.mem_singleton.mp hw]
      exact hv

namespace Session

def loop (t : Session α) : Side → LoopPos α
  | .recv => t.recv
  | .send => t.send

def setLoop (t : Session α) (side : Side) (g : Handler α) (pos : LoopPos α) : Session α :=
  match side with
  | .recv => { t with handler := g, recv := pos }
  | .send => { t with handler := g, send := pos }

section SetLoop
variable (t : Session α) (side : Side) (g : Handler α) (pos : LoopPos α)

@[simp] theorem setLoop_handler : (t.setLoop side g pos).handler = g := by cases side <;> rfl

@[simp] theorem setLoop_serve : (t.setLoop side g pos).serve = t.serve := by cases side <;> rfl

@[simp] theorem setLoop_task : (t.setLoop side g pos).task = t.task := by cases side <;> rfl

@[simp] theorem setLoop_loop_self : (t.setLoop side g pos).loop side = pos := by cases side <;> rfl

theorem setLoop_loop_of_ne {x : Side} (hx : x ≠ side) : (t.setLoop side g pos).loop x = t.loop x := by
  cases side <;> cases x <;> first | rfl | exact absurd rfl hx

end SetLoop

variable [DecidableEq α] {enableClientMsg : Bool} {t : Session α}

theorem step_of_next (hr : (closeSystem enableClientMsg).Reachable t) (l : Label α) :
    (closeSystem enableClientMsg).step t l = t.next enableClientMsg l := by
  simp only [closeSystem, (inv_of_reachable hr).sound.crash, Option.isSome_none, Bool.false_eq_true, if_false]

theorem reachable_work (hr : (closeSystem enableClientMsg).Reachable t) {side : Side} {op : Op α}
    {rest : List (Op α)} (hloop : t.loop side = .running (op :: rest)) {g : Handler α} {pos : LoopPos α}
    (he : t.handler.exec rest op = some (g, pos)) :
    (closeSystem enableClientMsg).Reachable (t.setLoop side g pos) := by
  cases side with
  | recv =>
    refine hr.step (l := .recvWork) ?_
    rw [step_of_next hr, next, show t.recv = _ from hloop]
    exact Option.map_eq_some_iff.mpr ⟨(g, pos), he, rfl⟩
  | send =>
    refine hr.step (l := .sendWork) ?_
    rw [step_of_next hr, next, show t.send = _ from hloop]
    exact Option.map_eq_some_iff.mpr ⟨(g, pos), he, rfl⟩

section Turn
variable (hr : (closeSystem enableClientMsg).Reachable t)
include hr

theorem reachable_read (hturn : t.loop .recv = .running []) (result : ReadResult α) :
    (closeSystem enableClientMsg).Reachable (t.setLoop .recv t.handler (.running (result.ops enableClientMsg))) := by
  refine hr.step (l := .read result) ?_
  rw [step_of_next hr]
  exact if_pos hturn

theorem reachable_recvReturn (hturn : t.loop .recv = .running []) (hclosing : t.handler.closing = true) :
    (closeSystem enableClientMsg).Reachable (t.setLoop .recv t.handler .finished) := by
  refine hr.step (l := .recvReturn) ?_
  rw [step_of_next hr]
  exact if_pos ⟨hturn, hclosing⟩

theorem reachable_take (hturn : t.loop .send = .running []) {h : HandlerRun} (hm : t.handler.Matches h)
    {data : Ws.SessionData} {rest : List Ws.SessionData} (hdata : h.dataChan = data :: rest) (written : Bool) :
    ∃ g todo, (closeSystem enableClientMsg).Reachable (t.setLoop .send g (.running todo)) ∧
      g.Matches { h with dataChan := rest } ∧ todo.map Op.view = data.ops written ∧ ∀ op ∈ todo, op.Own := by
  have hchan := hm.chan
  rw [hdata] at hchan
  obtain ⟨v, vs, hvs, rfl, hrest⟩ := List.map_eq_cons_iff.mp hchan
  have hown := hm.own
  rw [hvs, List.forall_mem_cons] at hown
  have hknown : v.Known := (inv_of_reachable hr).sound.known v (by simp [hvs])
  obtain ⟨todo, hops⟩ := Option.isSome_iff_exists.mp (SessionData.isSome_ops hknown written)
  have hstep : (closeSystem enableClientMsg).step t (.take written) =
      some (t.setLoop .send { t.handler with dataChan := vs } (.running todo)) := by
    rw [step_of_next hr]
    simp only [next, show t.send = .running [] from hturn, hvs, hops]
    rfl
  exact ⟨_, todo, hr.step hstep, ⟨hm.stored, hm.closing, hrest, hown.2⟩, SessionData.view_ops hops,
    SessionData.own_ops hown.1 hops⟩

theorem reachable_drained (hturn : t.loop .send = .running []) (hclosing : t.handler.closing = true)
    (hempty : t.handler.dataChan = []) :
    (closeSystem enableClientMsg).Reachable (t.setLoop .send { t.handler with connClosed := true } .finished) := by
  have hcloses : 0 < t.handler.closes := by
    rw [(inv_of_reachable hr).sound.closes, if_pos hclosing]
    exact one_pos
  refine hr.step (l := .drained) ?_
  rw [step_of_next hr]
  exact if_pos ⟨hturn, hempty, hcloses⟩

theorem reachable_pingFailed (hturn : t.loop .send = .running []) :
    (closeSystem enableClientMsg).Reachable
      (t.setLoop .send t.handler (.running [.append ⟨some .pingError, none⟩, .exit])) := by
  refine hr.step (l := .ping false) ?_
  rw [step_of_next hr]
  exact if_pos hturn

end Turn

end Session

theorem Handler.Matches.drained {g : Handler α} {h : HandlerRun} (hm : g.Matches h) (hempty : h.dataChan = []) :
    g.dataChan = [] ∧ Handler.Matches { g with connClosed := true } h := by
  have hchan := hm.chan
  rw [hempty] at hchan
  exact ⟨List.map_eq_nil_iff.mp hchan, hm.stored, hm.closing, hm.chan, hm.own⟩

end CloseProtocol

open CloseProtocol

def ServePhase.view : ServePhase → ServePos
  | .idle | .upgrading => .idle
  | .added | .sending | .parked => .added
  | .returned => .returned

/-- The goroutines of the session in both models. -/
structure HandlerRun.Shown (h : HandlerRun) (t : CloseProtocol.Session Unit) : Prop where
  handler : t.handler.Matches h
  serve : t.serve = h.serve.view
  loops : ∀ side, Shows (h.loop side) (t.loop side)
  own : ∀ side, ∀ op ∈ (t.loop side).todo, op.Own

namespace HandlerRun
variable {h h' : HandlerRun} {t : CloseProtocol.Session Unit} {enableClientMsg storeLocked hubHolds : Bool}
  {side : Side}

theorem Shown.set (hs : h.Shown t) (side : Side) {g : CloseProtocol.Handler Unit} (hm : g.Matches h')
    (hloop : h'.loop = h.loop) (hserve : h'.serve = h.serve) {loop : LoopState} {pos : LoopPos Unit}
    (hshows : Shows loop pos) (hown : ∀ op ∈ pos.todo, op.Own) :
    (h'.setLoop side loop).Shown (t.setLoop side g pos) where
  handler := by
    rw [Session.setLoop_handler]
    exact ⟨hm.stored, hm.closing, hm.chan, hm.own⟩
  serve := by
    rw [Session.setLoop_serve, hs.serve, ← hserve]
    rfl
  loops x := by
    by_cases hx : x = side
    · rw [hx, setLoop_loop_self, Session.setLoop_loop_self]
      exact hshows
    · rw [setLoop_loop_of_ne _ _ hx, Session.setLoop_loop_of_ne _ _ _ _ hx, hloop]
      exact hs.loops x
  own x := by
    by_cases hx : x = side
    · rw [hx, Session.setLoop_loop_self]
      exact hown
    · rw [Session.setLoop_loop_of_ne _ _ _ _ hx]
      exact hs.own x

/-- A state of the session that shows the handler after a step, with `Hub.Run` and the calls where they were. -/
def Follows (enableClientMsg : Bool) (h : HandlerRun) (t : CloseProtocol.Session Unit) : Prop :=
  ∃ t', (closeSystem enableClientMsg).Reachable t' ∧ h.Shown t' ∧ t'.task = t.task

section Statement
variable {ops : List (Op Unit)} {todo : List HandlerOp}

theorem Shown.own_cons (hs : h.Shown t) {op : Op Unit} (hloop : t.loop side = .running (op :: ops)) :
    op.Own ∧ ∀ op' ∈ ops, op'.Own := by
  have hown := hs.own side
  rw [hloop] at hown
  exact List.forall_mem_cons.mp hown

theorem Shown.moves (hs : h.Shown t) (hr : (closeSystem enableClientMsg).Reachable t) {op : Op Unit}
    (hloop : t.loop side = .running (op :: ops)) {g : CloseProtocol.Handler Unit} {pos : LoopPos Unit}
    (he : t.handler.exec ops op = some (g, pos)) (hm : g.Matches h') (hsame : h'.loop = h.loop)
    (hserve : h'.serve = h.serve) {loop : LoopState} (hshows : Shows loop pos) (hown : ∀ op ∈ pos.todo, op.Own) :
    Follows enableClientMsg (h'.setLoop side loop) t :=
  ⟨_, Session.reachable_work hr hloop he, hs.set side hm hsame hserve hshows hown, by simp⟩

theorem Shown.executes (hs : h.Shown t) (hr : (closeSystem enableClientMsg).Reachable t) {op : Op Unit}
    (hloop : t.loop side = .running (op :: ops)) (htodo : ops.map Op.view = todo)
    {g : CloseProtocol.Handler Unit} (he : t.handler.exec ops op = some (g, .after ops)) (hm : g.Matches h')
    (hsame : h'.loop = h.loop) (hserve : h'.serve = h.serve) :
    Follows enableClientMsg (h'.setLoop side (.running none todo)) t := by
  refine hs.moves hr hloop he hm hsame hserve (.after htodo) ?_
  intro op' hop'
  exact (hs.own_cons hloop).2 op' (LoopPos.mem_todo_after hop')

theorem Shown.append (hs : h.Shown t) (hr : (closeSystem enableClientMsg).Reachable t)
    {v : CloseProtocol.SessionData Unit} (hloop : t.loop side = .running (.append v :: ops))
    (htodo : ops.map Op.view = todo) (ho : h.offer v.view = some h') :
    Follows enableClientMsg (h'.setLoop side (.running none todo)) t := by
  obtain ⟨hsame, -, hserve, -⟩ := offer_eq_some ho
  obtain ⟨g, happend, hm⟩ :=
    hs.handler.offer (Session.inv_of_reachable hr).sound (hs.own_cons hloop).1 ho
  exact hs.executes hr hloop htodo (Option.map_eq_some_iff.mpr ⟨g, happend, rfl⟩) hm hsame hserve

theorem Shown.del (hs : h.Shown t) (hr : (closeSystem enableClientMsg).Reachable t)
    (hloop : t.loop side = .running (.del :: ops)) (htodo : ops.map Op.view = todo) {held : LoopState}
    (hheld : Shows held (.running (.offline :: ops) : LoopPos Unit)) :
    (h.stored = true → Follows enableClientMsg { h.setLoop side held with stored := false } t) ∧
      (h.stored = false → Follows enableClientMsg (h.setLoop side (.running none todo)) t) := by
  constructor
  · intro hstored
    have he : t.handler.exec ops .del = some ({ t.handler with stored := false }, .after (.offline :: ops)) := by
      rw [Handler.exec, hs.handler.stored, if_pos hstored]
    have hm : Handler.Matches { t.handler with stored := false } { h with stored := false } :=
      ⟨rfl, hs.handler.closing, hs.handler.chan, hs.handler.own⟩
    have hown : ∀ op ∈ Op.offline :: ops, op.Own :=
      List.forall_mem_cons.mpr ⟨trivial, (hs.own_cons hloop).2⟩
    exact hs.moves hr hloop he hm rfl rfl hheld hown
  · intro hgone
    refine hs.executes hr hloop htodo ?_ hs.handler rfl rfl
    rw [Handler.exec, hs.handler.stored, hgone]
    rfl

theorem Shown.stay (hs : h.Shown t) (hr : (closeSystem enableClientMsg).Reachable t) {loop : LoopState}
    (hshows : Shows loop (t.loop side)) : Follows enableClientMsg (h.setLoop side loop) t := by
  have hm := hs.handler
  refine ⟨t, hr, ⟨⟨hm.stored, hm.closing, hm.chan, hm.own⟩, hs.serve, fun x => ?_, hs.own⟩, rfl⟩
  by_cases hx : x = side
  · rw [hx, setLoop_loop_self]
    exact hshows
  · rw [setLoop_loop_of_ne _ _ hx]
    exact hs.loops x

end Statement

theorem Shown.work (hs : h.Shown t) (hr : (closeSystem enableClientMsg).Reachable t)
    (hw : h.work storeLocked hubHolds side = some h') : Follows enableClientMsg h' t := by
  have hshows := hs.loops side
  unfold HandlerRun.work at hw
  split at hw
  next data todo heq =>
    obtain ⟨u, ho, rfl⟩ := Option.map_eq_some_iff.mp hw
    rw [heq] at hshows
    generalize hloop : t.loop side = pos at hshows
    cases hshows with
    | push htodo => exact hs.append hr hloop htodo ho
  next todo heq =>
    rw [heq] at hshows
    generalize hloop : t.loop side = pos at hshows
    cases hshows with
    | del htodo =>
      have hdel := hs.del hr hloop htodo (.offline htodo)
      split_ifs at hw with hlocked hstored
      · obtain rfl := Option.some.inj hw
        exact hdel.1 hstored
      · obtain rfl := Option.some.inj hw
        exact hdel.2 (by simpa using hstored)
  next data todo heq =>
    rw [heq] at hshows
    split_ifs at hw with hfree
    obtain ⟨op, ops, hloop, hop, htodo⟩ | ⟨hexit, -⟩ := hshows.statement
    · obtain ⟨v, rfl, rfl⟩ := Op.view_eq_append hop
      split at hw
      next u ho =>
        obtain rfl := Option.some.inj hw
        exact hs.append hr hloop htodo ho
      next ho =>
        obtain rfl := Option.some.inj hw
        refine hs.stay hr ?_
        rw [hloop]
        exact .push htodo
    · cases hexit
  next todo heq =>
    rw [heq] at hshows
    split_ifs at hw with hfree hclosing
    · obtain rfl := Option.some.inj hw
      obtain ⟨op, ops, hloop, hop, htodo⟩ | ⟨hexit, -⟩ := hshows.statement
      · obtain ⟨cause, rfl⟩ := Op.view_eq_close hop
        refine hs.executes hr hloop htodo ?_ hs.handler rfl rfl
        rw [Handler.exec, hs.handler.closing, if_pos hclosing]
      · cases hexit
    · obtain rfl := Option.some.inj hw
      obtain ⟨op, ops, hloop, hop, htodo⟩ | ⟨hexit, -⟩ := hshows.statement
      · obtain ⟨cause, rfl⟩ := Op.view_eq_close hop
        obtain ⟨hcause, hown⟩ := hs.own_cons hloop
        have he : t.handler.exec ops (.close cause) = some (t.handler.shut cause, .after (.del :: ops)) := by
          rw [Handler.exec, hs.handler.closing, if_neg hclosing, if_neg hcause]
        have hm : (t.handler.shut cause).Matches { h with closing := true } :=
          ⟨hs.handler.stored, rfl, hs.handler.chan, hs.handler.own⟩
        exact hs.moves hr hloop he hm rfl rfl (.del htodo) (List.forall_mem_cons.mpr ⟨trivial, hown⟩)
      · cases hexit
  next todo heq =>
    rw [heq] at hshows
    obtain ⟨op, ops, hloop, hop, htodo⟩ | ⟨hexit, -⟩ := hshows.statement
    · obtain rfl : op = .del := Op.eq_of_view (by simp) (by simp) hop
      have hdel := hs.del hr hloop htodo (.running (by rw [List.map_cons, htodo]))
      split_ifs at hw with hlocked hstored
      · obtain rfl := Option.some.inj hw
        exact hdel.1 hstored
      · obtain rfl := Option.some.inj hw
        exact hdel.2 (by simpa using hstored)
    · cases hexit
  next todo heq =>
    rw [heq] at hshows
    obtain rfl := Option.some.inj hw
    obtain ⟨op, ops, hloop, hop, htodo⟩ | ⟨-, hloop⟩ := hshows.statement
    · obtain rfl : op = .exit := Op.eq_of_view (by simp) (by simp) hop
      have he : t.handler.exec ops .exit = some (t.handler, .finished) := rfl
      exact hs.moves hr hloop he hs.handler rfl rfl .finished (by simp [LoopPos.todo])
    · refine hs.stay hr ?_
      rw [hloop]
      exact .finished
  next => cases hw

theorem Shown.delivered (hs : h.Shown t) (hr : (closeSystem enableClientMsg).Reachable t)
    (hd : h.delivered side = some h') : Follows enableClientMsg h' t := by
  have hsent : ∀ g : CloseProtocol.Handler Unit,
      g = { t.handler with emitted := t.handler.emitted ++ [.sessionOffline] } → g.Matches h := by
    rintro _ rfl
    exact ⟨hs.handler.stored, hs.handler.closing, hs.handler.chan, hs.handler.own⟩
  have hshows := hs.loops side
  unfold HandlerRun.delivered at hd
  split at hd
  next todo heq =>
    obtain rfl := Option.some.inj hd
    rw [heq] at hshows
    generalize hloop : t.loop side = pos at hshows
    cases hshows with
    | offline htodo => exact hs.executes hr hloop htodo rfl (hsent _ rfl) rfl rfl
  next todo heq =>
    obtain rfl := Option.some.inj hd
    rw [heq] at hshows
    obtain ⟨op, ops, hloop, hop, htodo⟩ | ⟨hexit, -⟩ := hshows.statement
    · obtain rfl : op = .offline := Op.eq_of_view (by simp) (by simp) hop
      exact hs.executes hr hloop htodo rfl (hsent _ rfl) rfl rfl
    · cases hexit
  next todo heq =>
    obtain rfl := Option.some.inj hd
    rw [heq] at hshows
    obtain ⟨op, ops, hloop, hop, htodo⟩ | ⟨hexit, -⟩ := hshows.statement
    · obtain rfl : op = .e2e := Op.eq_of_view (by simp) (by simp) hop
      exact hs.executes hr hloop htodo rfl hs.handler rfl rfl
    · cases hexit
  next => cases hd

theorem Shown.read (hs : h.Shown t) (hr : (closeSystem enableClientMsg).Reachable t) {result : Ws.ReadResult}
    (hread : h.read enableClientMsg result = some h') : Follows enableClientMsg h' t := by
  unfold HandlerRun.read at hread
  split_ifs at hread with heq
  obtain rfl := Option.some.inj hread
  have hshows := hs.loops .recv
  rw [heq] at hshows
  obtain ⟨r, rfl⟩ := ReadResult.exists_view result
  have hset := hs.set .recv hs.handler rfl rfl (.running (r.view_ops enableClientMsg))
    (r.own_ops enableClientMsg)
  exact ⟨_, Session.reachable_read hr hshows.turn r, hset, rfl⟩

theorem Shown.recvReturn (hs : h.Shown t) (hr : (closeSystem enableClientMsg).Reachable t)
    (hreturn : h.recvReturn = some h') : Follows enableClientMsg h' t := by
  unfold HandlerRun.recvReturn at hreturn
  split_ifs at hreturn with heq
  obtain rfl := Option.some.inj hreturn
  have hshows := hs.loops .recv
  rw [heq.1] at hshows
  have hset := hs.set .recv hs.handler rfl rfl .finished (by simp [LoopPos.todo])
  exact ⟨_, Session.reachable_recvReturn hr hshows.turn (hs.handler.closing.trans heq.2), hset, rfl⟩

theorem Shown.take (hs : h.Shown t) (hr : (closeSystem enableClientMsg).Reachable t) {written : Bool}
    (htake : h.take written = some h') : Follows enableClientMsg h' t := by
  unfold HandlerRun.take at htake
  split at htake
  · cases htake
  · next data rest hdata =>
    split_ifs at htake with heq
    obtain rfl := Option.some.inj htake
    have hshows := hs.loops .send
    rw [heq] at hshows
    obtain ⟨g, todo, hreach, hm, hops, hown⟩ := Session.reachable_take hr hshows.turn hs.handler hdata written
    exact ⟨_, hreach, hs.set .send hm rfl rfl (.running hops) hown, rfl⟩

theorem Shown.sendReturn (hs : h.Shown t) (hr : (closeSystem enableClientMsg).Reachable t)
    (hreturn : h.sendReturn = some h') : Follows enableClientMsg h' t := by
  unfold HandlerRun.sendReturn at hreturn
  split_ifs at hreturn with heq
  obtain rfl := Option.some.inj hreturn
  obtain ⟨hturn, hclosing, hempty⟩ := heq
  have hshows := hs.loops .send
  rw [hturn] at hshows
  obtain ⟨hchan, hm⟩ := hs.handler.drained hempty
  have hset := hs.set .send hm rfl rfl .finished (by simp [LoopPos.todo])
  exact ⟨_, Session.reachable_drained hr hshows.turn (hs.handler.closing.trans hclosing) hchan, hset, rfl⟩

theorem Shown.ping (hs : h.Shown t) (hr : (closeSystem enableClientMsg).Reachable t) {written : Bool}
    (hping : h.ping written = some h') : Follows enableClientMsg h' t := by
  unfold HandlerRun.ping at hping
  split_ifs at hping with heq hwritten
  · obtain rfl := Option.some.inj hping
    exact ⟨t, hr, hs, rfl⟩
  · obtain rfl := Option.some.inj hping
    have hshows := hs.loops .send
    rw [heq] at hshows
    have hset := hs.set .send hs.handler rfl rfl
      (.running rfl : Shows _ (.running [.append ⟨some .pingError, none⟩, .exit]))
      (by simp [LoopPos.todo, Op.Own])
    exact ⟨_, Session.reachable_pingFailed hr hshows.turn, hset, rfl⟩

/-- A step of `ServeHTTP` that has no part in the model of the session. -/
theorem Shown.moveServe (hs : h.Shown t) {serve : ServePhase} (hserve : serve.view = h.serve.view) :
    Shown { h with serve := serve } t where
  handler := ⟨hs.handler.stored, hs.handler.closing, hs.handler.chan, hs.handler.own⟩
  serve := hs.serve.trans hserve.symm
  loops := hs.loops
  own := hs.own

theorem Shown.add (hs : h.Shown t) (hr : (closeSystem enableClientMsg).Reachable t) (hidle : h.serve.view = .idle) :
    Follows enableClientMsg { h with serve := .added, stored := true } t := by
  have hstep : (closeSystem enableClientMsg).step t .add =
      some { t with serve := .added, handler := { t.handler with stored := true } } := by
    rw [Session.step_of_next hr]
    exact if_pos (hs.serve.trans hidle)
  have hm := hs.handler
  exact ⟨_, hr.step hstep, ⟨⟨rfl, hm.closing, hm.chan, hm.own⟩, rfl, hs.loops, hs.own⟩, rfl⟩

theorem Shown.online (hs : h.Shown t) (hr : (closeSystem enableClientMsg).Reachable t)
    (hadded : h.serve.view = .added) :
    Follows enableClientMsg { h with serve := .returned, loop := fun _ => .running none [] } t := by
  have hstep : (closeSystem enableClientMsg).step t .online = some { t with
      serve := .returned
      recv := .running []
      send := .running []
      handler := { t.handler with emitted := t.handler.emitted ++ [.sessionOnline] } } := by
    rw [Session.step_of_next hr]
    exact if_pos (hs.serve.trans hadded)
  have hm := hs.handler
  refine ⟨_, hr.step hstep, ⟨⟨hm.stored, hm.closing, hm.chan, hm.own⟩, rfl, fun side => ?_, fun side => ?_⟩, rfl⟩
  · cases side <;> exact .running rfl
  · cases side <;> exact List.forall_mem_nil _

theorem Shown.handOver (hs : h.Shown t) {g : CloseProtocol.Handler Unit} (hm : g.Matches h')
    (hloop : h'.loop = h.loop) (hserve : h'.serve = h.serve) (task : Option ℕ → TaskPos) :
    h'.Shown { t with handler := g, task := task } where
  handler := hm
  serve := by
    rw [hserve]
    exact hs.serve
  loops side := by
    rw [hloop]
    exact hs.loops side
  own := hs.own

theorem Moved.stored_eq (hm : Moved true hubHolds h side h') : h'.stored = h.stored :=
  hm.move.stored_eq.resolve_right (by simp)

end HandlerRun

end MiniPush.Ws
