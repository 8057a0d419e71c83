import MiniPush.Ws.CloseSafety

/-! What is left of a session when its `sendLoop` has returned. `sendLoop` closes the handler when it finds
an error in `dataChan`, but when a write or a ping fails it only puts an error there, which nobody else
reads. -/
namespace MiniPush.Ws.CloseProtocol
open Foundation System

variable {α : Type}

/-- The handler is closed for good, and out of the store unless the server stops. -/
structure Handler.Closed (h : Handler α) : Prop where
  closing : h.closing = true
  conn : h.connClosed = true
  chan : 0 < h.closes
  removed : h.cause ≠ some .serverStop → h.stored = false

/-- A handler that was closed for another cause than the end of the server is out of the store. -/
def Handler.Removed (h : Handler α) : Prop :=
  h.closing = true → h.cause ≠ some .serverStop → h.stored = false

theorem Executes.closing {h h' : Handler α} {rest : List (Op α)} {op : Op α} {pos : LoopPos α}
    (hx : Executes h rest op h' pos) (hclosing : h.closing = true) : h'.closing = true := by
  cases hx with
  | closeStop _ => rfl
  | close cause _ _ => rfl
  | _ => exact hclosing

theorem Delivers.closing {h h' : Handler α} (hd : Delivers h h') (hclosing : h.closing = true) :
    h'.closing = true := by
  cases hd with
  | _ => exact hclosing

namespace Handler
variable {h h' : Handler α} {rest : List (Op α)} {op : Op α} {pos : LoopPos α}

theorem closing_stop (hclosing : h.closing = true) : h.stop.closing = true := by
  rw [stop, if_pos hclosing]
  exact hclosing

theorem Sound.closed (hs : h.Sound) (hclosing : h.closing = true) (hremoved : h.Removed) : h.Closed where
  closing := hclosing
  conn := hs.conn hclosing
  chan := by simp [hs.closes, hclosing]
  removed := hremoved hclosing

theorem Closed.stop (hc : h.Closed) : h.stop.Closed := by
  rw [Handler.stop, if_pos hc.closing]
  exact hc

theorem Closed.deliver (hc : h.Closed) (hd : Delivers h h') : h'.Closed := by
  cases hd with
  | ignored _ => exact hc
  | append msg hopen =>
    rw [hc.closing] at hopen
    cases hopen
  | del => exact ⟨hc.closing, hc.conn, hc.chan, fun _ => rfl⟩

theorem Closed.exec (hc : h.Closed) (hx : Executes h rest op h' pos) : h'.Closed := by
  have hopen : h.closing = false → h'.Closed := by
    intro hopen
    rw [hc.closing] at hopen
    cases hopen
  cases hx with
  | appendIgnored v _ => exact hc
  | append v h => exact hopen h
  | closeIgnored cause _ => exact hc
  | closeStop h => exact hopen h
  | close cause _ h => exact hopen h
  | delIgnored _ => exact hc
  | del _ => exact ⟨hc.closing, hc.conn, hc.chan, fun _ => rfl⟩
  | offline => exact ⟨hc.closing, hc.conn, hc.chan, hc.removed⟩
  | e2e => exact hc
  | exit => exact hc

theorem Removed.stop (hr : h.Removed) : h.stop.Removed := by
  unfold Handler.stop
  split_ifs
  · exact hr
  · intro _ hcause
    exact absurd rfl hcause

theorem Removed.deliver (hr : h.Removed) (hd : Delivers h h') : h'.Removed := by
  cases hd with
  | ignored _ => exact hr
  | append msg _ => exact hr
  | del => exact fun _ _ => rfl

theorem Removed.exec (hr : h.Removed) (hop : op.OfRecv) (hx : Executes h rest op h' pos) : h'.Removed := by
  cases hx with
  | appendIgnored v _ => exact hr
  | append v _ => exact hr
  | closeIgnored cause _ => exact hop.elim
  | closeStop _ => exact hop.elim
  | close cause _ _ => exact hop.elim
  | delIgnored _ => exact hr
  | del _ => exact fun _ _ => rfl
  | offline => exact hr
  | e2e => exact hr
  | exit => exact hr

end Handler

namespace Session
variable {enableClientMsg : Bool} {s s' : Session α} {l : Label α}

def Removing (s : Session α) : Prop := s.send.todo.head? = some .del

/-- Closed by `sendLoop`, the handler is removed before `sendLoop` goes on. -/
structure Tidy (s : Session α) : Prop where
  removed : s.handler.Removed ∨ s.Removing
  shut : s.send.todo.head? = some .del ∨ s.send.todo.head? = some .offline → s.handler.closing = true

theorem Tidy.removed_of_send (ht : s.Tidy) {todo : List (Op α)} (hsend : s.send = .running todo)
    (hhead : todo.head? ≠ some .del) : s.handler.Removed := by
  refine ht.removed.resolve_right fun hremoving => hhead ?_
  rw [← hremoving, hsend]
  rfl

theorem tidy_of_removed (hr : s.handler.Removed) (htodo : .del ∉ s.send.todo ∧ .offline ∉ s.send.todo) :
    s.Tidy := by
  refine ⟨.inl hr, fun h => ?_⟩
  rcases h with h | h
  · exact absurd (List.mem_of_head? h) htodo.1
  · exact absurd (List.mem_of_head? h) htodo.2

theorem tidy_of_idle (hr : s.handler.Removed) (htodo : s.send.todo = []) : s.Tidy :=
  tidy_of_removed hr (by simp [htodo])

/-- A statement of `sendLoop` leaves the handler removed, or is followed by its removal. -/
private theorem Tidy.exec {op : Op α} {rest : List (Op α)} {h' : Handler α} {pos : LoopPos α} (ht : s.Tidy)
    (hsend : s.send = .running (op :: rest)) (htodo : SendTodo (op :: rest))
    (hx : Executes s.handler rest op h' pos) : Tidy { s with handler := h', send := pos } := by
  have hr : op ≠ .del → s.handler.Removed := fun hop => ht.removed_of_send hsend (by simpa using hop)
  have hshut : op = .del → s.handler.closing = true := by
    rintro rfl
    exact ht.shut (.inl (by rw [hsend]; rfl))
  cases htodo with
  | report _ =>
    cases hx with
    | appendIgnored _ _ => exact tidy_of_idle (hr (by simp)) rfl
    | append _ _ => exact tidy_of_idle (hr (by simp)) rfl
  | closeExit cause =>
    cases hx with
    | closeIgnored _ _ => exact tidy_of_idle (hr (by simp)) rfl
    | closeStop _ => exact tidy_of_idle (fun _ h => absurd rfl h) rfl
    | close _ _ _ => exact ⟨.inr rfl, fun _ => rfl⟩
  | close cause =>
    cases hx with
    | closeIgnored _ _ => exact tidy_of_idle (hr (by simp)) rfl
    | closeStop _ => exact tidy_of_idle (fun _ h => absurd rfl h) rfl
    | close _ _ _ => exact ⟨.inr rfl, fun _ => rfl⟩
  | delExit =>
    cases hx with
    | delIgnored hgone => exact tidy_of_idle (fun _ _ => hgone) rfl
    | del _ => exact ⟨.inl fun _ _ => rfl, fun _ => hshut rfl⟩
  | del =>
    cases hx with
    | delIgnored hgone => exact tidy_of_idle (fun _ _ => hgone) rfl
    | del _ => exact ⟨.inl fun _ _ => rfl, fun _ => hshut rfl⟩
  | offlineExit =>
    cases hx
    exact tidy_of_idle (hr (by simp)) rfl
  | offline =>
    cases hx
    exact tidy_of_idle (hr (by simp)) rfl

/-- What others do to the handler while `sendLoop` stays where it is. -/
private theorem Tidy.other {h' : Handler α} (ht : s.Tidy) (hr : s.handler.Removed → h'.Removed)
    (hclosing : s.handler.closing = true → h'.closing = true) (recv : LoopPos α) (task : Option ℕ → TaskPos) :
    Tidy { s with handler := h', recv := recv, task := task } :=
  ⟨ht.removed.imp_left hr, fun h => hclosing (ht.shut h)⟩

theorem Tidy.step [DecidableEq α] (ht : s.Tidy) (hi : s.Inv) (h : Steps enableClientMsg s l s') : s'.Tidy := by
  cases h with
  | add hserve =>
    have hledger := hi.ledger
    rw [Ledger, hserve] at hledger
    obtain ⟨-, hopen, -, -, hsend⟩ := hledger
    refine tidy_of_idle (fun hclosing => ?_) (by rw [hsend]; rfl)
    rw [show s.handler.closing = true from hclosing] at hopen
    cases hopen
  | online hserve =>
    have hledger := hi.ledger
    rw [Ledger, hserve] at hledger
    have hr : s.handler.Removed := ht.removed.resolve_right fun h => by
      rw [Removing, hledger.2.2] at h
      cases h
    exact tidy_of_idle hr rfl
  | read result _ => exact ht.other id id _ _
  | recvReturn _ _ => exact ht.other id id _ _
  | @recvWork op rest h' pos hrecv hx =>
    have hop : op.OfRecv := hi.recv op (by rw [hrecv]; exact List.mem_cons_self)
    refine ht.other (fun hr => hr.exec hop hx) (fun hclosing => ?_) _ _
    exact hx.closing hclosing
  | @take v rest written todo hsend hchan hops =>
    exact tidy_of_removed (ht.removed_of_send hsend (by simp)) (SessionData.notMem_ops hops)
  | drained hsend _ =>
    exact tidy_of_idle (ht.removed_of_send hsend (by simp)) rfl
  | ping written hsend =>
    have hr : s.handler.Removed := ht.removed_of_send hsend (by simp)
    cases written with
    | true => exact tidy_of_idle hr rfl
    | false => exact tidy_of_removed hr (by simp [LoopPos.todo])
  | sendWork hsend hx => exact ht.exec hsend (by simpa [hsend, LoopPos.todo] using hi.send) hx
  | move _ task => exact ht.other id id _ _
  | deliver i task hd => exact ht.other (fun hr => hr.deliver hd) hd.closing _ _
  | stop task _ => exact ht.other (fun hr => hr.stop) Handler.closing_stop _ _

def SenderGone (s : Session α) : Prop := s.send = .finished → s.handler.Closed

/-- `sendLoop` reports a failed write or ping only when the handler is closing already. -/
def ReportsClosing (s : Session α) : Label α → Prop
  | .sendWork =>
    match s.send.todo with
    | .append _ :: _ => s.handler.closing = true
    | _ => True
  | _ => True

/-- A report ends `sendLoop`; it leaves the handler closed if it was. -/
private theorem senderGone_report [DecidableEq α] {v : SessionData α} {h' : Handler α} {pos : LoopPos α} (hi : s.Inv)
    (ht : s.Tidy) (hsend : s.send = .running [.append v, .exit])
    (hx : Executes s.handler [.exit] (.append v) h' pos) :
    SenderGone { s with handler := h', send := pos } ↔ s.handler.closing = true := by
  have hr : s.handler.Removed := ht.removed_of_send hsend (by simp)
  cases hx with
  | appendIgnored _ hclosing => exact ⟨fun _ => hclosing, fun _ _ => hi.sound.closed hclosing hr⟩
  | append _ hopen =>
    constructor
    · intro h
      exact (h rfl).closing
    · intro hclosing
      rw [hclosing] at hopen
      cases hopen

/-- The other statements of `sendLoop` leave it at work, or the handler closed. -/
private theorem senderGone_exec {op : Op α} {rest : List (Op α)} {h' : Handler α} {pos : LoopPos α} (hi' : h'.Sound)
    (ht : s.Tidy) (hsend : s.send = .running (op :: rest)) (htodo : SendTodo (op :: rest))
    (hop : ∀ v, op ≠ .append v) (ht' : Tidy { s with handler := h', send := pos })
    (hx : Executes s.handler rest op h' pos) : SenderGone { s with handler := h', send := pos } := by
  intro hfinished
  have hr : h'.Removed := by
    refine ht'.removed.resolve_right fun hremoving => ?_
    rw [Removing, show pos = .finished from hfinished] at hremoving
    cases hremoving
  refine hi'.closed ?_ hr
  have hshut := ht.shut
  rw [hsend] at hshut
  cases hx with
  | appendIgnored v _ => exact absurd rfl (hop v)
  | append v _ => exact absurd rfl (hop v)
  | closeIgnored cause hclosing => exact hclosing
  | closeStop _ => rfl
  | close cause _ _ => rfl
  | delIgnored _ => exact hshut (.inl rfl)
  | del _ => exact hshut (.inl rfl)
  | offline => exact hshut (.inr rfl)
  | e2e => cases htodo
  | exit => cases htodo

private theorem SenderGone.other {h' : Handler α} (hg : s.SenderGone)
    (hc : s.handler.Closed → h'.Closed) (recv : LoopPos α) (task : Option ℕ → TaskPos) :
    SenderGone { s with handler := h', recv := recv, task := task } :=
  fun h => hc (hg h)

theorem senderGone_step_iff [DecidableEq α] (hg : s.SenderGone) (hi : s.Inv) (ht : s.Tidy)
    (h : Steps enableClientMsg s l s') : s'.SenderGone ↔ s.ReportsClosing l := by
  have ht' := ht.step hi h
  have hi' := (hi.step h).sound
  cases h with
  | @sendWork op rest h' pos hsend hx =>
    have htodo : SendTodo (op :: rest) := by simpa [hsend, LoopPos.todo] using hi.send
    rw [ReportsClosing, hsend]
    cases op with
    | append v =>
      cases htodo with
      | report _ => exact senderGone_report hi ht hsend hx
    | _ => exact iff_of_true (senderGone_exec hi' ht hsend htodo (by simp) ht' hx) trivial
  | add hserve =>
    have hledger := hi.ledger
    rw [Ledger, hserve] at hledger
    refine iff_of_true (fun hfinished => ?_) trivial
    rw [show s.send = .finished from hfinished] at hledger
    cases hledger.2.2.2.2
  | online hserve => exact iff_of_true (fun h => by cases h) trivial
  | read result _ => exact iff_of_true (hg.other id _ _) trivial
  | recvReturn _ _ => exact iff_of_true (hg.other id _ _) trivial
  | recvWork _ hx => exact iff_of_true (hg.other (fun hc => hc.exec hx) _ _) trivial
  | take hsend hchan hops => exact iff_of_true (fun h => by cases h) trivial
  | drained hsend hclosed =>
    refine iff_of_true (fun _ => ?_) trivial
    have hclosing : s.handler.closing = true := by
      by_contra hopen
      rw [hi.sound.closes, if_neg hopen] at hclosed
      exact absurd hclosed (lt_irrefl 0)
    exact hi'.closed hclosing (ht.removed_of_send hsend (by simp))
  | ping written hsend =>
    cases written with
    | true => exact iff_of_true (fun h => by cases h) trivial
    | false => exact iff_of_true (fun h => by cases h) trivial
  | @move l hl task =>
    refine iff_of_true (hg.other id _ _) ?_
    cases l with
    | sendWork => cases hl
    | _ => trivial
  | deliver i task hd => exact iff_of_true (hg.other (fun hc => hc.deliver hd) _ _) trivial
  | stop task _ => exact iff_of_true (hg.other (fun hc => hc.stop) _ _) trivial

end Session

/-- As long as `sendLoop` reports a failed write or ping only when the handler is closing, its return leaves
the handler closed. Any other such report ends it with the session open and nobody left to close it. -/
theorem sender_gone_exactly_while_reportsClosing [DecidableEq α] (enableClientMsg : Bool) (s : Session α)
    (h : (closeSystem enableClientMsg).ReachableVia Session.ReportsClosing s) :
    s.SenderGone ∧ ∀ l s', (closeSystem enableClientMsg).step s l = some s' →
      (s'.SenderGone ↔ s.ReportsClosing l) := by
  refine ReachableVia.exactly (I := fun s => s.Inv ∧ s.Tidy) ?_ ?_ ?_ h
  · rintro _ rfl
    exact ⟨⟨Session.inv_start, Session.tidy_of_idle (fun h => (by cases h)) rfl⟩, fun h => (by cases h)⟩
  · rintro s l s' ⟨hi, ht⟩ hs
    have hsteps := hi.sound.steps hs
    exact ⟨hi.step hsteps, ht.step hi hsteps⟩
  · rintro s l s' ⟨hi, ht⟩ hg hs
    exact Session.senderGone_step_iff hg hi ht (hi.sound.steps hs)

instance (s : Session α) : (l : Label α) → Decidable (s.ReportsClosing l)
  | .sendWork => by
    unfold Session.ReportsClosing
    dsimp only
    split
    · infer_instance
    · infer_instance
  | .add | .online | .read _ | .recvReturn | .recvWork | .take _ | .drained | .ping _ | .kickoff _
  | .headSeq _ | .deliver _ | .stop | .leaderClosed => isTrue trivial

/-- The client's connection breaks, and `recvLoop` reports it. -/
def readErrorRun : List (Label Unit) :=
  [.add, .online, .read .error, .recvWork, .take true, .sendWork, .sendWork, .sendWork]

theorem sender_gone_readErrorRun :
    ∃ s : Session Unit, (closeSystem true).ReachableVia Session.ReportsClosing s ∧ s.send = .finished ∧
      s.handler.cause = some .readError ∧ s.handler.Closed := by
  have hrun : ((closeSystem true).runVia (fun s l => decide (s.ReportsClosing l)) .start
      readErrorRun).map (fun s => (s.send, s.handler.cause)) = some (.finished, some .readError) := by
    decide +kernel
  obtain ⟨s, hs, hview⟩ := Option.map_eq_some_iff.mp hrun
  obtain ⟨hsend, hcause⟩ := Prod.mk.inj hview
  have hreach : (closeSystem true).ReachableVia Session.ReportsClosing s :=
    ReachableVia.runVia (fun _ _ h => of_decide_eq_true h) (.init rfl) readErrorRun hs
  exact ⟨s, hreach, hsend, hcause, (sender_gone_exactly_while_reportsClosing true s hreach).1 hsend⟩

/-- A ping fails: `sendLoop` returns with the session open and in the store, and the error it reported waits
in the channel. -/
theorem failed_ping_leaves_session_open :
    ∃ s : Session Unit, (closeSystem true).Reachable s ∧ s.send = .finished ∧ s.handler.closing = false ∧
      s.handler.connClosed = false ∧ s.handler.closes = 0 ∧ s.handler.stored = true ∧
      s.handler.dataChan = [⟨some .pingError, none⟩] := by
  have hrun : ((closeSystem true).run .start [.add, .online, .ping false, .sendWork]).map
      (fun s : Session Unit => (s.send, s.handler)) = some (.finished,
        ⟨true, false, false, [⟨some .pingError, none⟩], 0, none, [.sessionOnline], none⟩) := by
    decide +kernel
  obtain ⟨s, hs, hview⟩ := Option.map_eq_some_iff.mp hrun
  obtain ⟨hsend, hhandler⟩ := Prod.mk.inj hview
  refine ⟨s, Reachable.run (.init rfl) _ hs, hsend, ?_⟩
  rw [hhandler]
  exact ⟨rfl, rfl, rfl, rfl, rfl⟩

end MiniPush.Ws.CloseProtocol
