import MiniPush.Ws.HandlerSpec
import MiniPush.Ws.StandaloneSpec

/-! Sends on `recvMsgChan` after `Standalone.Run` has closed it. -/
namespace MiniPush.Ws
open Foundation

namespace LoopState

/-- After its present statement the loop has no send on `followerC` left in this turn. -/
def Plain : LoopState → Prop
  | .running none todo => ∀ op ∈ todo.tail, op ≠ .offline ∧ op ≠ .e2e
  | .running (some _) todo => ∀ op ∈ todo, op ≠ .offline ∧ op ≠ .e2e
  | .absent | .finished => True

def deleting : LoopState → Bool
  | .running (some .del) _ => true
  | .running none (.del :: _) => true
  | _ => false

private theorem sending_of_plain {todo : List HandlerOp}
    (h : ∀ op ∈ todo, op ≠ .offline ∧ op ≠ .e2e) : (running none todo).sending = false := by
  cases todo with
  | nil => rfl
  | cons op todo =>
    have hop := h op List.mem_cons_self
    cases op with
    | offline => exact absurd rfl hop.1
    | e2e => exact absurd rfl hop.2
    | append _ | close | del | exit => rfl

private theorem plain_of_plain {todo : List HandlerOp}
    (h : ∀ op ∈ todo, op ≠ .offline ∧ op ≠ .e2e) : (running none todo).Plain :=
  fun op hop => h op (List.mem_of_mem_tail hop)

end LoopState

namespace HandlerRun
variable {storeLocked hubHolds : Bool} {h h' : HandlerRun} {side : Side}
  {old new : LoopState} {stored : Bool}

theorem LoopMove.plain (hm : LoopMove storeLocked hubHolds h old new stored) (hp : old.Plain) :
    new.Plain := by
  cases hm with
  | resume _ => exact LoopState.plain_of_plain hp
  | next _ => exact LoopState.plain_of_plain hp
  | block _ _ _ => exact hp
  | lock _ _ _ => exact hp
  | unstoreHeld _ _ => exact hp
  | unstore _ _ => exact hp
  | leave => trivial
  | turn hops => exact hops
  | stop => trivial

/-- Inside a turn, a loop starts to send only by deleting a stored handler. -/
theorem LoopMove.sending_iff (hm : LoopMove storeLocked hubHolds h old new stored)
    (hp : old.Plain) (hturn : old ≠ .running none []) :
    new.sending = true ↔ old.deleting = true ∧ h.stored = true := by
  cases hm with
  | @resume held todo hdel =>
    rw [LoopState.sending_of_plain hp]
    cases held with
    | del => simp [hdel rfl]
    | push data => simp [LoopState.deleting]
    | offline => simp [LoopState.deleting]
  | @next op todo hdel =>
    have htodo : ∀ op ∈ todo, op ≠ .offline ∧ op ≠ .e2e := hp
    rw [LoopState.sending_of_plain htodo]
    cases op with
    | del => simp [hdel rfl]
    | append _ | close | offline | e2e | exit => simp [LoopState.deleting]
  | block _ _ _ => simp [LoopState.sending, LoopState.deleting]
  | lock _ _ _ => simp [LoopState.sending, LoopState.deleting]
  | unstoreHeld _ hs => simp [LoopState.sending, LoopState.deleting, hs]
  | unstore _ hs => simp [LoopState.sending, LoopState.deleting, hs]
  | leave => simp [LoopState.sending, LoopState.deleting]
  | turn _ => exact absurd rfl hturn
  | stop => exact absurd rfl hturn

def sending (h : HandlerRun) : Bool :=
  h.serve = .sending || (h.loop .recv).sending || (h.loop .send).sending

def Plain (h : HandlerRun) : Prop := ∀ side, (h.loop side).Plain

theorem sending_congr (hserve : h'.serve = h.serve) (hloop : h'.loop = h.loop) :
    h'.sending = h.sending := by
  simp only [sending, hserve, hloop]

theorem sending_of_serve_ne (hloop : h'.loop = h.loop) (hserve : h'.serve ≠ .sending)
    (hq : h.sending = false) : h'.sending = false := by
  simp only [sending, Bool.or_eq_false_iff] at hq ⊢
  rw [hloop]
  exact ⟨⟨decide_eq_false hserve, hq.1.2⟩, hq.2⟩

theorem Moved.plain (hm : Moved storeLocked hubHolds h side h') (hp : h.Plain) : h'.Plain := by
  intro x
  by_cases hx : x = side
  · subst hx
    exact hm.move.plain (hp x)
  · rw [hm.other x hx]
    exact hp x

/-- With everybody else quiet, the moved loop decides. -/
theorem Moved.sending_eq (hm : Moved storeLocked hubHolds h side h') (hq : h.sending = false) :
    h'.sending = (h'.loop side).sending := by
  simp only [sending, Bool.or_eq_false_iff] at hq
  obtain ⟨⟨hserve, hrecv⟩, hsend⟩ := hq
  simp only [sending, hm.serve, hserve, Bool.false_or]
  cases side with
  | recv => rw [hm.other .send (by decide), hsend, Bool.or_false]
  | send => rw [hm.other .recv (by decide), hrecv, Bool.false_or]

theorem work_turn (hw : h.work storeLocked hubHolds side = some h') :
    h.loop side ≠ .running none [] := by
  intro hl
  simp [work, hl] at hw

theorem read_sending {enableClientMsg : Bool} {result : ReadResult}
    (hr : h.read enableClientMsg result = some h') :
    (h'.loop .recv).sending = true ↔ result = .im ∧ enableClientMsg = true := by
  unfold read at hr
  split_ifs at hr
  obtain rfl := Option.some.inj hr
  rw [setLoop_loop_self]
  cases result <;> cases enableClientMsg <;> simp [ReadResult.ops, LoopState.sending]

theorem recvReturn_sending (hr : h.recvReturn = some h') : (h'.loop .recv).sending = false := by
  unfold recvReturn at hr
  split_ifs at hr
  obtain rfl := Option.some.inj hr
  rw [setLoop_loop_self]
  rfl

theorem take_sending {written : Bool} (ht : h.take written = some h') :
    (h'.loop .send).sending = false := by
  unfold take at ht
  split at ht
  · exact absurd ht (by simp)
  · next data rest _ =>
    split_ifs at ht
    obtain rfl := Option.some.inj ht
    simp only [setLoop_loop_self]
    cases data <;> cases written <;> rfl

theorem sendReturn_sending (hr : h.sendReturn = some h') : (h'.loop .send).sending = false := by
  unfold sendReturn at hr
  split_ifs at hr
  obtain rfl := Option.some.inj hr
  rw [setLoop_loop_self]
  rfl

theorem ping_sending {written : Bool} (hq : h.sending = false) (hp : h.ping written = some h') :
    h'.sending = false := by
  rcases @ping_moved false false h h' written hp with rfl | hm
  · exact hq
  · rw [hm.sending_eq hq]
    unfold ping at hp
    split_ifs at hp with heq hw
    · obtain rfl := Option.some.inj hp
      rw [heq]
      rfl
    · obtain rfl := Option.some.inj hp
      rw [setLoop_loop_self]
      rfl

end HandlerRun

namespace Process
variable {ι : Type} [DecidableEq ι]

def Quiet (s : Process ι) : Prop :=
  s.run.recvMsgClosed = true → ∀ i, (s.handlers i).sending = false

/-- `recvMsgChan` is closed only when no goroutine sends on it, and afterwards no goroutine
comes to a send: no new handler sends `SessionOnline`, no client message is routed, and
`delHandler` finds no stored handler. -/
def SendsOpen (cfg : StandaloneConfig ι) (s : Process ι) : ProcessLabel ι → Prop
  | .deferred => s.run = .deferred .closeRecvMsgChan → ∀ i, (s.handlers i).sending = false
  | .serveSend _ => s.run.recvMsgClosed = true → s.hub = .starting
  | .read _ result => s.run.recvMsgClosed = true → result = .im → cfg.enableClientMsg = false
  | .work i side => s.run.recvMsgClosed = true → ((s.handlers i).loop side).deleting = true →
      (s.handlers i).stored = false
  | _ => True

instance [Fintype ι] {cfg : StandaloneConfig ι} {s : Process ι} :
    (l : ProcessLabel ι) → Decidable (s.SendsOpen cfg l)
  | .deferred => inferInstanceAs (Decidable (_ → _))
  | .serveSend _ => inferInstanceAs (Decidable (_ → _))
  | .read _ _ => inferInstanceAs (Decidable (_ → _))
  | .work _ _ => inferInstanceAs (Decidable (_ → _))
  | .cancel | .goOnline | .copySessions | .tick _ | .runCtxDone | .storage _ | .hubStart
  | .hubCtxDone _ | .hubRecvHeadSeq _ | .hubRecvKickoff | .hubRecvClosed | .hubWork _
  | .serveCheck _ | .serveAdd _ | .serveSent _ _ | .recvReturn _ | .take _ _ | .ping _ _
  | .sendReturn _ | .deliver _ _ => isTrue trivial

variable {cfg : StandaloneConfig ι} {s t : Process ι} {i : ι} {h : HandlerRun}

theorem quiet_setHandler (hq : s.Quiet) :
    (s.setHandler i h).Quiet ↔ (s.run.recvMsgClosed = true → h.sending = false) := by
  constructor
  · intro ht hc
    simpa using ht hc i
  · intro hh hc j
    by_cases hj : j = i
    · subst hj
      rw [setHandler_handlers_self]
      exact hh hc
    · rw [setHandler_handlers_of_ne s h hj]
      exact hq hc j

omit [DecidableEq ι] in
theorem quiet_of_open (h : t.run.recvMsgClosed = false) : t.Quiet := by
  intro hc
  rw [h] at hc
  exact absurd hc (by decide)

def Tidy (s : Process ι) : Prop := (∀ i, (s.handlers i).Plain) ∧ s.Quiet

theorem plain_setHandler (hs : s.Tidy) (hh : h.Plain) (j : ι) :
    ((s.setHandler i h).handlers j).Plain := by
  by_cases hj : j = i
  · subst hj
    rw [setHandler_handlers_self]
    exact hh
  · rw [setHandler_handlers_of_ne s h hj]
    exact hs.1 j

/-- A goroutine that does not come to a send keeps the process tidy. -/
theorem Tidy.setHandler (hs : s.Tidy) (hp : h.Plain)
    (hq : (s.handlers i).sending = false → h.sending = false) : (s.setHandler i h).Tidy :=
  ⟨plain_setHandler hs hp, (quiet_setHandler hs.2).mpr fun hc => hq (hs.2 hc i)⟩

private theorem Tidy.setHandler_of_loop_eq (hs : s.Tidy) (hloop : h.loop = (s.handlers i).loop)
    (hserve : h.serve = (s.handlers i).serve) : (s.setHandler i h).Tidy := by
  apply hs.setHandler
  · intro side
    rw [hloop]
    exact hs.1 i side
  · intro hq
    exact (HandlerRun.sending_congr hserve hloop).trans hq

omit [DecidableEq ι] in
private theorem kickoff_recvMsgClosed (kick : List ι) : (kickoff kick).recvMsgClosed = false := by
  unfold kickoff
  split_ifs
  · rfl
  · rfl

private theorem tidy_hubMove {slice : List ι} (hs : s.Tidy) (hm : HubMove cfg s slice t) :
    t.Tidy := by
  cases hm with
  | back _ | found _ _ | missed _ | blocked _ _ _ | listed _ _ | closedAll _ => exact hs
  | appended _ _ ho =>
    obtain ⟨hloop, -, hserve, -⟩ := HandlerRun.offer_eq_some ho
    exact hs.setHandler_of_loop_eq hloop hserve
  | resumed _ ho =>
    obtain ⟨hloop, -, hserve, -⟩ := HandlerRun.offer_eq_some ho
    exact hs.setHandler_of_loop_eq hloop hserve
  | removed _ => exact hs.setHandler_of_loop_eq rfl rfl
  | closed _ => exact hs.setHandler_of_loop_eq rfl rfl

omit [DecidableEq ι] in
/-- The deferred function closes the channel at one statement only. -/
private theorem tidy_deferred {op : StopOp} (hs : s.Tidy) (hrun : s.run = .deferred op)
    (hplain : op.plain = true) :
    Quiet { s with run := .deferred op.next } ↔ s.SendsOpen cfg .deferred := by
  simp only [Quiet, SendsOpen, hrun]
  cases op with
  | notifyStop =>
    have hquiet := hs.2 (by rw [hrun]; rfl)
    simp [hquiet]
  | recvStorageStop | recvHubStop | finished => exact absurd hplain (by decide)
  | closeRecvMsgChan => simp [StopOp.next, RunPhase.recvMsgClosed]
  | stopTicker | shutdownHttp | closeStorageStop | closeHubStop | closeSendMsgChan =>
    simp [StopOp.next, RunPhase.recvMsgClosed]

variable [Fintype ι]

/-- Every step keeps the process quiet exactly if it meets `SendsOpen`. -/
theorem tidy_step {l : ProcessLabel ι} (hs : s.Tidy) (ht : s.step cfg l = some t) :
    (∀ i, (t.handlers i).Plain) ∧ (t.Quiet ↔ s.SendsOpen cfg l) := by
  have hkept : t.Tidy → s.SendsOpen cfg l →
      (∀ i, (t.handlers i).Plain) ∧ (t.Quiet ↔ s.SendsOpen cfg l) :=
    fun htidy hl => ⟨htidy.1, iff_of_true htidy.2 hl⟩
  cases step_spec ht with
  | deferred hrun hplain => exact ⟨hs.1, tidy_deferred hs hrun hplain⟩
  | recvStorageStop hrun _ => exact hkept ⟨hs.1, quiet_of_open rfl⟩ (by simp [SendsOpen, hrun])
  | recvHubStop hrun _ => exact hkept ⟨hs.1, quiet_of_open rfl⟩ (by simp [SendsOpen, hrun])
  | @park i _ hstart =>
    exact hkept (hs.setHandler (hs.1 i) (HandlerRun.sending_of_serve_ne rfl (by simp)))
      fun _ => hstart
  | @serveSend i _ hstart =>
    refine ⟨plain_setHandler hs (hs.1 i), ?_⟩
    rw [quiet_setHandler hs.2]
    simp [SendsOpen, HandlerRun.sending, hstart]
  | @read i result h hr =>
    have hm : HandlerRun.Moved false false (s.handlers i) .recv h := HandlerRun.read_moved hr
    refine ⟨plain_setHandler hs (hm.plain (hs.1 i)), ?_⟩
    rw [quiet_setHandler hs.2]
    apply imp_congr_right
    intro hc
    rw [hm.sending_eq (hs.2 hc i), ← Bool.not_eq_true, HandlerRun.read_sending hr, not_and,
      Bool.not_eq_true]
  | @work i side h hw =>
    have hm := HandlerRun.work_moved hw
    refine ⟨plain_setHandler hs (hm.plain (hs.1 i)), ?_⟩
    rw [quiet_setHandler hs.2]
    apply imp_congr_right
    intro hc
    rw [hm.sending_eq (hs.2 hc i), ← Bool.not_eq_true,
      hm.move.sending_iff (hs.1 i side) (HandlerRun.work_turn hw), not_and, Bool.not_eq_true]
  | cancel | storage _ | hubStart _ | hubCtxDone _ _ | hubRecvHeadSeq _ _ | hubRecvClosed _ _ =>
    exact hkept hs trivial
  | goOnline _ | sync _ _ | noSession _ | tick _ | runCtxDone _ | hubRecvKickoff _ _ =>
    exact hkept ⟨hs.1, quiet_of_open rfl⟩ trivial
  | hubWork hm => exact hkept (tidy_hubMove hs hm) trivial
  | @serveCheck i _ | @serveAdd i _ =>
    exact hkept (hs.setHandler (hs.1 i) (HandlerRun.sending_of_serve_ne rfl (by simp))) trivial
  | @serveSent i kick _ =>
    refine hkept ⟨plain_setHandler hs ?_, quiet_of_open (kickoff_recvMsgClosed kick)⟩ trivial
    intro side op hop
    simp at hop
  | @recvReturn i h hr =>
    have hm : HandlerRun.Moved false false (s.handlers i) .recv h := HandlerRun.recvReturn_moved hr
    exact hkept (hs.setHandler (hm.plain (hs.1 i)) fun hq =>
      (hm.sending_eq hq).trans (HandlerRun.recvReturn_sending hr)) trivial
  | @take i written h hr =>
    have hm : HandlerRun.Moved false false (s.handlers i) .send h := HandlerRun.take_moved hr
    exact hkept (hs.setHandler (hm.plain (hs.1 i)) fun hq =>
      (hm.sending_eq hq).trans (HandlerRun.take_sending hr)) trivial
  | @ping i written h hr =>
    rcases @HandlerRun.ping_moved false false _ _ written hr with rfl | hm
    · exact hkept (hs.setHandler (hs.1 i) id) trivial
    · exact hkept (hs.setHandler (hm.plain (hs.1 i)) fun hq => HandlerRun.ping_sending hq hr) trivial
  | @sendReturn i h hr =>
    have hm : HandlerRun.Moved false false (s.handlers i) .send h := HandlerRun.sendReturn_moved hr
    exact hkept (hs.setHandler (hm.plain (hs.1 i)) fun hq =>
      (hm.sending_eq hq).trans (HandlerRun.sendReturn_sending hr)) trivial
  | @deliver i side h hrun hd =>
    have hm : HandlerRun.Moved false false (s.handlers i) side h := HandlerRun.delivered_moved hd
    refine hkept ⟨plain_setHandler hs (hm.plain (hs.1 i)), quiet_of_open ?_⟩ trivial
    show s.run.recvMsgClosed = false
    rw [hrun]
    rfl

theorem tidy_of_reachableVia (hs : (processSystem cfg).ReachableVia (SendsOpen cfg) s) :
    s.Tidy := by
  apply hs.invariant (I := Tidy)
  · intro s hs
    obtain rfl := hs
    exact ⟨fun i side => trivial, quiet_of_open rfl⟩
  · intro s l t hs hl ht
    have hstep := tidy_step hs ht
    exact ⟨hstep.1, hstep.2.mpr hl⟩

end Process

/-- In every run of steps that meet `SendsOpen`, nobody sends on the closed `recvMsgChan`,
and any other step of such a run makes somebody do so. -/
theorem quiet_exactly_while_sendsOpen {ι : Type} [DecidableEq ι] [Fintype ι]
    (cfg : StandaloneConfig ι) (s : Process ι)
    (h : (processSystem cfg).ReachableVia (Process.SendsOpen cfg) s) :
    s.Quiet ∧ ∀ l t, s.step cfg l = some t → (t.Quiet ↔ s.SendsOpen cfg l) := by
  have hs := Process.tidy_of_reachableVia h
  exact ⟨hs.2, fun l t ht => (Process.tidy_step hs ht).2⟩

/-- The server starts and the session is opened. -/
def openingRun : List (ProcessLabel (Fin 1)) :=
  [.storage (.add .consume), .storage (.add .send), .hubStart, .goOnline, .copySessions,
    .serveCheck 0, .serveAdd 0, .serveSend 0, .serveSent 0 []]

/-- The context is cancelled, and the clean-up runs up to the close of `recvMsgChan`. -/
def stoppingRun (order : List (Fin 1)) : List (ProcessLabel (Fin 1)) :=
  [.cancel, .runCtxDone, .storage .ctxDone, .storage .close, .storage (.exit .consume),
    .storage (.exit .send), .storage .wait, .hubCtxDone order] ++
  order.map (fun _ => .hubWork []) ++ [.hubWork []] ++ List.replicate 8 .deferred

/-- The peer closes the session before the shutdown, and its `SessionOffline` is received. -/
theorem quiet_orderlyClose : ∃ s : Process (Fin 1),
    (processSystem oneSessionConfig).ReachableVia (Process.SendsOpen oneSessionConfig) s ∧
      s.run.recvMsgClosed = true ∧ (s.handlers 0).loop .recv = .finished ∧ s.Quiet := by
  have hrun : ((processSystem oneSessionConfig).runVia
      (fun s l => decide (s.SendsOpen oneSessionConfig l)) (.start oneSessionConfig)
      (openingRun ++ [.read 0 .closeFrame, .work 0 .recv, .deliver 0 .recv, .work 0 .recv,
        .work 0 .recv] ++ stoppingRun [])).map
        (fun s => (s.run.recvMsgClosed, (s.handlers 0).loop .recv)) = some (true, .finished) := by
    decide +kernel
  obtain ⟨s, hs, hv⟩ := Option.map_eq_some_iff.mp hrun
  obtain ⟨hc, hf⟩ := Prod.mk.inj hv
  have hreach := System.ReachableVia.runVia (fun _ _ h => of_decide_eq_true h) (.init rfl) _ hs
  exact ⟨s, hreach, hc, hf, (quiet_exactly_while_sendsOpen oneSessionConfig s hreach).1⟩

/-- `recvLoop` has read a close frame when the shutdown begins and calls `delHandler` after it:
the handler store still has the handler. -/
theorem lateClose_sends_on_closed : ∃ s : Process (Fin 1),
    (processSystem oneSessionConfig).Reachable s ∧ s.run.recvMsgClosed = true ∧
      ((s.handlers 0).loop .recv).sending = true ∧ ¬s.Quiet := by
  have hrun : ((processSystem oneSessionConfig).run (.start oneSessionConfig)
      (openingRun ++ [.read 0 .closeFrame] ++ stoppingRun [0] ++ [.work 0 .recv])).map
        (fun s => (s.run.recvMsgClosed, ((s.handlers 0).loop .recv).sending)) =
        some (true, true) := by
    decide +kernel
  obtain ⟨s, hs, hv⟩ := Option.map_eq_some_iff.mp hrun
  obtain ⟨hc, hf⟩ := Prod.mk.inj hv
  refine ⟨s, System.Reachable.run (.init rfl) _ hs, hc, hf, ?_⟩
  intro hq
  have hsend := hq hc 0
  simp [HandlerRun.sending, hf] at hsend

end MiniPush.Ws
