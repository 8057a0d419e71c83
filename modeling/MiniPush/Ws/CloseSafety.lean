import MiniPush.Ws.CloseSteps

/-! What holds of a session's handler in every interleaving: no send on the closed channel, no second close,
no unknown data, and the messages about the session in order. -/
namespace MiniPush.Ws.CloseProtocol
open Foundation System

variable {α : Type}

def Op.OfRecv : Op α → Prop
  | .append v => v.Known
  | .close _ => False
  | .del | .offline | .e2e | .exit => True

/-- What `sendLoop` can have left to do. -/
inductive SendTodo : List (Op α) → Prop
  | select : SendTodo []
  | report {v : SessionData α} (h : v.Known) : SendTodo [.append v, .exit]
  | closeExit (cause : SessionError) : SendTodo [.close cause, .exit]
  | close (cause : SessionError) : SendTodo [.close cause]
  | delExit : SendTodo [.del, .exit]
  | del : SendTodo [.del]
  | offlineExit : SendTodo [.offline, .exit]
  | offline : SendTodo [.offline]

namespace LoopPos
variable {todo : List (Op α)} {op : Op α}

theorem mem_todo_after (h : op ∈ (after todo).todo) : op ∈ todo := by
  unfold after at h
  split at h
  · cases h
  · exact h

theorem count_after [DecidableEq α] (todo : List (Op α)) :
    (after todo).todo.count .offline = todo.count .offline := by
  unfold after
  split
  · rfl
  · rfl

end LoopPos

namespace Executes
variable {h h' : Handler α} {rest : List (Op α)} {op : Op α} {pos : LoopPos α}

theorem ofRecv (hx : Executes h rest op h' pos) (hop : op.OfRecv) (hrest : ∀ op' ∈ rest, op'.OfRecv) :
    ∀ op' ∈ pos.todo, op'.OfRecv := by
  have hafter : ∀ op' ∈ (LoopPos.after rest).todo, op'.OfRecv :=
    fun op' h => hrest op' (LoopPos.mem_todo_after h)
  cases hx with
  | appendIgnored v _ => exact hafter
  | append v _ => exact hafter
  | closeIgnored cause _ => exact hafter
  | closeStop _ => exact hafter
  | close cause _ _ => exact hop.elim
  | delIgnored _ => exact hafter
  | del _ => exact List.forall_mem_cons.mpr ⟨trivial, hrest⟩
  | offline => exact hafter
  | e2e => exact hafter
  | exit => exact List.forall_mem_nil _

theorem sendTodo (hx : Executes h rest op h' pos) (hsend : SendTodo (op :: rest)) : SendTodo pos.todo := by
  cases hsend with
  | report _ => cases hx <;> exact .select
  | closeExit cause =>
    cases hx with
    | close _ _ _ => exact .delExit
    | closeIgnored _ _ => exact .select
    | closeStop _ => exact .select
  | close cause =>
    cases hx with
    | close _ _ _ => exact .del
    | closeIgnored _ _ => exact .select
    | closeStop _ => exact .select
  | delExit =>
    cases hx with
    | del _ => exact .offlineExit
    | delIgnored _ => exact .select
  | del =>
    cases hx with
    | del _ => exact .offline
    | delIgnored _ => exact .select
  | offlineExit => cases hx; exact .select
  | offline => cases hx; exact .select

/-- A `SessionOffline` is sent or owed only for the one who took the handler out of the store. -/
theorem ledger [DecidableEq α] (hx : Executes h rest op h' pos) :
    ∃ k, h'.emitted = h.emitted ++ List.replicate k .sessionOffline ∧
      k + h'.stored.toNat + pos.todo.count .offline ≤ h.stored.toNat + (op :: rest).count .offline := by
  have hafter : (LoopPos.after rest).todo.count .offline ≤ (op :: rest).count .offline := by
    rw [LoopPos.count_after]
    exact List.count_le_count_cons
  cases hx with
  | appendIgnored v _ => exact ⟨0, by simp, by omega⟩
  | append v _ => exact ⟨0, by simp, by dsimp only; omega⟩
  | closeIgnored cause _ => exact ⟨0, by simp, by omega⟩
  | closeStop _ => exact ⟨0, by simp [Handler.shut], by dsimp only [Handler.shut]; omega⟩
  | close cause _ _ => exact ⟨0, by simp [Handler.shut], by simp [Handler.shut, LoopPos.todo]⟩
  | delIgnored _ => exact ⟨0, by simp, by omega⟩
  | del hstored =>
    have howed : (Op.offline :: rest).count .offline = rest.count .offline + 1 := List.count_cons_self
    have hrest : (Op.del :: rest).count .offline = rest.count .offline :=
      List.count_cons_of_ne (by simp)
    refine ⟨0, by simp, ?_⟩
    dsimp only [LoopPos.todo]
    rw [hstored, howed, hrest, Bool.toNat_false, Bool.toNat_true]
    omega
  | offline =>
    refine ⟨1, rfl, ?_⟩
    rw [LoopPos.count_after, List.count_cons_self]
    dsimp only
    omega
  | e2e => exact ⟨0, by simp, by omega⟩
  | exit => exact ⟨0, by simp, by simp [LoopPos.todo]⟩

end Executes

namespace SessionData
variable {v : SessionData α} {written : Bool} {todo : List (Op α)}

theorem sendTodo_of_ops (h : v.ops written = some todo) : SendTodo todo := by
  unfold ops at h
  split at h
  · cases h
    exact .closeExit _
  · cases h
  · split_ifs at h
    · cases h
      exact .report (.inl rfl)
    · cases h
      exact .close _
    · cases h
      exact .select

/-- `sendLoop` comes to `delHandler` only through `close`. -/
theorem notMem_ops (h : v.ops written = some todo) : .del ∉ todo ∧ .offline ∉ todo := by
  unfold ops at h
  split at h
  · cases h
    simp
  · cases h
  · split_ifs at h
    · cases h
      simp
    · cases h
      simp
    · cases h
      simp

end SessionData

namespace ReadResult

theorem ofRecv_ops (enableClientMsg : Bool) (result : ReadResult α) :
    ∀ op ∈ result.ops enableClientMsg, op.OfRecv := by
  cases result with
  | im => cases enableClientMsg <;> simp [ops, Op.OfRecv, SessionData.Known]
  | _ => simp [ops, Op.OfRecv, SessionData.Known]

theorem count_ops [DecidableEq α] (enableClientMsg : Bool) (result : ReadResult α) :
    (result.ops enableClientMsg).count .offline = 0 := by
  cases result with
  | im => cases enableClientMsg <;> rfl
  | _ => rfl

end ReadResult

namespace Session
variable [DecidableEq α] {enableClientMsg : Bool} {s s' : Session α} {l : Label α}

/-- The `SessionOffline` messages that are owed: one by whoever takes the handler out of the store, or by a
loop that has taken it out. -/
def debt (s : Session α) : ℕ :=
  s.handler.stored.toNat + s.recv.todo.count .offline + s.send.todo.count .offline

/-- The messages about the session: none before `SessionOnline`, then at most one `SessionOffline` sent or
owed. -/
def Ledger (s : Session α) : Prop :=
  match s.serve with
  | .idle => s.handler.stored = false ∧ s.handler.closing = false ∧ s.handler.emitted = [] ∧
      s.recv = .absent ∧ s.send = .absent
  | .added => s.handler.emitted = [] ∧ s.recv = .absent ∧ s.send = .absent
  | .returned => ∃ k, s.handler.emitted = .sessionOnline :: List.replicate k .sessionOffline ∧
      k + s.debt ≤ 1

structure Inv (s : Session α) : Prop where
  sound : s.handler.Sound
  recv : ∀ op ∈ s.recv.todo, op.OfRecv
  send : SendTodo s.send.todo
  ledger : s.Ledger

/-- A step that pays off what it sends, and before the loops are started sends nothing. -/
theorem Ledger.pay (h : s.Ledger) (hserve : s'.serve = s.serve) {k : ℕ}
    (hsent : s'.handler.emitted = s.handler.emitted ++ List.replicate k .sessionOffline)
    (hdebt : k + s'.debt ≤ s.debt)
    (hquiet : s.recv = .absent → s.send = .absent → k = 0 ∧ s'.recv = .absent ∧ s'.send = .absent ∧
      (s.handler.stored = false → s'.handler.closing = s.handler.closing)) : s'.Ledger := by
  unfold Ledger at h ⊢
  rw [hserve]
  cases hpos : s.serve with
  | idle =>
    rw [hpos] at h
    obtain ⟨hgone, hopen, hnone, hrecv, hsend⟩ := h
    obtain ⟨rfl, hrecv', hsend', hclosing⟩ := hquiet hrecv hsend
    refine ⟨?_, (hclosing hgone).trans hopen, by simpa [hnone] using hsent, hrecv', hsend'⟩
    simp only [debt, hrecv, hsend, hrecv', hsend', hgone] at hdebt
    simpa [LoopPos.todo] using hdebt
  | added =>
    rw [hpos] at h
    obtain ⟨hnone, hrecv, hsend⟩ := h
    obtain ⟨rfl, hrecv', hsend', -⟩ := hquiet hrecv hsend
    exact ⟨by simpa [hnone] using hsent, hrecv', hsend'⟩
  | returned =>
    rw [hpos] at h
    obtain ⟨j, hemitted, hle⟩ := h
    refine ⟨j + k, ?_, by omega⟩
    rw [hsent, hemitted, List.cons_append, List.replicate_append_replicate]

theorem Ledger.work (h : s.Ledger) (hserve : s'.serve = s.serve)
    (hrun : s.recv ≠ .absent ∨ s.send ≠ .absent) {k : ℕ}
    (hsent : s'.handler.emitted = s.handler.emitted ++ List.replicate k .sessionOffline)
    (hdebt : k + s'.debt ≤ s.debt) : s'.Ledger := by
  refine h.pay hserve hsent hdebt fun hrecv hsend => ?_
  rcases hrun with hne | hne
  · exact absurd hrecv hne
  · exact absurd hsend hne

theorem Ledger.turn (h : s.Ledger) (hserve : s'.serve = s.serve)
    (hrun : s.recv ≠ .absent ∨ s.send ≠ .absent) (hsent : s'.handler.emitted = s.handler.emitted)
    (hdebt : s'.debt ≤ s.debt) : s'.Ledger := by
  refine h.work (k := 0) hserve hrun ?_ ?_
  · simpa using hsent
  · omega

theorem inv_start : (start : Session α).Inv where
  sound := ⟨rfl, rfl, fun h => (by cases h), List.forall_mem_nil _⟩
  recv := List.forall_mem_nil _
  send := .select
  ledger := ⟨rfl, rfl, rfl, rfl, rfl⟩

private theorem Inv.recvWork {op : Op α} {rest : List (Op α)} {h' : Handler α} {pos : LoopPos α} (hi : s.Inv)
    (hrecv : s.recv = .running (op :: rest)) (hx : Executes s.handler rest op h' pos) :
    Inv { s with handler := h', recv := pos } := by
  have htodo : s.recv.todo = op :: rest := by rw [hrecv]; rfl
  have hops := hi.recv
  rw [htodo, List.forall_mem_cons] at hops
  obtain ⟨k, hsent, hle⟩ := hx.ledger
  refine ⟨hi.sound.exec hx ?_, hx.ofRecv hops.1 hops.2, hi.send, ?_⟩
  · rintro v rfl
    exact hops.1
  · refine hi.ledger.work rfl (.inl (by simp [hrecv])) hsent ?_
    simp only [debt, htodo]
    omega

private theorem Inv.sendWork {op : Op α} {rest : List (Op α)} {h' : Handler α} {pos : LoopPos α} (hi : s.Inv)
    (hsend : s.send = .running (op :: rest)) (hx : Executes s.handler rest op h' pos) :
    Inv { s with handler := h', send := pos } := by
  have htodo : s.send.todo = op :: rest := by rw [hsend]; rfl
  have hops := hi.send
  rw [htodo] at hops
  obtain ⟨k, hsent, hle⟩ := hx.ledger
  refine ⟨hi.sound.exec hx ?_, hi.recv, hx.sendTodo hops, ?_⟩
  · rintro v rfl
    cases hops with
    | report hknown => exact hknown
  · refine hi.ledger.work rfl (.inr (by simp [hsend])) hsent ?_
    simp only [debt, htodo]
    omega

private theorem Inv.deliver {h' : Handler α} (hi : s.Inv) (hd : Delivers s.handler h')
    (task : Option ℕ → TaskPos) : Inv { s with handler := h', task := task } := by
  refine ⟨hi.sound.deliver hd, hi.recv, hi.send, ?_⟩
  cases hd with
  | ignored _ => exact hi.ledger
  | append msg _ => exact hi.ledger
  | del =>
    refine hi.ledger.pay (k := 0) rfl (by simp) ?_ fun hr hs => ⟨rfl, hr, hs, fun _ => rfl⟩
    simp only [debt, Bool.toNat_false]
    omega

private theorem Inv.stop (hi : s.Inv) (hstored : s.handler.stored = true) (task : Option ℕ → TaskPos) :
    Inv { s with handler := s.handler.stop, task := task } := by
  obtain ⟨hkept, hsent⟩ := s.handler.stop_frame
  refine ⟨hi.sound.stop, hi.recv, hi.send, ?_⟩
  refine hi.ledger.pay (k := 0) rfl (by simp [hsent]) ?_ fun hr hs => ⟨rfl, hr, hs, fun hgone => ?_⟩
  · simp only [debt, hkept]
    omega
  · rw [hstored] at hgone
    cases hgone

theorem Inv.step (hi : s.Inv) (h : Steps enableClientMsg s l s') : s'.Inv := by
  have hledger := hi.ledger
  cases h with
  | add hserve =>
    rw [Ledger, hserve] at hledger
    exact ⟨hi.sound.frame true s.handler.emitted, hi.recv, hi.send, hledger.2.2⟩
  | online hserve =>
    rw [Ledger, hserve] at hledger
    refine ⟨hi.sound.frame s.handler.stored _, List.forall_mem_nil _, .select, 0, ?_, ?_⟩
    · rw [hledger.1]
      rfl
    · have hle : s.handler.stored.toNat ≤ 1 := Bool.toNat_le _
      simpa [debt, LoopPos.todo] using hle
  | read result hrecv =>
    refine ⟨hi.sound, result.ofRecv_ops enableClientMsg, hi.send, ?_⟩
    refine hledger.turn rfl (.inl (by simp [hrecv])) rfl ?_
    simp [debt, hrecv, LoopPos.todo, result.count_ops]
  | recvReturn hrecv _ =>
    refine ⟨hi.sound, List.forall_mem_nil _, hi.send, ?_⟩
    refine hledger.turn rfl (.inl (by simp [hrecv])) rfl ?_
    simp [debt, hrecv, LoopPos.todo]
  | recvWork hrecv hx => exact hi.recvWork hrecv hx
  | @take v rest written todo hsend hchan hops =>
    have hknown : ∀ w ∈ rest, w.Known :=
      fun w hw => hi.sound.known w (hchan ▸ List.mem_cons_of_mem v hw)
    refine ⟨⟨hi.sound.crash, hi.sound.closes, hi.sound.conn, hknown⟩, hi.recv,
      SessionData.sendTodo_of_ops hops, ?_⟩
    refine hledger.turn rfl (.inr (by simp [hsend])) rfl ?_
    simp [debt, hsend, LoopPos.todo, List.count_eq_zero.mpr (SessionData.notMem_ops hops).2]
  | drained hsend _ =>
    refine ⟨⟨hi.sound.crash, hi.sound.closes, fun _ => rfl, hi.sound.known⟩, hi.recv, .select, ?_⟩
    refine hledger.turn rfl (.inr (by simp [hsend])) rfl ?_
    simp [debt, hsend, LoopPos.todo]
  | ping written hsend =>
    have hturn : ∀ todo, todo.count .offline = 0 → Ledger { s with send := .running todo } := by
      intro todo hcount
      refine hledger.turn rfl (.inr (by simp [hsend])) rfl ?_
      simp [debt, hsend, LoopPos.todo, hcount]
    cases written with
    | true => exact ⟨hi.sound, hi.recv, .select, hturn _ rfl⟩
    | false => exact ⟨hi.sound, hi.recv, .report (.inl rfl), hturn _ rfl⟩
  | sendWork hsend hx => exact hi.sendWork hsend hx
  | move _ task => exact ⟨hi.sound, hi.recv, hi.send, hledger⟩
  | deliver i task hd => exact hi.deliver hd task
  | stop task hstored => exact hi.stop hstored task

theorem inv_of_reachable (h : (closeSystem enableClientMsg).Reachable s) : s.Inv := by
  apply h.invariant (I := Inv)
  · rintro _ rfl
    exact inv_start
  · intro s l s' hi hs
    exact hi.step (hi.sound.steps hs)

end Session

/-- In every interleaving the node does not crash on the channel, the channel is closed at most once, and
the hub sends one `SessionOnline` for the session and then at most one `SessionOffline`. -/
theorem close_protocol_safe [DecidableEq α] (enableClientMsg : Bool) (s : Session α)
    (h : (closeSystem enableClientMsg).Reachable s) :
    s.handler.crash = none ∧ s.handler.closes ≤ 1 ∧
      s.handler.emitted <+: [.sessionOnline, .sessionOffline] := by
  have hi := Session.inv_of_reachable h
  refine ⟨hi.sound.crash, ?_, ?_⟩
  · rw [hi.sound.closes]
    split_ifs
    · exact le_refl 1
    · exact zero_le_one
  · have hledger := hi.ledger
    unfold Session.Ledger at hledger
    split at hledger
    · rw [hledger.2.2.1]
      exact List.nil_prefix
    · rw [hledger.1]
      exact List.nil_prefix
    · obtain ⟨k, hemitted, hle⟩ := hledger
      have hk : k = 0 ∨ k = 1 := by omega
      rw [hemitted]
      rcases hk with rfl | rfl
      · decide
      · decide

/-- The peer closes the connection while the leader kicks the session off: the callback takes the handler
out of the store, and the kickoff is still delivered. -/
def peerCloseRun : List (Label Unit) :=
  [.add, .online, .kickoff none, .read .closeFrame, .recvWork, .deliver none, .recvWork, .recvWork,
    .take true, .sendWork, .sendWork, .take true, .sendWork, .deliver none]

theorem close_protocol_peerCloseRun :
    ∃ s : Session Unit, (closeSystem true).Reachable s ∧ s.handler.emitted = [.sessionOnline, .sessionOffline] ∧
      s.handler.cause = some .kickedOff ∧ s.handler.crash = none ∧ s.handler.closes ≤ 1 ∧
      s.handler.emitted <+: [.sessionOnline, .sessionOffline] := by
  have hrun : ((closeSystem true).run .start peerCloseRun).map (fun s =>
      (s.handler.emitted, s.handler.cause)) =
      some ([.sessionOnline, .sessionOffline], some .kickedOff) := by
    decide +kernel
  obtain ⟨s, hs, hview⟩ := Option.map_eq_some_iff.mp hrun
  obtain ⟨hemitted, hcause⟩ := Prod.mk.inj hview
  have hreach : (closeSystem true).Reachable s := Reachable.run (.init rfl) _ hs
  exact ⟨s, hreach, hemitted, hcause, close_protocol_safe true s hreach⟩

end MiniPush.Ws.CloseProtocol
