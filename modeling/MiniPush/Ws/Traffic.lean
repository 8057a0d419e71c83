import MiniPush.Foundation.Fifo
import MiniPush.Ws.CloseSafety

/-! The order of the messages to a client. Answers of `recvLoop` and head seqs of `Hub.Run` go through one
channel to `sendLoop`, which other goroutines may close at any time and which `sendLoop` may leave. -/
namespace MiniPush.Ws.CloseProtocol
open Foundation System

variable {α : Type}

def ServerMsg.seq? : ServerMsg α → Option ℤ
  | .headSeq seq => some seq
  | _ => none

def ServerMsg.answer? : ServerMsg α → Option α
  | .answer a => some a
  | .headSeq _ | .kickoff => none

section Pick
variable {β : Type} (g : ServerMsg α → Option β)

def Op.pick : Op α → Option β
  | .append v => v.pick g
  | _ => none

theorem SessionData.pick_some_bind (v : SessionData α) : (v.pick some).bind g = v.pick g := by
  unfold SessionData.pick
  cases v.error with
  | some _ => rfl
  | none => cases v.serverMsg <;> rfl

theorem filterMap_pick (vs : List (SessionData α)) :
    (vs.filterMap (SessionData.pick some)).filterMap g = vs.filterMap (SessionData.pick g) := by
  rw [List.filterMap_filterMap]
  congr 1
  funext v
  exact v.pick_some_bind g

theorem filterMap_pick_op (ops : List (Op α)) :
    (ops.filterMap (Op.pick some)).filterMap g = ops.filterMap (Op.pick g) := by
  rw [List.filterMap_filterMap]
  congr 1
  funext op
  cases op with
  | append v => exact v.pick_some_bind g
  | _ => rfl

end Pick

namespace Executes
variable {h h' : Handler α} {rest : List (Op α)} {op : Op α} {pos : LoopPos α}

/-- Beside what was left to do there is only the way out of the store. -/
theorem pick_todo {β : Type} (g : ServerMsg α → Option β) (hx : Executes h rest op h' pos)
    (hlast : .exit ∉ (op :: rest).dropLast) : pos.todo.filterMap (Op.pick g) = rest.filterMap (Op.pick g) := by
  have hafter : (LoopPos.after rest).todo.filterMap (Op.pick g) = rest.filterMap (Op.pick g) := by
    unfold LoopPos.after
    split
    · rfl
    · rfl
  cases hx with
  | exit =>
    cases rest with
    | nil => rfl
    | cons op rest => simp at hlast
  | close cause _ _ => rfl
  | del _ => rfl
  | _ => exact hafter

theorem exit_last (hx : Executes h rest op h' pos) (hlast : .exit ∉ (op :: rest).dropLast) :
    .exit ∉ pos.todo.dropLast := by
  have hrest : .exit ∉ rest.dropLast := by
    cases rest with
    | nil => simp
    | cons op' rest => exact fun h => hlast (List.mem_cons_of_mem _ h)
  have hcons : ∀ op', op' ≠ .exit → .exit ∉ (op' :: rest).dropLast := by
    intro op' hne
    cases rest with
    | nil => simp
    | cons op'' rest => simpa [hne.symm] using hrest
  have hafter : .exit ∉ (LoopPos.after rest).todo.dropLast := by
    unfold LoopPos.after
    split
    · simp [LoopPos.todo]
    · exact hrest
  cases hx with
  | exit => simp [LoopPos.todo]
  | close cause _ _ => exact hcons .del (by simp)
  | del _ => exact hcons .offline (by simp)
  | _ => exact hafter

end Executes

theorem SessionData.pick_ops {v : SessionData α} {ok : Bool} {todo : List (Op α)} (h : v.ops ok = some todo) :
    todo.filterMap (Op.pick some) = [] := by
  unfold ops at h
  split at h
  · cases h
    rfl
  · cases h
  · split_ifs at h
    · cases h
      rfl
    · cases h
      rfl
    · cases h
      rfl

theorem SendTodo.exit_last {todo : List (Op α)} (h : SendTodo todo) : .exit ∉ todo.dropLast := by
  cases h <;> simp

namespace ReadResult
variable (enableClientMsg : Bool) (result : ReadResult α)

theorem exit_last : .exit ∉ (result.ops enableClientMsg).dropLast := by
  cases result with
  | im => cases enableClientMsg <;> simp [ops]
  | _ => simp [ops]

theorem seq?_ops : (result.ops enableClientMsg).filterMap (Op.pick ServerMsg.seq?) = [] := by
  cases result with
  | im => cases enableClientMsg <;> rfl
  | _ => rfl

end ReadResult

variable [DecidableEq α]

def LoopPos.leaving : LoopPos α → Bool
  | .absent => false
  | .running todo => .exit ∈ todo
  | .finished => true

def TaskPos.owed : TaskPos → List ℤ
  | .headSeq seq => [seq]
  | _ => []

/-- The answers due to the frames that were read, the head seqs for which `Hub.Run` found the session, and
the messages that were written to the connection, each in order. -/
structure Traffic (α : Type) where
  due : List α
  looked : List ℤ
  written : List (ServerMsg α)

def Traffic.note (enableClientMsg : Bool) (s : Session α) (l : Label α) (r : Traffic α) : Traffic α :=
  match l with
  | .read result =>
    { r with due := r.due ++ (result.ops enableClientMsg).filterMap (Op.pick ServerMsg.answer?) }
  | .headSeq seq => { r with looked := r.looked ++ [seq] }
  | .take true =>
    { r with written := r.written ++ (s.handler.dataChan.take 1).filterMap (SessionData.pick some) }
  | _ => r

def trafficSystem (enableClientMsg : Bool) : System (Session α × Traffic α) (Label α) :=
  (closeSystem enableClientMsg).record ⟨[], [], []⟩ (Traffic.note enableClientMsg)

theorem Executes.leaving_eq {h h' : Handler α} {rest : List (Op α)} {op : Op α} {pos : LoopPos α}
    (hx : Executes h rest op h' pos) :
    pos.leaving = (LoopPos.running (op :: rest)).leaving := by
  have hafter : (LoopPos.after rest).leaving = decide (.exit ∈ rest) := by
    unfold LoopPos.after
    split
    · rfl
    · rfl
  cases hx with
  | exit => simp [LoopPos.leaving]
  | close cause _ _ => simp [LoopPos.leaving]
  | del _ => simp [LoopPos.leaving]
  | _ =>
    rw [hafter]
    simp [LoopPos.leaving]

/-- The messages of the kind `g` on their way through the handler. -/
def Carries {β : Type} (g : ServerMsg α → Option β) (due pending : List β) (h : Handler α) (send : LoopPos α)
    (written : List (ServerMsg α)) : Prop :=
  Flow due pending (h.dataChan.filterMap (SessionData.pick g)) (written.filterMap g) (h.closing = true)
    (send.leaving = true)

namespace Carries
variable {β : Type} {g : ServerMsg α → Option β} {due pending : List β} {h h' : Handler α} {send : LoopPos α}
  {written : List (ServerMsg α)}

theorem append_data {v : SessionData α}
    (hc : Carries g due ([v].filterMap (SessionData.pick g) ++ pending) h send written)
    (hopen : h.closing = false) :
    Carries g due pending { h with dataChan := h.dataChan ++ [v] } send written := by
  unfold Carries
  rw [List.filterMap_append]
  exact hc.put (by simp [hopen])

theorem appendDataChan {v : SessionData α}
    (hc : Carries g due ([v].filterMap (SessionData.pick g) ++ pending) h send written) (hs : h.Sound)
    (ha : h.appendDataChan v = some h') : Carries g due pending h' send written := by
  rcases hs.append_cases ha with ⟨hclosing, rfl⟩ | ⟨hopen, rfl⟩
  · exact hc.drop hclosing
  · exact hc.append_data hopen

theorem exec {rest : List (Op α)} {op : Op α} {pos : LoopPos α} (hx : Executes h rest op h' pos)
    (hc : Carries g due ([op].filterMap (Op.pick g) ++ pending) h send written) :
    Carries g due pending h' send written := by
  cases hx with
  | appendIgnored v hclosing => exact hc.drop hclosing
  | append v hopen => exact hc.append_data hopen
  | closeStop _ => exact hc.mono (fun _ => rfl) id
  | close cause _ _ => exact hc.mono (fun _ => rfl) id
  | _ => exact hc

/-- `sendLoop` takes a value: it writes the message and stays, or leaves. -/
theorem take (hc : Carries g due pending h send written) (hsend : send.leaving = false) {v : SessionData α}
    {rest : List (SessionData α)} (hchan : h.dataChan = v :: rest) {ok : Bool} {todo : List (Op α)}
    (hops : v.ops ok = some todo) :
    Carries g due pending { h with dataChan := rest } (.running todo)
      (if ok then written ++ [v].filterMap (SessionData.pick some) else written) := by
  have hflow : Flow due pending ([v].filterMap (SessionData.pick g) ++ rest.filterMap (SessionData.pick g))
      (written.filterMap g) (h.closing = true) (send.leaving = true) := by
    rw [← List.filterMap_append, List.singleton_append, ← hchan]
    exact hc
  have hhere : ¬send.leaving = true := by simp [hsend]
  cases herror : v.error with
  | some cause =>
    have hnone : [v].filterMap (SessionData.pick some) = [] := by simp [SessionData.pick, herror]
    simp only [SessionData.ops, herror] at hops
    cases hops
    rw [hnone, List.append_nil, ite_self]
    exact hflow.leave rfl _ _
  | none =>
    cases hmsg : v.serverMsg with
    | none => simp [SessionData.ops, herror, hmsg] at hops
    | some msg =>
      simp only [SessionData.ops, herror, hmsg] at hops
      cases ok with
      | false =>
        cases hops
        exact hflow.leave rfl _ _
      | true =>
        have hstays : (LoopPos.running todo).leaving = false := by
          simp only [Bool.not_true, Bool.false_eq_true, if_false] at hops
          split_ifs at hops
          · cases hops
            rfl
          · cases hops
            rfl
        unfold Carries
        rw [if_pos rfl, List.filterMap_append, filterMap_pick, hstays]
        exact (hflow.take hhere).mono id fun hleft => absurd hleft hhere

end Carries

theorem owed_update {task : Option ℕ → TaskPos} {i : Option ℕ} {pos : TaskPos}
    (h : pos.owed = (task i).owed) (j : Option ℕ) : (Function.update task i pos j).owed = (task j).owed := by
  by_cases hj : j = i
  · rw [hj, Function.update_self, h]
  · rw [Function.update_of_ne hj]

/-- The answers and the head seqs are on their way, each in order. Only `Hub.Run` passes head seqs on. -/
structure InOrder (s : Session α) (r : Traffic α) : Prop where
  inv : s.Inv
  sendSilent : s.send.todo.filterMap (Op.pick some) = []
  exitLast : .exit ∉ s.recv.todo.dropLast
  recvSeqs : s.recv.todo.filterMap (Op.pick ServerMsg.seq?) = []
  calls : ∀ i, (s.task (some i)).owed = []
  answers : Carries ServerMsg.answer? r.due (s.recv.todo.filterMap (Op.pick ServerMsg.answer?)) s.handler
    s.send r.written
  seqs : Carries ServerMsg.seq? r.looked (s.task none).owed s.handler s.send r.written

namespace InOrder
variable {enableClientMsg : Bool} {s s' : Session α} {r : Traffic α}

theorem recvWork (hi : InOrder s r) {op : Op α} {rest : List (Op α)} {h' : Handler α} {pos : LoopPos α}
    (hrecv : s.recv = .running (op :: rest)) (hx : Executes s.handler rest op h' pos)
    (hinv : Session.Inv { s with handler := h', recv := pos }) :
    InOrder { s with handler := h', recv := pos } r := by
  obtain ⟨-, hsilent, hexit, hseqs, hcalls, hanswers, hflow⟩ := hi
  rw [hrecv] at hexit hseqs hanswers
  simp only [LoopPos.todo] at hexit hseqs hanswers
  rw [← List.singleton_append, List.filterMap_append] at hseqs hanswers
  obtain ⟨hop, hrest⟩ := List.append_eq_nil_iff.mp hseqs
  refine ⟨hinv, hsilent, hx.exit_last hexit, ?_, hcalls, ?_, ?_⟩
  · exact (hx.pick_todo _ hexit).trans hrest
  · rw [hx.pick_todo _ hexit]
    exact hanswers.exec hx
  · refine Carries.exec hx ?_
    rw [hop]
    exact hflow

theorem sendWork (hi : InOrder s r) {op : Op α} {rest : List (Op α)} {h' : Handler α} {pos : LoopPos α}
    (hsend : s.send = .running (op :: rest)) (hx : Executes s.handler rest op h' pos)
    (hinv : Session.Inv { s with handler := h', send := pos }) :
    InOrder { s with handler := h', send := pos } r := by
  have hexit := hi.inv.send.exit_last
  have hsilent := hi.sendSilent
  rw [hsend] at hexit hsilent
  simp only [LoopPos.todo] at hexit hsilent
  have hpick : ∀ {β : Type} (g : ServerMsg α → Option β), (op :: rest).filterMap (Op.pick g) = [] := by
    intro β g
    rw [← filterMap_pick_op, hsilent]
    rfl
  -- An error is all that `sendLoop` appends, and its way out stays decided.
  have hcarries : ∀ {β : Type} {g : ServerMsg α → Option β} {due pending : List β},
      Carries g due pending s.handler s.send r.written → Carries g due pending h' pos r.written := by
    intro β g due pending hc
    have hop := hpick g
    rw [← List.singleton_append, List.filterMap_append] at hop
    have hsame : Carries g due pending h' s.send r.written := by
      refine Carries.exec hx ?_
      rw [(List.append_eq_nil_iff.mp hop).1]
      exact hc
    unfold Carries
    rw [hx.leaving_eq, ← hsend]
    exact hsame
  refine ⟨hinv, ?_, hi.exitLast, hi.recvSeqs, hi.calls, hcarries hi.answers, hcarries hi.seqs⟩
  have hrest := hpick some
  rw [← List.singleton_append, List.filterMap_append] at hrest
  exact (hx.pick_todo some hexit).trans (List.append_eq_nil_iff.mp hrest).2

theorem take (hi : InOrder s r) {v : SessionData α} {rest : List (SessionData α)} {ok : Bool} {todo : List (Op α)}
    (hsend : s.send = .running []) (hchan : s.handler.dataChan = v :: rest) (hops : v.ops ok = some todo)
    (hinv : Session.Inv { s with handler := { s.handler with dataChan := rest }, send := .running todo }) :
    InOrder { s with handler := { s.handler with dataChan := rest }, send := .running todo }
      (r.note enableClientMsg s (.take ok)) := by
  have hstays : s.send.leaving = false := by rw [hsend]; rfl
  have hanswers := hi.answers.take hstays hchan hops
  have hseqs := hi.seqs.take hstays hchan hops
  have hnote : r.note enableClientMsg s (.take ok) =
      { r with written := if ok then r.written ++ [v].filterMap (SessionData.pick some) else r.written } := by
    cases ok with
    | false => rfl
    | true => simp only [Traffic.note, hchan, List.take_succ_cons, List.take_zero, if_true]
  rw [hnote]
  exact ⟨hinv, SessionData.pick_ops hops, hi.exitLast, hi.recvSeqs, hi.calls, hanswers, hseqs⟩

/-- A message that `Hub.Run` or `Hub.Kickoff` gives to the handler. -/
theorem deliver (hi : InOrder s r) {i : Option ℕ} {h' : Handler α} {pos : TaskPos}
    (hd : s.handler.deliver (s.task i) = some (h', pos))
    (hinv : Session.Inv { s with handler := h', task := Function.update s.task i pos }) :
    InOrder { s with handler := h', task := Function.update s.task i pos } r := by
  cases htask : s.task i with
  | idle =>
    rw [htask] at hd
    cases hd
  | stopped =>
    rw [htask] at hd
    cases hd
  | kickoff =>
    rw [htask] at hd
    obtain ⟨g, ha, hpair⟩ := Option.map_eq_some_iff.mp hd
    cases hpair
    have hpos : TaskPos.deleting.owed = (s.task i).owed := by
      rw [htask]
      rfl
    have howed := owed_update hpos
    refine ⟨hinv, hi.sendSilent, hi.exitLast, hi.recvSeqs, fun j => (howed _).trans (hi.calls j),
      hi.answers.appendDataChan hi.inv.sound ha, ?_⟩
    dsimp only
    rw [howed]
    exact hi.seqs.appendDataChan hi.inv.sound ha
  | deleting =>
    rw [htask] at hd
    cases hd
    have hpos : TaskPos.idle.owed = (s.task i).owed := by
      rw [htask]
      rfl
    have howed := owed_update hpos
    refine ⟨hinv, hi.sendSilent, hi.exitLast, hi.recvSeqs, fun j => (howed _).trans (hi.calls j),
      hi.answers, ?_⟩
    dsimp only
    rw [howed]
    exact hi.seqs
  | headSeq seq =>
    obtain rfl : i = none := by
      cases i with
      | none => rfl
      | some j => simpa [htask, TaskPos.owed] using hi.calls j
    have hseqs := hi.seqs
    rw [htask] at hd hseqs
    obtain ⟨g, ha, hpair⟩ := Option.map_eq_some_iff.mp hd
    cases hpair
    exact ⟨hinv, hi.sendSilent, hi.exitLast, hi.recvSeqs, hi.calls,
      hi.answers.appendDataChan hi.inv.sound ha, hseqs.appendDataChan hi.inv.sound ha⟩

theorem move (hi : InOrder s r) {i : Option ℕ} {pos : TaskPos} (hpos : pos.owed = (s.task i).owed)
    (hinv : Session.Inv { s with task := Function.update s.task i pos }) :
    InOrder { s with task := Function.update s.task i pos } r := by
  have howed := owed_update hpos
  refine ⟨hinv, hi.sendSilent, hi.exitLast, hi.recvSeqs, fun j => (howed _).trans (hi.calls j), hi.answers, ?_⟩
  dsimp only
  rw [howed]
  exact hi.seqs

theorem stop (hi : InOrder s r) (hidle : s.task none = .idle)
    (hinv : Session.Inv { s with handler := s.handler.stop, task := Function.update s.task none .stopped }) :
    InOrder { s with handler := s.handler.stop, task := Function.update s.task none .stopped } r := by
  have hpos : TaskPos.stopped.owed = (s.task none).owed := by
    rw [hidle]
    rfl
  have howed := owed_update hpos
  have hcarries : ∀ {β : Type} {g : ServerMsg α → Option β} {due pending : List β},
      Carries g due pending s.handler s.send r.written →
        Carries g due pending s.handler.stop s.send r.written := by
    intro β g due pending hc
    unfold Handler.stop
    split_ifs
    · exact hc
    · exact hc.mono (fun _ => rfl) id
  refine ⟨hinv, hi.sendSilent, hi.exitLast, hi.recvSeqs, fun j => (howed _).trans (hi.calls j),
    hcarries hi.answers, ?_⟩
  dsimp only
  rw [howed]
  exact hcarries hi.seqs

theorem online (hi : InOrder s r) (hserve : s.serve = .added) {emitted : List FollowerMsg}
    (hinv : Session.Inv { s with
      serve := .returned, recv := .running [], send := .running [], handler := { s.handler with emitted } }) :
    InOrder { s with
      serve := .returned, recv := .running [], send := .running [],
      handler := { s.handler with emitted } } r := by
  have hledger := hi.inv.ledger
  rw [Session.Ledger, hserve] at hledger
  obtain ⟨-, hrecv, hsend⟩ := hledger
  have hanswers := hi.answers
  have hseqs := hi.seqs
  rw [hsend] at hanswers hseqs
  rw [hrecv] at hanswers
  exact ⟨hinv, rfl, by simp [LoopPos.todo], rfl, hi.calls, hanswers, hseqs⟩

theorem ping (hi : InOrder s r) (hsend : s.send = .running []) {todo : List (Op α)}
    (htodo : todo.filterMap (Op.pick some) = []) (hinv : Session.Inv { s with send := .running todo }) :
    InOrder { s with send := .running todo } r := by
  have hcarries : ∀ {β : Type} {g : ServerMsg α → Option β} {due pending : List β},
      Carries g due pending s.handler s.send r.written →
        Carries g due pending s.handler (.running todo) r.written := by
    intro β g due pending hc
    refine hc.mono id fun hleft => ?_
    rw [hsend] at hleft
    cases hleft
  exact ⟨hinv, htodo, hi.exitLast, hi.recvSeqs, hi.calls, hcarries hi.answers, hcarries hi.seqs⟩

theorem step (hi : InOrder s r) {l : Label α} (h : (closeSystem enableClientMsg).step s l = some s') :
    InOrder s' (r.note enableClientMsg s l) := by
  have hsteps := hi.inv.sound.steps h
  have hinv := hi.inv.step hsteps
  have hnext : s.next enableClientMsg l = some s' := by
    simpa [closeSystem, hi.inv.sound.crash] using h
  cases l with
  | add =>
    cases hsteps with
    | add _ => exact ⟨hinv, hi.sendSilent, hi.exitLast, hi.recvSeqs, hi.calls, hi.answers, hi.seqs⟩
    | move hl _ => cases hl
  | online =>
    cases hsteps with
    | online hserve => exact hi.online hserve hinv
    | move hl _ => cases hl
  | read result =>
    cases hsteps with
    | read _ hrecv =>
      have hanswers := hi.answers
      rw [hrecv] at hanswers
      exact ⟨hinv, hi.sendSilent, result.exit_last _, result.seq?_ops _, hi.calls, hanswers.produce _, hi.seqs⟩
    | move hl _ => cases hl
  | recvReturn =>
    cases hsteps with
    | recvReturn hrecv _ =>
      have hanswers := hi.answers
      rw [hrecv] at hanswers
      exact ⟨hinv, hi.sendSilent, by simp [LoopPos.todo], rfl, hi.calls, hanswers, hi.seqs⟩
    | move hl _ => cases hl
  | recvWork =>
    cases hsteps with
    | recvWork hrecv hx => exact hi.recvWork hrecv hx hinv
    | move hl _ => cases hl
  | take ok =>
    cases hsteps with
    | take hsend hchan hops => exact hi.take hsend hchan hops hinv
    | move hl _ => cases hl
  | drained =>
    cases hsteps with
    | drained _ _ =>
      exact ⟨hinv, rfl, hi.exitLast, hi.recvSeqs, hi.calls, hi.answers.leave rfl _ _, hi.seqs.leave rfl _ _⟩
    | move hl _ => cases hl
  | ping ok =>
    cases hsteps with
    | ping _ hsend =>
      cases ok with
      | true => exact hi.ping hsend rfl hinv
      | false => exact hi.ping hsend rfl hinv
    | move hl _ => cases hl
  | sendWork =>
    cases hsteps with
    | sendWork hsend hx => exact hi.sendWork hsend hx hinv
    | move hl _ => cases hl
  | kickoff i =>
    simp only [Session.next] at hnext
    split_ifs at hnext with hidle
    cases hnext
    exact hi.move (by rw [hidle.1]; rfl) hinv
  | headSeq seq =>
    simp only [Session.next] at hnext
    split_ifs at hnext with hidle
    cases hnext
    have hseqs := hi.seqs
    rw [hidle.1] at hseqs
    exact ⟨hinv, hi.sendSilent, hi.exitLast, hi.recvSeqs, hi.calls, hi.answers, hseqs.produce [seq]⟩
  | deliver i =>
    obtain ⟨⟨h', pos⟩, hd, rfl⟩ := Option.map_eq_some_iff.mp hnext
    exact hi.deliver hd hinv
  | stop =>
    simp only [Session.next] at hnext
    split_ifs at hnext with hidle hstored
    · cases hnext
      exact hi.stop hidle hinv
    · cases hnext
      exact hi.move (by rw [hidle]; rfl) hinv
  | leaderClosed =>
    simp only [Session.next] at hnext
    split_ifs at hnext with hidle
    cases hnext
    exact hi.move (by rw [hidle]; rfl) hinv

end InOrder

theorem inOrder_of_reachable {enableClientMsg : Bool} {s : Session α × Traffic α}
    (h : (trafficSystem enableClientMsg).Reachable s) : InOrder s.1 s.2 := by
  refine h.invariant (I := fun s => InOrder s.1 s.2) ?_ ?_
  · rintro ⟨_, _⟩ ⟨rfl, rfl⟩
    exact ⟨Session.inv_start, rfl, by simp [Session.start, LoopPos.todo], rfl, fun _ => rfl, .start, .start⟩
  · rintro ⟨s, r⟩ l ⟨s', r'⟩ hi ht
    obtain ⟨hstep, rfl⟩ := record_step.mp ht
    exact hi.step hstep

/-- In every interleaving the answers written to the client are the first of the answers due to the frames
that were read, in their order; and while the session is open and `sendLoop` is there, the others are still
on their way: in the channel, or next to be appended. -/
theorem answers_in_order (enableClientMsg : Bool) {s : Session α × Traffic α}
    (h : (trafficSystem enableClientMsg).Reachable s) :
    s.2.written.filterMap ServerMsg.answer? <+: s.2.due ∧
      (s.1.handler.closing = false → s.1.send.leaving = false →
        s.2.due = s.2.written.filterMap ServerMsg.answer? ++
          (s.1.handler.dataChan.filterMap (SessionData.pick ServerMsg.answer?) ++
            s.1.recv.todo.filterMap (Op.pick ServerMsg.answer?))) := by
  have hi := inOrder_of_reachable h
  refine ⟨hi.answers.isPrefix, fun hopen hhere => ?_⟩
  exact hi.answers.complete (by simp [hopen]) (by simp [hhere])

/-- Two requests with the answers 1 and 2; a head seq comes between them. -/
def pipelinedRun : List (Label ℕ) :=
  [.add, .online, .read (.request 1), .recvWork, .headSeq 7, .deliver none,
    .read (.request 2), .take true, .recvWork, .take true, .take true]

theorem answers_in_order_pipelinedRun :
    ∃ s : Session ℕ × Traffic ℕ, (trafficSystem true).Reachable s ∧ s.2.written = [.answer 1, .headSeq 7, .answer 2] ∧
      s.2.due = [1, 2] ∧ s.2.written.filterMap ServerMsg.answer? <+: s.2.due := by
  have hrun : ((trafficSystem true).run (.start, ⟨[], [], []⟩) pipelinedRun).map
      (fun s => (s.2.written, s.2.due)) = some ([.answer 1, .headSeq 7, .answer 2], [1, 2]) := by
    decide +kernel
  obtain ⟨s, hs, hview⟩ := Option.map_eq_some_iff.mp hrun
  obtain ⟨hwritten, hdue⟩ := Prod.mk.inj hview
  have hstart : (trafficSystem true).Reachable ((.start : Session ℕ), ⟨[], [], []⟩) := .init ⟨rfl, rfl⟩
  have hreach := hstart.run _ hs
  exact ⟨s, hreach, hwritten, hdue, (answers_in_order true hreach).1⟩

end MiniPush.Ws.CloseProtocol
