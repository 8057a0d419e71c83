import MiniPush.Ws.HandlerRun

/-! What one step of a handler's goroutine does to its loop, to the handler store and to
`dataChan`. -/
namespace MiniPush.Ws
namespace HandlerRun
variable {storeLocked hubHolds : Bool} {h h' : HandlerRun} {side : Side}

/-- Moves of a loop, and whether the handler is stored afterwards. -/
inductive LoopMove (storeLocked hubHolds : Bool) (h : HandlerRun) :
    LoopState → LoopState → Bool → Prop
  | resume {held : HeldOp} {todo : List HandlerOp} : (held = .del → h.stored = false) →
      LoopMove storeLocked hubHolds h (.running (some held) todo) (.running none todo) h.stored
  | next {op : HandlerOp} {todo : List HandlerOp} : (op = .del → h.stored = false) →
      LoopMove storeLocked hubHolds h (.running none (op :: todo)) (.running none todo) h.stored
  | block {data : SessionData} {todo : List HandlerOp} : h.locked = false → hubHolds = false →
      h.offer data = none →
      LoopMove storeLocked hubHolds h (.running none (.append data :: todo))
        (.running (some (.push data)) todo) h.stored
  | lock {todo : List HandlerOp} : h.locked = false → hubHolds = false → h.closing = false →
      LoopMove storeLocked hubHolds h (.running none (.close :: todo))
        (.running (some .del) todo) h.stored
  | unstoreHeld {todo : List HandlerOp} : storeLocked = false → h.stored = true →
      LoopMove storeLocked hubHolds h (.running (some .del) todo)
        (.running (some .offline) todo) false
  | unstore {todo : List HandlerOp} : storeLocked = false → h.stored = true →
      LoopMove storeLocked hubHolds h (.running none (.del :: todo))
        (.running none (.offline :: todo)) false
  | leave {todo : List HandlerOp} :
      LoopMove storeLocked hubHolds h (.running none (.exit :: todo)) .finished h.stored
  | turn {ops : List HandlerOp} : (∀ op ∈ ops.tail, op ≠ .offline ∧ op ≠ .e2e) →
      LoopMove storeLocked hubHolds h (.running none []) (.running none ops) h.stored
  | stop : LoopMove storeLocked hubHolds h (.running none []) .finished h.stored

/-- One loop has moved. `dataChan` grows only under the mutex. -/
structure Moved (storeLocked hubHolds : Bool) (h : HandlerRun) (side : Side) (h' : HandlerRun) :
    Prop where
  move : LoopMove storeLocked hubHolds h (h.loop side) (h'.loop side) h'.stored
  other : ∀ x, x ≠ side → h'.loop x = h.loop x
  serve : h'.serve = h.serve
  closing : h.closing = true → h'.closing = true
  grown : h'.dataChan.length ≤ h.dataChan.length ∨
    (h'.dataChan.length ≤ dataChanCap ∧
      (h.locked = false ∧ hubHolds = false ∨ ∃ data, (h.loop side).held = some (.push data)))

@[simp] theorem setLoop_loop_self (h : HandlerRun) (side : Side) (loop : LoopState) :
    (h.setLoop side loop).loop side = loop := Function.update_self ..

theorem setLoop_loop_of_ne {x : Side} (h : HandlerRun) (loop : LoopState) (hx : x ≠ side) :
    (h.setLoop side loop).loop x = h.loop x := Function.update_of_ne hx ..

theorem offer_eq_some {data : SessionData} (ho : h.offer data = some h') :
    h'.loop = h.loop ∧ h'.stored = h.stored ∧ h'.serve = h.serve ∧ h'.closing = h.closing ∧
      (h'.dataChan.length ≤ h.dataChan.length ∨ h'.dataChan.length ≤ dataChanCap) := by
  unfold offer at ho
  split_ifs at ho with hc hl
  · obtain rfl := Option.some.inj ho
    exact ⟨rfl, rfl, rfl, rfl, .inl le_rfl⟩
  · obtain rfl := Option.some.inj ho
    refine ⟨rfl, rfl, rfl, rfl, .inr ?_⟩
    simp only [List.length_append, List.length_singleton]
    exact hl

theorem offer_eq_none_iff {data : SessionData} :
    h.offer data = none ↔ h.closing = false ∧ dataChanCap ≤ h.dataChan.length := by
  unfold offer
  split_ifs with hc hl
  · simp [hc]
  · simp [hl]
  · simp only [Bool.not_eq_true] at hc
    simp [hc, not_lt.mp hl]

private theorem moved_setLoop {loop : LoopState}
    (hm : LoopMove storeLocked hubHolds h (h.loop side) loop h.stored) :
    Moved storeLocked hubHolds h side (h.setLoop side loop) where
  move := by
    rw [setLoop_loop_self]
    exact hm
  other x hx := setLoop_loop_of_ne h loop hx
  serve := rfl
  closing := id
  grown := .inl le_rfl

private theorem moved_of_offer {data : SessionData} {loop : LoopState}
    (ho : h.offer data = some h')
    (hlock : h.locked = false ∧ hubHolds = false ∨ ∃ data, (h.loop side).held = some (.push data))
    (hm : LoopMove storeLocked hubHolds h (h.loop side) loop h.stored) :
    Moved storeLocked hubHolds h side (h'.setLoop side loop) := by
  obtain ⟨hloop, hstored, hserve, hclosing, hlen⟩ := offer_eq_some ho
  refine ⟨?_, ?_, hserve, ?_, ?_⟩
  · rw [setLoop_loop_self]
    show LoopMove storeLocked hubHolds h (h.loop side) loop h'.stored
    rw [hstored]
    exact hm
  · intro x hx
    rw [setLoop_loop_of_ne h' loop hx, hloop]
  · intro hc
    exact hclosing.trans hc
  · rcases hlen with hl | hl
    · exact .inl hl
    · exact .inr ⟨hl, hlock⟩

theorem work_moved (hw : h.work storeLocked hubHolds side = some h') :
    Moved storeLocked hubHolds h side h' := by
  unfold work at hw
  split at hw
  next data todo heq =>
    obtain ⟨u, hu, rfl⟩ := Option.map_eq_some_iff.mp hw
    apply moved_of_offer hu
    · exact .inr ⟨data, by simp [heq, LoopState.held]⟩
    · rw [heq]
      exact .resume (by simp)
  next todo heq =>
    split_ifs at hw with hl hs
    · obtain rfl := Option.some.inj hw
      refine ⟨?_, fun x hx => setLoop_loop_of_ne h _ hx, rfl, id, .inl le_rfl⟩
      rw [heq]
      simp only [setLoop_loop_self]
      exact .unstoreHeld (by simpa using hl) hs
    · obtain rfl := Option.some.inj hw
      apply moved_setLoop
      rw [heq]
      exact .resume fun _ => by simpa using hs
  next data todo heq =>
    split_ifs at hw with hl
    have hfree : h.locked = false ∧ hubHolds = false := by simpa using hl
    split at hw
    next u hu =>
      obtain rfl := Option.some.inj hw
      apply moved_of_offer hu (.inl hfree)
      rw [heq]
      exact .next (by simp)
    next hn =>
      obtain rfl := Option.some.inj hw
      apply moved_setLoop
      rw [heq]
      exact .block hfree.1 hfree.2 hn
  next todo heq =>
    split_ifs at hw with hl hc
    · obtain rfl := Option.some.inj hw
      apply moved_setLoop
      rw [heq]
      exact .next (by simp)
    · have hfree : h.locked = false ∧ hubHolds = false := by simpa using hl
      obtain rfl := Option.some.inj hw
      refine ⟨?_, fun x hx => setLoop_loop_of_ne h _ hx, rfl, fun _ => rfl, .inl le_rfl⟩
      rw [heq]
      simp only [setLoop_loop_self]
      exact .lock hfree.1 hfree.2 (by simpa using hc)
  next todo heq =>
    split_ifs at hw with hl hs
    · obtain rfl := Option.some.inj hw
      refine ⟨?_, fun x hx => setLoop_loop_of_ne h _ hx, rfl, id, .inl le_rfl⟩
      rw [heq]
      simp only [setLoop_loop_self]
      exact .unstore (by simpa using hl) hs
    · obtain rfl := Option.some.inj hw
      apply moved_setLoop
      rw [heq]
      exact .next fun _ => by simpa using hs
  next todo heq =>
    obtain rfl := Option.some.inj hw
    apply moved_setLoop
    rw [heq]
    exact .leave
  next => exact absurd hw (by simp)

theorem delivered_moved (hd : h.delivered side = some h') :
    Moved storeLocked hubHolds h side h' := by
  unfold delivered at hd
  split at hd
  next todo heq =>
    obtain rfl := Option.some.inj hd
    apply moved_setLoop
    rw [heq]
    exact .resume (by simp)
  next todo heq =>
    obtain rfl := Option.some.inj hd
    apply moved_setLoop
    rw [heq]
    exact .next (by simp)
  next todo heq =>
    obtain rfl := Option.some.inj hd
    apply moved_setLoop
    rw [heq]
    exact .next (by simp)
  next => exact absurd hd (by simp)

theorem read_moved {enableClientMsg : Bool} {result : ReadResult}
    (hr : h.read enableClientMsg result = some h') : Moved storeLocked hubHolds h .recv h' := by
  unfold read at hr
  split_ifs at hr with heq
  obtain rfl := Option.some.inj hr
  apply moved_setLoop
  rw [heq]
  apply LoopMove.turn
  cases result <;> cases enableClientMsg <;> simp [ReadResult.ops]

theorem recvReturn_moved (hr : h.recvReturn = some h') :
    Moved storeLocked hubHolds h .recv h' := by
  unfold recvReturn at hr
  split_ifs at hr with heq
  obtain rfl := Option.some.inj hr
  apply moved_setLoop
  rw [heq.1]
  exact .stop

theorem take_moved {written : Bool} (ht : h.take written = some h') :
    Moved storeLocked hubHolds h .send h' := by
  unfold take at ht
  split at ht
  · exact absurd ht (by simp)
  · next data rest hdata =>
    split_ifs at ht with heq
    obtain rfl := Option.some.inj ht
    refine ⟨?_, fun x hx => setLoop_loop_of_ne h _ hx, rfl, id, .inl (by simp [hdata])⟩
    rw [heq]
    simp only [setLoop_loop_self]
    apply LoopMove.turn
    cases data <;> cases written <;> simp [SessionData.ops]

theorem sendReturn_moved (hr : h.sendReturn = some h') :
    Moved storeLocked hubHolds h .send h' := by
  unfold sendReturn at hr
  split_ifs at hr with heq
  obtain rfl := Option.some.inj hr
  apply moved_setLoop
  rw [heq.1]
  exact .stop

theorem ping_moved {written : Bool} (hp : h.ping written = some h') :
    h' = h ∨ Moved storeLocked hubHolds h .send h' := by
  unfold ping at hp
  split_ifs at hp with heq hw
  · exact .inl (Option.some.inj hp).symm
  · obtain rfl := Option.some.inj hp
    right
    apply moved_setLoop
    rw [heq]
    exact .turn (by simp)

end HandlerRun
end MiniPush.Ws
