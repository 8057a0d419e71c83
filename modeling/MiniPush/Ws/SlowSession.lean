import MiniPush.Ws.HubLockSteps

/-! Producers of a session whose `dataChan` is full. `appendDataChan` waits for room under the handler's mutex,
and the only receiver takes that mutex in `appendDataChan` and `close`. -/
namespace MiniPush.Ws.HubLocks
open Foundation

variable {ι : Type} [DecidableEq ι]

/-- A `sendLoop` of `i` at this place has not returned and comes to its next receive without the mutex of
`i`: it neither has the mutex nor is at an `h.Lock()` for it. -/
def receivesAt (i : ι) : Option (ι × HeldStmt) → Thread ι → Bool
  | some (j, _), _ => j ≠ i
  | none, .finished => false
  | none, .running (.exit :: _) => false
  | none, .running (.append j _ :: _) => j ≠ i
  | none, .running (.close j _ :: _) => j ≠ i
  | none, _ => true

namespace HubState
variable (s : HubState ι)

def receives (i : ι) : Bool := receivesAt i (s.locks.held (.send i)) (s.thread (.send i))

def blocked (i : ι) : Bool := (s.locks.holder i).any HeldStmt.isPush && s.full i

def Drains : Prop :=
  ∀ i g v, s.locks.held g = some (i, .push v) → s.full i = true → s.receives i = true

/-- A goroutine begins to wait for room only while `sendLoop` can receive, and `sendLoop` ends a write that
makes it take the mutex only while nobody waits for room. -/
def makesRoom : Label ι → Bool
  | .work g =>
    match s.locks.held g, s.thread g with
    | none, .running (.append i _ :: _) => (s.handler i).closing || !s.full i || s.receives i
    | _, _ => true
  | .wrote i ok =>
    match s.thread (.send i) with
    | .running (.written _ frame :: _) => (frame.ops ok).isEmpty || !s.blocked i
    | _ => true
  | _ => true

omit [DecidableEq ι] in
theorem blocked_iff {i : ι} : s.blocked i = true ↔
    (∃ g v, s.locks.held g = some (i, .push v)) ∧ s.full i = true := by
  rw [blocked, Bool.and_eq_true, Option.any_eq_true]
  simp only [s.locks.holder_eq_some_iff]
  refine and_congr_left' ?_
  constructor
  · rintro ⟨op, ⟨g, hheld⟩, hop⟩
    cases op with
    | push v => exact ⟨g, v, hheld⟩
    | _ => cases hop
  · rintro ⟨g, v, hheld⟩
    exact ⟨.push v, ⟨g, hheld⟩, rfl⟩

end HubState

theorem receivesAt_wrote (i : ι) (frame : Frame) (ok : Bool) :
    receivesAt i none (.running ((frame.ops ok).map (.ofOp i))) = (frame.ops ok).isEmpty := by
  cases frame with
  | ping => cases ok <;> simp [Frame.ops, Stmt.ofOp, receivesAt]
  | data v => cases v <;> cases ok <;> simp [Frame.ops, SessionData.ops, Stmt.ofOp, receivesAt]

omit [DecidableEq ι] in
theorem Sound.todo_of_written {s : HubState ι} (hs : Sound s) {g : Gor ι} {i : ι} {frame : Frame}
    {todo : List (Stmt ι)} (hthread : s.thread g = .running (.written i frame :: todo)) : todo = [] := by
  have hlast := hs.writesLast g
  rwa [hthread] at hlast

omit [DecidableEq ι] in
theorem eq_of_closes {i j : ι} {stop : Bool} (h : Gor.send i = if stop then .run else .send j) : j = i := by
  cases stop with
  | true => cases h
  | false => exact (Gor.send.inj h).symm

omit [DecidableEq ι] in
theorem HeldStmt.OfGor.eq_of_send {g : Gor ι} {i j : ι} {op : HeldStmt} (hg : g = .send i)
    (h : op.OfGor g j) : j = i := by
  subst hg
  cases op with
  | push v => exact (h i rfl).symm
  | closeFrame stop | writing stop | shut stop => exact eq_of_closes h
  | del | remove | offline => exact (Gor.send.inj h).symm

section Step
variable {s s' : HubState ι} {l : Label ι} {e : Effect ι} {i : ι}

/-- Only `appendDataChan` comes to wait for room. -/
theorem Steps.comesToPush (h : Steps s l e) {v : SessionData} (hheld' : e.held = some (i, .push v)) :
    l = .work e.gor ∧ e.start = none ∧ e.data = s.toData ∧ s.locks.held e.gor = none ∧
      (s.handler i).closing = false ∧ ∃ todo, s.thread e.gor = .running (.append i v :: todo) := by
  cases h with
  | @append g j w todo hheld hthread _ hopen =>
    obtain ⟨rfl, hw⟩ := Prod.mk.inj (Option.some.inj hheld')
    obtain rfl := HeldStmt.push.inj hw
    exact ⟨rfl, rfl, rfl, hheld, hopen, todo, hthread⟩
  | close _ _ _ | closeFrame _ _ | writing _ _ | shut _ _ | del _ _ | remove _ _ =>
    obtain ⟨-, hop⟩ := Prod.mk.inj (Option.some.inj hheld')
    cases hop
  | _ => cases hheld'

theorem Steps.full (h : Steps s l e) (ha : Applied s e s') (hfull : s'.full i = true) :
    s.full i = true ∨ ∃ v, s.locks.held e.gor = some (i, .push v) := by
  have hi := h.handler i
  have hlen := of_decide_eq_true hfull
  rw [ha.data] at hlen
  generalize e.data.handler i = h' at hi hlen
  cases hi with
  | push hheld _ => exact .inr ⟨_, hheld⟩
  | @take v rest _ hchan =>
    have hold : (s.handler i).dataChan.length = rest.length + 1 := by rw [hchan, List.length_cons]
    have hlen' : HandlerRun.dataChanCap ≤ rest.length := hlen
    exact .inl (decide_eq_true (by omega))
  | same | close _ | shut _ => exact .inl (decide_eq_true hlen)

/-- Another goroutine's step leaves `sendLoop` where it is, or starts it. -/
theorem Applied.receives_of_ne (ha : Applied s e s') (hgor : Gor.send i ≠ e.gor)
    (h : s.receives i = true) : s'.receives i = true := by
  unfold HubState.receives at h ⊢
  rw [ha.held_of_ne hgor]
  rcases ha.thread_of_ne hgor with ht | ⟨-, ht⟩
  · rwa [ht]
  · rw [ht]
    cases hheld : s.locks.held (.send i) with
    | none => rfl
    | some p =>
      rw [hheld] at h
      exact h

/-- A goroutine that comes to wait for room meets a `sendLoop` that receives. -/
theorem receives_of_push (h : Steps s l e) (ha : Applied s e s')
    (hok : s.makesRoom l = true) {v : SessionData} (hpush : e.held = some (i, .push v))
    (hfull : s'.full i = true) : s'.receives i = true := by
  obtain ⟨rfl, -, hdata, hheld, hopen, todo, hthread⟩ := h.comesToPush hpush
  have hfull' : s.full i = true := by
    unfold HubState.full at hfull ⊢
    rwa [ha.data, hdata] at hfull
  have hreceives : s.receives i = true := by
    simpa [HubState.makesRoom, hheld, hthread, hopen, hfull'] using hok
  have hgor : Gor.send i ≠ e.gor := by
    intro hgor
    rw [HubState.receives, hgor, hheld, hthread] at hreceives
    simp [receivesAt] at hreceives
  exact ha.receives_of_ne hgor hreceives

/-- While another goroutine waits for room, `sendLoop` stays able to receive. -/
theorem receives_of_send (hs : Sound s) (hp : s.Drains) (h : Steps s l e) (ha : Applied s e s')
    (hok : s.makesRoom l = true) (hgor : e.gor = .send i) {g : Gor ι} {v : SessionData}
    (hg : g ≠ e.gor) (hpush : s.locks.held g = some (i, .push v)) (hfull : s.full i = true)
    (hfull' : s'.full i = true) : s'.receives i = true := by
  have hreceives := hp i g v hpush hfull
  -- the mutex is taken, so `sendLoop` holds none and takes none
  have howner := s.locks.owner_of_held hpush
  have hout : ∀ op, s.locks.held e.gor ≠ some (i, op) := by
    intro op hop
    exact hg (s.locks.eq_of_held hpush hop)
  have hnew : s'.receives i = receivesAt i e.held e.thread := by
    rw [HubState.receives, ← hgor, ha.held_self, ha.thread_self]
  rw [hnew]
  cases h with
  | plain hsend _ _ _ _ _ => exact absurd hgor (hsend i)
  | closeEach _ _ => cases hgor
  | @exit g₀ todo hheld hthread =>
    rw [HubState.receives, ← hgor, hheld, hthread] at hreceives
    cases hreceives
  | appendIgnored hheld hthread hfree _ | append hheld hthread hfree _ =>
    obtain rfl := (hs.placed_at hheld hthread).1 i hgor
    rw [hfree] at howner
    cases howner
  | @closeIgnored g₀ j stop todo hheld hthread hfree | @close g₀ j stop todo hheld hthread hfree =>
    have hof : g₀ = if stop then .run else .send j := (hs.placed_at hheld hthread).1
    obtain rfl := eq_of_closes (hgor.symm.trans hof)
    rw [hfree] at howner
    cases howner
  | push hheld hthread _ | closeFrame hheld hthread | writing hheld hthread | shutStop hheld hthread
  | shut hheld hthread | del hheld hthread | remove hheld hthread | finish _ hheld hthread =>
    obtain rfl := HeldStmt.OfGor.eq_of_send hgor (hs.placed_at hheld hthread).1
    exact absurd hheld (hout _)
  | write _ _ | tick _ _ => rfl
  | @wrote j frame todo ok hheld hthread =>
    obtain rfl : j = i := Gor.send.inj hgor
    obtain rfl : todo = [] := hs.todo_of_written hthread
    have hblocked := s.blocked_iff.mpr ⟨⟨g, v, hpush⟩, hfull⟩
    rw [HubState.goOn, List.append_nil, receivesAt_wrote]
    simpa [HubState.makesRoom, hthread, hblocked] using hok
  | @take j w rest _ _ hchan =>
    obtain rfl : j = i := Gor.send.inj hgor
    have hshort := hs.short j
    rw [hchan, List.length_cons] at hshort
    have hlen : HandlerRun.dataChanCap ≤ rest.length := by
      have hlen' := of_decide_eq_true hfull'
      rw [ha.data] at hlen'
      change _ ≤ ((s.setHandler j _).handler j).dataChan.length at hlen'
      rwa [HubState.setHandler_self] at hlen'
    omega
  | @drained j _ _ hclosed =>
    obtain rfl : j = i := Gor.send.inj hgor
    have hopen := hs.entered g j _ hpush
    rw [hs.closed j hclosed] at hopen
    cases hopen

theorem drains_of_makesRoom (hs : Sound s) (hp : s.Drains) (h : Steps s l e) (ha : Applied s e s')
    (hok : s.makesRoom l = true) : s'.Drains := by
  intro i g v hheld' hfull'
  by_cases hg : g = e.gor
  · rw [hg, ha.held_self] at hheld'
    exact receives_of_push h ha hok hheld' hfull'
  · rw [ha.held_of_ne hg] at hheld'
    have hfull : s.full i = true := by
      refine (h.full ha hfull').resolve_right ?_
      rintro ⟨w, hw⟩
      exact hg (s.locks.eq_of_held hheld' hw)
    by_cases hgor : e.gor = .send i
    · exact receives_of_send hs hp h ha hok hgor hg hheld' hfull hfull'
    · exact ha.receives_of_ne (fun he => hgor he.symm) (hp i g v hheld' hfull)

/-- A goroutine that takes the mutex with the channel full and `sendLoop` not able to receive. -/
theorem not_drains_of_append {g : Gor ι} {v : SessionData} {todo : List (Stmt ι)}
    (ha : Applied s (s.hold g i (.push v) todo) s') (hfull : s.full i = true)
    (hstuck : s.receives i = false) : ¬ s'.Drains := by
  intro hdrains
  have hfull' : s'.full i = true := by
    unfold HubState.full
    rw [ha.data]
    exact hfull
  have hself : s'.locks.held g = some (i, .push v) := ha.held_self
  have hreceives : s'.receives i = true := hdrains i g v hself hfull'
  by_cases hgor : g = .send i
  · subst hgor
    rw [HubState.receives, hself] at hreceives
    simp [receivesAt] at hreceives
  · have hne : Gor.send i ≠ g := fun he => hgor he.symm
    have hsame : s'.thread (.send i) = s.thread (.send i) :=
      (ha.thread_of_ne hne).resolve_right fun hr => hr.1 rfl
    rw [HubState.receives, ha.held_of_ne hne, hsame] at hreceives
    rw [HubState.receives, hreceives] at hstuck
    cases hstuck

/-- `sendLoop` goes for the mutex while a goroutine holds it and waits for room. -/
theorem not_drains_of_wrote {frame : Frame} {ok : Bool} (hheld : s.locks.held (.send i) = none)
    (ha : Applied s (s.goOn (.send i) ((frame.ops ok).map (.ofOp i))) s') (hblocked : s.blocked i = true)
    (hops : (frame.ops ok).isEmpty = false) : ¬ s'.Drains := by
  intro hdrains
  obtain ⟨⟨g, v, hpush⟩, hfull⟩ := s.blocked_iff.mp hblocked
  have hg : g ≠ .send i := by
    intro hg
    rw [hg, hheld] at hpush
    cases hpush
  have hfull' : s'.full i = true := by
    unfold HubState.full
    rw [ha.data]
    exact hfull
  have hreceives := hdrains i g v ((ha.held_of_ne hg).trans hpush) hfull'
  have hself : s'.locks.held (.send i) = none := ha.held_self
  have hthread : s'.thread (.send i) = .running ((frame.ops ok).map (.ofOp i)) := ha.thread_self
  rw [HubState.receives, hself, hthread, receivesAt_wrote, hops] at hreceives
  cases hreceives

theorem not_drains_of_not_makesRoom (hs : Sound s) (h : Steps s l e) (ha : Applied s e s')
    (hok : s.makesRoom l = false) : ¬ s'.Drains := by
  cases h with
  | append hheld hthread _ hopen =>
    simp only [HubState.makesRoom, hheld, hthread, hopen, Bool.false_or, Bool.or_eq_false_iff,
      Bool.not_eq_false'] at hok
    exact not_drains_of_append ha hok.1 hok.2
  | @wrote i frame todo ok hheld hthread =>
    obtain rfl : todo = [] := hs.todo_of_written hthread
    simp only [HubState.makesRoom, hthread, Bool.or_eq_false_iff, Bool.not_eq_false'] at hok
    rw [List.append_nil] at ha
    exact not_drains_of_wrote hheld ha hok.2 hok.1
  | @plain l g t start stored store _ hheld hl hwrote _ _ =>
    cases l with
    | work g' =>
      obtain ⟨rfl, stmt, todo, hthread, hplain⟩ := hl g' rfl
      cases stmt with
      | append i v => exact hplain.elim
      | _ => simp [HubState.makesRoom, hheld, hthread] at hok
    | wrote i ok => exact absurd rfl (hwrote i ok)
    | _ => cases hok
  | appendIgnored hheld hthread _ hclosing =>
    simp [HubState.makesRoom, hheld, hthread, hclosing] at hok
  | exit hheld hthread | closeEach hheld hthread | closeIgnored hheld hthread _ | close hheld hthread _
  | push hheld hthread _ | closeFrame hheld hthread | writing hheld hthread | shutStop hheld hthread
  | shut hheld hthread | del hheld hthread | remove hheld hthread | finish _ hheld hthread
  | write hheld hthread =>
    simp [HubState.makesRoom, hheld, hthread] at hok
  | take _ _ _ | tick _ _ | drained _ _ _ => cases hok

end Step

/-- In every run that meets the condition, whoever waits for room in a `dataChan` can still get it, and any
other step leaves somebody waiting for a `sendLoop` that will not receive. -/
theorem drains_exactly_while_room (uid : ι → ℤ) (enableClientMsg : Bool) (s : HubState ι)
    (h : (lockSystem uid enableClientMsg).ReachableVia (fun s l => s.makesRoom l = true) s) :
    s.Drains ∧ ∀ l s', (lockSystem uid enableClientMsg).step s l = some s' →
      (s'.Drains ↔ s.makesRoom l = true) := by
  refine exactly_of_steps ?_ (fun _ _ _ _ => drains_of_makesRoom)
    (fun _ _ _ _ => not_drains_of_not_makesRoom) h
  intro i g v hheld
  cases hheld

/-- A session is opened, `sendLoop` begins a ping, and sixteen answers fill `dataChan`. -/
def fillRun : List (Label Unit) :=
  [.serve (), .work (.serve ()), .work (.serve ()), .work (.serve ()), .tick (), .work (.send ())] ++
    (List.replicate 16 [.read () .request, .work (.recv ()), .work (.recv ())]).flatten

/-- A head seq for the session: `Hub.Run` has the mutex and waits for room. -/
def headSeqRun : List (Label Unit) :=
  [.leaderHeadSeq [7], .getByUid [()], .work .run]

/-- `sendLoop` is still in its ping, and comes back to receive. -/
theorem drains_slowRun :
    ∃ s : HubState Unit, (lockSystem (fun _ => 7) true).ReachableVia
      (fun s l => s.makesRoom l = true) s ∧ s.blocked () = true ∧ s.receives () = true ∧ s.Drains := by
  have hrun : ((lockSystem (fun _ => 7) true).runVia HubState.makesRoom .start
      (fillRun ++ headSeqRun)).map (fun s => s.blocked ()) = some true := by
    decide +kernel
  obtain ⟨s, hs, hblocked⟩ := Option.map_eq_some_iff.mp hrun
  have hreach := System.ReachableVia.runVia (fun _ _ h => h) (.init rfl) _ hs
  have hdrains := (drains_exactly_while_room _ _ s hreach).1
  obtain ⟨⟨g, v, hheld⟩, hfull⟩ := s.blocked_iff.mp hblocked
  exact ⟨s, hreach, hblocked, hdrains () g v hheld hfull, hdrains⟩

/-- The ping fails: `sendLoop` wants the mutex to report it, and `Hub.Run` holds the mutex and waits for
`sendLoop`. -/
theorem hub_wedged_by_failed_ping :
    ∃ s : HubState Unit, (lockSystem (fun _ => 7) true).Reachable s ∧
      s.locks.held .run = some ((), .push .msg) ∧ s.full () = true ∧
      s.thread (.send ()) = .running [.append () .error, .exit] ∧
      s.effect (fun _ => 7) true (.work .run) = none ∧
      s.effect (fun _ => 7) true (.work (.send ())) = none ∧ ¬ s.Drains := by
  have hrun : ((lockSystem (fun _ => 7) true).run .start (fillRun ++ headSeqRun ++ [.wrote () false])).map
      (fun s => (s.locks.held .run, s.full (), s.thread (.send ()), s.receives (),
        (s.effect (fun _ => 7) true (.work .run)).isNone,
        (s.effect (fun _ => 7) true (.work (.send ()))).isNone)) =
      some (some ((), .push .msg), true, .running [.append () .error, .exit], false, true, true) := by
    decide +kernel
  obtain ⟨s, hs, hview⟩ := Option.map_eq_some_iff.mp hrun
  simp only [Prod.mk.injEq, Option.isNone_iff_eq_none] at hview
  obtain ⟨hheld, hfull, hthread, hreceives, hblocked, hblocked'⟩ := hview
  refine ⟨s, System.Reachable.run (.init rfl) _ hs, hheld, hfull, hthread, hblocked, hblocked', ?_⟩
  intro hdrains
  rw [hdrains () .run .msg hheld hfull] at hreceives
  cases hreceives

end MiniPush.Ws.HubLocks
