import MiniPush.Ws.HubLockSteps

/-! The order of the locks at shutdown. `HandlerStore.close` holds the lock of the store and takes the mutex of
each handler; `Handler.close` holds the mutex of its handler and takes the lock of the store. -/
namespace MiniPush.Ws.HubLocks
open Foundation

variable {ι : Type} [DecidableEq ι]

def HeldStmt.wantsStore : HeldStmt → Bool
  | .del | .remove => true
  | _ => false

/-- A goroutine at this place is at the `h.Lock()` of a `Handler.close` that `HandlerStore.close` has
called. -/
def closesAt (i : ι) : Option (ι × HeldStmt) → Thread ι → Bool
  | none, .running (.close j true :: _) => j = i
  | _, _ => false

namespace HubState
variable (s : HubState ι)

def closesNext (i : ι) : Bool := closesAt i (s.locks.held .run) (s.thread .run)

def holderWantsStore (i : ι) : Bool := (s.locks.holder i).any HeldStmt.wantsStore

def ClosesFree : Prop :=
  ∀ i, s.closesNext i = true → ∀ g op, s.locks.held g = some (i, op) → op.wantsStore = false

/-- `HandlerStore.close` comes to a handler only while the holder of its mutex does not want the store, and a
`Handler.close` of another cause comes to `delHandler` only while `HandlerStore.close` does not want the
mutex. -/
def keepsApart : Label ι → Bool
  | .work g =>
    match s.locks.held g, s.thread g with
    | none, .running (.closeEach (i :: _) :: _) => !s.holderWantsStore i
    | some (i, .shut false), _ => !s.closesNext i
    | _, _ => true
  | _ => true

omit [DecidableEq ι] in
theorem holderWantsStore_iff {i : ι} : s.holderWantsStore i = true ↔
    ∃ g op, s.locks.held g = some (i, op) ∧ op.wantsStore = true := by
  rw [holderWantsStore, Option.any_eq_true]
  simp only [s.locks.holder_eq_some_iff]
  constructor
  · rintro ⟨op, ⟨g, hheld⟩, hop⟩
    exact ⟨g, op, hheld, hop⟩
  · rintro ⟨g, op, hheld, hop⟩
    exact ⟨op, ⟨g, hheld⟩, hop⟩

end HubState

theorem closesAt_iff {i : ι} {held : Option (ι × HeldStmt)} {t : Thread ι} :
    closesAt i held t = true ↔ held = none ∧ ∃ todo, t = .running (.close i true :: todo) := by
  constructor
  · intro h
    unfold closesAt at h
    split at h
    · obtain rfl := of_decide_eq_true h
      exact ⟨rfl, _, rfl⟩
    · cases h
  · rintro ⟨rfl, todo, rfl⟩
    exact decide_eq_true rfl

section Step
variable {s s' : HubState ι} {l : Label ι} {e : Effect ι} {i : ι}

/-- `Hub.Run` comes to `Handler.close` from the loop of `HandlerStore.close`. -/
theorem Steps.comesToClose (h : Steps s l e) (hs : Sound s) (hgor : e.gor = .run)
    (hi : closesAt i e.held e.thread = true) :
    l = .work .run ∧ e.held = none ∧ s.locks.held .run = none ∧
      ∃ rest todo, s.thread .run = .running (.closeEach (i :: rest) :: todo) := by
  obtain ⟨hheld', todo', hthread'⟩ := closesAt_iff.mp hi
  cases h with
  | @closeEach j rest todo hheld hthread =>
    obtain ⟨hj, -⟩ := List.cons.inj (Thread.running.inj hthread')
    obtain ⟨rfl, -⟩ := Stmt.close.inj hj
    exact ⟨rfl, rfl, hheld, rest, todo, hthread⟩
  | plain _ _ _ _ _ hclose => exact absurd hthread' (hclose i true todo')
  | appendIgnored hheld hthread _ _ | closeIgnored hheld hthread _ | push hheld hthread _
  | shutStop hheld hthread | finish _ hheld hthread =>
    exact absurd hthread' (not_close_of_later (hs.placed_at hheld hthread).2 i true todo')
  | exit _ _ => cases hthread'
  | append _ _ _ _ | close _ _ _ | closeFrame _ _ | writing _ _ | shut _ _ | del _ _ | remove _ _ =>
    cases hheld'
  | write _ _ | wrote _ _ _ | take _ _ _ | tick _ _ | drained _ _ _ => cases hgor

/-- A goroutine comes to want the store at the end of a `Handler.close`, or wants it already. -/
theorem Steps.comesToStore (h : Steps s l e) {op : HeldStmt} (hheld' : e.held = some (i, op))
    (hop : op.wantsStore = true) :
    l = .work e.gor ∧ s.locks.held e.gor = some (i, .shut false) ∨
      s.locks.held e.gor = some (i, .del) := by
  cases h with
  | shut hheld _ =>
    obtain ⟨rfl, rfl⟩ := Prod.mk.inj (Option.some.inj hheld')
    exact .inl ⟨rfl, hheld⟩
  | del hheld _ =>
    obtain ⟨rfl, rfl⟩ := Prod.mk.inj (Option.some.inj hheld')
    exact .inr hheld
  | append _ _ _ _ | close _ _ _ | closeFrame _ _ | writing _ _ | remove _ _ =>
    obtain ⟨rfl, rfl⟩ := Prod.mk.inj (Option.some.inj hheld')
    cases hop
  | _ => cases hheld'

theorem Applied.closesNext_of_ne (ha : Applied s e s') (hgor : e.gor ≠ .run)
    (h : s'.closesNext i = true) : s.closesNext i = true := by
  unfold HubState.closesNext at h ⊢
  rw [ha.held_of_ne hgor.symm] at h
  rcases ha.thread_of_ne hgor.symm with ht | ⟨-, ht⟩
  · rwa [ht] at h
  · rw [ht, closesAt_iff] at h
    obtain ⟨-, todo, he⟩ := h
    cases he

theorem closesFree_of_keepsApart (hs : Sound s) (hp : s.ClosesFree) (h : Steps s l e)
    (ha : Applied s e s') (hok : s.keepsApart l = true) : s'.ClosesFree := by
  intro i hnext g op hheld'
  by_contra hwants
  rw [Bool.not_eq_false] at hwants
  by_cases hgor : e.gor = .run
  · rw [HubState.closesNext, ← hgor, ha.held_self, ha.thread_self] at hnext
    obtain ⟨rfl, hfree, hheld, rest, todo, hthread⟩ := h.comesToClose hs hgor hnext
    have hg : g ≠ e.gor := by
      intro hg
      rw [hg, ha.held_self, hfree] at hheld'
      cases hheld'
    rw [ha.held_of_ne hg] at hheld'
    have hholder := s.holderWantsStore_iff.mpr ⟨g, op, hheld', hwants⟩
    simp [HubState.keepsApart, hheld, hthread, hholder] at hok
  · have hold := ha.closesNext_of_ne hgor hnext
    by_cases hg : g = e.gor
    · rw [hg, ha.held_self] at hheld'
      rcases h.comesToStore hheld' hwants with ⟨rfl, hshut⟩ | hdel
      · simp [HubState.keepsApart, hshut, hold] at hok
      · have hdel' := hp i hold e.gor .del hdel
        cases hdel'
    · rw [ha.held_of_ne hg] at hheld'
      rw [hp i hold g op hheld'] at hwants
      cases hwants

theorem not_closesFree_of_not_keepsApart (hs : Sound s) (h : Steps s l e) (ha : Applied s e s')
    (hok : s.keepsApart l = false) : ¬ s'.ClosesFree := by
  intro hfree
  cases h with
  | @closeEach i rest todo hheld hthread =>
    simp only [HubState.keepsApart, hheld, hthread, Bool.not_eq_false'] at hok
    obtain ⟨g, op, hg, hwants⟩ := s.holderWantsStore_iff.mp hok
    have hne : g ≠ .run := by
      intro he
      rw [he, hheld] at hg
      cases hg
    have hnext : s'.closesNext i = true := closesAt_iff.mpr ⟨ha.held_self, _, ha.thread_self⟩
    rw [hfree i hnext g op ((ha.held_of_ne hne).trans hg)] at hwants
    cases hwants
  | @shut g i todo hheld hthread =>
    simp only [HubState.keepsApart, hheld, Bool.not_eq_false'] at hok
    obtain rfl : g = .send i := (hs.placed_at hheld hthread).1
    have hne : Gor.run ≠ .send i := by simp
    have hnext : s'.closesNext i = true := by
      rw [HubState.closesNext, ha.held_of_ne hne, (ha.thread_of_ne hne).resolve_right fun hr => hr.1 rfl]
      exact hok
    have hdel := hfree i hnext (.send i) .del ha.held_self
    cases hdel
  | @plain l g t start stored store _ hheld hl _ _ _ =>
    cases l with
    | work g' =>
      obtain ⟨rfl, stmt, todo, hthread, hplain⟩ := hl g' rfl
      cases stmt with
      | closeEach rest =>
        cases rest with
        | nil => simp [HubState.keepsApart, hheld, hthread] at hok
        | cons j rest => exact hplain.elim
      | _ => simp [HubState.keepsApart, hheld, hthread] at hok
    | _ => cases hok
  | exit hheld hthread | appendIgnored hheld hthread _ _ | append hheld hthread _ _
  | closeIgnored hheld hthread _ | close hheld hthread _ | push hheld hthread _
  | closeFrame hheld hthread | writing hheld hthread | shutStop hheld hthread
  | del hheld hthread | remove hheld hthread | write hheld hthread =>
    simp [HubState.keepsApart, hheld, hthread] at hok
  | finish hop hheld hthread =>
    rcases hop with rfl | rfl <;> simp [HubState.keepsApart, hheld] at hok
  | wrote _ _ _ | take _ _ _ | tick _ _ | drained _ _ _ => cases hok

end Step

/-- In every run that meets the condition, `HandlerStore.close` never waits for a mutex whose holder waits for
the store, and any other step brings such a wait about. -/
theorem closes_free_exactly_while_apart (uid : ι → ℤ) (enableClientMsg : Bool) (s : HubState ι)
    (h : (lockSystem uid enableClientMsg).ReachableVia (fun s l => s.keepsApart l = true) s) :
    s.ClosesFree ∧ ∀ l s', (lockSystem uid enableClientMsg).step s l = some s' →
      (s'.ClosesFree ↔ s.keepsApart l = true) := by
  refine exactly_of_steps ?_ (fun _ _ _ _ => closesFree_of_keepsApart)
    (fun _ _ _ _ => not_closesFree_of_not_keepsApart) h
  intro i hnext
  cases hnext

/-- A session is opened, its connection breaks, and `sendLoop` has written its close frame. -/
def brokenRun : List (Label Unit) :=
  [.serve (), .work (.serve ()), .work (.serve ()), .work (.serve ()), .read () .error, .work (.recv ()),
    .work (.recv ()), .take (), .work (.send ()), .work (.send ()), .work (.send ())]

/-- The session is removed before the context ends. -/
theorem closes_free_orderlyRun :
    ∃ s : HubState Unit, (lockSystem (fun _ => 7) true).ReachableVia
      (fun s l => s.keepsApart l = true) s ∧ s.thread .run = .finished ∧ s.ClosesFree := by
  have hrun : ((lockSystem (fun _ => 7) true).runVia HubState.keepsApart .start (brokenRun ++
      [.work (.send ()), .work (.send ()), .work (.send ()), .work (.send ()), .stop, .closeAll [],
        .work .run, .work .run, .work .run])).map (fun s => s.thread .run) = some .finished := by
    decide +kernel
  obtain ⟨s, hs, hview⟩ := Option.map_eq_some_iff.mp hrun
  have hreach := System.ReachableVia.runVia (fun _ _ h => h) (.init rfl) _ hs
  exact ⟨s, hreach, hview, (closes_free_exactly_while_apart _ _ s hreach).1⟩

/-- The context ends while `sendLoop` closes its session: `HandlerStore.close` has the lock of the store and
wants the mutex, `sendLoop` has the mutex and wants the lock. Neither can go on. -/
theorem close_waits_for_close :
    ∃ s : HubState Unit, (lockSystem (fun _ => 7) true).Reachable s ∧ s.closesNext () = true ∧
      s.locks.held (.send ()) = some ((), .remove) ∧ s.effect (fun _ => 7) true (.work .run) = none ∧
      s.effect (fun _ => 7) true (.work (.send ())) = none ∧ ¬ s.ClosesFree := by
  have hrun : ((lockSystem (fun _ => 7) true).run .start (brokenRun ++
      [.stop, .closeAll [()], .work .run, .work (.send ()), .work (.send ())])).map (fun s =>
        (s.closesNext (), s.locks.held (.send ()), (s.effect (fun _ => 7) true (.work .run)).isNone,
          (s.effect (fun _ => 7) true (.work (.send ()))).isNone)) =
      some (true, some ((), .remove), true, true) := by
    decide +kernel
  obtain ⟨s, hs, hview⟩ := Option.map_eq_some_iff.mp hrun
  simp only [Prod.mk.injEq, Option.isNone_iff_eq_none] at hview
  obtain ⟨hnext, hheld, hblocked, hblocked'⟩ := hview
  refine ⟨s, System.Reachable.run (.init rfl) _ hs, hnext, hheld, hblocked, hblocked', fun hfree => ?_⟩
  cases hfree () hnext (.send ()) .remove hheld

end MiniPush.Ws.HubLocks
