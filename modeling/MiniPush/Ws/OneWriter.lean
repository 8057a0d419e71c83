import MiniPush.Ws.HubLockSteps

/-! Writes on the connection of a session: data and pings from `sendLoop` without the handler's mutex, close
frames from `Handler.close` under it. -/
namespace MiniPush.Ws.HubLocks
open Foundation

variable {ι : Type} [DecidableEq ι]

/-- A goroutine at this place is inside a `WriteMessage` on the connection of `i`. -/
def writesAt (i : ι) : Option (ι × HeldStmt) → Thread ι → Bool
  | some (j, .writing _), _ => j = i
  | none, .running (.written j _ :: _) => j = i
  | _, _ => false

namespace HubState
variable (s : HubState ι)

def inWrite (g : Gor ι) (i : ι) : Bool := writesAt i (s.locks.held g) (s.thread g)

def OneWriter : Prop := ∀ i g g', s.inWrite g i = true → s.inWrite g' i = true → g = g'

/-- `HandlerStore.close` begins a close frame only while `sendLoop` writes nothing, and `sendLoop` begins a
message or a ping only while `HandlerStore.close` writes no close frame. -/
def writesApart : Label ι → Bool
  | .work g =>
    match s.locks.held g, s.thread g with
    | some (i, .closeFrame true), _ => !s.inWrite (.send i) i
    | none, .running (.write i _ :: _) => !s.inWrite .run i
    | _, _ => true
  | _ => true

end HubState

theorem writesAt_iff {i : ι} {held : Option (ι × HeldStmt)} {t : Thread ι} :
    writesAt i held t = true ↔ (∃ stop, held = some (i, .writing stop)) ∨
      held = none ∧ ∃ frame todo, t = .running (.written i frame :: todo) := by
  constructor
  · intro h
    unfold writesAt at h
    split at h
    · obtain rfl := of_decide_eq_true h
      exact .inl ⟨_, rfl⟩
    · obtain rfl := of_decide_eq_true h
      exact .inr ⟨rfl, _, _, rfl⟩
    · cases h
  · rintro (⟨stop, rfl⟩ | ⟨rfl, frame, todo, rfl⟩)
    · exact decide_eq_true rfl
    · exact decide_eq_true rfl

theorem writesAt_of_later {g : Gor ι} {todo : List (Stmt ι)} (h : ∀ x ∈ todo, x.Later g) (i : ι) :
    writesAt i none (.running todo) = false := by
  cases todo with
  | nil => rfl
  | cons stmt todo =>
    have hstmt := h stmt List.mem_cons_self
    cases stmt with
    | written j frame => exact hstmt.elim
    | _ => rfl

theorem writesAt_of_not_send {g : Gor ι} {t : Thread ι} (hg : ∀ i, g ≠ .send i)
    (h : WellPlaced g none t) (i : ι) : writesAt i none t = false := by
  cases t with
  | absent | finished => rfl
  | running todo =>
    cases todo with
    | nil => rfl
    | cons stmt todo =>
      cases stmt with
      | written j frame => exact absurd h.1 (hg j)
      | _ => rfl

theorem writesAt_wrote (i : ι) (frame : Frame) (ok : Bool) {todo : List (Stmt ι)}
    (htodo : ∀ x ∈ todo, x.Later (.send i)) (j : ι) :
    writesAt j none (.running ((frame.ops ok).map (.ofOp i) ++ todo)) = false := by
  have hdone := writesAt_of_later htodo j
  cases frame with
  | ping =>
    cases ok with
    | true => exact hdone
    | false => rfl
  | data v =>
    cases v <;> cases ok <;> first | rfl | exact hdone

section Step
variable {s s' : HubState ι} {l : Label ι} {e : Effect ι} {i : ι}

/-- The two ways in which a goroutine comes to be inside a `WriteMessage`. -/
inductive Begins (s : HubState ι) (i : ι) : Gor ι → Prop
  | closeFrame {g : Gor ι} {stop : Bool} (hheld : s.locks.held g = some (i, .closeFrame stop)) :
      Begins s i g
  | write {frame : Frame} {todo : List (Stmt ι)} (hheld : s.locks.held (.send i) = none)
      (hthread : s.thread (.send i) = .running (.write i frame :: todo)) : Begins s i (.send i)

theorem Steps.begins (h : Steps s l e) (hs : Sound s) (hi : writesAt i e.held e.thread = true) :
    l = .work e.gor ∧ Begins s i e.gor := by
  cases h with
  | @closeFrame g j stop todo hheld hthread =>
    obtain rfl : j = i := of_decide_eq_true hi
    exact ⟨rfl, .closeFrame hheld⟩
  | @write j frame todo hheld hthread =>
    obtain rfl : j = i := of_decide_eq_true hi
    exact ⟨rfl, .write hheld hthread⟩
  | plain hsend _ _ _ hplaced _ =>
    rw [writesAt_of_not_send hsend hplaced] at hi
    cases hi
  | appendIgnored hheld hthread _ _ | closeIgnored hheld hthread _ | push hheld hthread _
  | shutStop hheld hthread | finish _ hheld hthread =>
    change writesAt i none _ = true at hi
    rw [HubState.goOn, writesAt_of_later (hs.placed_at hheld hthread).2] at hi
    cases hi
  | @wrote j frame todo ok hheld hthread =>
    change writesAt i none _ = true at hi
    rw [HubState.goOn, writesAt_wrote j frame ok (hs.placed_at hheld hthread).2] at hi
    cases hi
  | @take j v rest _ _ _ => cases v <;> cases hi
  | exit _ _ | closeEach _ _ | append _ _ _ _ | close _ _ _ | writing _ _ | shut _ _ | del _ _
  | remove _ _ | tick _ _ | drained _ _ _ => cases hi

/-- Only `sendLoop` and `Hub.Run` write, and `Hub.Run` only under the mutex. -/
theorem Sound.writer (hs : Sound s) {g : Gor ι} (h : s.inWrite g i = true) :
    g = .send i ∨ g = .run ∧ s.locks.held .run = some (i, .writing true) := by
  have hg := hs.placed g
  rcases writesAt_iff.mp h with ⟨stop, hheld⟩ | ⟨hheld, frame, todo, hthread⟩
  · rw [hheld] at hg
    have hof := hg.ofHeld
    cases stop with
    | true =>
      obtain rfl : g = .run := hof
      exact .inr ⟨rfl, hheld⟩
    | false => exact .inl hof
  · rw [hheld, hthread] at hg
    exact .inl hg.1

theorem Begins.alone {g g' : Gor ι} (hb : Begins s i g) (hs : Sound s)
    (hok : s.writesApart (.work g) = true) (hw : s.inWrite g' i = true) : g' = g := by
  have hwriter := hs.writer hw
  cases hb with
  | @closeFrame g stop hheld =>
    have hg := hs.placed g
    rw [hheld] at hg
    have hof := hg.ofHeld
    cases stop with
    | true =>
      obtain rfl : g = .run := hof
      simp only [HubState.writesApart, hheld, Bool.not_eq_true'] at hok
      rcases hwriter with rfl | ⟨rfl, -⟩
      · rw [hok] at hw
        cases hw
      · rfl
    | false =>
      obtain rfl : g = .send i := hof
      rcases hwriter with rfl | ⟨rfl, hrun⟩
      · rfl
      -- the close frames of `sendLoop` and of `HandlerStore.close` exclude each other by the mutex
      · exact s.locks.eq_of_held hrun hheld
  | write hheld hthread =>
    simp only [HubState.writesApart, hheld, hthread, Bool.not_eq_true'] at hok
    rcases hwriter with rfl | ⟨rfl, -⟩
    · rfl
    · rw [hok] at hw
      cases hw

theorem Applied.inWrite_self (ha : Applied s e s') :
    s'.inWrite e.gor i = writesAt i e.held e.thread := by
  rw [HubState.inWrite, ha.held_self, ha.thread_self]

theorem Applied.inWrite_of_ne (ha : Applied s e s') {g : Gor ι} (hg : g ≠ e.gor)
    (h : s'.inWrite g i = true) : s.inWrite g i = true := by
  unfold HubState.inWrite at h ⊢
  rw [ha.held_of_ne hg, writesAt_iff] at h
  rw [writesAt_iff]
  rcases ha.thread_of_ne hg with ht | ⟨-, ht⟩
  · rwa [ht] at h
  · rw [ht] at h
    refine .inl (h.resolve_right ?_)
    rintro ⟨-, frame, todo, he⟩
    cases he

theorem Applied.inWrite_keep (ha : Applied s e s') (hstart : e.start = none) {g : Gor ι} (hg : g ≠ e.gor)
    (h : s.inWrite g i = true) : s'.inWrite g i = true := by
  unfold HubState.inWrite at h ⊢
  rw [ha.held_of_ne hg, (ha.thread_of_ne hg).resolve_right fun hr => hr.1 hstart]
  exact h

theorem oneWriter_of_writesApart (hs : Sound s) (hp : s.OneWriter) (h : Steps s l e)
    (ha : Applied s e s') (hok : s.writesApart l = true) : s'.OneWriter := by
  -- a new writer is the goroutine that took the step
  have hnew : ∀ i g, s'.inWrite e.gor i = true → s'.inWrite g i = true → g = e.gor := by
    intro i g hself hg
    by_contra hne
    rw [ha.inWrite_self] at hself
    obtain ⟨rfl, hbegins⟩ := h.begins hs hself
    exact hne (hbegins.alone hs hok (ha.inWrite_of_ne hne hg))
  intro i g g' hg hg'
  by_cases he : g = e.gor
  · subst he
    exact (hnew i g' hg hg').symm
  · by_cases he' : g' = e.gor
    · subst he'
      exact hnew i g hg' hg
    · exact hp i g g' (ha.inWrite_of_ne he hg) (ha.inWrite_of_ne he' hg')

theorem not_oneWriter_of_not_writesApart (hs : Sound s) (h : Steps s l e) (ha : Applied s e s')
    (hok : s.writesApart l = false) : ¬ s'.OneWriter := by
  intro hone
  -- the step puts its goroutine beside another writer
  have hclash : ∀ {g i}, g ≠ e.gor → e.start = none → s.inWrite g i = true →
      writesAt i e.held e.thread = true → False := by
    intro g i hne hstart hg hself
    rw [← ha.inWrite_self] at hself
    exact hne (hone i g e.gor (ha.inWrite_keep hstart hne hg) hself)
  cases h with
  | @closeFrame g i stop todo hheld hthread =>
    have hof : (HeldStmt.closeFrame stop).OfGor g i := (hs.placed_at hheld hthread).1
    cases stop with
    | false => simp [HubState.writesApart, hheld] at hok
    | true =>
      obtain rfl : g = .run := hof
      simp only [HubState.writesApart, hheld, Bool.not_eq_false'] at hok
      exact hclash (by simp [HubState.hold]) rfl hok (decide_eq_true rfl)
  | @write i frame todo hheld hthread =>
    simp only [HubState.writesApart, hheld, hthread, Bool.not_eq_false'] at hok
    exact hclash (by simp [HubState.goOn]) rfl hok (decide_eq_true rfl)
  | @plain l g t start stored store _ hheld hl _ _ _ =>
    cases l with
    | work g' =>
      obtain ⟨rfl, stmt, todo, hthread, hplain⟩ := hl g' rfl
      cases stmt with
      | write j frame => exact hplain.elim
      | _ => simp [HubState.writesApart, hheld, hthread] at hok
    | _ => cases hok
  | exit hheld hthread | closeEach hheld hthread | appendIgnored hheld hthread _ _
  | append hheld hthread _ _ | closeIgnored hheld hthread _ | close hheld hthread _
  | push hheld hthread _ | writing hheld hthread | shutStop hheld hthread | shut hheld hthread
  | del hheld hthread | remove hheld hthread =>
    simp [HubState.writesApart, hheld, hthread] at hok
  | finish hop hheld hthread =>
    rcases hop with rfl | rfl <;> simp [HubState.writesApart, hheld] at hok
  | wrote _ _ _ | take _ _ _ | tick _ _ | drained _ _ _ => cases hok

end Step

/-- In every run in which `HandlerStore.close` and `sendLoop` begin their writes apart, no connection has two
writers, and any other begin of a write makes a second one. -/
theorem one_writer_exactly_while_apart (uid : ι → ℤ) (enableClientMsg : Bool) (s : HubState ι)
    (h : (lockSystem uid enableClientMsg).ReachableVia (fun s l => s.writesApart l = true) s) :
    s.OneWriter ∧ ∀ l s', (lockSystem uid enableClientMsg).step s l = some s' →
      (s'.OneWriter ↔ s.writesApart l = true) := by
  refine exactly_of_steps ?_ (fun _ _ _ _ => oneWriter_of_writesApart)
    (fun _ _ _ _ => not_oneWriter_of_not_writesApart) h
  intro i g g' hg
  cases g <;> cases hg

/-- A session is opened, and `sendLoop` begins a ping. -/
def pingRun : List (Label Unit) :=
  [.serve (), .work (.serve ()), .work (.serve ()), .work (.serve ()), .tick (), .work (.send ())]

/-- `HandlerStore.close` comes to the close frame of the session. -/
def stopRun : List (Label Unit) :=
  [.stop, .closeAll [()], .work .run, .work .run]

/-- The ping ends before the context does. -/
theorem one_writer_orderlyRun :
    ∃ s : HubState Unit, (lockSystem (fun _ => 7) true).ReachableVia
      (fun s l => s.writesApart l = true) s ∧ s.inWrite .run () = true ∧ s.OneWriter := by
  have hrun : ((lockSystem (fun _ => 7) true).runVia HubState.writesApart .start
      (pingRun ++ [.wrote () true] ++ stopRun ++ [.work .run])).map (fun s => s.inWrite .run ()) =
      some true := by
    decide +kernel
  obtain ⟨s, hs, hview⟩ := Option.map_eq_some_iff.mp hrun
  have hreach := System.ReachableVia.runVia (fun _ _ h => h) (.init rfl) _ hs
  exact ⟨s, hreach, hview, (one_writer_exactly_while_apart _ _ s hreach).1⟩

/-- The context ends while `sendLoop` writes a ping: the close frame is written beside it. -/
theorem two_writers_at_stop :
    ∃ s : HubState Unit, (lockSystem (fun _ => 7) true).Reachable s ∧
      s.inWrite (.send ()) () = true ∧ s.inWrite .run () = true ∧ ¬ s.OneWriter := by
  have hrun : ((lockSystem (fun _ => 7) true).run .start (pingRun ++ stopRun ++ [.work .run])).map
      (fun s => (s.inWrite (.send ()) (), s.inWrite .run ())) = some (true, true) := by
    decide +kernel
  obtain ⟨s, hs, hview⟩ := Option.map_eq_some_iff.mp hrun
  obtain ⟨hsend, hrun⟩ := Prod.mk.inj hview
  refine ⟨s, System.Reachable.run (.init rfl) _ hs, hsend, hrun, fun hone => ?_⟩
  cases hone () (.send ()) .run hsend hrun

end MiniPush.Ws.HubLocks
