import MiniPush.Ws.HubLocks

/-! What each goroutine of a hub may be doing, and what a step can do, as a relation. -/
namespace MiniPush.Ws.HubLocks
open Foundation

variable {ι : Type}

def HeldStmt.isPush : HeldStmt → Bool
  | .push _ => true
  | _ => false

/-- The goroutines that come to a statement under the mutex of `i`. -/
def HeldStmt.OfGor (g : Gor ι) (i : ι) : HeldStmt → Prop
  | .push _ => ∀ j, g = .send j → j = i
  | .closeFrame stop | .writing stop | .shut stop => g = if stop then .run else .send i
  | .del | .remove | .offline => g = .send i

namespace Stmt

def OfGor (g : Gor ι) : Stmt ι → Prop
  | .append i _ => ∀ j, g = .send j → j = i
  | .close i stop => g = if stop then .run else .send i
  | .write i _ | .written i _ => g = .send i
  | .closeEach _ => g = .run
  | .exit => True
  | _ => ∀ j, g ≠ .send j

/-- Statements that a goroutine may have left after another one: `sendLoop` only its return. -/
def Later (g : Gor ι) : Stmt ι → Prop
  | .exit => True
  | .close _ _ | .write _ _ | .written _ _ => False
  | .closeEach _ => g = .run
  | _ => ∀ j, g ≠ .send j

/-- Statements with no part in the properties of the locks. -/
def Plain : Stmt ι → Prop
  | .append _ _ | .close _ _ | .write _ _ | .written _ _ | .closeEach (_ :: _) | .exit => False
  | _ => True

theorem Later.ofGor {g : Gor ι} {stmt : Stmt ι} (h : stmt.Later g) : stmt.OfGor g := by
  cases stmt with
  | append i v => exact fun j hj => absurd hj (h j)
  | close _ _ | write _ _ | written _ _ => exact h.elim
  | _ => exact h

end Stmt

/-- Where a goroutine may be: the mutex it holds and what it has left. -/
def WellPlaced (g : Gor ι) : Option (ι × HeldStmt) → Thread ι → Prop
  | some (i, op), .running todo => op.OfGor g i ∧ ∀ x ∈ todo, x.Later g
  | none, .running (stmt :: todo) => stmt.OfGor g ∧ ∀ x ∈ todo, x.Later g
  | none, _ => True
  | some _, _ => False

theorem wellPlaced_of_later {g : Gor ι} {todo : List (Stmt ι)} (h : ∀ x ∈ todo, x.Later g) :
    WellPlaced g none (.running todo) := by
  cases todo with
  | nil => trivial
  | cons stmt todo =>
    exact ⟨(h stmt List.mem_cons_self).ofGor, fun x hx => h x (List.mem_cons_of_mem _ hx)⟩

theorem WellPlaced.restart {g : Gor ι} {held : Option (ι × HeldStmt)} {t : Thread ι}
    (h : WellPlaced g held t) : WellPlaced g held (.running []) := by
  cases held with
  | none => trivial
  | some p =>
    cases t with
    | running todo => exact ⟨h.1, by simp⟩
    | absent | finished => exact h.elim

theorem WellPlaced.ofHeld {g : Gor ι} {i : ι} {op : HeldStmt} {t : Thread ι}
    (h : WellPlaced g (some (i, op)) t) : op.OfGor g i := by
  cases t with
  | running todo => exact h.1
  | absent | finished => exact h.elim

/-- The head of `todo` is no `close`, if everything in it may come later. -/
theorem not_close_of_later {g : Gor ι} {todo : List (Stmt ι)} (h : ∀ x ∈ todo, x.Later g)
    (i : ι) (stop : Bool) (rest : List (Stmt ι)) :
    Thread.running todo ≠ .running (.close i stop :: rest) := by
  intro he
  obtain rfl := Thread.running.inj he
  exact h _ List.mem_cons_self

/-- A goroutine at a write has nothing else left. -/
def WritesLast : Thread ι → Prop
  | .running (.write _ _ :: todo) | .running (.written _ _ :: todo) => todo = []
  | _ => True

theorem writesLast_of_later {g : Gor ι} {todo : List (Stmt ι)} (h : ∀ x ∈ todo, x.Later g) :
    WritesLast (.running todo) := by
  cases todo with
  | nil => trivial
  | cons stmt todo =>
    have hstmt := h stmt List.mem_cons_self
    cases stmt with
    | write _ _ | written _ _ => exact hstmt.elim
    | _ => trivial

/-- What holds of a hub between any two steps. -/
structure Sound (s : HubState ι) : Prop where
  placed : ∀ g, WellPlaced g (s.locks.held g) (s.thread g)
  writesLast : ∀ g, WritesLast (s.thread g)
  short : ∀ i, (s.handler i).dataChan.length ≤ HandlerRun.dataChanCap
  entered : ∀ g i op, s.locks.held g = some (i, op) → (s.handler i).closing = !op.isPush
  closed : ∀ i, (s.handler i).chanClosed = true → (s.handler i).closing = true

theorem Sound.placed_at {s : HubState ι} (hs : Sound s) {g : Gor ι} {held : Option (ι × HeldStmt)}
    {t : Thread ι} (hheld : s.locks.held g = held) (hthread : s.thread g = t) : WellPlaced g held t := by
  have hg := hs.placed g
  rwa [hheld, hthread] at hg

theorem sound_start : Sound (HubState.start : HubState ι) where
  placed g := by cases g <;> trivial
  writesLast g := by cases g <;> trivial
  short _ := Nat.zero_le _
  entered _ _ _ h := by cases h
  closed _ h := by cases h

variable [DecidableEq ι]

/-- What an event can do in a sound state. The first constructor stands for all steps that are not taken by
`sendLoop` and touch no handler. -/
inductive Steps (s : HubState ι) : Label ι → Effect ι → Prop
  | plain {l : Label ι} {g : Gor ι} {t : Thread ι} {start : Option ι} {stored : Finset ι}
      {store : RWMutex (Gor ι)} (hsend : ∀ i, g ≠ .send i) (hheld : s.locks.held g = none)
      (hl : ∀ g', l = .work g' → g' = g ∧ ∃ stmt todo, s.thread g = .running (stmt :: todo) ∧ stmt.Plain)
      (hwrote : ∀ i ok, l ≠ .wrote i ok) (hplaced : WellPlaced g none t)
      (hclose : ∀ i stop todo, t ≠ .running (.close i stop :: todo)) :
      Steps s l ⟨g, none, t, start, ⟨s.handler, stored, store⟩⟩
  | exit {g : Gor ι} {todo : List (Stmt ι)} (hheld : s.locks.held g = none)
      (hthread : s.thread g = .running (.exit :: todo)) :
      Steps s (.work g) ⟨g, none, .finished, none, s.toData⟩
  | closeEach {i : ι} {rest : List ι} {todo : List (Stmt ι)} (hheld : s.locks.held .run = none)
      (hthread : s.thread .run = .running (.closeEach (i :: rest) :: todo)) :
      Steps s (.work .run) (s.goOn .run (.close i true :: .closeEach rest :: todo))
  | appendIgnored {g : Gor ι} {i : ι} {v : SessionData} {todo : List (Stmt ι)}
      (hheld : s.locks.held g = none) (hthread : s.thread g = .running (.append i v :: todo))
      (hfree : s.locks.owner i = none) (hclosing : (s.handler i).closing = true) :
      Steps s (.work g) (s.goOn g todo)
  | append {g : Gor ι} {i : ι} {v : SessionData} {todo : List (Stmt ι)}
      (hheld : s.locks.held g = none) (hthread : s.thread g = .running (.append i v :: todo))
      (hfree : s.locks.owner i = none) (hopen : (s.handler i).closing = false) :
      Steps s (.work g) (s.hold g i (.push v) todo)
  | closeIgnored {g : Gor ι} {i : ι} {stop : Bool} {todo : List (Stmt ι)}
      (hheld : s.locks.held g = none) (hthread : s.thread g = .running (.close i stop :: todo))
      (hfree : s.locks.owner i = none) : Steps s (.work g) (s.goOn g todo)
  | close {g : Gor ι} {i : ι} {stop : Bool} {todo : List (Stmt ι)}
      (hheld : s.locks.held g = none) (hthread : s.thread g = .running (.close i stop :: todo))
      (hfree : s.locks.owner i = none) :
      Steps s (.work g) { s.hold g i (.closeFrame stop) todo with
        data := s.setHandler i { s.handler i with closing := true } }
  | push {g : Gor ι} {i : ι} {v : SessionData} {todo : List (Stmt ι)}
      (hheld : s.locks.held g = some (i, .push v)) (hthread : s.thread g = .running todo)
      (hroom : s.full i = false) :
      Steps s (.work g) { s.goOn g todo with
        data := s.setHandler i { s.handler i with dataChan := (s.handler i).dataChan ++ [v] } }
  | closeFrame {g : Gor ι} {i : ι} {stop : Bool} {todo : List (Stmt ι)}
      (hheld : s.locks.held g = some (i, .closeFrame stop)) (hthread : s.thread g = .running todo) :
      Steps s (.work g) (s.hold g i (.writing stop) todo)
  | writing {g : Gor ι} {i : ι} {stop : Bool} {todo : List (Stmt ι)}
      (hheld : s.locks.held g = some (i, .writing stop)) (hthread : s.thread g = .running todo) :
      Steps s (.work g) (s.hold g i (.shut stop) todo)
  | shutStop {g : Gor ι} {i : ι} {todo : List (Stmt ι)}
      (hheld : s.locks.held g = some (i, .shut true)) (hthread : s.thread g = .running todo) :
      Steps s (.work g) { s.goOn g todo with
        data := s.setHandler i { s.handler i with chanClosed := true } }
  | shut {g : Gor ι} {i : ι} {todo : List (Stmt ι)}
      (hheld : s.locks.held g = some (i, .shut false)) (hthread : s.thread g = .running todo) :
      Steps s (.work g) { s.hold g i .del todo with
        data := s.setHandler i { s.handler i with chanClosed := true } }
  | del {g : Gor ι} {i : ι} {todo : List (Stmt ι)} {store : RWMutex (Gor ι)}
      (hheld : s.locks.held g = some (i, .del)) (hthread : s.thread g = .running todo) :
      Steps s (.work g) { s.hold g i .remove todo with data := { s.toData with store } }
  | remove {g : Gor ι} {i : ι} {todo : List (Stmt ι)} {stored : Finset ι} {store : RWMutex (Gor ι)}
      (hheld : s.locks.held g = some (i, .remove)) (hthread : s.thread g = .running todo) :
      Steps s (.work g) { s.hold g i .offline todo with data := { s.toData with stored, store } }
  | finish {g : Gor ι} {i : ι} {op : HeldStmt} {todo : List (Stmt ι)} {stored : Finset ι}
      {store : RWMutex (Gor ι)} (hop : op = .remove ∨ op = .offline)
      (hheld : s.locks.held g = some (i, op)) (hthread : s.thread g = .running todo) :
      Steps s (.work g) { s.goOn g todo with data := { s.toData with stored, store } }
  | write {i : ι} {frame : Frame} {todo : List (Stmt ι)} (hheld : s.locks.held (.send i) = none)
      (hthread : s.thread (.send i) = .running (.write i frame :: todo)) :
      Steps s (.work (.send i)) (s.goOn (.send i) (.written i frame :: todo))
  | wrote {i : ι} {frame : Frame} {todo : List (Stmt ι)} (ok : Bool)
      (hheld : s.locks.held (.send i) = none)
      (hthread : s.thread (.send i) = .running (.written i frame :: todo)) :
      Steps s (.wrote i ok) (s.goOn (.send i) ((frame.ops ok).map (.ofOp i) ++ todo))
  | take {i : ι} {v : SessionData} {rest : List SessionData} (hheld : s.locks.held (.send i) = none)
      (hthread : s.thread (.send i) = .running []) (hchan : (s.handler i).dataChan = v :: rest) :
      Steps s (.take i) { s.goOn (.send i) (sendOps i v) with
        data := s.setHandler i { s.handler i with dataChan := rest } }
  | tick {i : ι} (hheld : s.locks.held (.send i) = none)
      (hthread : s.thread (.send i) = .running []) :
      Steps s (.tick i) (s.goOn (.send i) [.write i .ping])
  | drained {i : ι} (hheld : s.locks.held (.send i) = none)
      (hthread : s.thread (.send i) = .running []) (hclosed : (s.handler i).chanClosed = true) :
      Steps s (.drained i) ⟨.send i, none, .finished, none, s.toData⟩

namespace HubState

theorem setHandler_self (s : HubState ι) (i : ι) (h : Handler) : (s.setHandler i h).handler i = h := by
  unfold setHandler
  exact Function.update_self ..

theorem setHandler_of_ne (s : HubState ι) {i j : ι} (hj : j ≠ i) (h : Handler) :
    (s.setHandler i h).handler j = s.handler j := by
  unfold setHandler
  exact Function.update_of_ne hj ..

end HubState

section Inversion
variable {s : HubState ι} {l : Label ι} {e : Effect ι} {g : Gor ι} {i : ι} {todo : List (Stmt ι)}

theorem idle_iff : s.idle g = true ↔ s.locks.held g = none ∧ s.thread g = .running [] := by
  simp [HubState.idle]

/-- A plain step into a list of statements that may all come later. -/
theorem Steps.of_later {stored : Finset ι} {store : RWMutex (Gor ι)} {start : Option ι}
    (hsend : ∀ i, g ≠ .send i) (hheld : s.locks.held g = none)
    (hl : ∀ g', l = .work g' → g' = g ∧ ∃ stmt todo, s.thread g = .running (stmt :: todo) ∧ stmt.Plain)
    (hwrote : ∀ i ok, l ≠ .wrote i ok) (htodo : ∀ x ∈ todo, x.Later g) :
    Steps s l ⟨g, none, .running todo, start, ⟨s.handler, stored, store⟩⟩ :=
  .plain hsend hheld hl hwrote (wellPlaced_of_later htodo) (not_close_of_later htodo)

theorem Steps.of_turn (h : s.turn g todo = some e) (hsend : ∀ i, g ≠ .send i)
    (hl : ∀ g', l ≠ .work g') (hwrote : ∀ i ok, l ≠ .wrote i ok) (htodo : ∀ x ∈ todo, x.Later g) :
    Steps s l e := by
  unfold HubState.turn at h
  split_ifs at h with hidle
  obtain rfl := Option.some.inj h
  exact .of_later hsend (idle_iff.mp hidle).1 (fun g' hg' => absurd hg' (hl g')) hwrote htodo

theorem Steps.of_leave (h : s.leave g = some e) (hsend : ∀ i, g ≠ .send i)
    (hl : ∀ g', l ≠ .work g') (hwrote : ∀ i ok, l ≠ .wrote i ok) : Steps s l e := by
  unfold HubState.leave at h
  split_ifs at h with hidle
  obtain rfl := Option.some.inj h
  exact .plain hsend (idle_iff.mp hidle).1 (fun g' hg' => absurd hg' (hl g')) hwrote trivial
    fun _ _ _ => by simp

omit [DecidableEq ι] in
theorem Sound.held_of_absent (hs : Sound s) (h : s.thread g = .absent) : s.locks.held g = none := by
  have hg := hs.placed g
  rw [h] at hg
  cases hheld : s.locks.held g with
  | none => rfl
  | some p =>
    rw [hheld] at hg
    exact hg.elim

theorem Steps.of_call (hs : Sound s) (h : s.call g todo = some e) (hsend : ∀ i, g ≠ .send i)
    (hl : ∀ g', l ≠ .work g') (hwrote : ∀ i ok, l ≠ .wrote i ok) (htodo : ∀ x ∈ todo, x.Later g) :
    Steps s l e := by
  unfold HubState.call at h
  split_ifs at h with habsent
  obtain rfl := Option.some.inj h
  exact .of_later hsend (hs.held_of_absent habsent) (fun g' hg' => absurd hg' (hl g')) hwrote htodo

theorem Steps.of_execHeld {op : HeldStmt} (hheld : s.locks.held g = some (i, op))
    (hthread : s.thread g = .running todo) (h : s.execHeld g i todo op = some e) :
    Steps s (.work g) e := by
  cases op with
  | push v =>
    simp only [HubState.execHeld] at h
    split_ifs at h with hfull
    obtain rfl := Option.some.inj h
    exact .push hheld hthread (Bool.eq_false_iff.mpr hfull)
  | closeFrame stop =>
    obtain rfl := Option.some.inj h
    exact .closeFrame hheld hthread
  | writing stop =>
    obtain rfl := Option.some.inj h
    exact .writing hheld hthread
  | shut stop =>
    cases stop with
    | true =>
      obtain rfl := Option.some.inj h
      exact .shutStop hheld hthread
    | false =>
      obtain rfl := Option.some.inj h
      exact .shut hheld hthread
  | del =>
    obtain ⟨store, -, rfl⟩ := Option.map_eq_some_iff.mp h
    exact .del hheld hthread
  | remove =>
    simp only [HubState.execHeld] at h
    split_ifs at h
    · obtain rfl := Option.some.inj h
      exact .remove hheld hthread
    · obtain rfl := Option.some.inj h
      exact .finish (.inl rfl) hheld hthread
  | offline =>
    obtain rfl := Option.some.inj h
    exact .finish (.inr rfl) hheld hthread

/-- A plain statement touches no handler, and what it leaves may all come later. -/
theorem Steps.of_exec_plain {stmt : Stmt ι} (hheld : s.locks.held g = none)
    (hthread : s.thread g = .running (stmt :: todo)) (hplaced : WellPlaced g none (.running (stmt :: todo)))
    (h : s.exec g todo stmt = some e) (hp : stmt.Plain) : Steps s (.work g) e := by
  obtain ⟨hstmt, htodo⟩ := hplaced
  have hplain : ∀ {todo' start stored store}, (∀ j, g ≠ .send j) → (∀ x ∈ todo', x.Later g) →
      Steps s (.work g) ⟨g, none, .running todo', start, ⟨s.handler, stored, store⟩⟩ := by
    intro todo' start stored store hsend htodo'
    refine .of_later hsend hheld ?_ (by simp) htodo'
    intro g' hg'
    exact ⟨(Label.work.inj hg').symm, stmt, todo, hthread, hp⟩
  have hcons : ∀ {x : Stmt ι}, x.Later g → ∀ y ∈ x :: todo, y.Later g := by
    intro x hx
    exact List.forall_mem_cons.mpr ⟨hx, htodo⟩
  cases stmt with
  | del i tell =>
    obtain ⟨store, -, rfl⟩ := Option.map_eq_some_iff.mp h
    exact hplain hstmt (hcons hstmt)
  | add i =>
    obtain ⟨store, -, rfl⟩ := Option.map_eq_some_iff.mp h
    exact hplain hstmt (hcons hstmt)
  | remove i tell =>
    simp only [HubState.exec] at h
    split at h
    · obtain rfl := Option.some.inj h
      refine hplain hstmt ?_
      split_ifs
      · exact hcons hstmt
      · exact htodo
    · cases h
  | insert i =>
    simp only [HubState.exec] at h
    split_ifs at h
    obtain rfl := Option.some.inj h
    exact hplain hstmt htodo
  | get i =>
    simp only [HubState.exec] at h
    split at h
    · obtain rfl := Option.some.inj h
      have hdel : ∀ y ∈ Stmt.del i false :: todo, y.Later g := hcons hstmt
      refine hplain hstmt ?_
      split_ifs
      · exact List.forall_mem_cons.mpr ⟨hstmt, hdel⟩
      · exact htodo
    · cases h
  | closeEach rest =>
    obtain rfl : g = .run := hstmt
    cases rest with
    | nil =>
      obtain rfl := Option.some.inj h
      exact hplain (by simp) htodo
    | cons i rest => exact hp.elim
  | online i | offline | e2e | notify =>
    obtain rfl := Option.some.inj h
    exact hplain hstmt htodo
  | getByUid _ | closeAll => cases h
  | append _ _ | close _ _ | write _ _ | written _ _ | exit => exact hp.elim

theorem Steps.of_exec {stmt : Stmt ι} (hheld : s.locks.held g = none)
    (hthread : s.thread g = .running (stmt :: todo)) (hplaced : WellPlaced g none (.running (stmt :: todo)))
    (h : s.exec g todo stmt = some e) : Steps s (.work g) e := by
  cases stmt with
  | append i v =>
    simp only [HubState.exec] at h
    split_ifs at h with ho hc
    · obtain rfl := Option.some.inj h
      exact .appendIgnored hheld hthread (by simpa using ho) hc
    · obtain rfl := Option.some.inj h
      exact .append hheld hthread (by simpa using ho) (Bool.eq_false_iff.mpr hc)
  | close i stop =>
    simp only [HubState.exec] at h
    split_ifs at h with ho hc
    · obtain rfl := Option.some.inj h
      exact .closeIgnored hheld hthread (by simpa using ho)
    · obtain rfl := Option.some.inj h
      exact .close hheld hthread (by simpa using ho)
  | write i frame =>
    obtain rfl : g = .send i := hplaced.1
    obtain rfl := Option.some.inj h
    exact .write hheld hthread
  | closeEach rest =>
    cases rest with
    | nil => exact .of_exec_plain hheld hthread hplaced h trivial
    | cons i rest =>
      obtain rfl : g = .run := hplaced.1
      obtain rfl := Option.some.inj h
      exact .closeEach hheld hthread
  | exit =>
    obtain rfl := Option.some.inj h
    exact .exit hheld hthread
  | written _ _ => cases h
  | _ => exact .of_exec_plain hheld hthread hplaced h trivial

omit [DecidableEq ι] in
theorem later_recv (i : ι) (enableClientMsg : Bool) (result : ReadResult) :
    ∀ x ∈ (result.ops enableClientMsg).map (Stmt.ofOp i), x.Later (.recv i) := by
  cases result <;> cases enableClientMsg <;> simp [ReadResult.ops, Stmt.ofOp, Stmt.Later]

theorem Sound.steps (hs : Sound s) {uid : ι → ℤ} {enableClientMsg : Bool}
    (h : s.effect uid enableClientMsg l = some e) : Steps s l e := by
  cases l with
  | serve i => exact .of_call hs h (by simp) (by simp) (by simp) (by simp [Stmt.Later])
  | read i result =>
    exact .of_turn h (by simp) (by simp) (by simp) (later_recv i enableClientMsg result)
  | recvReturn i =>
    simp only [HubState.effect] at h
    split_ifs at h
    exact .of_leave h (by simp) (by simp) (by simp)
  | take i =>
    simp only [HubState.effect] at h
    split at h
    · cases h
    · next v rest hchan =>
      unfold HubState.turn at h
      split_ifs at h with hidle
      · obtain rfl := Option.some.inj h
        exact .take (idle_iff.mp hidle).1 (idle_iff.mp hidle).2 hchan
      · cases h
  | drained i =>
    simp only [HubState.effect, HubState.leave] at h
    split_ifs at h with hclosed hidle
    obtain rfl := Option.some.inj h
    exact .drained (idle_iff.mp hidle).1 (idle_iff.mp hidle).2 hclosed.1
  | tick i =>
    simp only [HubState.effect, HubState.turn] at h
    split_ifs at h with hidle
    obtain rfl := Option.some.inj h
    exact .tick (idle_iff.mp hidle).1 (idle_iff.mp hidle).2
  | wrote i ok =>
    simp only [HubState.effect] at h
    split at h
    · next hheld hthread =>
      rename_i j frame todo
      -- `sendLoop` writes on its own connection only
      obtain rfl : i = j := Gor.send.inj (hs.placed_at hheld hthread).1
      obtain rfl := Option.some.inj h
      exact .wrote ok hheld hthread
    · cases h
  | kickoff k i => exact .of_call hs h (by simp) (by simp) (by simp) (by simp [Stmt.Later])
  | leaderKickoff sids =>
    exact .of_turn h (by simp) (by simp) (by simp) (by simp [Stmt.Later])
  | leaderHeadSeq uids =>
    exact .of_turn h (by simp) (by simp) (by simp) (by simp [Stmt.Later])
  | leaderClosed => exact .of_leave h (by simp) (by simp) (by simp)
  | stop => exact .of_turn h (by simp) (by simp) (by simp) (by simp [Stmt.Later])
  | getByUid slice =>
    simp only [HubState.effect] at h
    split at h
    · next hheld hthread =>
      split_ifs at h
      obtain rfl := Option.some.inj h
      have hplaced := hs.placed_at hheld hthread
      refine .of_later (by simp) hheld (by simp) (by simp) fun x hx => ?_
      rcases List.mem_append.mp hx with hx | hx
      · obtain ⟨i, -, rfl⟩ := List.mem_map.mp hx
        simp [Stmt.Later]
      · exact hplaced.2 x hx
    · cases h
  | closeAll order =>
    simp only [HubState.effect] at h
    split at h
    · next hheld hthread =>
      split_ifs at h
      obtain ⟨store, -, rfl⟩ := Option.map_eq_some_iff.mp h
      have hplaced := hs.placed_at hheld hthread
      refine .of_later (g := .run) (by simp) hheld (by simp) (by simp) fun x hx => ?_
      rcases List.mem_cons.mp hx with rfl | hx
      · rfl
      · exact hplaced.2 x hx
    · cases h
  | work g =>
    simp only [HubState.effect] at h
    split at h
    · next hheld hthread => exact .of_execHeld hheld hthread h
    · next hheld hthread => exact .of_exec hheld hthread (hs.placed_at hheld hthread) h
    · cases h

end Inversion

structure Applied (s : HubState ι) (e : Effect ι) (s' : HubState ι) : Prop where
  held : s'.locks.held = Function.update s.locks.held e.gor e.held
  thread : s'.thread = Function.update (e.start.elim s.thread s.startLoops) e.gor e.thread
  data : s'.toData = e.data

theorem applied_of_apply {s s' : HubState ι} {e : Effect ι} (h : s.apply e = some s') : Applied s e s' := by
  obtain ⟨locks, hlocks, rfl⟩ := Option.map_eq_some_iff.mp h
  exact ⟨Locks.held_of_move? hlocks, rfl, rfl⟩

namespace Applied
variable {s s' : HubState ι} {e : Effect ι} {g : Gor ι}

theorem held_self (ha : Applied s e s') : s'.locks.held e.gor = e.held := by
  rw [ha.held, Function.update_self]

theorem held_of_ne (ha : Applied s e s') (hg : g ≠ e.gor) : s'.locks.held g = s.locks.held g := by
  rw [ha.held, Function.update_of_ne hg]

theorem thread_self (ha : Applied s e s') : s'.thread e.gor = e.thread := by
  rw [ha.thread, Function.update_self]

theorem thread_of_ne (ha : Applied s e s') (hg : g ≠ e.gor) :
    s'.thread g = s.thread g ∨ e.start ≠ none ∧ s'.thread g = .running [] := by
  rw [ha.thread, Function.update_of_ne hg]
  cases hstart : e.start with
  | none => exact .inl rfl
  | some i =>
    change s.startLoops i g = s.thread g ∨ _ ∧ s.startLoops i g = .running []
    unfold HubState.startLoops
    by_cases hsend : g = .send i
    · rw [hsend, Function.update_self]
      exact .inr ⟨by simp, rfl⟩
    · rw [Function.update_of_ne hsend]
      by_cases hrecv : g = .recv i
      · rw [hrecv, Function.update_self]
        exact .inr ⟨by simp, rfl⟩
      · rw [Function.update_of_ne hrecv]
        exact .inl rfl

end Applied

section Step
variable {s s' : HubState ι} {l : Label ι} {e : Effect ι}

/-- The locks refuse no effect: a goroutine takes a mutex only when it is free. -/
theorem Steps.exists_apply (h : Steps s l e) : ∃ s', s.apply e = some s' := by
  have hmove : ∀ {g : Gor ι} {next : Option (ι × HeldStmt)},
      (∀ i op, next = some (i, op) → s.locks.owner i = none ∨ s.locks.owner i = some g) →
      ∃ locks, s.locks.move? g next = some locks := Locks.exists_move?
  have hgoal : ∃ locks, s.locks.move? e.gor e.held = some locks := by
    cases h with
    | append hheld hthread hfree hopen =>
      refine hmove fun j op hj => .inl ?_
      obtain ⟨rfl, -⟩ := Prod.mk.inj (Option.some.inj hj)
      exact hfree
    | close hheld hthread hfree =>
      refine hmove fun j op hj => .inl ?_
      obtain ⟨rfl, -⟩ := Prod.mk.inj (Option.some.inj hj)
      exact hfree
    | closeFrame hheld _ | writing hheld _ | shut hheld _ | del hheld _ | remove hheld _ =>
      refine hmove fun j op hj => .inr ?_
      obtain ⟨rfl, -⟩ := Prod.mk.inj (Option.some.inj hj)
      exact s.locks.owner_of_held hheld
    | plain _ _ _ _ _ _ | exit _ _ | closeEach _ _ | appendIgnored _ _ _ _ | closeIgnored _ _ _ | push _ _ _
    | shutStop _ _ | finish _ _ _ | write _ _ | wrote _ _ _ | take _ _ _ | tick _ _ | drained _ _ _ =>
      exact hmove fun j op hj => by cases hj
  obtain ⟨locks, hlocks⟩ := hgoal
  exact ⟨_, by rw [HubState.apply, hlocks]; rfl⟩

omit [DecidableEq ι] in
theorem placed_wrote (i : ι) (frame : Frame) (ok : Bool) {todo : List (Stmt ι)}
    (htodo : ∀ x ∈ todo, x.Later (.send i)) :
    WellPlaced (.send i) none (.running ((frame.ops ok).map (.ofOp i) ++ todo)) := by
  have hdone : WellPlaced (.send i) none (.running todo) := wellPlaced_of_later htodo
  have hclose : WellPlaced (.send i) none (.running (.close i false :: todo)) := ⟨rfl, htodo⟩
  have hexit : ∀ x ∈ Stmt.exit :: todo, x.Later (.send i) := by
    simpa [Stmt.Later] using htodo
  have hfailed : WellPlaced (.send i) none (.running (.append i .error :: .exit :: todo)) :=
    ⟨fun j hj => (Gor.send.inj hj).symm, hexit⟩
  cases frame with
  | ping =>
    cases ok with
    | true => exact hdone
    | false => exact hfailed
  | data v =>
    cases v with
    | error => exact ⟨rfl, hexit⟩
    | msg =>
      cases ok with
      | true => exact hdone
      | false => exact hfailed
    | kickoff =>
      cases ok with
      | true => exact hclose
      | false => exact hfailed

theorem Steps.placed (h : Steps s l e) (hs : Sound s) : WellPlaced e.gor e.held e.thread := by
  cases h with
  | plain _ _ _ _ hplaced _ => exact hplaced
  | exit _ _ => trivial
  | closeEach hheld hthread =>
    have hg := hs.placed_at hheld hthread
    refine ⟨rfl, fun x hx => ?_⟩
    rcases List.mem_cons.mp hx with rfl | hx
    · rfl
    · exact hg.2 x hx
  | appendIgnored hheld hthread _ _ => exact wellPlaced_of_later (hs.placed_at hheld hthread).2
  | append hheld hthread _ _ | close hheld hthread _ | closeFrame hheld hthread | writing hheld hthread
  | shut hheld hthread | del hheld hthread | remove hheld hthread | write hheld hthread =>
    have hg := hs.placed_at hheld hthread
    exact ⟨hg.1, hg.2⟩
  | closeIgnored hheld hthread _ => exact wellPlaced_of_later (hs.placed_at hheld hthread).2
  | push hheld hthread _ => exact wellPlaced_of_later (hs.placed_at hheld hthread).2
  | shutStop hheld hthread => exact wellPlaced_of_later (hs.placed_at hheld hthread).2
  | finish _ hheld hthread => exact wellPlaced_of_later (hs.placed_at hheld hthread).2
  | @wrote i frame todo ok hheld hthread =>
    exact placed_wrote i frame ok (hs.placed_at hheld hthread).2
  | @take i v rest _ _ _ =>
    cases v <;> simp [HubState.goOn, sendOps, WellPlaced, Stmt.OfGor, Stmt.Later]
  | tick _ _ => exact ⟨rfl, by simp⟩
  | drained _ _ _ => trivial

theorem Steps.writesLast (h : Steps s l e) (hs : Sound s) : WritesLast e.thread := by
  cases h with
  | @plain l g t start stored store hsend _ _ _ hplaced _ =>
    cases t with
    | absent | finished => trivial
    | running todo =>
      cases todo with
      | nil => trivial
      | cons stmt todo =>
        cases stmt with
        | write j _ | written j _ => exact absurd hplaced.1 (hsend j)
        | _ => trivial
  | appendIgnored hheld hthread _ _ | append hheld hthread _ _ | closeIgnored hheld hthread _
  | close hheld hthread _ | push hheld hthread _ | closeFrame hheld hthread | writing hheld hthread
  | shutStop hheld hthread | shut hheld hthread | del hheld hthread | remove hheld hthread
  | finish _ hheld hthread => exact writesLast_of_later (hs.placed_at hheld hthread).2
  | @write i frame todo hheld hthread =>
    have hlast := hs.writesLast (.send i)
    rw [hthread] at hlast
    exact hlast
  | @wrote i frame todo ok hheld hthread =>
    have hlast := hs.writesLast (.send i)
    rw [hthread] at hlast
    obtain rfl : todo = [] := hlast
    rw [HubState.goOn, List.append_nil]
    cases frame with
    | ping => cases ok <;> trivial
    | data v => cases v <;> cases ok <;> trivial
  | @take i v rest _ _ _ => cases v <;> trivial
  | tick _ _ => rfl
  | exit _ _ | closeEach _ _ | drained _ _ _ => trivial

/-- What a step of `g` can do to the fields of handler `j`. -/
inductive HandlerStep (s : HubState ι) (g : Gor ι) (j : ι) : Handler → Prop
  | same : HandlerStep s g j (s.handler j)
  | close (hfree : s.locks.owner j = none) : HandlerStep s g j { s.handler j with closing := true }
  | push {v : SessionData} (hheld : s.locks.held g = some (j, .push v)) (hroom : s.full j = false) :
      HandlerStep s g j { s.handler j with dataChan := (s.handler j).dataChan ++ [v] }
  | shut {stop : Bool} (hheld : s.locks.held g = some (j, .shut stop)) :
      HandlerStep s g j { s.handler j with chanClosed := true }
  | take {v : SessionData} {rest : List SessionData} (hgor : g = .send j)
      (hchan : (s.handler j).dataChan = v :: rest) :
      HandlerStep s g j { s.handler j with dataChan := rest }

theorem HandlerStep.set {g : Gor ι} {i : ι} {h : Handler} (hi : HandlerStep s g i h) (j : ι) :
    HandlerStep s g j ((s.setHandler i h).handler j) := by
  by_cases hj : j = i
  · subst hj
    rw [HubState.setHandler_self]
    exact hi
  · rw [HubState.setHandler_of_ne s hj]
    exact .same

theorem Steps.handler (h : Steps s l e) (j : ι) : HandlerStep s e.gor j (e.data.handler j) := by
  cases h with
  | close _ _ hfree => exact (HandlerStep.close hfree).set j
  | push hheld _ hroom => exact (HandlerStep.push hheld hroom).set j
  | shutStop hheld _ => exact (HandlerStep.shut hheld).set j
  | shut hheld _ => exact (HandlerStep.shut hheld).set j
  | take _ _ hchan => exact (HandlerStep.take rfl hchan).set j
  | _ => exact .same

/-- A goroutine under a mutex has set `closing`, or has seen it unset. -/
theorem Steps.entered (h : Steps s l e) (hs : Sound s) {i : ι} {op : HeldStmt}
    (he : e.held = some (i, op)) : (e.data.handler i).closing = !op.isPush := by
  cases h with
  | append _ _ _ hopen =>
    obtain ⟨rfl, rfl⟩ := Prod.mk.inj (Option.some.inj he)
    exact hopen
  | close _ _ _ =>
    obtain ⟨rfl, rfl⟩ := Prod.mk.inj (Option.some.inj he)
    exact congrArg Handler.closing (s.setHandler_self _ _)
  | closeFrame hheld _ | writing hheld _ | del hheld _ | remove hheld _ =>
    obtain ⟨rfl, rfl⟩ := Prod.mk.inj (Option.some.inj he)
    have hclosing := hs.entered _ _ _ hheld
    exact hclosing
  | shut hheld _ =>
    obtain ⟨rfl, rfl⟩ := Prod.mk.inj (Option.some.inj he)
    have hclosing := hs.entered _ _ _ hheld
    exact (congrArg Handler.closing (s.setHandler_self _ _)).trans hclosing
  | _ => cases he

omit [DecidableEq ι] in
theorem HandlerStep.closing_eq {g : Gor ι} {j : ι} {h : Handler} (hj : HandlerStep s g j h) :
    h.closing = (s.handler j).closing ∨ s.locks.owner j = none := by
  cases hj with
  | close hfree => exact .inr hfree
  | same | push _ _ | shut _ | take _ _ => exact .inl rfl

omit [DecidableEq ι] in
theorem HandlerStep.short {g : Gor ι} {j : ι} {h : Handler} (hj : HandlerStep s g j h) (hs : Sound s) :
    h.dataChan.length ≤ HandlerRun.dataChanCap := by
  have hold := hs.short j
  cases hj with
  | push _ hroom =>
    have hlt : (s.handler j).dataChan.length < HandlerRun.dataChanCap := by
      simpa [HubState.full] using hroom
    rw [List.length_append, List.length_singleton]
    omega
  | take _ hchan =>
    rw [hchan, List.length_cons] at hold
    dsimp only
    omega
  | same | close _ | shut _ => exact hold

omit [DecidableEq ι] in
theorem HandlerStep.closed {g : Gor ι} {j : ι} {h : Handler} (hj : HandlerStep s g j h) (hs : Sound s)
    (hclosed : h.chanClosed = true) : h.closing = true := by
  cases hj with
  | close _ => rfl
  | shut hheld =>
    have hclosing : (s.handler j).closing = true := hs.entered _ _ _ hheld
    exact hclosing
  | same | push _ _ | take _ _ => exact hs.closed j hclosed

theorem Sound.step (hs : Sound s) (h : Steps s l e) (ha : Applied s e s') : Sound s' where
  placed g := by
    by_cases hg : g = e.gor
    · rw [hg, ha.held_self, ha.thread_self]
      exact h.placed hs
    · rw [ha.held_of_ne hg]
      rcases ha.thread_of_ne hg with ht | ⟨-, ht⟩
      · rw [ht]
        exact hs.placed g
      · rw [ht]
        exact (hs.placed g).restart
  writesLast g := by
    by_cases hg : g = e.gor
    · rw [hg, ha.thread_self]
      exact h.writesLast hs
    · rcases ha.thread_of_ne hg with ht | ⟨-, ht⟩
      · rw [ht]
        exact hs.writesLast g
      · rw [ht]
        trivial
  short i := by
    rw [ha.data]
    exact (h.handler i).short hs
  entered g i op hg := by
    rw [ha.data]
    by_cases hgor : g = e.gor
    · rw [hgor, ha.held_self] at hg
      exact h.entered hs hg
    · rw [ha.held_of_ne hgor] at hg
      rcases (h.handler i).closing_eq with hc | hfree
      · rw [hc]
        exact hs.entered g i op hg
      · exact absurd hg (s.locks.held_ne_of_owner_eq_none hfree g op)
  closed i hi := by
    rw [ha.data] at hi ⊢
    exact (h.handler i).closed hs hi

end Step

section System
variable {uid : ι → ℤ} {enableClientMsg : Bool} {s s' : HubState ι} {l : Label ι}

theorem Sound.cases (hs : Sound s) (h : (lockSystem uid enableClientMsg).step s l = some s') :
    ∃ e, Steps s l e ∧ Applied s e s' := by
  obtain ⟨e, he, ha⟩ := Option.bind_eq_some_iff.mp h
  exact ⟨e, hs.steps he, applied_of_apply ha⟩

/-- A step is possible whenever its guard in `effect` holds; the bookkeeping of the locks refuses none. -/
theorem Sound.isSome_step (hs : Sound s) :
    ((lockSystem uid enableClientMsg).step s l).isSome = (s.effect uid enableClientMsg l).isSome := by
  cases he : s.effect uid enableClientMsg l with
  | none => simp [lockSystem, he]
  | some e =>
    obtain ⟨s', hs'⟩ := (hs.steps he).exists_apply
    simp [lockSystem, he, hs']

/-- The rule for the properties of the locks: a condition on steps is exact if it is so for each of
`Steps`. -/
theorem exactly_of_steps {P : HubState ι → Prop} {ok : HubState ι → Label ι → Bool} (hstart : P .start)
    (hkeep : ∀ s l e s', Sound s → P s → Steps s l e → Applied s e s' → ok s l = true → P s')
    (hbreak : ∀ s l e s', Sound s → Steps s l e → Applied s e s' → ok s l = false → ¬ P s')
    {s : HubState ι} (h : (lockSystem uid enableClientMsg).ReachableVia (fun s l => ok s l = true) s) :
    P s ∧ ∀ l s', (lockSystem uid enableClientMsg).step s l = some s' → (P s' ↔ ok s l = true) := by
  refine System.ReachableVia.exactly (I := Sound) ?_ ?_ ?_ h
  · rintro _ rfl
    exact ⟨sound_start, hstart⟩
  · intro s l s' hs hstep
    obtain ⟨e, he, ha⟩ := hs.cases hstep
    exact hs.step he ha
  · intro s l s' hs hp hstep
    obtain ⟨e, he, ha⟩ := hs.cases hstep
    constructor
    · intro hp'
      by_contra hok
      exact hbreak s l e s' hs he ha (Bool.eq_false_iff.mpr hok) hp'
    · exact hkeep s l e s' hs hp he ha

end System

end MiniPush.Ws.HubLocks
