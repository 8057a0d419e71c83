import MiniPush.Ws.HubLockSteps

/-! The opening of a session: `ServeHTTP` starts the two loops of its handler once, so that a `sendLoop` that
has returned stays so. -/
namespace MiniPush.Ws.HubLocks
open Foundation

variable {ι : Type} [DecidableEq ι] {s s' : HubState ι} {l : Label ι} {e : Effect ι} {g : Gor ι} {i : ι}
  {uid : ι → ℤ} {enableClientMsg : Bool}

/-- Where `ServeHTTP` may be before and after it has started the loops. -/
inductive ServeAt (i : ι) : Bool → Thread ι → Prop
  | absent : ServeAt i false .absent
  | add : ServeAt i false (.running [.add i, .online i, .exit])
  | insert : ServeAt i false (.running [.insert i, .online i, .exit])
  | online : ServeAt i false (.running [.online i, .exit])
  | exit : ServeAt i true (.running [.exit])
  | finished : ServeAt i true .finished

theorem execHeld_spec {todo : List (Stmt ι)} {op : HeldStmt} (h : s.execHeld g i todo op = some e) :
    e.gor = g ∧ e.thread = .running todo ∧ e.start = none := by
  cases op with
  | push v =>
    simp only [HubState.execHeld] at h
    split_ifs at h
    obtain rfl := Option.some.inj h
    exact ⟨rfl, rfl, rfl⟩
  | shut stop =>
    cases stop <;> obtain rfl := Option.some.inj h <;> exact ⟨rfl, rfl, rfl⟩
  | del =>
    obtain ⟨store, -, rfl⟩ := Option.map_eq_some_iff.mp h
    exact ⟨rfl, rfl, rfl⟩
  | remove =>
    simp only [HubState.execHeld] at h
    split_ifs at h <;> obtain rfl := Option.some.inj h <;> exact ⟨rfl, rfl, rfl⟩
  | closeFrame _ | writing _ | offline =>
    obtain rfl := Option.some.inj h
    exact ⟨rfl, rfl, rfl⟩

/-- The openings that a thread has to come. -/
def KeepsOpenings (todo : List (Stmt ι)) : Thread ι → Prop
  | .absent => False
  | .running todo' => ∀ i, .online i ∈ todo' → .online i ∈ todo
  | .finished => True

omit [DecidableEq ι] in
theorem KeepsOpenings.cons {todo : List (Stmt ι)} {t : Thread ι} (h : KeepsOpenings todo t)
    (stmt : Stmt ι) : KeepsOpenings (stmt :: todo) t := by
  cases t with
  | absent => exact h
  | running todo' => exact fun i hi => List.mem_cons_of_mem _ (h i hi)
  | finished => trivial

/-- What a statement without a mutex leaves of the openings in `todo`. -/
theorem exec_spec {todo : List (Stmt ι)} {stmt : Stmt ι} (h : s.exec g todo stmt = some e) :
    e.gor = g ∧ (e.start = none ∨ ∃ j, stmt = .online j ∧ e = { s.goOn g todo with start := some j }) ∧
      KeepsOpenings todo e.thread := by
  have hkeep : ∀ {data : Data ι} {held : Option (ι × HeldStmt)} {new : List (Stmt ι)},
      (∀ j, .online j ∈ new → .online j ∈ todo) → e = ⟨g, held, .running new, none, data⟩ →
      e.gor = g ∧ (e.start = none ∨ ∃ j, stmt = .online j ∧ e = { s.goOn g todo with start := some j }) ∧
        KeepsOpenings todo e.thread := by
    rintro data held new hnew rfl
    exact ⟨rfl, .inl rfl, hnew⟩
  cases stmt with
  | append j v =>
    simp only [HubState.exec] at h
    split_ifs at h
    · exact hkeep (fun _ hj => hj) (Option.some.inj h).symm
    · exact hkeep (fun _ hj => hj) (Option.some.inj h).symm
  | close j stop =>
    simp only [HubState.exec] at h
    split_ifs at h
    · exact hkeep (fun _ hj => hj) (Option.some.inj h).symm
    · exact hkeep (fun _ hj => hj) (Option.some.inj h).symm
  | write j frame => exact hkeep (by simp) (Option.some.inj h).symm
  | del j tell =>
    obtain ⟨store, -, he⟩ := Option.map_eq_some_iff.mp h
    exact hkeep (by simp) he.symm
  | remove j tell =>
    simp only [HubState.exec] at h
    split at h
    · refine hkeep (fun k hk => ?_) (Option.some.inj h).symm
      split_ifs at hk
      · simpa using hk
      · exact hk
    · cases h
  | add j =>
    obtain ⟨store, -, he⟩ := Option.map_eq_some_iff.mp h
    exact hkeep (by simp) he.symm
  | insert j =>
    simp only [HubState.exec] at h
    split_ifs at h
    exact hkeep (fun _ hj => hj) (Option.some.inj h).symm
  | online j =>
    obtain rfl := Option.some.inj h
    exact ⟨rfl, .inr ⟨j, rfl, rfl⟩, fun _ hk => hk⟩
  | get j =>
    simp only [HubState.exec] at h
    split at h
    · refine hkeep (fun k hk => ?_) (Option.some.inj h).symm
      split_ifs at hk
      · simpa using hk
      · exact hk
    · cases h
  | closeEach rest =>
    cases rest with
    | nil => exact hkeep (fun _ hj => hj) (Option.some.inj h).symm
    | cons j rest => exact hkeep (by simp) (Option.some.inj h).symm
  | offline | e2e | notify => exact hkeep (fun _ hj => hj) (Option.some.inj h).symm
  | exit =>
    obtain rfl := Option.some.inj h
    exact ⟨rfl, .inl rfl, trivial⟩
  | written _ _ | getByUid _ | closeAll => cases h

def Label.gor : Label ι → Gor ι
  | .serve i => .serve i
  | .read i _ | .recvReturn i => .recv i
  | .take i | .drained i | .tick i | .wrote i _ => .send i
  | .kickoff k _ => .kickoff k
  | .leaderKickoff _ | .leaderHeadSeq _ | .leaderClosed | .stop | .getByUid _ | .closeAll _ => .run
  | .work g => g

/-- An event begins a call, or is a step of a goroutine that runs; only the statement `online` starts loops,
and only a new `ServeHTTP` has one to come that was not there before. -/
inductive Advances (s : HubState ι) : Label ι → Effect ι → Prop
  | serve {i : ι} (habsent : s.thread (.serve i) = .absent) :
      Advances s (.serve i) (s.goOn (.serve i) [.add i, .online i, .exit])
  | kickoff {k : ℕ} {i : ι} (habsent : s.thread (.kickoff k) = .absent) :
      Advances s (.kickoff k i) (s.goOn (.kickoff k) [.get i, .exit])
  | online {g : Gor ι} {i : ι} {todo : List (Stmt ι)} (hthread : s.thread g = .running (.online i :: todo)) :
      Advances s (.work g) { s.goOn g todo with start := some i }
  | other {l : Label ι} {e : Effect ι} {todo : List (Stmt ι)} (hgor : e.gor = l.gor)
      (hthread : s.thread e.gor = .running todo) (hstart : e.start = none)
      (htodo : KeepsOpenings todo e.thread) : Advances s l e

theorem Advances.of_turn {todo : List (Stmt ι)} (h : s.turn l.gor todo = some e)
    (htodo : ∀ j, .online j ∉ todo) : Advances s l e := by
  unfold HubState.turn at h
  split_ifs at h with hidle
  obtain rfl := Option.some.inj h
  exact .other rfl (idle_iff.mp hidle).2 rfl fun j hj => absurd hj (htodo j)

theorem Advances.of_leave (h : s.leave l.gor = some e) : Advances s l e := by
  unfold HubState.leave at h
  split_ifs at h with hidle
  obtain rfl := Option.some.inj h
  exact .other rfl (idle_iff.mp hidle).2 rfl trivial

omit [DecidableEq ι] in
theorem online_notMem_ofOp (i j : ι) (ops : List HandlerOp) : Stmt.online j ∉ ops.map (Stmt.ofOp i) := by
  intro hmem
  obtain ⟨op, -, hop⟩ := List.mem_map.mp hmem
  cases op <;> cases hop

theorem advances_of_effect (h : s.effect uid enableClientMsg l = some e) : Advances s l e := by
  cases l with
  | serve i =>
    simp only [HubState.effect, HubState.call] at h
    split_ifs at h with habsent
    obtain rfl := Option.some.inj h
    exact .serve habsent
  | kickoff k i =>
    simp only [HubState.effect, HubState.call] at h
    split_ifs at h with habsent
    obtain rfl := Option.some.inj h
    exact .kickoff habsent
  | read i result => exact .of_turn h fun j => online_notMem_ofOp i j _
  | recvReturn i =>
    simp only [HubState.effect] at h
    split_ifs at h
    exact .of_leave h
  | take i =>
    simp only [HubState.effect] at h
    split at h
    · cases h
    · obtain ⟨e', he', rfl⟩ := Option.map_eq_some_iff.mp h
      unfold HubState.turn at he'
      split_ifs at he' with hidle
      obtain rfl := Option.some.inj he'
      refine .other rfl (idle_iff.mp hidle).2 rfl fun j hj => ?_
      rename_i v _ _
      cases v <;> simp [sendOps] at hj
  | drained i =>
    simp only [HubState.effect] at h
    split_ifs at h
    exact .of_leave h
  | tick i => exact .of_turn h (by simp)
  | wrote i ok =>
    simp only [HubState.effect] at h
    split at h
    · rename_i k frame todo hheld hthread
      obtain rfl := Option.some.inj h
      refine .other rfl hthread rfl fun j hj => ?_
      rcases List.mem_append.mp hj with hj | hj
      · exact absurd hj (online_notMem_ofOp k j _)
      · exact List.mem_cons_of_mem _ hj
    · cases h
  | leaderKickoff sids => exact .of_turn h (by simp)
  | leaderHeadSeq uids => exact .of_turn h (by simp)
  | leaderClosed => exact .of_leave h
  | stop => exact .of_turn h (by simp)
  | getByUid slice =>
    simp only [HubState.effect] at h
    split at h
    · rename_i hheld hthread
      split_ifs at h
      obtain rfl := Option.some.inj h
      refine .other rfl hthread rfl fun j hj => ?_
      simpa using hj
    · cases h
  | closeAll order =>
    simp only [HubState.effect] at h
    split at h
    · rename_i hheld hthread
      split_ifs at h
      obtain ⟨store, -, rfl⟩ := Option.map_eq_some_iff.mp h
      refine .other rfl hthread rfl fun j hj => ?_
      simpa using hj
    · cases h
  | work g =>
    simp only [HubState.effect] at h
    split at h
    · rename_i hheld hthread
      obtain ⟨hgor, ht, hstart⟩ := execHeld_spec h
      refine .other hgor (hgor ▸ hthread) hstart ?_
      rw [ht]
      exact fun _ hj => hj
    · rename_i stmt todo hheld hthread
      obtain ⟨hgor, hstart | ⟨j, rfl, rfl⟩, htodo⟩ := exec_spec h
      · exact .other hgor (hgor ▸ hthread) hstart (htodo.cons stmt)
      · exact .online hthread
    · cases h

/-- Only `ServeHTTP` starts the loops of its handler, and it does so once. -/
structure Opens (s : HubState ι) : Prop where
  only : ∀ g todo i, s.thread g = .running todo → .online i ∈ todo → g = .serve i
  unheld : ∀ i, s.locks.held (.serve i) = none
  serve : ∀ i, s.thread (.send i) = .absent ∧ ServeAt i false (s.thread (.serve i)) ∨
    s.thread (.send i) ≠ .absent ∧ ServeAt i true (s.thread (.serve i))

omit [DecidableEq ι] in
theorem opens_start : Opens (HubState.start : HubState ι) where
  only g todo i ht hi := by
    cases g <;> simp [HubState.start] at ht
    subst ht
    cases hi
  unheld _ := rfl
  serve i := .inl ⟨rfl, .absent⟩

namespace Applied

theorem thread_serve_of_ne (ha : Applied s e s') (hg : .serve i ≠ e.gor) :
    s'.thread (.serve i) = s.thread (.serve i) := by
  rw [ha.thread, Function.update_of_ne hg]
  cases e.start with
  | none => rfl
  | some j =>
    change s.startLoops j (.serve i) = _
    simp [HubState.startLoops]

theorem thread_send_of_ne (ha : Applied s e s') (hg : .send i ≠ e.gor) :
    s'.thread (.send i) = if e.start = some i then .running [] else s.thread (.send i) := by
  rw [ha.thread, Function.update_of_ne hg]
  cases e.start with
  | none => rfl
  | some j =>
    change s.startLoops j (.send i) = _
    by_cases hj : i = j
    · simp [HubState.startLoops, hj]
    · simp [HubState.startLoops, hj, Ne.symm hj]

end Applied

theorem Opens.work_serve (ho : Opens s) (h : s.effect uid enableClientMsg (.work (.serve i)) = some e) :
    e.gor = .serve i ∧ e.held = none ∧
      (e.start = none ∧ (∃ b, ServeAt i b (s.thread (.serve i)) ∧ ServeAt i b e.thread) ∨
        e.start = some i ∧ ServeAt i false (s.thread (.serve i)) ∧ ServeAt i true e.thread) := by
  have hat : ∃ b, ServeAt i b (s.thread (.serve i)) :=
    (ho.serve i).elim (fun h => ⟨false, h.2⟩) fun h => ⟨true, h.2⟩
  obtain ⟨b, hat⟩ := hat
  simp only [HubState.effect, ho.unheld i] at h
  generalize s.thread (.serve i) = t at h hat ⊢
  cases hat with
  | absent => cases h
  | add =>
    obtain ⟨store, -, rfl⟩ := Option.map_eq_some_iff.mp h
    exact ⟨rfl, rfl, .inl ⟨rfl, false, .add, .insert⟩⟩
  | insert =>
    simp only [HubState.exec] at h
    split_ifs at h
    obtain rfl := Option.some.inj h
    exact ⟨rfl, rfl, .inl ⟨rfl, false, .insert, .online⟩⟩
  | online =>
    obtain rfl := Option.some.inj h
    exact ⟨rfl, rfl, .inr ⟨rfl, .online, .exit⟩⟩
  | exit =>
    obtain rfl := Option.some.inj h
    exact ⟨rfl, rfl, .inl ⟨rfl, true, .exit, .finished⟩⟩
  | finished => cases h

omit [DecidableEq ι] in
theorem ServeAt.unique {b b' : Bool} {t : Thread ι} (h : ServeAt i b t) (h' : ServeAt i b' t) : b = b' := by
  cases h <;> cases h' <;> rfl

omit [DecidableEq ι] in
theorem Advances.gor_eq (h : Advances s l e) : e.gor = l.gor := by
  cases h with
  | serve _ | kickoff _ | online _ => rfl
  | other hgor _ _ _ => exact hgor

theorem Opens.only_step (ho : Opens s) (h : Advances s l e) (ha : Applied s e s') (g : Gor ι)
    (todo' : List (Stmt ι)) (i : ι) (ht : s'.thread g = .running todo') (hi : .online i ∈ todo') :
    g = .serve i := by
  by_cases hg : g = e.gor
  · rw [hg, ha.thread_self] at ht
    cases h with
    | @serve j _ =>
      rw [← Thread.running.inj ht] at hi
      obtain rfl : i = j := by simpa using hi
      exact hg
    | kickoff _ =>
      rw [← Thread.running.inj ht] at hi
      simp at hi
    | @online g₀ j todo hthread =>
      rw [← Thread.running.inj ht] at hi
      rw [hg]
      exact ho.only g₀ _ i hthread (List.mem_cons_of_mem _ hi)
    | other _ hthread _ htodo =>
      rw [ht] at htodo
      rw [hg]
      exact ho.only e.gor _ i hthread (htodo i hi)
  · rcases ha.thread_of_ne hg with hsame | ⟨-, hnew⟩
    · exact ho.only g todo' i (hsame ▸ ht) hi
    · rw [hnew] at ht
      rw [← Thread.running.inj ht] at hi
      cases hi

omit [DecidableEq ι] in
/-- A step of another goroutine than `ServeHTTP` does not start the loops. -/
theorem Opens.start_ne (ho : Opens s) (h : Advances s l e) (hg : .serve i ≠ e.gor) : e.start ≠ some i := by
  intro hstart
  cases h with
  | serve _ | kickoff _ => cases hstart
  | @online g j todo hthread =>
    obtain rfl := Option.some.inj hstart
    exact hg (ho.only g _ j hthread List.mem_cons_self).symm
  | other _ _ hnone _ =>
    rw [hnone] at hstart
    cases hstart

omit [DecidableEq ι] in
/-- A step of `sendLoop` is one of a loop that runs, and goes on or returns. -/
theorem Opens.send_step (ho : Opens s) (h : Advances s l e) (hg : e.gor = .send i) :
    s.thread (.send i) ≠ .absent ∧ e.thread ≠ .absent := by
  cases h with
  | serve _ | kickoff _ => cases hg
  | @online g j todo hthread =>
    have hserve := ho.only g _ j hthread List.mem_cons_self
    rw [show g = .send i from hg] at hserve
    cases hserve
  | other _ hthread _ htodo =>
    constructor
    · rw [← hg, hthread]
      simp
    · intro habsent
      rw [habsent] at htodo
      exact htodo

theorem Opens.step (ho : Opens s) (h : s.effect uid enableClientMsg l = some e) (ha : Applied s e s') :
    Opens s' := by
  have hb := advances_of_effect h
  have hserve : ∀ i, e.gor = .serve i → e.held = none ∧
      (s'.thread (.send i) = .absent ∧ ServeAt i false e.thread ∨
        s'.thread (.send i) ≠ .absent ∧ ServeAt i true e.thread) := by
    intro i hg
    have hsend := ha.thread_send_of_ne (i := i) (by rw [hg]; simp)
    rw [hb.gor_eq] at hg
    cases l with
    | serve j =>
      obtain rfl : j = i := Gor.serve.inj hg
      simp only [HubState.effect, HubState.call] at h
      split_ifs at h with habsent
      obtain rfl := Option.some.inj h
      refine ⟨rfl, .inl ⟨?_, .add⟩⟩
      rw [hsend]
      rcases ho.serve j with ⟨hnone, -⟩ | ⟨-, hat⟩
      · exact hnone
      · rw [habsent] at hat
        cases hat
    | work g =>
      obtain rfl : g = .serve i := hg
      obtain ⟨-, hheld, ⟨hstart, b, hat, hat'⟩ | ⟨hstart, -, hat'⟩⟩ := ho.work_serve h
      · refine ⟨hheld, ?_⟩
        rw [hsend, hstart, if_neg (by simp)]
        rcases ho.serve i with ⟨hnone, hfalse⟩ | ⟨hsome, htrue⟩
        · obtain rfl := hat.unique hfalse
          exact .inl ⟨hnone, hat'⟩
        · obtain rfl := hat.unique htrue
          exact .inr ⟨hsome, hat'⟩
      · refine ⟨hheld, .inr ⟨?_, hat'⟩⟩
        rw [hsend, if_pos hstart]
        simp
    | _ => cases hg
  refine ⟨ho.only_step hb ha, fun i => ?_, fun i => ?_⟩
  · by_cases hg : .serve i = e.gor
    · rw [hg, ha.held_self]
      exact (hserve i hg.symm).1
    · rw [ha.held_of_ne hg]
      exact ho.unheld i
  · by_cases hg : .serve i = e.gor
    · have hself : s'.thread (.serve i) = e.thread := by rw [hg, ha.thread_self]
      rw [hself]
      exact (hserve i hg.symm).2
    · rw [ha.thread_serve_of_ne hg]
      by_cases hsend : e.gor = .send i
      · obtain ⟨hlive, hlive'⟩ := ho.send_step hb hsend
        have hself : s'.thread (.send i) = e.thread := by rw [← hsend, ha.thread_self]
        refine .inr ⟨hself ▸ hlive', ?_⟩
        exact ((ho.serve i).resolve_left fun hn => hlive hn.1).2
      · rw [ha.thread_send_of_ne (fun he => hsend he.symm), if_neg (ho.start_ne hb hg)]
        exact ho.serve i

theorem sound_opens_of_reachable (h : (lockSystem uid enableClientMsg).Reachable s) : Sound s ∧ Opens s := by
  refine System.Reachable.invariant (I := fun s => Sound s ∧ Opens s) ?_ ?_ h
  · rintro _ rfl
    exact ⟨sound_start, opens_start⟩
  · rintro s l s' ⟨hs, ho⟩ hstep
    obtain ⟨e, he, ha⟩ := Option.bind_eq_some_iff.mp hstep
    have ha' := applied_of_apply ha
    exact ⟨hs.step (hs.steps he) ha', ho.step he ha'⟩

/-- A `sendLoop` that has been started is not started again. -/
theorem Opens.thread_send (ho : Opens s) (h : s.effect uid enableClientMsg l = some e)
    (ha : Applied s e s') (hg : .send i ≠ e.gor) (hlive : s.thread (.send i) ≠ .absent) :
    s'.thread (.send i) = s.thread (.send i) := by
  rw [ha.thread_send_of_ne hg, if_neg]
  intro hstart
  have hb := advances_of_effect h
  by_cases hserve : .serve i = e.gor
  · have hl := hb.gor_eq
    rw [← hserve] at hl
    cases l with
    | serve j =>
      cases hb with
      | serve _ => cases hstart
      | other _ _ hnone _ =>
        rw [hnone] at hstart
        cases hstart
    | work g =>
      obtain rfl : .serve i = g := hl
      obtain ⟨-, -, ⟨hnone, -⟩ | ⟨-, hat, -⟩⟩ := ho.work_serve h
      · rw [hnone] at hstart
        cases hstart
      · have htrue := ((ho.serve i).resolve_left fun hn => hlive hn.1).2
        cases hat.unique htrue
    | _ => cases hl
  · exact ho.start_ne hb hserve hstart

end MiniPush.Ws.HubLocks
