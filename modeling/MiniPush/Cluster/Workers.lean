import MiniPush.Foundation.Transition
import MiniPush.Foundation.WaitGroup

/-! The goroutines that `Cluster.Run` and `storage.run` launch, and the wait groups they
wait for before they report that they stopped. A goroutine adds itself to the wait group
as its own first step. -/
namespace MiniPush.Cluster
open Foundation

inductive StorageLoop
  | consume
  | send
  | delete
  deriving DecidableEq

instance : Fintype StorageLoop where
  elems := {.consume, .send, .delete}
  complete loop := by cases loop <;> decide

/-- Positions of `storage.run` after its `go` statements: at `<-ctx.Done()`, at
`kafkaReader.Close()`, at `wg.Wait()`, at the send on `stopDoneNotifyC`, after it. -/
inductive StoragePhase
  | serving
  | closing
  | waiting
  | notifying
  | stopped
  deriving DecidableEq

/-- `sending` holds while `sendLoop` is at the send on `pushChan` in `cache.check`. -/
structure StorageRun where
  phase : StoragePhase
  group : WaitGroup StorageLoop
  sending : Bool

/-- Steps of `storage.run` and its loops that wait for no other goroutine of the process. -/
inductive StorageStep
  | add (loop : StorageLoop)
  | check
  | exit (loop : StorageLoop)
  | ctxDone
  | close
  | wait
  deriving DecidableEq

namespace StorageRun

def loops (cleanEvents : Bool) : StorageLoop → Bool
  | .consume => true
  | .send => true
  | .delete => cleanEvents

def start (cleanEvents : Bool) : StorageRun :=
  { phase := .serving, group := .launch (loops cleanEvents), sending := false }

/-- A loop leaves only once the context is done, and `sendLoop` only between two checks. -/
def CanExit (cancelled : Bool) (s : StorageRun) (loop : StorageLoop) : Prop :=
  cancelled = true ∧ (loop = .send → s.sending = false)

instance {cancelled : Bool} {s : StorageRun} {loop : StorageLoop} :
    Decidable (s.CanExit cancelled loop) :=
  inferInstanceAs (Decidable (_ ∧ _))

def step (cancelled : Bool) (s : StorageRun) : StorageStep → Option StorageRun
  | .add loop =>
    if h : s.group.phase loop = .launched then some { s with group := s.group.add loop h } else none
  | .check =>
    if s.group.phase .send = .running ∧ s.sending = false then some { s with sending := true }
    else none
  | .exit loop =>
    if h : s.group.phase loop = .running then
      if s.CanExit cancelled loop then some { s with group := s.group.finish loop h } else none
    else none
  | .ctxDone =>
    if cancelled = true ∧ s.phase = .serving then some { s with phase := .closing } else none
  | .close => if s.phase = .closing then some { s with phase := .waiting } else none
  | .wait =>
    if s.phase = .waiting ∧ s.group.counter = 0 then some { s with phase := .notifying } else none

def sent (s : StorageRun) : Option StorageRun :=
  if s.sending = true then some { s with sending := false } else none

def notified (s : StorageRun) : Option StorageRun :=
  if s.phase = .notifying then some { s with phase := .stopped } else none

def Reporting (s : StorageRun) : Prop := s.phase = .notifying ∨ s.phase = .stopped

/-- The stop is reported only after the launched loops have executed `wg.Done`. -/
def StopsSettled (s : StorageRun) : Prop := s.Reporting → s.group.Settled

end StorageRun

namespace StorageRun
variable {cancelled : Bool} {s t : StorageRun} {l : StorageStep}

inductive Step (cancelled : Bool) (s : StorageRun) : StorageStep → StorageRun → Prop
  | add {loop : StorageLoop} (h : s.group.phase loop = .launched) :
      Step cancelled s (.add loop) { s with group := s.group.add loop h }
  | check : s.group.phase .send = .running → s.sending = false →
      Step cancelled s .check { s with sending := true }
  | exit {loop : StorageLoop} (h : s.group.phase loop = .running) :
      Step cancelled s (.exit loop) { s with group := s.group.finish loop h }
  | ctxDone : s.phase = .serving → Step cancelled s .ctxDone { s with phase := .closing }
  | close : s.phase = .closing → Step cancelled s .close { s with phase := .waiting }
  | wait : s.phase = .waiting → s.group.counter = 0 →
      Step cancelled s .wait { s with phase := .notifying }

theorem step_spec (h : s.step cancelled l = some t) : Step cancelled s l t := by
  cases l with
  | add loop =>
    simp only [step] at h
    split_ifs at h with hp
    obtain rfl := Option.some.inj h
    exact .add hp
  | check =>
    simp only [step] at h
    split_ifs at h with hp
    obtain rfl := Option.some.inj h
    exact .check hp.1 hp.2
  | exit loop =>
    simp only [step] at h
    split_ifs at h with hp
    obtain rfl := Option.some.inj h
    exact .exit hp
  | ctxDone =>
    simp only [step] at h
    split_ifs at h with hp
    obtain rfl := Option.some.inj h
    exact .ctxDone hp.2
  | close =>
    simp only [step] at h
    split_ifs at h with hp
    obtain rfl := Option.some.inj h
    exact .close hp
  | wait =>
    simp only [step] at h
    split_ifs at h with hp
    obtain rfl := Option.some.inj h
    exact .wait hp.1 hp.2

private theorem Step.reporting (h : Step cancelled s l t) (hl : l ≠ .wait) :
    t.Reporting ↔ s.Reporting := by
  cases h with
  | wait _ _ => exact absurd rfl hl
  | add _ | check _ _ | exit _ => rfl
  | ctxDone hp => simp [Reporting, hp]
  | close hp => simp [Reporting, hp]

theorem phase_step_ne_stopped (hs : s.phase ≠ .stopped) (h : s.step cancelled l = some t) :
    t.phase ≠ .stopped := by
  cases step_spec h with
  | add _ | check _ _ | exit _ => exact hs
  | ctxDone _ | close _ | wait _ _ => exact StoragePhase.noConfusion

theorem sending_step (h : s.step cancelled l = some t) (ht : t.sending = true) :
    s.sending = true ∨ l = .check := by
  cases step_spec h with
  | check _ _ => exact .inr rfl
  | add _ | exit _ | ctxDone _ | close _ | wait _ _ => exact .inl ht

/-- A cancelled `storage.run` can go on until its last send, unless its `sendLoop` waits for
a receiver. -/
theorem progress (hnotify : s.phase ≠ .notifying) (hstop : s.phase ≠ .stopped) :
    s.sending = true ∨ ∃ l t, s.step true l = some t := by
  by_cases hsend : s.sending = true
  · exact .inl hsend
  · right
    cases hp : s.phase with
    | notifying => exact absurd hp hnotify
    | stopped => exact absurd hp hstop
    | serving => exact ⟨.ctxDone, { s with phase := .closing }, by simp [step, hp]⟩
    | closing => exact ⟨.close, { s with phase := .waiting }, by simp [step, hp]⟩
    | waiting =>
      by_cases hc : s.group.counter = 0
      · exact ⟨.wait, { s with phase := .notifying }, by simp [step, hp, hc]⟩
      · have hrun : ∃ loop, s.group.phase loop = .running := by
          by_contra hnone
          exact hc (WaitGroup.counter_eq_zero_iff.mpr (not_exists.mp hnone))
        obtain ⟨loop, hloop⟩ := hrun
        have hexit : s.CanExit true loop := ⟨rfl, fun _ => by simpa using hsend⟩
        exact ⟨.exit loop, { s with group := s.group.finish loop hloop }, by
          simp [step, hloop, hexit]⟩

private theorem Step.group (h : Step cancelled s l t) (hs : s.group.Settled) :
    t.group = s.group := by
  cases h with
  | add hp => exact absurd hp hs.not_launched
  | exit hp => exact absurd hp hs.not_running
  | check _ _ | ctxDone _ | close _ | wait _ _ => rfl

/-- The step past `wg.Wait` keeps the report honest exactly if the launched loops have
started, and every other step keeps it. -/
theorem stopsSettled_step (hs : s.StopsSettled) (h : s.step cancelled l = some t) :
    t.StopsSettled ↔ (l = .wait → s.group.Started) := by
  have hstep := step_spec h
  by_cases hl : l = .wait
  · subst hl
    cases hstep with
    | wait _ hc =>
      have hgroup := WaitGroup.settled_iff_started hc
      constructor
      · intro ht _
        exact hgroup.mp (ht (.inl rfl))
      · intro hstart _
        exact hgroup.mpr (hstart rfl)
  · constructor
    · intro _ hw
      exact absurd hw hl
    · intro _ hr
      have hset := hs ((hstep.reporting hl).mp hr)
      rw [hstep.group hset]
      exact hset

end StorageRun

/-- `storage.run` in a process that may be cancelled at any time and takes what it sends. -/
structure StorageProcess where
  cancelled : Bool
  storage : StorageRun

inductive StorageProcessLabel
  | cancel
  | run (step : StorageStep)
  | sent
  | notified
  deriving DecidableEq

namespace StorageProcess

def step (s : StorageProcess) : StorageProcessLabel → Option StorageProcess
  | .cancel => if s.cancelled = false then some { s with cancelled := true } else none
  | .run l => (s.storage.step s.cancelled l).map fun t => { s with storage := t }
  | .sent => s.storage.sent.map fun t => { s with storage := t }
  | .notified => s.storage.notified.map fun t => { s with storage := t }

/-- When `wg.Wait` is passed, every launched loop has executed `wg.Add`. -/
def WaitsStarted (s : StorageProcess) (l : StorageProcessLabel) : Prop :=
  l = .run .wait → s.storage.group.Started

instance {s : StorageProcess} {l : StorageProcessLabel} : Decidable (s.WaitsStarted l) :=
  inferInstanceAs (Decidable (_ → _))

end StorageProcess

def storageRunSystem (cleanEvents : Bool) : System StorageProcess StorageProcessLabel where
  init s := s = ⟨false, .start cleanEvents⟩
  step := StorageProcess.step

theorem StorageProcess.stopsSettled_step {s t : StorageProcess} {l : StorageProcessLabel}
    (hs : s.storage.StopsSettled) (h : s.step l = some t) :
    t.storage.StopsSettled ↔ s.WaitsStarted l := by
  cases l with
  | cancel =>
    simp only [step] at h
    split_ifs at h
    obtain rfl := Option.some.inj h
    simp [WaitsStarted, hs]
  | run l =>
    obtain ⟨u, hu, rfl⟩ := Option.map_eq_some_iff.mp h
    rw [StorageRun.stopsSettled_step hs hu]
    simp [WaitsStarted]
  | sent =>
    obtain ⟨u, hu, rfl⟩ := Option.map_eq_some_iff.mp h
    simp only [StorageRun.sent] at hu
    split_ifs at hu
    obtain rfl := Option.some.inj hu
    have ht : StorageRun.StopsSettled { s.storage with sending := false } := hs
    simp [WaitsStarted, ht]
  | notified =>
    obtain ⟨u, hu, rfl⟩ := Option.map_eq_some_iff.mp h
    simp only [StorageRun.notified] at hu
    split_ifs at hu with hp
    obtain rfl := Option.some.inj hu
    have ht : StorageRun.StopsSettled { s.storage with phase := .stopped } := by
      intro _
      exact hs (.inl hp)
    simp [WaitsStarted, ht]

/-- Every run that passes `wg.Wait` only once its loops have started reports honestly. -/
theorem StorageProcess.stopsSettled_of_reachableVia {cleanEvents : Bool} {s : StorageProcess}
    (h : (storageRunSystem cleanEvents).ReachableVia WaitsStarted s) : s.storage.StopsSettled := by
  apply h.invariant (I := fun s => s.storage.StopsSettled)
  · intro s hs
    obtain rfl := hs
    intro hr
    simp [StorageRun.Reporting, StorageRun.start] at hr
  · intro s l t hs hl ht
    exact (stopsSettled_step hs ht).mpr hl

inductive ClusterTask
  | runLeader
  | runClient
  deriving DecidableEq

instance : Fintype ClusterTask where
  elems := {.runLeader, .runClient}
  complete task := by cases task <;> decide

inductive ClusterPhase
  | waiting
  | notifying
  | stopped
  deriving DecidableEq

structure ClusterRun where
  phase : ClusterPhase
  group : WaitGroup ClusterTask

inductive ClusterLabel
  | add (task : ClusterTask)
  | done (task : ClusterTask)
  | wait
  | notified
  deriving DecidableEq

namespace ClusterRun

/-- The goroutines that `Cluster.Run` launches under `conf.RunLeader` and `conf.RunFollower`. -/
def tasks (runLeader runFollower : Bool) : ClusterTask → Bool
  | .runLeader => runLeader
  | .runClient => runFollower

def step (s : ClusterRun) : ClusterLabel → Option ClusterRun
  | .add task =>
    if h : s.group.phase task = .launched then some { s with group := s.group.add task h } else none
  | .done task =>
    if h : s.group.phase task = .running then some { s with group := s.group.finish task h }
    else none
  | .wait =>
    if s.phase = .waiting ∧ s.group.counter = 0 then some { s with phase := .notifying } else none
  | .notified => if s.phase = .notifying then some { s with phase := .stopped } else none

def Reporting (s : ClusterRun) : Prop := s.phase = .notifying ∨ s.phase = .stopped

def StopsSettled (s : ClusterRun) : Prop := s.Reporting → s.group.Settled

def WaitsStarted (s : ClusterRun) (l : ClusterLabel) : Prop := l = .wait → s.group.Started

instance {s : ClusterRun} {l : ClusterLabel} : Decidable (s.WaitsStarted l) :=
  inferInstanceAs (Decidable (_ → _))

end ClusterRun

def clusterRunSystem (runLeader runFollower : Bool) : System ClusterRun ClusterLabel where
  init s := s = ⟨.waiting, .launch (ClusterRun.tasks runLeader runFollower)⟩
  step := ClusterRun.step

theorem ClusterRun.stopsSettled_step {s t : ClusterRun} {l : ClusterLabel}
    (hs : s.StopsSettled) (h : s.step l = some t) : t.StopsSettled ↔ s.WaitsStarted l := by
  cases l with
  | add task =>
    simp only [step] at h
    split_ifs at h with hp
    obtain rfl := Option.some.inj h
    have ht : StopsSettled { s with group := s.group.add task hp } := by
      intro hr
      exact absurd hp (hs hr).not_launched
    simp [WaitsStarted, ht]
  | done task =>
    simp only [step] at h
    split_ifs at h with hp
    obtain rfl := Option.some.inj h
    have ht : StopsSettled { s with group := s.group.finish task hp } := by
      intro hr
      exact absurd hp (hs hr).not_running
    simp [WaitsStarted, ht]
  | wait =>
    simp only [step] at h
    split_ifs at h with hp
    obtain rfl := Option.some.inj h
    have hgroup := WaitGroup.settled_iff_started hp.2
    constructor
    · intro ht _
      exact hgroup.mp (ht (.inl rfl))
    · intro hstart _
      exact hgroup.mpr (hstart rfl)
  | notified =>
    simp only [step] at h
    split_ifs at h with hp
    obtain rfl := Option.some.inj h
    have ht : StopsSettled { s with phase := .stopped } := by
      intro _
      exact hs (.inl hp)
    simp [WaitsStarted, ht]

theorem ClusterRun.stopsSettled_of_reachableVia {runLeader runFollower : Bool} {s : ClusterRun}
    (h : (clusterRunSystem runLeader runFollower).ReachableVia WaitsStarted s) :
    s.StopsSettled := by
  apply h.invariant (I := StopsSettled)
  · intro s hs
    obtain rfl := hs
    intro hr
    simp [Reporting] at hr
  · intro s l t hs hl ht
    exact (stopsSettled_step hs ht).mpr hl

/-- `Cluster.Run` and `storage.run` report their stop after their goroutines in every run
that passes `wg.Wait` only when the launched goroutines have executed `wg.Add`, and a step
that passes it earlier reports a stop that did not happen. -/
theorem stop_reported_exactly_after_started_workers (runLeader runFollower cleanEvents : Bool) :
    (∀ s, (clusterRunSystem runLeader runFollower).ReachableVia ClusterRun.WaitsStarted s →
      s.StopsSettled ∧
        ∀ l t, s.step l = some t → (t.StopsSettled ↔ s.WaitsStarted l)) ∧
    (∀ s, (storageRunSystem cleanEvents).ReachableVia StorageProcess.WaitsStarted s →
      s.storage.StopsSettled ∧
        ∀ l t, s.step l = some t → (t.storage.StopsSettled ↔ s.WaitsStarted l)) := by
  constructor
  · intro s h
    have hs := ClusterRun.stopsSettled_of_reachableVia h
    exact ⟨hs, fun l t ht => ClusterRun.stopsSettled_step hs ht⟩
  · intro s h
    have hs := StorageProcess.stopsSettled_of_reachableVia h
    exact ⟨hs, fun l t ht => StorageProcess.stopsSettled_step hs ht⟩

/-- Both processes start their goroutines, let them finish and then report. -/
theorem stop_reported_startedRuns :
    (∃ s, (clusterRunSystem true true).ReachableVia ClusterRun.WaitsStarted s ∧
      s.phase = .notifying ∧ s.group.phase .runLeader = .finished ∧ s.StopsSettled) ∧
    (∃ s, (storageRunSystem true).ReachableVia StorageProcess.WaitsStarted s ∧
      s.storage.phase = .notifying ∧ s.storage.group.phase .delete = .finished ∧
      s.storage.StopsSettled) := by
  constructor
  · have hrun : ((clusterRunSystem true true).runVia (fun s l => decide (s.WaitsStarted l))
        ⟨.waiting, .launch (ClusterRun.tasks true true)⟩
        [.add .runClient, .add .runLeader, .done .runLeader, .done .runClient, .wait]).map
          (fun s => (s.phase, s.group.phase .runLeader)) = some (.notifying, .finished) := by
      decide +kernel
    obtain ⟨s, hs, hv⟩ := Option.map_eq_some_iff.mp hrun
    obtain ⟨hp, hf⟩ := Prod.mk.inj hv
    have hreach := System.ReachableVia.runVia (fun _ _ h => of_decide_eq_true h) (.init rfl) _ hs
    exact ⟨s, hreach, hp, hf,
      ((stop_reported_exactly_after_started_workers true true true).1 s hreach).1⟩
  · have hrun : ((storageRunSystem true).runVia (fun s l => decide (s.WaitsStarted l))
        ⟨false, .start true⟩
        [.run (.add .consume), .run (.add .send), .run .check, .run (.add .delete), .cancel,
          .run .ctxDone, .sent, .run (.exit .delete), .run (.exit .send), .run .close,
          .run (.exit .consume), .run .wait]).map
          (fun s => (s.storage.phase, s.storage.group.phase .delete)) =
          some (.notifying, .finished) := by
      decide +kernel
    obtain ⟨s, hs, hv⟩ := Option.map_eq_some_iff.mp hrun
    obtain ⟨hp, hf⟩ := Prod.mk.inj hv
    have hreach := System.ReachableVia.runVia (fun _ _ h => of_decide_eq_true h) (.init rfl) _ hs
    exact ⟨s, hreach, hp, hf,
      ((stop_reported_exactly_after_started_workers true true true).2 s hreach).1⟩

/-- `Cluster.Run` passes `wg.Wait` before `runLeader` has taken its first step, and
`storage.run` before `consumeLoop` has. -/
theorem hastyRuns_report_before_workers :
    (∃ s, (clusterRunSystem true true).Reachable s ∧ s.phase = .notifying ∧
      s.group.phase .runLeader = .launched ∧ ¬s.StopsSettled) ∧
    (∃ s, (storageRunSystem true).Reachable s ∧ s.storage.phase = .notifying ∧
      s.storage.group.phase .consume = .launched ∧ ¬s.storage.StopsSettled) := by
  constructor
  · have hrun : ((clusterRunSystem true true).run
        ⟨.waiting, .launch (ClusterRun.tasks true true)⟩ [.wait]).map
          (fun s => (s.phase, s.group.phase .runLeader)) = some (.notifying, .launched) := by
      decide +kernel
    obtain ⟨s, hs, hv⟩ := Option.map_eq_some_iff.mp hrun
    obtain ⟨hp, hl⟩ := Prod.mk.inj hv
    exact ⟨s, System.Reachable.run (.init rfl) _ hs, hp, hl,
      fun h => (h (.inl hp)).not_launched hl⟩
  · have hrun : ((storageRunSystem true).run ⟨false, .start true⟩
        [.cancel, .run .ctxDone, .run .close, .run .wait]).map
          (fun s => (s.storage.phase, s.storage.group.phase .consume)) =
          some (.notifying, .launched) := by
      decide +kernel
    obtain ⟨s, hs, hv⟩ := Option.map_eq_some_iff.mp hrun
    obtain ⟨hp, hl⟩ := Prod.mk.inj hv
    exact ⟨s, System.Reachable.run (.init rfl) _ hs, hp, hl,
      fun h => (h (.inl hp)).not_launched hl⟩

end MiniPush.Cluster
