import MiniPush.Cluster.Workers

/-! Shutdown of a cluster leader: `runLeader` with its deferred clean-up, `storage.run` in
the same goroutine, and `pushServer.run` with `cleanSessionLoop`. Calls of Kafka, MySQL
and gRPC return. -/
namespace MiniPush.Cluster
open Foundation

inductive CleanupOp
  | sendShutdown
  | recvStorageStop
  | closeStorageStop
  | recvServerStop
  | gracefulStop
  | shutdownHttp
  | closeSendMsgChan
  | closeRecvMsgChan
  | wgDone
  deriving DecidableEq

/-- `runLeader` is inside `s.run`, or has these statements of its deferred function left. -/
inductive LeaderPhase
  | storage
  | deferred (rest : List CleanupOp)
  deriving DecidableEq

/-- Positions of `pushServer.run`: at its `select`, pushing a message to the followers, at
`wg.Wait()`, at the send on `stopDoneNotifyC`, after it. -/
inductive ServerPhase
  | serving
  | pushing
  | waiting
  | notifying
  | stopped
  deriving DecidableEq

/-- Steps left before `pushServer.run` has stopped. -/
def ServerPhase.left : ServerPhase → ℕ
  | .pushing => 4
  | .serving => 3
  | .waiting => 2
  | .notifying => 1
  | .stopped => 0

def StoragePhase.left : StoragePhase → ℕ
  | .serving => 3
  | .closing => 2
  | .waiting => 1
  | .notifying => 0
  | .stopped => 0

/-- `queue` counts the messages in `sendMsgChan`; `clean` is the wait group of
`pushServer`, with `cleanSessionLoop` as its worker. -/
structure LeaderProcess where
  cancelled : Bool
  leader : LeaderPhase
  storage : StorageRun
  queue : ℕ
  closed : Bool
  server : ServerPhase
  clean : WaitGroup Unit

inductive LeaderStep
  | cancel
  | storage (step : StorageStep)
  | pushed
  | leader
  | serverRecv
  | serverRecvClosed
  | serverSent
  | serverCtxDone
  | serverWait
  | cleanAdd
  | cleanExit
  deriving DecidableEq

namespace LeaderProcess

def sendMsgChanCap : ℕ := 8

def cleanup : List CleanupOp :=
  [.sendShutdown, .recvStorageStop, .closeStorageStop, .recvServerStop, .gracefulStop,
    .shutdownHttp, .closeSendMsgChan, .closeRecvMsgChan, .wgDone]

/-- One statement of the deferred function. The two stop channels are unbuffered. -/
def perform (s : LeaderProcess) : CleanupOp → Option LeaderProcess
  | .sendShutdown =>
    if s.queue < sendMsgChanCap then some { s with queue := s.queue + 1 } else none
  | .recvStorageStop => s.storage.notified.map fun t => { s with storage := t }
  | .recvServerStop => if s.server = .notifying then some { s with server := .stopped } else none
  | .closeSendMsgChan => some { s with closed := true }
  | .closeStorageStop | .gracefulStop | .shutdownHttp | .closeRecvMsgChan | .wgDone => some s

def step (s : LeaderProcess) : LeaderStep → Option LeaderProcess
  | .cancel => if s.cancelled = false then some { s with cancelled := true } else none
  | .storage l => (s.storage.step s.cancelled l).map fun t => { s with storage := t }
  | .pushed =>
    if s.queue < sendMsgChanCap then
      s.storage.sent.map fun t => { s with storage := t, queue := s.queue + 1 }
    else none
  | .leader =>
    match s.leader with
    | .storage =>
      if s.storage.phase = .stopped then some { s with leader := .deferred cleanup } else none
    | .deferred [] => none
    | .deferred (op :: rest) => (s.perform op).map fun t => { t with leader := .deferred rest }
  | .serverRecv =>
    if s.server = .serving ∧ 0 < s.queue then
      some { s with server := .pushing, queue := s.queue - 1 }
    else none
  | .serverRecvClosed =>
    if s.server = .serving ∧ s.queue = 0 ∧ s.closed = true then some { s with server := .waiting }
    else none
  | .serverSent => if s.server = .pushing then some { s with server := .serving } else none
  | .serverCtxDone =>
    if s.cancelled = true ∧ s.server = .serving then some { s with server := .waiting } else none
  | .serverWait =>
    if s.server = .waiting ∧ s.clean.counter = 0 then some { s with server := .notifying }
    else none
  | .cleanAdd =>
    if h : s.clean.phase () = .launched then some { s with clean := s.clean.add () h } else none
  | .cleanExit =>
    if h : s.clean.phase () = .running then
      if s.cancelled = true then some { s with clean := s.clean.finish () h } else none
    else none

def start (cleanEvents : Bool) : LeaderProcess where
  cancelled := false
  leader := .storage
  storage := .start cleanEvents
  queue := 0
  closed := false
  server := .serving
  clean := .launch fun _ => true

end LeaderProcess

def leaderShutdownSystem (cleanEvents : Bool) : System LeaderProcess LeaderStep where
  init s := s = .start cleanEvents
  step := LeaderProcess.step

namespace StorageRun
variable {cancelled : Bool} {s t : StorageRun} {l : StorageStep}

def left (s : StorageRun) : ℕ := s.phase.left + s.group.left + s.sending.toNat

theorem left_step_lt (h : s.step cancelled l = some t) (hl : l ≠ .check) : t.left < s.left := by
  unfold left
  cases step_spec h with
  | check _ _ => exact absurd rfl hl
  | add hp =>
    have := WaitGroup.left_add_lt hp
    simp only
    omega
  | exit hp =>
    have := WaitGroup.left_finish_lt hp
    simp only
    omega
  | ctxDone hp => simp [StoragePhase.left, hp]
  | close hp => simp [StoragePhase.left, hp]
  | wait hp _ => simp [StoragePhase.left, hp]

theorem left_sent_lt (h : s.sent = some t) : t.left < s.left := by
  simp only [sent] at h
  split_ifs at h with hp
  obtain rfl := Option.some.inj h
  simp [left, hp]

end StorageRun

namespace LeaderProcess
variable {s t : LeaderProcess} {l : LeaderStep}

def InStorage (s : LeaderProcess) : Prop := s.leader = .storage ∧ s.storage.phase ≠ .stopped

/-- The only receiver of the storage's stop is the deferred function of the goroutine that
sends it. -/
theorem inStorage_step (hs : s.InStorage) (h : s.step l = some t) :
    t.InStorage ∧ (s.cancelled = true → t.cancelled = true) := by
  cases l with
  | cancel =>
    simp only [step] at h
    split_ifs at h
    obtain rfl := Option.some.inj h
    exact ⟨hs, fun _ => rfl⟩
  | storage l =>
    obtain ⟨u, hu, rfl⟩ := Option.map_eq_some_iff.mp h
    exact ⟨⟨hs.1, StorageRun.phase_step_ne_stopped hs.2 hu⟩, id⟩
  | pushed =>
    simp only [step] at h
    split_ifs at h
    obtain ⟨u, hu, rfl⟩ := Option.map_eq_some_iff.mp h
    simp only [StorageRun.sent] at hu
    split_ifs at hu
    obtain rfl := Option.some.inj hu
    exact ⟨hs, id⟩
  | leader =>
    simp only [step, hs.1] at h
    split_ifs at h with hp
    exact absurd hp hs.2
  | cleanExit =>
    simp only [step] at h
    split_ifs at h
    obtain rfl := Option.some.inj h
    exact ⟨hs, id⟩
  | serverRecv | serverRecvClosed | serverSent | serverCtxDone | serverWait | cleanAdd =>
    simp only [step] at h
    split_ifs at h
    obtain rfl := Option.some.inj h
    exact ⟨hs, id⟩

/-- The steps left before every goroutine of the leader has finished or waits. -/
def left (s : LeaderProcess) : ℕ := s.storage.left + s.server.left + s.clean.left

/-- Apart from the two loops that may take another turn, every goroutine comes closer to its
end with every step. -/
private theorem left_step_lt (hs : s.InStorage) (h : s.step l = some t) (hcancel : l ≠ .cancel)
    (hcheck : l ≠ .storage .check) (hrecv : l ≠ .serverRecv) : t.left < s.left := by
  unfold left
  cases l with
  | cancel => exact absurd rfl hcancel
  | serverRecv => exact absurd rfl hrecv
  | storage l =>
    obtain ⟨u, hu, rfl⟩ := Option.map_eq_some_iff.mp h
    have hlt := StorageRun.left_step_lt hu fun hl => hcheck (congrArg LeaderStep.storage hl)
    simp only
    omega
  | pushed =>
    simp only [step] at h
    split_ifs at h
    obtain ⟨u, hu, rfl⟩ := Option.map_eq_some_iff.mp h
    have hlt := StorageRun.left_sent_lt hu
    simp only
    omega
  | leader =>
    simp only [step, hs.1] at h
    split_ifs at h with hp
    exact absurd hp hs.2
  | serverRecvClosed | serverSent | serverCtxDone | serverWait =>
    simp only [step] at h
    split_ifs at h with hp
    obtain rfl := Option.some.inj h
    simp [ServerPhase.left, hp]
  | cleanAdd =>
    simp only [step] at h
    split_ifs at h with hp
    obtain rfl := Option.some.inj h
    have hlt := WaitGroup.left_add_lt hp
    simp only
    omega
  | cleanExit =>
    simp only [step] at h
    split_ifs at h with hp
    obtain rfl := Option.some.inj h
    have hlt := WaitGroup.left_finish_lt hp
    simp only
    omega

/-- A loop that could take another turn could also see the cancelled context. -/
private theorem exists_left_lt (hs : s.InStorage) (hc : s.cancelled = true)
    (h : s.step l = some t) : ∃ l t, s.step l = some t ∧ t.left < s.left := by
  by_cases hcheck : l = .storage .check
  · subst hcheck
    obtain ⟨u, hu, rfl⟩ := Option.map_eq_some_iff.mp h
    simp only [StorageRun.step] at hu
    split_ifs at hu with hp
    have hexit : s.step (.storage (.exit .send)) = some { s with
        storage := { s.storage with group := s.storage.group.finish .send hp.1 } } := by
      simp [step, StorageRun.step, hp.1, hp.2, StorageRun.CanExit, hc]
    exact ⟨_, _, hexit, left_step_lt hs hexit (by decide) (by decide) (by decide)⟩
  · by_cases hrecv : l = .serverRecv
    · subst hrecv
      simp only [step] at h
      split_ifs at h with hp
      have hdone : s.step .serverCtxDone = some { s with server := .waiting } := by
        simp [step, hc, hp.1]
      exact ⟨_, _, hdone, left_step_lt hs hdone (by decide) (by decide) (by decide)⟩
    · have hcancel : l ≠ .cancel := by
        intro hl
        subst hl
        simp [step, hc] at h
      exact ⟨l, t, h, left_step_lt hs h hcancel hcheck hrecv⟩

end LeaderProcess

variable (cleanEvents : Bool) {s : LeaderProcess}

theorem inStorage_of_reachable (h : (leaderShutdownSystem cleanEvents).Reachable s) :
    s.InStorage := by
  apply h.invariant (I := LeaderProcess.InStorage)
  · intro s hs
    obtain rfl := hs
    exact ⟨rfl, by simp [LeaderProcess.start, StorageRun.start]⟩
  · intro s l t hs ht
    exact (LeaderProcess.inStorage_step hs ht).1

/-- A leader whose context is cancelled can run into a deadlock inside `s.run`. -/
private theorem exists_run_stuck_of_cancelled (hs : s.InStorage) (hc : s.cancelled = true) :
    ∃ ls t, (leaderShutdownSystem cleanEvents).run s ls = some t ∧
      (t.InStorage ∧ t.cancelled = true) ∧ (leaderShutdownSystem cleanEvents).Stuck t := by
  apply System.exists_run_stuck LeaderProcess.left _ ⟨hs, hc⟩
  intro s h
  by_cases hstuck : (leaderShutdownSystem cleanEvents).Stuck s
  · exact .inl hstuck
  · right
    obtain ⟨l, hl⟩ := not_forall.mp hstuck
    obtain ⟨t, ht⟩ := Option.ne_none_iff_exists'.mp hl
    obtain ⟨l', t', ht', hlt⟩ := LeaderProcess.exists_left_lt h.1 h.2 ht
    have hstep := LeaderProcess.inStorage_step h.1 ht'
    exact ⟨l', t', ht', ⟨hstep.1, hstep.2 h.2⟩, hlt⟩

/-- In no run does `runLeader` return from `s.run`, and every run can be continued, with the
context cancelled, into a deadlock there. -/
theorem leader_shutdown_always_deadlocks (cleanEvents : Bool) (s : LeaderProcess)
    (h : (leaderShutdownSystem cleanEvents).Reachable s) :
    s.leader = .storage ∧
      ∃ ls t, (leaderShutdownSystem cleanEvents).run s ls = some t ∧ t.cancelled = true ∧
        t.leader = .storage ∧ (leaderShutdownSystem cleanEvents).Stuck t := by
  have hs := inStorage_of_reachable cleanEvents h
  refine ⟨hs.1, ?_⟩
  have hdead : ∀ u : LeaderProcess, u.InStorage → u.cancelled = true →
      ∃ ls t, (leaderShutdownSystem cleanEvents).run u ls = some t ∧ t.cancelled = true ∧
        t.leader = .storage ∧ (leaderShutdownSystem cleanEvents).Stuck t := by
    intro u hu hc
    obtain ⟨ls, t, hrun, ⟨ht, htc⟩, hstuck⟩ := exists_run_stuck_of_cancelled cleanEvents hu hc
    exact ⟨ls, t, hrun, htc, ht.1, hstuck⟩
  by_cases hc : s.cancelled = true
  · exact hdead s hs hc
  · have hcancel : (leaderShutdownSystem cleanEvents).step s .cancel =
        some { s with cancelled := true } := by
      simp [leaderShutdownSystem, LeaderProcess.step, hc]
    exact System.exists_run_cons hcancel (hdead _ hs rfl)

/-- The freshly started leader already has such a run. -/
theorem leader_shutdown_deadlocks_start :
    ∃ ls t, (leaderShutdownSystem true).run (.start true) ls = some t ∧ t.cancelled = true ∧
      t.leader = .storage ∧ (leaderShutdownSystem true).Stuck t :=
  (leader_shutdown_always_deadlocks true (.start true) (.init rfl)).2

/-- With the loops gone, the last sends of `storage.run` and `pushServer.run` wait for a
`runLeader` that is itself inside `storage.run`. -/
private theorem stuck_of_notifying {s : LeaderProcess} (hc : s.cancelled = true)
    (hl : s.leader = .storage) (hp : s.storage.phase = .notifying)
    (hg : s.storage.group.Settled) (hsend : s.storage.sending = false)
    (hserver : s.server = .notifying) (hclean : s.clean.Settled) :
    (leaderShutdownSystem cleanEvents).Stuck s := by
  intro l
  cases l with
  | storage l =>
    cases l with
    | add loop =>
      simp [leaderShutdownSystem, LeaderProcess.step, StorageRun.step, hg.not_launched]
    | exit loop =>
      simp [leaderShutdownSystem, LeaderProcess.step, StorageRun.step, hg.not_running]
    | check =>
      simp [leaderShutdownSystem, LeaderProcess.step, StorageRun.step, hg.not_running]
    | ctxDone | close | wait =>
      simp [leaderShutdownSystem, LeaderProcess.step, StorageRun.step, hp]
  | pushed =>
    simp [leaderShutdownSystem, LeaderProcess.step, StorageRun.sent, hsend]
  | cancel | leader | serverRecv | serverRecvClosed | serverSent | serverCtxDone | serverWait =>
    simp [leaderShutdownSystem, LeaderProcess.step, hc, hl, hp, hserver]
  | cleanAdd => simp [leaderShutdownSystem, LeaderProcess.step, hclean.not_launched]
  | cleanExit => simp [leaderShutdownSystem, LeaderProcess.step, hclean.not_running]

/-- The loops start, the context is cancelled, and everyone leaves in order. -/
theorem orderlyRun_deadlocks :
    ∃ s, (leaderShutdownSystem true).Reachable s ∧ s.cancelled = true ∧ s.leader = .storage ∧
      (leaderShutdownSystem true).Stuck s := by
  have hrun : ((leaderShutdownSystem true).run (.start true)
      [.storage (.add .consume), .storage (.add .send), .storage (.add .delete), .cleanAdd,
        .cancel, .storage .ctxDone, .storage .close, .storage (.exit .consume),
        .storage (.exit .send), .storage (.exit .delete), .storage .wait, .serverCtxDone,
        .cleanExit, .serverWait]).map (fun s => decide (s.cancelled = true ∧
          s.leader = .storage ∧ s.storage.phase = .notifying ∧ s.storage.group.Settled ∧
          s.storage.sending = false ∧ s.server = .notifying ∧ s.clean.Settled)) =
        some true := by
    decide +kernel
  obtain ⟨s, hs, hv⟩ := Option.map_eq_some_iff.mp hrun
  obtain ⟨hc, hl, hp, hg, hsend, hserver, hclean⟩ := of_decide_eq_true hv
  exact ⟨s, System.Reachable.run (.init rfl) _ hs, hc, hl,
    stuck_of_notifying true hc hl hp hg hsend hserver hclean⟩

end MiniPush.Cluster
