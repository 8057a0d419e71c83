import MiniPush.Ws.StandaloneShutdown

/-! An orderly shutdown of a standalone server always has a goroutine that can go on. -/
namespace MiniPush.Ws
open Foundation Cluster

namespace Process
variable {ι : Type} [DecidableEq ι] [Fintype ι] {cfg : StandaloneConfig ι} {s : Process ι} {i : ι}

def CanStep (cfg : StandaloneConfig ι) (s : Process ι) : Prop :=
  ∃ l : ProcessLabel ι, l.arrives = false ∧ (s.step cfg l).isSome = true

/-- The context is cancelled, `Standalone.Run` has not finished, and every goroutine has
finished or is blocked. -/
def Deadlocked (cfg : StandaloneConfig ι) (s : Process ι) : Prop :=
  s.cancelled = true ∧ s.run ≠ .deferred .finished ∧ ¬s.CanStep cfg

/-- The ping ticker wakes a `sendLoop` at its turn. -/
private theorem canStep_of_turn (h : (s.handlers i).loop .send = .running none []) :
    s.CanStep cfg :=
  ⟨.ping i true, rfl, by simp [step, HandlerRun.ping, h]⟩

private theorem isSome_offer {h : HandlerRun} (data : SessionData)
    (hd : h.closing = true ∨ h.dataChan.length < HandlerRun.dataChanCap) :
    (h.offer data).isSome = true := by
  rw [Option.isSome_iff_ne_none]
  intro hnone
  obtain ⟨hc, hl⟩ := HandlerRun.offer_eq_none_iff.mp hnone
  rcases hd with hd | hd
  · simp [hc] at hd
  · omega

/-- A goroutine at a full `dataChan` finds room, or `sendLoop` receives. -/
private theorem canStep_of_pushing {side : Side} {data : SessionData} {todo : List HandlerOp}
    (hs : s.Sound) (hl : (s.handlers i).loop side = .running (some (.push data)) todo) :
    s.CanStep cfg := by
  have hpush : (s.handlers i).pushing (s.hub.holds i) = true :=
    HandlerRun.pushing_iff.mpr (.inr ⟨side, by rw [hl]; rfl⟩)
  rcases or_assoc.mpr ((hs i).draining hpush) with hroom | hturn
  · exact ⟨.work i side, rfl, by simp [step, HandlerRun.work, hl, isSome_offer data hroom]⟩
  · exact canStep_of_turn hturn

private theorem canStep_of_receives (hsync : s.run ≠ .syncing) (hnear : s.run.away = false)
    {side : Side} {todo : List HandlerOp}
    (hl : (s.handlers i).loop side = .running (some .offline) todo) : s.CanStep cfg := by
  cases hrun : s.run with
  | syncing => exact absurd hrun hsync
  | kicking sids => simp [hrun, RunPhase.away] at hnear
  | deferred op => simp [hrun, RunPhase.away] at hnear
  | starting => exact ⟨.goOnline, rfl, by simp [step, hrun]⟩
  | copying => exact ⟨.copySessions, rfl, by simp [step, hrun]⟩
  | loop => exact ⟨.deliver i side, rfl, by simp [step, hrun, HandlerRun.delivered, hl]⟩

/-- Whoever holds a handler's mutex can go on, unless it waits for the lock of the store or
for `Standalone.Run`. -/
private theorem canStep_of_locked (hs : s.Sound) (hsync : s.run ≠ .syncing)
    (hl : (s.handlers i).locked = true)
    (hdel : ∀ side, ((s.handlers i).loop side).held = some .del → s.hub.storeLocked = false)
    (hoff : ∀ side, ((s.handlers i).loop side).held = some .offline → s.run.away = false) :
    s.CanStep cfg := by
  have hheld : ∃ side, ((s.handlers i).loop side).held ≠ none := by
    by_contra hnone
    have hfree := HandlerRun.locked_eq_false_iff.mpr fun side =>
      not_not.mp (not_exists.mp hnone side)
    simp [hl] at hfree
  obtain ⟨side, hside⟩ := hheld
  cases hloop : (s.handlers i).loop side with
  | absent | finished => simp [hloop, LoopState.held] at hside
  | running held todo =>
    cases held with
    | none => simp [hloop, LoopState.held] at hside
    | some op =>
      cases op with
      | push data => exact canStep_of_pushing hs hloop
      | del =>
        have hfree := hdel side (by rw [hloop]; rfl)
        refine ⟨.work i side, rfl, ?_⟩
        simp only [step, HandlerRun.work, hloop, hfree, Option.isSome_map, Bool.false_eq_true,
          if_false]
        split_ifs <;> rfl
      | offline => exact canStep_of_receives hsync (hoff side (by rw [hloop]; rfl)) hloop

private theorem canStep_of_handle {held : Option (ι × SessionData)} {todo : List (HubOp ι)}
    (hs : s.Sound) (hsync : s.run ≠ .syncing) (hhub : s.hub = .handle held todo) :
    s.CanStep cfg := by
  cases held with
  | some p =>
    obtain ⟨i, data⟩ := p
    have hpush : (s.handlers i).pushing (s.hub.holds i) = true :=
      HandlerRun.pushing_iff.mpr (.inl (by simp [hhub, HubPhase.holds]))
    rcases or_assoc.mpr ((hs i).draining hpush) with hroom | hturn
    · exact ⟨.hubWork [], rfl, by simp [step, hubWork, hhub, isSome_offer data hroom]⟩
    · exact canStep_of_turn hturn
  | none =>
    cases todo with
    | nil => exact ⟨.hubWork [], rfl, by simp [step, hubWork, hhub]⟩
    | cons op todo =>
      cases op with
      | get i =>
        refine ⟨.hubWork [], rfl, ?_⟩
        simp only [step, hubWork, hhub]
        split_ifs <;> rfl
      | append i data =>
        by_cases hl : (s.handlers i).locked = true
        · have hneeds : s.hub.needs i = true := by simp [hhub, HubPhase.needs, HubOp.appends]
          apply canStep_of_locked hs hsync hl
          · intro side _
            rw [hhub]
            rfl
          · intro side hoffline
            by_contra haway
            have hneeded : s.needed i = true := by simpa [needed, hneeds] using haway
            exact (hs i).receives hneeded side hoffline
        · refine ⟨.hubWork [], rfl, ?_⟩
          simp only [step, hubWork, hhub, hl]
          cases (s.handlers i).offer data <;> rfl
      | remove i => exact ⟨.hubWork [], rfl, by simp [step, hubWork, hhub]⟩
      | getByUid uid =>
        obtain ⟨slice, hslice⟩ : ∃ slice, s.IsSlice cfg uid slice :=
          ⟨(Finset.univ.filter fun i => (s.handlers i).stored = true ∧ cfg.uid i = uid).toList,
            Finset.nodup_toList _, fun i => by simp⟩
        exact ⟨.hubWork slice, rfl, by simp [step, hubWork, hhub, hslice]⟩

private theorem canStep_of_closing {rest : List ι} (hs : s.Sound) (hsync : s.run ≠ .syncing)
    (hhub : s.hub = .closing rest) : s.CanStep cfg := by
  cases rest with
  | nil => exact ⟨.hubWork [], rfl, by simp [step, hubWork, hhub]⟩
  | cons i rest =>
    by_cases hl : (s.handlers i).locked = true
    · obtain ⟨hstored, hdel⟩ := (hs i).stays (by simp [hhub, HubPhase.closes])
      apply canStep_of_locked hs hsync hl
      · intro side hheld
        exact absurd hheld (hdel side)
      · intro side hheld
        exact absurd ((hs i).offline side hheld) (by simp [hstored])
    · exact ⟨.hubWork [], rfl, by simp [step, hubWork, hhub, hl]⟩

/-- Before it has seen the cancelled context, `Hub.Run` comes back to its `select`. -/
private theorem canStep_of_not_leaving (hs : s.Sound) (hsync : s.run ≠ .syncing)
    (hl : s.hub.leaving = false) (hselect : s.hub = .select → s.CanStep cfg) : s.CanStep cfg := by
  cases hhub : s.hub with
  | starting => exact ⟨.hubStart, rfl, by simp [step, hhub]⟩
  | select => exact hselect hhub
  | handle held todo => exact canStep_of_handle hs hsync hhub
  | closing _ | notifying | stopped => simp [hhub, HubPhase.leaving] at hl

private theorem canStep_of_storage (hs : s.Sound) (hp : s.Phased) (hc : s.cancelled = true)
    (hrun : s.run = .deferred .recvStorageStop) : s.CanStep cfg := by
  by_cases hnotify : s.storage.phase = .notifying
  · exact ⟨.deferred, rfl, by simp [step, hrun, perform, StorageRun.notified, hnotify]⟩
  · have hstop : s.storage.phase ≠ .stopped := by
      intro hstopped
      have hr := hp.storage hstopped
      simp [hrun, RunPhase.storageReceived, StopOp.pastStorage] at hr
    rcases StorageRun.progress hnotify hstop with hsend | ⟨l, t, ht⟩
    · apply canStep_of_not_leaving hs hp.syncing (hp.sending hsend)
      intro hselect
      exact ⟨.hubRecvHeadSeq [], rfl, by simp [step, hselect, StorageRun.sent, hsend]⟩
    · exact ⟨.storage l, rfl, by simp [step, hc, ht]⟩

private theorem canStep_of_hub (hs : s.Sound) (hp : s.Phased) (hc : s.cancelled = true)
    (hrun : s.run = .deferred .recvHubStop) : s.CanStep cfg := by
  cases hhub : s.hub with
  | starting => exact ⟨.hubStart, rfl, by simp [step, hhub]⟩
  | select =>
    obtain ⟨order, horder⟩ : ∃ order, s.IsOrder order :=
      ⟨(Finset.univ.filter fun i => (s.handlers i).stored = true).toList,
        Finset.nodup_toList _, fun i => by simp⟩
    exact ⟨.hubCtxDone order, rfl, by simp [step, hc, hhub, horder]⟩
  | handle held todo => exact canStep_of_handle hs hp.syncing hhub
  | closing rest => exact canStep_of_closing hs hp.syncing hhub
  | notifying => exact ⟨.deferred, rfl, by simp [step, hrun, perform, hhub]⟩
  | stopped =>
    have hr := hp.hub.mp hhub
    simp [hrun, RunPhase.hubReceived, StopOp.pastHub] at hr

theorem not_deadlocked (hs : s.Sound) (hp : s.Phased) : ¬s.Deadlocked cfg := by
  rintro ⟨hc, hfinished, hblocked⟩
  apply hblocked
  cases hrun : s.run with
  | syncing => exact absurd hrun hp.syncing
  | starting => exact ⟨.goOnline, rfl, by simp [step, hrun]⟩
  | copying => exact ⟨.copySessions, rfl, by simp [step, hrun]⟩
  | loop => exact ⟨.runCtxDone, rfl, by simp [step, hrun, hc]⟩
  | kicking sids =>
    apply canStep_of_not_leaving hs hp.syncing (hp.kicking (by simp [hrun, RunPhase.kicks]))
    intro hselect
    exact ⟨.hubRecvKickoff, rfl, by simp [step, hrun, hselect]⟩
  | deferred op =>
    cases op with
    | recvStorageStop => exact canStep_of_storage hs hp hc hrun
    | recvHubStop => exact canStep_of_hub hs hp hc hrun
    | finished => exact absurd hrun hfinished
    | stopTicker | shutdownHttp | closeStorageStop | closeHubStop | closeSendMsgChan
    | closeRecvMsgChan | notifyStop => exact ⟨.deferred, rfl, by simp [step, hrun, perform]⟩

omit [Fintype ι] in
theorem sound_start : (start cfg).Sound := by
  intro i
  constructor
  · exact fun _ _ => rfl
  · intro side hheld
    exact absurd hheld (by simp [start, HandlerRun.start, LoopState.held])
  · exact Nat.zero_le _
  · exact fun side hheld => absurd rfl hheld
  · exact fun side _ hheld => absurd rfl hheld
  · intro hpush
    exact absurd hpush (by simp [start, HandlerRun.start, HandlerRun.pushing, HubPhase.holds,
      LoopState.pushing])
  · intro hc
    exact absurd hc (by simp [start, HubPhase.closes])
  · intro hn
    exact absurd hn (by simp [start, needed, RunPhase.away])

omit [DecidableEq ι] [Fintype ι] in
theorem phased_start : (start cfg).Phased := by
  constructor
  · simp [start]
  · simp [start, RunPhase.kicks]
  · simp [start, StorageRun.start]
  · simp [start, StorageRun.start]
  · simp [start, RunPhase.hubReceived]

end Process

/-- In every run of orderly steps, as long as `Standalone.Run` has not finished after the context
was cancelled, some goroutine can go on. -/
theorem orderly_shutdown_never_deadlocks {ι : Type} [DecidableEq ι] [Fintype ι]
    (cfg : StandaloneConfig ι) (s : Process ι)
    (h : (processSystem cfg).ReachableVia Process.InOrder s) : ¬s.Deadlocked cfg := by
  have hinv : s.Sound ∧ s.Phased := by
    apply h.invariant (I := fun s => s.Sound ∧ s.Phased)
    · intro s hs
      obtain rfl := hs
      exact ⟨Process.sound_start, Process.phased_start⟩
    · intro s l t hs hl ht
      exact ⟨Process.sound_step hs.1 hl ht, Process.phased_step hs.2 hl ht⟩
  exact Process.not_deadlocked hinv.1 hinv.2

/-- A session is open and its user gets a head seq while the server is cancelled; the hub has
stopped and `Standalone.Run` waits for it. -/
theorem orderly_shutdown_openSession : ∃ s : Process (Fin 1),
    (processSystem oneSessionConfig).ReachableVia Process.InOrder s ∧ s.cancelled = true ∧
      s.run = .deferred .recvHubStop ∧ s.hub = .notifying ∧ ¬s.Deadlocked oneSessionConfig := by
  have hrun : ((processSystem oneSessionConfig).runVia
      (fun s l => decide (s.InOrder l)) (.start oneSessionConfig)
      [.storage (.add .consume), .storage (.add .send), .hubStart, .goOnline, .copySessions,
        .serveCheck 0, .serveAdd 0, .serveSend 0, .serveSent 0 [], .storage .check, .cancel,
        .hubRecvHeadSeq [7], .hubWork [0], .hubWork [], .hubWork [], .take 0 true, .runCtxDone,
        .deferred, .deferred, .storage .ctxDone, .storage .close, .storage (.exit .consume),
        .storage (.exit .send), .storage .wait, .deferred, .deferred, .hubCtxDone [0],
        .hubWork [], .hubWork []]).map
        (fun s => (s.cancelled, s.run, s.hub)) =
        some (true, .deferred .recvHubStop, .notifying) := by
    decide +kernel
  obtain ⟨s, hs, hv⟩ := Option.map_eq_some_iff.mp hrun
  obtain ⟨hc, hv⟩ := Prod.mk.inj hv
  obtain ⟨hrun, hhub⟩ := Prod.mk.inj hv
  have hreach := System.ReachableVia.runVia (fun _ _ h => of_decide_eq_true h) (.init rfl) _ hs
  exact ⟨s, hreach, hc, hrun, hhub, orderly_shutdown_never_deadlocks _ s hreach⟩

def noSessionConfig : StandaloneConfig (Fin 0) := ⟨false, false, fun _ => 7⟩

/-- `cache.check` is sending when the context is cancelled and `Hub.Run` sees it first: the
storage waits for its `sendLoop`, `Standalone.Run` for the storage, and `Hub.Run` for
`Standalone.Run`. -/
theorem cancelledSend_deadlocks : ∃ s : Process (Fin 0),
    (processSystem noSessionConfig).Reachable s ∧ s.Deadlocked noSessionConfig := by
  have hrun : ((processSystem noSessionConfig).run (.start noSessionConfig)
      [.storage (.add .consume), .storage (.add .send), .hubStart, .goOnline, .copySessions,
        .storage .check, .cancel, .hubCtxDone [], .hubWork [], .runCtxDone, .deferred, .deferred,
        .storage .ctxDone, .storage .close, .storage (.exit .consume)]).map
        (fun s => decide (s.cancelled = true ∧ s.run = .deferred .recvStorageStop ∧
          s.hub = .notifying ∧ s.storage.phase = .waiting ∧ s.storage.sending = true ∧
          s.storage.group.counter = 1 ∧ s.storage.group.phase .consume = .finished ∧
          s.storage.group.phase .send = .running ∧ s.storage.group.phase .delete = .absent)) =
        some true := by
    decide +kernel
  obtain ⟨s, hs, hv⟩ := Option.map_eq_some_iff.mp hrun
  obtain ⟨hc, hrun, hhub, hphase, hsend, hcount, hconsume, hloop, hdelete⟩ := of_decide_eq_true hv
  refine ⟨s, System.Reachable.run (.init rfl) _ hs, hc, by simp [hrun], ?_⟩
  rintro ⟨l, hl, hstep⟩
  cases l with
  | storage l =>
    cases l with
    | add loop =>
      cases loop <;> simp [Process.step, StorageRun.step, hconsume, hloop, hdelete] at hstep
    | exit loop =>
      cases loop <;>
        simp [Process.step, StorageRun.step, StorageRun.CanExit, hconsume, hloop, hdelete, hsend]
          at hstep
    | check | ctxDone | close | wait =>
      simp [Process.step, StorageRun.step, hphase, hsend, hcount] at hstep
  | deferred => simp [Process.step, hrun, Process.perform, StorageRun.notified, hphase] at hstep
  | hubWork slice => simp [Process.step, Process.hubWork, hhub] at hstep
  | cancel | goOnline | copySessions | tick _ | runCtxDone | hubStart | hubCtxDone _
  | hubRecvHeadSeq _ | hubRecvKickoff | hubRecvClosed =>
    simp [Process.step, hc, hrun, hhub] at hstep
  | serveCheck i | serveAdd i | serveSend i | serveSent i _ | read i _ | recvReturn i | take i _
  | ping i _ | sendReturn i | work i _ | deliver i _ => exact i.elim0

end MiniPush.Ws
