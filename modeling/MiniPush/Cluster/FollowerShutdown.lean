import MiniPush.Cluster.Follower

/-! Shutdown of a follower. `Online` and `client.start` send to the channels without looking at their
context, the reader of the one is not started yet, and `Hub.Run` stops receiving from the other at the end
of its own context. -/
namespace MiniPush.Cluster.Follower
open Foundation
variable {F L : Type} {s s' : Process F L} {l : Label F L}

def HubPc.deaf : HubPc → Bool
  | .closing | .notifying | .returned => true
  | .starting | .select | .handling => false

/-- `Online` has copied the sessions, and the process is not down. -/
def RunPc.copied : RunPc F L → Bool
  | .connect | .online | .copying | .panicked => false
  | _ => true

def RunPc.early : RunPc F L → Bool
  | .connect | .online | .copying | .syncing _ | .parked => true
  | _ => false

/-- `client.start` has counted itself in the wait group and has not returned. -/
def RunPc.counted : RunPc F L → ℕ
  | .recv | .push _ => 1
  | _ => 0

def SendPc.counted : SendPc F → ℕ
  | .select | .sending _ => 1
  | _ => 0

/-- Where the shutdown hangs: `Hub.Run` waits at a handler that nobody frees; `Online` is at a nil channel,
or has more to send than the channel takes, which nobody reads yet; `client.start` is at its send, the
channel is full, and `Hub.Run` has left its loop. -/
inductive Wedged (s : Process F L) : Prop
  | held (h : s.held = true)
  | parked (h : s.run = .parked)
  | sync {rest : List F} (h : s.run = .syncing rest) (hfull : chanCap < s.recvMsgChan.length + rest.length)
  | push {msg : L} (h : s.run = .push msg) (hfull : chanCap ≤ s.sendMsgChan.length)
    (hdeaf : s.hub.deaf = true)

/-- The wait group counts the loops that are in it; `sendLoop` comes with `client.start`, and `Hub.Run`
returns with `runClient`. -/
structure Counted (s : Process F L) : Prop where
  wg : s.wg = s.run.counted + s.send.counted
  fresh : s.run.early = true → s.send = .absent
  hub : s.hub = .returned ↔ s.run = .done
  held : s.held = true → s.hub = .handling ∨ s.hub = .closing
  room : s.recvMsgChan.length ≤ chanCap

theorem Counted.step (hi : Counted s) (h : Steps s l s') : Counted s' := by
  obtain ⟨hwg, hfresh, hhub, hheld, hroom⟩ := hi
  cases h with
  | connect hrun _ | connectErr hrun | online hrun | copy hrun _ | syncNil hrun _ | recvMsg hrun _
  | push hrun _ | offline hrun | stop hrun | waited hrun _ =>
    rw [hrun] at hwg hfresh hhub
    exact ⟨hwg, by simp_all [RunPc.early], by simp_all, hheld, hroom⟩
  | sync hrun _ hfree =>
    rw [hrun] at hwg hfresh hhub
    exact ⟨hwg, fun _ => hfresh rfl, by simp_all, hheld, by simpa using Nat.succ_le_of_lt hfree⟩
  | hubStopped hrun hnotifying =>
    rw [hrun] at hwg
    exact ⟨hwg, by simp [RunPc.early], by simp, fun h => by simpa [hnotifying] using hheld h, hroom⟩
  | launch hrun =>
    rw [hrun, hfresh (by rw [hrun]; rfl)] at hwg
    rw [hrun] at hhub
    exact ⟨congrArg (· + 1) hwg, by simp [RunPc.early], by simp_all, hheld, hroom⟩
  | recvShutdown hrun | recvFatal hrun =>
    rw [hrun] at hwg hhub
    refine ⟨?_, by simp [RunPc.early], by simp_all, hheld, hroom⟩
    simp only [RunPc.counted] at hwg ⊢
    omega
  | sendBegin hsend =>
    rw [hsend] at hwg hfresh
    refine ⟨?_, by simp_all, hhub, hheld, hroom⟩
    simp only [SendPc.counted] at hwg ⊢
    omega
  | sendTake hsend hchan =>
    rw [hsend] at hwg hfresh
    rw [hchan] at hroom
    exact ⟨hwg, by simp_all, hhub, hheld, Nat.le_of_succ_le hroom⟩
  | sendMsg hsend _ =>
    rw [hsend] at hwg hfresh
    exact ⟨hwg, by simp_all, hhub, hheld, hroom⟩
  | sendDone hsend _ =>
    rw [hsend] at hwg hfresh
    refine ⟨?_, by simp_all, hhub, hheld, hroom⟩
    simp only [SendPc.counted] at hwg ⊢
    omega
  | report _ _ hfree => exact ⟨hwg, hfresh, hhub, hheld, by simpa using Nat.succ_le_of_lt hfree⟩
  | hold h => exact ⟨hwg, hfresh, hhub, fun _ => h, hroom⟩
  | hubStart h | hubTake h _ | hubDone h _ =>
    rw [h] at hheld hhub
    exact ⟨hwg, hfresh, by simpa using hhub, fun hh => absurd (hheld hh) (by simp), hroom⟩
  | hubHandled h hfree | hubClosed h hfree =>
    rw [h] at hhub
    exact ⟨hwg, hfresh, by simpa using hhub, by simp [hfree], hroom⟩
  | _ => exact ⟨hwg, hfresh, hhub, hheld, hroom⟩

theorem held_step (hheld : s.held = true) (h : Steps s l s') : s'.held = true := by
  cases h <;> first | exact hheld | rfl

theorem parked_step (hrun : s.run = .parked) (h : Steps s l s') : s'.run = .parked := by
  cases h <;> first | exact hrun | simp_all

/-- The channel of the reports has no reader while `Online` sends. -/
theorem sync_step (hi : Counted s) {rest : List F} (hrun : s.run = .syncing rest)
    (hfull : chanCap < s.recvMsgChan.length + rest.length) (h : Steps s l s') : Wedged s' := by
  have habsent := hi.fresh (by rw [hrun]; rfl)
  have hroom := hi.room
  cases h with
  | connect h _ | connectErr h | online h | copy h _ | recvMsg h _ | recvShutdown h | recvFatal h | recvErr h
  | push h _ | offline h | stop h | waited h _ | hubStopped h _ =>
    rw [hrun] at h
    cases h
  | sendBegin h | sendTake h _ | sendMsg h _ | sendDone h _ =>
    rw [habsent] at h
    cases h
  | syncNil _ _ => exact .parked rfl
  | sync h _ _ =>
    rw [hrun] at h
    obtain rfl := RunPc.syncing.inj h
    refine .sync rfl ?_
    simp only [List.length_cons, List.length_append, List.length_nil] at hfull ⊢
    omega
  | launch h =>
    rw [hrun] at h
    obtain rfl := RunPc.syncing.inj h
    simp only [List.length_nil] at hfull
    omega
  | report _ _ _ =>
    refine .sync hrun ?_
    simp only [List.length_append]
    omega
  | _ => exact .sync hrun hfull

theorem push_step {msg : L} (hrun : s.run = .push msg) (hfull : chanCap ≤ s.sendMsgChan.length)
    (hdeaf : s.hub.deaf = true) (h : Steps s l s') : Wedged s' := by
  cases h with
  | connect h _ | connectErr h | online h | copy h _ | syncNil h _ | sync h _ _ | launch h | recvMsg h _
  | recvShutdown h | recvFatal h | recvErr h | offline h | stop h | waited h _ | hubStopped h _ =>
    rw [hrun] at h
    cases h
  | push _ hroom => omega
  | hubStart hhub | hubTake hhub _ | hubHandled hhub _ | hubDone hhub _ =>
    rw [hhub] at hdeaf
    cases hdeaf
  | hold _ => exact .held rfl
  | hubClosed _ _ => exact .push hrun hfull rfl
  | _ => exact .push hrun hfull hdeaf

theorem Wedged.step (hw : Wedged s) (hi : Counted s) (h : Steps s l s') : Wedged s' := by
  cases hw with
  | held hheld => exact .held (held_step hheld h)
  | parked hrun => exact .parked (parked_step hrun h)
  | sync hrun hfull => exact sync_step hi hrun hfull h
  | push hrun hfull hdeaf => exact push_step hrun hfull hdeaf h

/-- Steps left to the end of `runClient`, with the work of the hub and of `sendLoop` that it waits for. -/
def RunPc.left : RunPc F L → ℕ
  | .syncing rest => 10 + rest.length
  | .push _ => 9
  | .recv => 6
  | .offline => 5
  | .stopping => 4
  | .waiting => 3
  | .awaitHub => 2
  | _ => 0

def HubPc.left : HubPc → ℕ
  | .starting => 5
  | .handling => 4
  | .select => 3
  | .closing => 2
  | .notifying => 1
  | .returned => 0

def SendPc.left : SendPc F → ℕ
  | .launched => 3
  | .sending _ => 2
  | .select => 1
  | .absent | .returned => 0

/-- A message in the channel costs the hub two steps. -/
def left (s : Process F L) : ℕ := s.run.left + s.hub.left + s.send.left + 2 * s.sendMsgChan.length

structure Ending (s : Process F L) : Prop where
  counted : Counted s
  cancelled : s.cancelled = true
  copied : s.run.copied = true
  free : ¬Wedged s

theorem Ending.held (hi : Ending s) : s.held = false := by
  by_contra h
  exact hi.free (.held (by simpa using h))

theorem Ending.via (hi : Ending s) (h : Steps s l s') (hc : s'.cancelled = s.cancelled)
    (hcopied : s'.run.copied = true) (hfree : ¬Wedged s') (hlt : left s' < left s) :
    ∃ l s', (followerSystem F L).step s l = some s' ∧ Ending s' ∧ left s' < left s := by
  have hup : s.run ≠ .panicked := by
    intro hrun
    have hcopied := hi.copied
    rw [hrun] at hcopied
    cases hcopied
  have hstep : (followerSystem F L).step s l = some s' := by
    rw [step_of_run_ne hup, next_of_steps h]
  exact ⟨l, s', hstep, ⟨hi.counted.step h, hc.trans hi.cancelled, hcopied, hfree⟩, hlt⟩

/-- Past the sends of `Online` and of `client.start` only a handler can hold the shutdown up. -/
theorem not_wedged (hheld : s.held = false) (hparked : s.run ≠ .parked) (hsync : ∀ rest, s.run ≠ .syncing rest)
    (hpush : ∀ msg, s.run = .push msg → s.hub.deaf = false) : ¬Wedged s := by
  rintro (h | h | ⟨h, -⟩ | ⟨h, -, hdeaf⟩)
  · rw [hheld] at h
    cases h
  · exact hparked h
  · exact hsync _ h
  · rw [hpush _ h] at hdeaf
    cases hdeaf

theorem Ending.progress_syncing (hi : Ending s) {rest : List F} (hrun : s.run = .syncing rest) :
    ∃ l s', (followerSystem F L).step s l = some s' ∧ Ending s' ∧ left s' < left s := by
  have hroom : s.recvMsgChan.length + rest.length ≤ chanCap := by
    by_contra hfull
    exact hi.free (.sync hrun (by omega))
  cases rest with
  | nil =>
    refine hi.via (.launch hrun) rfl rfl (not_wedged hi.held (by simp) (by simp) (by simp)) ?_
    simp only [left, hrun, RunPc.left, SendPc.left, hi.counted.fresh (by rw [hrun]; rfl), List.length_nil]
    omega
  | cons msg rest =>
    rw [List.length_cons] at hroom
    by_cases hhub : s.hub = .starting
    · refine hi.via (.hubStart hhub) rfl hi.copied ?_ ?_
      · rintro (h | h | ⟨h, hfull⟩ | ⟨h, -, -⟩)
        · exact absurd h (by simp [hi.held])
        · simp [hrun] at h
        · obtain rfl := RunPc.syncing.inj (hrun.symm.trans h)
          simp only [List.length_cons] at hfull
          omega
        · simp [hrun] at h
      · simp only [left, hhub, HubPc.left]
        omega
    · refine hi.via (.sync hrun hhub (by omega)) rfl rfl ?_ ?_
      · rintro (h | h | ⟨h, hfull⟩ | ⟨h, -, -⟩)
        · exact absurd h (by simp [hi.held])
        · cases h
        · obtain rfl := RunPc.syncing.inj h
          simp only [List.length_append, List.length_singleton] at hfull
          omega
        · cases h
      · simp only [left, hrun, RunPc.left, List.length_cons]
        omega

theorem Ending.progress_push (hi : Ending s) {msg : L} (hrun : s.run = .push msg) :
    ∃ l s', (followerSystem F L).step s l = some s' ∧ Ending s' ∧ left s' < left s := by
  have hfree : ∀ {s' : Process F L}, s'.run = s.run → s'.held = s.held → s'.hub.deaf = false → ¬Wedged s' := by
    intro s' hrun' hheld' hhears
    exact not_wedged (hheld'.trans hi.held) (by simp [hrun', hrun]) (by simp [hrun', hrun]) fun _ _ => hhears
  by_cases hroom : s.sendMsgChan.length < chanCap
  · refine hi.via (.push hrun hroom) rfl rfl (not_wedged hi.held (by simp) (by simp) (by simp)) ?_
    simp only [left, hrun, RunPc.left, List.length_append, List.length_singleton]
    omega
  · have hhears : s.hub.deaf = false := by
      by_contra hdeaf
      exact hi.free (.push hrun (by omega) (by simpa using hdeaf))
    cases hhub : s.hub with
    | starting =>
      refine hi.via (.hubStart hhub) rfl hi.copied (hfree rfl rfl rfl) ?_
      simp only [left, hhub, HubPc.left]
      omega
    | select =>
      cases hchan : s.sendMsgChan with
      | nil => simp [hchan, chanCap] at hroom
      | cons m rest =>
        refine hi.via (.hubTake hhub hchan) rfl hi.copied (hfree rfl rfl rfl) ?_
        simp only [left, hhub, HubPc.left, hchan, List.length_cons]
        omega
    | handling =>
      refine hi.via (.hubHandled hhub hi.held) rfl hi.copied (hfree rfl rfl rfl) ?_
      simp only [left, hhub, HubPc.left]
      omega
    | closing | notifying | returned =>
      rw [hhub] at hhears
      cases hhears

theorem Ending.progress_awaitHub (hi : Ending s) (hrun : s.run = .awaitHub) :
    ∃ l s', (followerSystem F L).step s l = some s' ∧ Ending s' ∧ left s' < left s := by
  have hfree : ∀ {s' : Process F L}, s'.run = s.run → s'.held = s.held → ¬Wedged s' := by
    intro s' hrun' hheld'
    exact not_wedged (hheld'.trans hi.held) (by simp [hrun', hrun]) (by simp [hrun', hrun])
      (by simp [hrun', hrun])
  cases hhub : s.hub with
  | starting =>
    refine hi.via (.hubStart hhub) rfl hi.copied (hfree rfl rfl) ?_
    simp only [left, hhub, HubPc.left]
    omega
  | select =>
    refine hi.via (.hubDone hhub hi.cancelled) rfl hi.copied (hfree rfl rfl) ?_
    simp only [left, hhub, HubPc.left]
    omega
  | handling =>
    refine hi.via (.hubHandled hhub hi.held) rfl hi.copied (hfree rfl rfl) ?_
    simp only [left, hhub, HubPc.left]
    omega
  | closing =>
    refine hi.via (.hubClosed hhub hi.held) rfl hi.copied (hfree rfl rfl) ?_
    simp only [left, hhub, HubPc.left]
    omega
  | notifying =>
    refine hi.via (.hubStopped hrun hhub) rfl rfl (not_wedged hi.held (by simp) (by simp) (by simp)) ?_
    simp only [left, hhub, hrun, HubPc.left, RunPc.left]
    omega
  | returned =>
    have hdone := hi.counted.hub.mp hhub
    rw [hrun] at hdone
    cases hdone

theorem Ending.progress_waiting (hi : Ending s) (hrun : s.run = .waiting) :
    ∃ l s', (followerSystem F L).step s l = some s' ∧ Ending s' ∧ left s' < left s := by
  have hwg := hi.counted.wg
  rw [hrun] at hwg
  have hfree : ∀ {s' : Process F L}, s'.run = s.run → s'.held = s.held → ¬Wedged s' := by
    intro s' hrun' hheld'
    exact not_wedged (hheld'.trans hi.held) (by simp [hrun', hrun]) (by simp [hrun', hrun])
      (by simp [hrun', hrun])
  have hgo : s.wg = 0 → ∃ l s', (followerSystem F L).step s l = some s' ∧ Ending s' ∧ left s' < left s := by
    intro hzero
    refine hi.via (.waited hrun hzero) rfl rfl (not_wedged hi.held (by simp) (by simp) (by simp)) ?_
    simp only [left, hrun, RunPc.left]
    omega
  cases hsend : s.send with
  | absent | launched | returned => exact hgo (by rw [hwg, hsend]; rfl)
  | select =>
    refine hi.via (.sendDone hsend (.inl hi.cancelled)) rfl hi.copied (hfree rfl rfl) ?_
    simp only [left, hsend, SendPc.left]
    omega
  | sending msg =>
    refine hi.via (.sendMsg hsend true) rfl hi.copied (hfree rfl rfl) ?_
    simp only [left, hsend, SendPc.left]
    omega

theorem Ending.progress (hi : Ending s) (hrunning : s.run ≠ .done) :
    ∃ l s', (followerSystem F L).step s l = some s' ∧ Ending s' ∧ left s' < left s := by
  have hcopied := hi.copied
  cases hrun : s.run with
  | syncing rest => exact hi.progress_syncing hrun
  | parked => exact absurd (.parked hrun) hi.free
  | recv =>
    refine hi.via (.recvFatal hrun) rfl rfl (not_wedged hi.held (by simp) (by simp) (by simp)) ?_
    simp only [left, hrun, RunPc.left]
    omega
  | push msg => exact hi.progress_push hrun
  | offline =>
    refine hi.via (.offline hrun) rfl rfl (not_wedged hi.held (by simp) (by simp) (by simp)) ?_
    simp only [left, hrun, RunPc.left]
    omega
  | stopping =>
    refine hi.via (.stop hrun) rfl rfl (not_wedged hi.held (by simp) (by simp) (by simp)) ?_
    simp only [left, hrun, RunPc.left]
    omega
  | waiting => exact hi.progress_waiting hrun
  | awaitHub => exact hi.progress_awaitHub hrun
  | done => exact absurd hrun hrunning
  | connect | online | copying | panicked =>
    rw [hrun] at hcopied
    cases hcopied

end MiniPush.Cluster.Follower
