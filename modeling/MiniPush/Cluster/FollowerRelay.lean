import MiniPush.Cluster.Follower

/-! What a follower passes on: the messages of the leader to the hub, and the reports of the sessions to the
leader; and what is left of this when the stream to the leader has ended. -/
namespace MiniPush.Cluster.Follower
open Foundation
variable {F L : Type}

def RunPc.inHand : RunPc F L → List L
  | .push msg => [msg]
  | _ => []

/-- `client.start` has returned, and `Offline` after it. -/
def RunPc.over : RunPc F L → Bool
  | .stopping | .waiting | .awaitHub | .done => true
  | _ => false

def RunPc.toSync : RunPc F L → List F
  | .syncing rest => rest
  | _ => []

def SendPc.inHand : SendPc F → List F
  | .sending msg => [msg]
  | _ => []

/-- What the leader sent and `Hub.Run` took; what the sessions and `Online` reported, what `sendLoop` took
of it and what it sent without an error. -/
structure Relay (F L : Type) where
  received : List L
  handled : List L
  reported : List F
  taken : List F
  sent : List F
  deriving DecidableEq

def Relay.note (s : Process F L) (l : Label F L) (r : Relay F L) : Relay F L :=
  match l with
  | .recvMsg msg => { r with received := r.received ++ [msg] }
  | .hubTake => { r with handled := r.handled ++ s.sendMsgChan.take 1 }
  | .sync => if s.hub = .starting then r else { r with reported := r.reported ++ s.run.toSync.take 1 }
  | .report msg => { r with reported := r.reported ++ [msg] }
  | .sendTake => { r with taken := r.taken ++ s.recvMsgChan.take 1 }
  | .sendMsg true => { r with sent := r.sent ++ s.send.inHand }
  | _ => r

def relaySystem (F L : Type) : System (Process F L × Relay F L) (Label F L) :=
  (followerSystem F L).record ⟨[], [], [], [], []⟩ Relay.note

/-- Every message is where it should be, in order, and the channels are not overfull. -/
structure Relayed (s : Process F L) (r : Relay F L) : Prop where
  down : r.received = r.handled ++ (s.sendMsgChan ++ s.run.inHand)
  up : r.reported = r.taken ++ s.recvMsgChan
  sent : (r.sent ++ s.send.inHand).Sublist r.taken
  room : s.recvMsgChan.length ≤ chanCap

section
variable {s s' : Process F L} {r : Relay F L} {l : Label F L}

theorem Relayed.step (hi : Relayed s r) (h : Steps s l s') : Relayed s' (r.note s l) := by
  obtain ⟨hdown, hup, hsent, hroom⟩ := hi
  cases h with
  | hubTake _ hchan =>
    rw [hchan] at hdown
    exact ⟨by simp [Relay.note, hdown, hchan], hup, hsent, hroom⟩
  | connect hrun _ | connectErr hrun | online hrun | copy hrun _ | recvShutdown hrun | recvFatal hrun
  | offline hrun | stop hrun | waited hrun _ | hubStopped hrun _ =>
    rw [hrun] at hdown
    exact ⟨hdown, hup, hsent, hroom⟩
  | syncNil hrun hhub =>
    rw [hrun] at hdown
    exact ⟨by simpa [Relay.note, hhub, RunPc.inHand] using hdown, by simpa [Relay.note, hhub] using hup,
      by simpa [Relay.note, hhub] using hsent, hroom⟩
  | sync hrun hhub hfree =>
    rw [hrun] at hdown
    exact ⟨by simpa [Relay.note, hhub, RunPc.inHand] using hdown,
      by simp [Relay.note, hhub, hrun, RunPc.toSync, hup], by simpa [Relay.note, hhub] using hsent,
      by simpa using Nat.succ_le_of_lt hfree⟩
  | launch hrun =>
    rw [hrun] at hdown
    exact ⟨hdown, hup, by simpa [Relay.note, SendPc.inHand] using (List.sublist_append_left _ _).trans hsent,
      hroom⟩
  | recvMsg hrun msg =>
    rw [hrun] at hdown
    exact ⟨by simp [Relay.note, hdown, RunPc.inHand], hup, hsent, hroom⟩
  | push hrun _ =>
    rw [hrun] at hdown
    exact ⟨by simp [Relay.note, hdown, RunPc.inHand], hup, hsent, hroom⟩
  | sendBegin hsend =>
    rw [hsend] at hsent
    exact ⟨hdown, hup, hsent, hroom⟩
  | sendDone hsend _ =>
    rw [hsend] at hsent
    exact ⟨hdown, hup, hsent, hroom⟩
  | @sendTake hsend msg rest hchan =>
    rw [hsend] at hsent
    rw [hchan] at hup hroom
    have htaken : (r.note s .sendTake).taken = r.taken ++ [msg] := by simp [Relay.note, hchan]
    refine ⟨hdown, by simp [Relay.note, hup, hchan], ?_, Nat.le_of_succ_le hroom⟩
    simp only [SendPc.inHand, List.append_nil] at hsent
    rw [htaken]
    exact hsent.append (List.Sublist.refl _)
  | sendMsg hsend ok =>
    cases ok with
    | true => exact ⟨hdown, hup, by simpa [Relay.note, SendPc.inHand] using hsent, hroom⟩
    | false =>
      exact ⟨hdown, hup, by simpa [Relay.note, SendPc.inHand] using (List.sublist_append_left _ _).trans hsent,
        hroom⟩
  | report msg _ hfree => exact ⟨hdown, by simp [Relay.note, hup], hsent, by simpa using Nat.succ_le_of_lt hfree⟩
  | _ => exact ⟨hdown, hup, hsent, hroom⟩

theorem relayed_of_reachable {s : Process F L × Relay F L} (h : (relaySystem F L).Reachable s) :
    Relayed s.1 s.2 := by
  refine h.invariant (I := fun s => Relayed s.1 s.2) ?_ ?_
  · rintro ⟨_, _⟩ ⟨rfl, rfl⟩
    exact ⟨rfl, rfl, List.Sublist.refl _, Nat.zero_le _⟩
  · rintro ⟨s, r⟩ l ⟨s', r'⟩ hi ht
    obtain ⟨hstep, rfl⟩ := System.record_step.mp ht
    exact hi.step (steps_of_step hstep).2

theorem over_step (hover : s.run.over = true) (honline : s.online = false) (h : Steps s l s') :
    s'.run.over = true ∧ s'.online = false ∧ (r.note s l).received = r.received := by
  cases h with
  | connect hrun _ | connectErr hrun | online hrun | copy hrun _ | syncNil hrun _ | sync hrun _ _
  | launch hrun | recvMsg hrun _ | recvShutdown hrun | recvFatal hrun | recvErr hrun | push hrun _
  | offline hrun =>
    rw [hrun] at hover
    cases hover
  | stop _ | waited _ _ | hubStopped _ _ => exact ⟨rfl, honline, rfl⟩
  | sendMsg _ ok => cases ok <;> exact ⟨hover, honline, rfl⟩
  | _ => exact ⟨hover, honline, rfl⟩

theorem returned_step (hsend : s.send = .returned) (hover : s.run.over = true) (h : Steps s l s') :
    s'.send = .returned ∧ (r.note s l).taken = r.taken ∧ (r.note s l).sent = r.sent := by
  cases h with
  | launch hrun | syncNil hrun _ | sync hrun _ _ =>
    rw [hrun] at hover
    cases hover
  | sendBegin h | sendTake h _ | sendDone h _ =>
    rw [hsend] at h
    cases h
  | sendMsg h ok =>
    rw [hsend] at h
    cases h
  | _ => exact ⟨hsend, rfl, rfl⟩

theorem online_of_over {s : Process F L × Relay F L} (h : (relaySystem F L).Reachable s)
    (hover : s.1.run.over = true) : s.1.online = false := by
  refine h.invariant (I := fun s => s.1.run.over = true → s.1.online = false) ?_ ?_ hover
  · rintro ⟨_, _⟩ ⟨rfl, rfl⟩ _
    rfl
  · rintro ⟨s, r⟩ l ⟨s', r'⟩ hi ht
    obtain ⟨hstep, -⟩ := System.record_step.mp ht
    intro hover
    cases (steps_of_step hstep).2 with
    | connect _ _ | connectErr _ | online _ | copy _ _ | syncNil _ _ | sync _ _ _ | launch _ | recvMsg _ _
    | recvShutdown _ | recvFatal _ | push _ _ => cases hover
    | offline _ => rfl
    | stop hrun | waited hrun _ | hubStopped hrun _ => exact hi (by dsimp only; rw [hrun]; rfl)
    | _ => exact hi hover

end

/-- In every run the hub takes the messages of the leader in their order, and those it has not taken are in
the channel or in the hands of the client; what reaches the leader are reports in their order. -/
theorem relayed_in_order {s : Process F L × Relay F L} (h : (relaySystem F L).Reachable s) :
    s.2.received = s.2.handled ++ (s.1.sendMsgChan ++ s.1.run.inHand) ∧ s.2.sent.Sublist s.2.reported := by
  have hi := relayed_of_reachable h
  refine ⟨hi.down, ?_⟩
  have htaken := (List.sublist_append_left _ _).trans hi.sent
  rw [hi.up]
  exact htaken.trans (List.sublist_append_left _ _)

/-- The leader goes away after one message. Of the two reports one reached it; one is accepted after the end
of the stream. -/
def lostRun : List (Label ℕ ℕ) :=
  [.hubStart, .connect true, .online, .copy [], .launch, .sendBegin, .recvMsg 7, .push, .report 1,
    .report 2, .sendTake, .sendMsg true, .hubTake, .hubHandled, .recvErr true, .offline, .stop, .sendDone,
    .waited]

theorem relayed_in_order_lostRun :
    ∃ s, (relaySystem ℕ ℕ).Reachable s ∧ s.2 = ⟨[7], [7], [1, 2], [1], [1]⟩ ∧
      s.2.sent.Sublist s.2.reported := by
  have hrun : ((relaySystem ℕ ℕ).run (start, ⟨[], [], [], [], []⟩) lostRun).map (fun s => s.2) =
      some ⟨[7], [7], [1, 2], [1], [1]⟩ := by
    decide +kernel
  obtain ⟨s, hs, hview⟩ := Option.map_eq_some_iff.mp hrun
  have hstart : (relaySystem ℕ ℕ).Reachable (start, ⟨[], [], [], [], []⟩) := .init ⟨rfl, rfl⟩
  exact ⟨s, hstart.run _ hs, hview, (relayed_in_order (hstart.run _ hs)).2⟩

/-- Once `Offline` was called after `client.start`, in every continuation the follower gets no message of the
leader and no request finds it online; and when `sendLoop` has returned too, the leader gets no report,
and of those that are made, by requests admitted before as well, no more are accepted than the channel has
room for. -/
theorem lost_leader_for_good {s : Process F L × Relay F L} (h : (relaySystem F L).Reachable s)
    (hover : s.1.run.over = true) (ls : List (Label F L)) {t : Process F L × Relay F L}
    (hrun : (relaySystem F L).run s ls = some t) :
    t.2.received = s.2.received ∧ (relaySystem F L).step t .accept = none ∧
      (s.1.send = .returned → t.2.sent = s.2.sent ∧
        t.2.reported.length + s.1.recvMsgChan.length ≤ s.2.reported.length + chanCap) := by
  have hrelayed := relayed_of_reachable h
  have hrelayed' := relayed_of_reachable (h.run ls hrun)
  obtain ⟨hover', honline, hreceived, hdeaf⟩ : t.1.run.over = true ∧ t.1.online = false ∧
      t.2.received = s.2.received ∧ (s.1.send = .returned →
        t.1.send = .returned ∧ t.2.taken = s.2.taken ∧ t.2.sent = s.2.sent) := by
    refine System.run_invariant (I := fun t => t.1.run.over = true ∧ t.1.online = false ∧
      t.2.received = s.2.received ∧ (s.1.send = .returned →
        t.1.send = .returned ∧ t.2.taken = s.2.taken ∧ t.2.sent = s.2.sent)) ?_
      ⟨hover, online_of_over h hover, rfl, fun hsend => ⟨hsend, rfl, rfl⟩⟩ ls hrun
    rintro ⟨u, r⟩ l ⟨u', r'⟩ ⟨hu, ho, hr, hd⟩ ht
    obtain ⟨hstep, rfl⟩ := System.record_step.mp ht
    have hsteps := (steps_of_step hstep).2
    obtain ⟨hu', ho', hr'⟩ := over_step (r := r) hu ho hsteps
    refine ⟨hu', ho', hr'.trans hr, fun hsend => ?_⟩
    obtain ⟨hreturned, htaken, hsent⟩ := hd hsend
    obtain ⟨hreturned', htaken', hsent'⟩ := returned_step (r := r) hreturned hu hsteps
    exact ⟨hreturned', htaken'.trans htaken, hsent'.trans hsent⟩
  refine ⟨hreceived, ?_, fun hsend => ?_⟩
  · have hup : t.1.run ≠ .panicked := by
      intro hrun
      rw [hrun] at hover'
      cases hover'
    have haccept : (followerSystem F L).step t.1 .accept = none := by
      rw [step_of_run_ne hup]
      simp [next, honline]
    simp [relaySystem, System.record, haccept]
  · obtain ⟨-, htaken, hsent⟩ := hdeaf hsend
    have hroom := hrelayed'.room
    refine ⟨hsent, ?_⟩
    rw [hrelayed.up, hrelayed'.up, htaken, List.length_append, List.length_append]
    omega

theorem lost_leader_lostRun :
    ∃ s t, (relaySystem ℕ ℕ).Reachable s ∧ (relaySystem ℕ ℕ).run s [.report 3, .cancel] = some t ∧
      t.2.received = s.2.received ∧ (relaySystem ℕ ℕ).step t .accept = none ∧ t.2.sent = s.2.sent ∧
      t.2.reported.length + s.1.recvMsgChan.length ≤ s.2.reported.length + chanCap := by
  have hrun : ((relaySystem ℕ ℕ).run (start, ⟨[], [], [], [], []⟩) lostRun).map (fun s =>
      (s.1.run, s.1.send, ((relaySystem ℕ ℕ).run s [.report 3, .cancel]).isSome)) =
      some (.awaitHub, .returned, true) := by
    decide +kernel
  obtain ⟨s, hs, hview⟩ := Option.map_eq_some_iff.mp hrun
  simp only [Prod.mk.injEq] at hview
  obtain ⟨hawait, hsend, hmore⟩ := hview
  obtain ⟨t, ht⟩ := Option.isSome_iff_exists.mp hmore
  have hstart : (relaySystem ℕ ℕ).Reachable (start, ⟨[], [], [], [], []⟩) := .init ⟨rfl, rfl⟩
  have hreach := hstart.run _ hs
  obtain ⟨hreceived, haccept, hdeaf⟩ := lost_leader_for_good hreach (by rw [hawait]; rfl) _ ht
  exact ⟨s, t, hreach, ht, hreceived, haccept, hdeaf hsend⟩

end MiniPush.Cluster.Follower
