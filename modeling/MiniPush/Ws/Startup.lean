import MiniPush.Ws.HandlerSpec
import MiniPush.Ws.StandaloneSpec

/-! The start of a standalone server. `Hub.Online` opens the hub to requests before it copies the sessions,
`Standalone.Run` is the only receiver of what `Online` then sends, and `followerC` is nil until `Hub.Run` has
begun. -/
namespace MiniPush.Ws
open Foundation

def RunPhase.early {ι : Type} : RunPhase ι → Bool
  | .starting | .copying | .syncing => true
  | _ => false

def HandlerRun.Unstarted (h : HandlerRun) : Prop := ∀ side, h.loop side = .absent

namespace HandlerRun.Unstarted
variable {h h' : HandlerRun} (hu : h.Unstarted)
include hu

theorem read (enableClientMsg : Bool) (result : ReadResult) : h.read enableClientMsg result = none := by
  simp [HandlerRun.read, hu .recv]

theorem recvReturn : h.recvReturn = none := by
  simp [HandlerRun.recvReturn, hu .recv]

theorem take (written : Bool) : h.take written = none := by
  unfold HandlerRun.take
  split
  · rfl
  · simp [hu .send]

theorem ping (written : Bool) : h.ping written = none := by
  simp [HandlerRun.ping, hu .send]

theorem sendReturn : h.sendReturn = none := by
  simp [HandlerRun.sendReturn, hu .send]

theorem work (storeLocked hubHolds : Bool) (side : Side) : h.work storeLocked hubHolds side = none := by
  simp only [HandlerRun.work, hu side]

theorem delivered (side : Side) : h.delivered side = none := by
  simp only [HandlerRun.delivered, hu side]

end HandlerRun.Unstarted

namespace Process
variable {ι : Type} [DecidableEq ι] {cfg : StandaloneConfig ι} {s t : Process ι} {l : ProcessLabel ι} {i : ι}

theorem hubMove_handler {slice : List ι} (hm : HubMove cfg s slice t) (i : ι) :
    (t.handlers i).serve = (s.handlers i).serve ∧ (t.handlers i).loop = (s.handlers i).loop := by
  have hset : ∀ {j : ι} {h : HandlerRun}, h.serve = (s.handlers j).serve → h.loop = (s.handlers j).loop →
      ((s.setHandler j h).handlers i).serve = (s.handlers i).serve ∧
        ((s.setHandler j h).handlers i).loop = (s.handlers i).loop := by
    intro j h hserve hloop
    by_cases hj : i = j
    · rw [hj, setHandler_handlers_self]
      exact ⟨hserve, hloop⟩
    · rw [setHandler_handlers_of_ne _ _ hj]
      exact ⟨rfl, rfl⟩
  cases hm with
  | appended _ _ ho =>
    obtain ⟨hloop, -, hserve, -⟩ := HandlerRun.offer_eq_some ho
    exact hset hserve hloop
  | resumed _ ho =>
    obtain ⟨hloop, -, hserve, -⟩ := HandlerRun.offer_eq_some ho
    exact hset hserve hloop
  | removed _ => exact hset rfl rfl
  | closed _ => exact hset rfl rfl
  | _ => exact ⟨rfl, rfl⟩

/-- The steps that can touch a session without loops: those of `Hub.Run`, of its own `ServeHTTP`, and the
one that starts the loops. -/
theorem unstarted_cases (h : Step cfg s l t) (hu : (s.handlers i).Unstarted) :
    t.handlers i = s.handlers i ∨ (∃ slice, HubMove cfg s slice t) ∨
      ((s.handlers i).serve ≠ .parked ∧ (t.handlers i).Unstarted) ∨ ∃ kick, l = .serveSent i kick := by
  have hloops : ∀ {j : ι} {o : Option HandlerRun} {h : HandlerRun}, o = some h →
      ((s.handlers j).Unstarted → o = none) → (s.setHandler j h).handlers i = s.handlers i := by
    intro j o h ho hnone
    refine setHandler_handlers_of_ne s h ?_
    rintro rfl
    rw [hnone hu] at ho
    cases ho
  have hserves : ∀ {j : ι} {phase : ServePhase} {h : HandlerRun}, (s.handlers j).serve = phase →
      phase ≠ .parked → ((s.handlers j).Unstarted → h.Unstarted) →
      (s.setHandler j h).handlers i = s.handlers i ∨
        (s.handlers i).serve ≠ .parked ∧ ((s.setHandler j h).handlers i).Unstarted := by
    intro j phase h hserve hne hh
    by_cases hj : i = j
    · subst hj
      rw [setHandler_handlers_self]
      exact .inr ⟨by rw [hserve]; exact hne, hh hu⟩
    · exact .inl (setHandler_handlers_of_ne s h hj)
  cases h with
  | hubWork hm => exact .inr (.inl ⟨_, hm⟩)
  | serveCheck hserve | serveAdd hserve | park hserve _ | serveSend hserve _ =>
    refine (hserves hserve (by simp) ?_).imp_right fun h => .inr (.inl h)
    exact fun hu side => hu side
  | @serveSent j kick _ =>
    by_cases hj : i = j
    · exact .inr (.inr (.inr ⟨kick, by rw [hj]⟩))
    · exact .inl (setHandler_handlers_of_ne s _ hj)
  | read hr => exact .inl (hloops hr fun hu => hu.read _ _)
  | recvReturn hr => exact .inl (hloops hr fun hu => hu.recvReturn)
  | take hr => exact .inl (hloops hr fun hu => hu.take _)
  | ping hr => exact .inl (hloops hr fun hu => hu.ping _)
  | sendReturn hr => exact .inl (hloops hr fun hu => hu.sendReturn)
  | work hr => exact .inl (hloops hr fun hu => hu.work _ _ _)
  | deliver _ hr => exact .inl (hloops hr fun hu => hu.delivered _)
  | _ => exact .inl rfl

theorem unstarted_step (h : Step cfg s l t) (hu : (s.handlers i).Unstarted)
    (hsent : ∀ kick, l ≠ .serveSent i kick) : (t.handlers i).Unstarted := by
  rcases unstarted_cases h hu with hsame | ⟨slice, hm⟩ | ⟨-, hu'⟩ | ⟨kick, hl⟩
  · rw [hsame]
    exact hu
  · intro side
    rw [(hubMove_handler hm i).2]
    exact hu side
  · exact hu'
  · exact absurd hl (hsent kick)

/-- `Standalone.Run` does not come back from its loop, and does not get out of `Online`. -/
theorem early_step (h : Step cfg s l t) :
    (t.run.early = true → s.run.early = true ∧ ∀ i kick, l ≠ .serveSent i kick) ∧
      (s.run = .syncing → t.run = .syncing) := by
  cases h with
  | hubWork hm => cases hm <;> exact ⟨fun h => ⟨h, by simp⟩, id⟩
  | goOnline hrun | sync hrun _ | noSession hrun | tick hrun | runCtxDone hrun | recvStorageStop hrun _
  | recvHubStop hrun _ | deferred hrun _ | hubRecvKickoff hrun _ =>
    rw [hrun]
    exact ⟨by simp [RunPhase.early], fun h => by cases h⟩
  | serveSent hrun =>
    rw [hrun]
    refine ⟨fun h => ?_, fun h => by cases h⟩
    simp only [kickoff] at h
    split_ifs at h
    · cases h
    · cases h
  | _ => exact ⟨fun h => ⟨h, by simp⟩, id⟩

variable [Fintype ι]

theorem unstarted_of_early (h : (processSystem cfg).Reachable s) (hearly : s.run.early = true) (i : ι) :
    (s.handlers i).Unstarted := by
  refine h.invariant (I := fun s => s.run.early = true → (s.handlers i).Unstarted) ?_ ?_ hearly
  · rintro _ rfl _ side
    rfl
  · intro s l t hi ht hearly
    obtain ⟨hs, hsent⟩ := (early_step (step_spec ht)).1 hearly
    exact unstarted_step (step_spec ht) (hi hs) (hsent i)

/-- When a session is in the store before `Online` has copied the sessions, `Standalone.Run` waits in
`Online` for itself: in every continuation it stays there, so that it neither handles a message nor stops,
and no session ever gets its loops. -/
theorem syncing_for_good (cfg : StandaloneConfig ι) (h : (processSystem cfg).Reachable s)
    (hsync : s.run = .syncing) (ls : List (ProcessLabel ι)) (hrun : (processSystem cfg).run s ls = some t) :
    t.run = .syncing ∧ ∀ i side, (t.handlers i).loop side = .absent := by
  have hstays : t.run = .syncing := by
    refine System.run_invariant (I := fun t => t.run = .syncing) ?_ hsync ls hrun
    intro s l t hs ht
    exact (early_step (step_spec ht)).2 hs
  exact ⟨hstays, unstarted_of_early (h.run ls hrun) (by rw [hstays]; rfl)⟩

def singleConfig : StandaloneConfig Unit := ⟨false, false, fun _ => 7⟩

theorem syncing_for_good_early_session :
    ∃ s t, (processSystem singleConfig).Reachable s ∧ s.run = .syncing ∧
      (processSystem singleConfig).run s [.hubStart, .serveSend (), .cancel] = some t ∧
      t.run = .syncing ∧ ∀ i side, (t.handlers i).loop side = .absent := by
  have hrun : ((processSystem singleConfig).run (start singleConfig)
      [.goOnline, .serveCheck (), .serveAdd (), .copySessions]).map (fun s => (s.run,
        ((processSystem singleConfig).run s [.hubStart, .serveSend (), .cancel]).isSome)) =
      some (.syncing, true) := by
    decide +kernel
  obtain ⟨s, hs, hview⟩ := Option.map_eq_some_iff.mp hrun
  obtain ⟨hsync, hmore⟩ := Prod.mk.inj hview
  obtain ⟨t, ht⟩ := Option.isSome_iff_exists.mp hmore
  have hreach : (processSystem singleConfig).Reachable s := System.Reachable.run (.init rfl) _ hs
  exact ⟨s, t, hreach, hsync, ht, syncing_for_good singleConfig hreach hsync _ ht⟩

/-- A send of `SessionOnline` completes only for a `ServeHTTP` that is at it. -/
theorem serveSent_spec {kick : List ι} (ht : s.step cfg (.serveSent i kick) = some t) :
    (s.handlers i).serve = .sending ∧ (t.handlers i).serve = .returned := by
  simp only [step] at ht
  split_ifs at ht with hserve
  cases ht
  exact ⟨hserve.1, by rw [setHandler_handlers_self]⟩

/-- A session whose `ServeHTTP` came to its send before `Hub.Run` had set the channel. -/
structure Parked (s : Process ι) (i : ι) : Prop where
  serve : (s.handlers i).serve = .parked
  unstarted : (s.handlers i).Unstarted

theorem Parked.cases (hp : Parked s i) (ht : s.step cfg l = some t) :
    t.handlers i = s.handlers i ∨ ∃ slice, HubMove cfg s slice t := by
  rcases unstarted_cases (step_spec ht) hp.unstarted with hsame | hm | ⟨hne, -⟩ | ⟨kick, rfl⟩
  · exact .inl hsame
  · exact .inr hm
  · exact absurd hp.serve hne
  · have hsending := (serveSent_spec ht).1
    rw [hp.serve] at hsending
    cases hsending

theorem Parked.step (hp : Parked s i) (ht : s.step cfg l = some t) : Parked t i := by
  rcases hp.cases ht with hsame | ⟨slice, hm⟩
  · exact ⟨hsame ▸ hp.serve, hsame ▸ hp.unstarted⟩
  · obtain ⟨hserve, hloop⟩ := hubMove_handler hm i
    exact ⟨hserve.trans hp.serve, fun side => by rw [hloop]; exact hp.unstarted side⟩

omit [Fintype ι] in
/-- The loops of a session begin when its `ServeHTTP` returns, and `ServeHTTP` does not run again. -/
theorem returned_step (h : Step cfg s l t) (hret : (s.handlers i).serve = .returned) :
    (t.handlers i).serve = .returned := by
  have hserves : ∀ {j : ι} {phase : ServePhase} {h : HandlerRun}, (s.handlers j).serve = phase →
      phase ≠ .returned → ((s.setHandler j h).handlers i).serve = .returned := by
    intro j phase h hserve hne
    rw [setHandler_handlers_of_ne s h, hret]
    rintro rfl
    exact hne (hserve.symm.trans hret)
  have hloops : ∀ {j : ι} {side : Side} {h : HandlerRun},
      HandlerRun.Moved s.hub.storeLocked (s.hub.holds j) (s.handlers j) side h →
      ((s.setHandler j h).handlers i).serve = .returned := by
    intro j side h hm
    by_cases hj : i = j
    · subst hj
      rw [setHandler_handlers_self, hm.serve, hret]
    · rw [setHandler_handlers_of_ne _ _ hj, hret]
  cases h with
  | hubWork hm => rw [(hubMove_handler hm i).1, hret]
  | serveCheck hserve | serveAdd hserve | park hserve _ | serveSend hserve _ =>
    exact hserves hserve (by simp)
  | @serveSent j kick _ =>
    by_cases hj : i = j
    · rw [hj, setHandler_handlers_self]
    · rw [setHandler_handlers_of_ne _ _ hj, hret]
  | read hr => exact hloops (HandlerRun.read_moved hr)
  | recvReturn hr => exact hloops (HandlerRun.recvReturn_moved hr)
  | take hr => exact hloops (HandlerRun.take_moved hr)
  | ping hr =>
    rcases HandlerRun.ping_moved hr with rfl | hm
    · simpa only [setHandler, Function.update_eq_self] using hret
    · exact hloops hm
  | sendReturn hr => exact hloops (HandlerRun.sendReturn_moved hr)
  | work hr => exact hloops (HandlerRun.work_moved hr)
  | deliver _ hr => exact hloops (HandlerRun.delivered_moved hr)
  | _ => exact hret

theorem parked_of_serve (h : (processSystem cfg).Reachable s) (hserve : (s.handlers i).serve = .parked) :
    Parked s i := by
  refine ⟨hserve, ?_⟩
  have hne : (s.handlers i).serve ≠ .returned := by rw [hserve]; simp
  refine h.invariant (I := fun s => (s.handlers i).serve ≠ .returned → (s.handlers i).Unstarted) ?_ ?_ hne
  · rintro _ rfl _ side
    rfl
  · intro s l t hi ht hne
    refine unstarted_step (step_spec ht) (hi fun hret => hne (returned_step (step_spec ht) hret)) ?_
    rintro kick rfl
    have hsent : s.step cfg (.serveSent i kick) = some t := ht
    exact hne (serveSent_spec hsent).2

/-- `Hub.Run` is in `appendDataChan` with a value that the channel of the session does not take. -/
structure HeldUp (s : Process ι) (i : ι) (data : SessionData) (todo : List (HubOp ι)) : Prop where
  hub : s.hub = .handle (some (i, data)) todo
  full : (s.handlers i).offer data = none

omit [Fintype ι] in
theorem HeldUp.not_hubMove {data : SessionData} {todo : List (HubOp ι)} {slice : List ι}
    (hh : HeldUp s i data todo) : ¬ HubMove cfg s slice t := by
  intro hm
  cases hm with
  | resumed hub ho =>
    obtain ⟨⟨rfl, rfl⟩, -⟩ : (_ = i ∧ _ = data) ∧ _ = todo := by
      simpa only [HubPhase.handle.injEq, Option.some.injEq, Prod.mk.injEq] using hub.symm.trans hh.hub
    rw [hh.full] at ho
    cases ho
  | back hub | found hub _ | missed hub | appended hub _ _ | blocked hub _ _ | removed hub | listed hub _
  | closed hub | closedAll hub =>
    rw [hh.hub] at hub
    cases hub

/-- Nobody else makes room in the channel of a session without loops. -/
theorem HeldUp.step {data : SessionData} {todo : List (HubOp ι)} (hh : HeldUp s i data todo)
    (hp : Parked s i) (ht : s.step cfg l = some t) : HeldUp t i data todo := by
  have hsame : t.handlers i = s.handlers i := by
    rcases hp.cases ht with hsame | ⟨slice, hm⟩
    · exact hsame
    · exact absurd hm hh.not_hubMove
  refine ⟨?_, hsame ▸ hh.full⟩
  have hstep := step_spec ht
  cases hstep with
  | hubWork hm => exact absurd hm hh.not_hubMove
  | hubStart hub | hubCtxDone hub _ | hubRecvHeadSeq hub _ | hubRecvKickoff _ hub | hubRecvClosed hub _
  | recvHubStop _ hub =>
    rw [hh.hub] at hub
    cases hub
  | _ => exact hh.hub

/-- A session that came to its send of `SessionOnline` before `Hub.Run` had set the channel sends on a nil
channel: in every continuation it has neither of its loops, and it takes nothing out of `dataChan`, so that
`Hub.Run` is still at the value it could not append. -/
theorem parked_for_good (cfg : StandaloneConfig ι) (h : (processSystem cfg).Reachable s) (i : ι)
    (hserve : (s.handlers i).serve = .parked) (ls : List (ProcessLabel ι))
    (hrun : (processSystem cfg).run s ls = some t) :
    (t.handlers i).serve = .parked ∧ (∀ side, (t.handlers i).loop side = .absent) ∧
      ∀ data todo, s.hub = .handle (some (i, data)) todo → (s.handlers i).offer data = none →
        t.hub = s.hub := by
  have hparked := parked_of_serve h hserve
  have hlast : Parked t i :=
    System.run_invariant (I := fun t => Parked t i) (fun s l t hp ht => hp.step ht) hparked ls hrun
  refine ⟨hlast.serve, hlast.unstarted, fun data todo hub hfull => ?_⟩
  have hheld : Parked t i ∧ HeldUp t i data todo := by
    refine System.run_invariant (I := fun t => Parked t i ∧ HeldUp t i data todo) ?_
      ⟨hparked, hub, hfull⟩ ls hrun
    intro s l t hs ht
    exact ⟨hs.1.step ht, hs.2.step hs.1 ht⟩
  rw [hheld.2.hub, hub]

/-- The session is at its send before `Hub.Run` starts; then one head seq after another comes for it, more
than `dataChan` takes. -/
def parkedRun : List (ProcessLabel Unit) :=
  [.storage (.add .send), .goOnline, .copySessions, .serveCheck (), .serveAdd (), .serveSend (), .hubStart] ++
    (List.replicate 16
      [.storage .check, .hubRecvHeadSeq [7], .hubWork [()], .hubWork [], .hubWork []]).flatten ++
    [.storage .check, .hubRecvHeadSeq [7], .hubWork [()], .hubWork []]

theorem parked_for_good_parkedRun :
    ∃ s t, (processSystem singleConfig).Reachable s ∧ (s.handlers ()).serve = .parked ∧
      (processSystem singleConfig).run s [.storage .check, .cancel, .runCtxDone] = some t ∧
      (t.handlers ()).serve = .parked ∧ (∀ side, (t.handlers ()).loop side = .absent) ∧
      t.hub = .handle (some ((), .msg)) [] := by
  have hrun : ((processSystem singleConfig).run (start singleConfig) parkedRun).map (fun s =>
      ((s.handlers ()).serve, s.hub, ((s.handlers ()).offer .msg).isNone,
        ((processSystem singleConfig).run s [.storage .check, .cancel, .runCtxDone]).isSome)) =
      some (.parked, .handle (some ((), .msg)) [], true, true) := by
    decide +kernel
  obtain ⟨s, hs, hview⟩ := Option.map_eq_some_iff.mp hrun
  simp only [Prod.mk.injEq] at hview
  obtain ⟨hserve, hub, hfull, hmore⟩ := hview
  obtain ⟨t, ht⟩ := Option.isSome_iff_exists.mp hmore
  have hreach : (processSystem singleConfig).Reachable s := System.Reachable.run (.init rfl) _ hs
  obtain ⟨hparked, hloops, hheld⟩ := parked_for_good singleConfig hreach () hserve _ ht
  refine ⟨s, t, hreach, hserve, ht, hparked, hloops, ?_⟩
  exact (hheld .msg [] hub (Option.isNone_iff_eq_none.mp hfull)).trans hub

end Process
end MiniPush.Ws
