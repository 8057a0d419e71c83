import MiniPush.Cluster.SessionQuota

/-! One session followed through a run of the leader: when it was first kicked off, and whether `gc` drops
it a minute later. -/
namespace MiniPush.Cluster
open Foundation System

def ServerLabel.clock (hubId : String) : ServerLabel → ℤ
  | .recv _ _ env | .tick env => env.clock hubId
  | .connect _ _ | .disconnect _ => 0

def ServerLabel.send (hubId : String) : ServerLabel → SendResult
  | .recv _ _ env | .tick env => env.send hubId
  | .connect _ _ | .disconnect _ => .failed

namespace PushServer
variable {cfg : ServerConfig} {s s' : PushServer} {l : ServerLabel} {hubId sid : String}

/-- The session store of a step just before `kickoff`. -/
def prepared (s : PushServer) : ServerLabel → SessionStore
  | .recv hub msg _ =>
    match msg.sessionOnline with
    | some v => s.sessionStore.add hub v
    | none =>
      if msg.sessionOffline ≠ "" then s.sessionStore.del hub msg.sessionOffline
      else if 0 < msg.syncSessions.length then s.sessionStore.addMany hub msg.syncSessions
      else s.sessionStore
  | .tick env => s.sessionStore.clean s.hubStreams.getLiveHubIds env.now
  | .connect _ _ | .disconnect _ => s.sessionStore

/-- The sessions of the prepared store that a step selects for `kickoff`. -/
def selection (cfg : ServerConfig) (s : PushServer) (l : ServerLabel) : GoMap String Session :=
  match l with
  | .recv _ msg env =>
    match msg.sessionOnline with
    | some v => (s.prepared l).getUserSessionsToKickoff env.sort v.uid cfg.sessionQuota
    | none => ∅
  | .tick env => (s.sessionStore.gc env.sort s.hubStreams.getLiveHubIds cfg.sessionQuota env.now).1
  | .connect _ _ | .disconnect _ => ∅

def KicksOff (cfg : ServerConfig) (hubId sid : String) (s : PushServer) (l : ServerLabel) : Prop :=
  hubId ∈ s.hubStreams.keys ∧ ∃ b ∈ Assoc.values (s.selection cfg l), b.hubId = hubId ∧ b.sid = sid

instance : Decidable (s.KicksOff cfg hubId sid l) := inferInstanceAs (Decidable (_ ∧ ∃ b ∈ _, _))

/-- A step prepares the store and kicks off its selection; a step without a selection may also change the
streams. -/
theorem step_cases (h : (serverSystem cfg).step s l = some s') :
    (s.selection cfg l = ∅ ∧ s'.sessionStore = s.prepared l ∧ s'.pushed = s.pushed) ∨
      ∃ env : ServerEnv, (∀ hubId, l.clock hubId = env.clock hubId ∧ l.send hubId = env.send hubId) ∧
        s' = if 0 < (s.selection cfg l).entries.length then
          ({ s with sessionStore := s.prepared l } : PushServer).kickoff env (s.selection cfg l)
        else { s with sessionStore := s.prepared l } := by
  cases l with
  | connect hub stream =>
    cases h
    exact .inl ⟨rfl, rfl, rfl⟩
  | disconnect hub =>
    cases h
    exact .inl ⟨rfl, rfl, rfl⟩
  | tick env =>
    cases h
    exact .inr ⟨env, fun _ => ⟨rfl, rfl⟩, rfl⟩
  | recv hub msg env =>
    have hroute : s.route cfg env hub msg = some s' := h
    cases hv : msg.sessionOnline with
    | some v =>
      rw [route_online hv] at hroute
      cases hroute
      refine .inr ⟨env, fun _ => ⟨rfl, rfl⟩, ?_⟩
      simp only [selection, prepared, hv]
    | none =>
      have hsel : s.selection cfg (.recv hub msg env) = ∅ := by
        simp only [selection, hv]
      refine .inl ⟨hsel, ?_⟩
      simp only [route, hv] at hroute
      simp only [prepared, hv]
      split_ifs at hroute with hoff hsync
      · cases hroute
        rw [if_pos hoff]
        exact ⟨rfl, rfl⟩
      · cases hroute
        rw [if_neg hoff, if_pos hsync]
        exact ⟨rfl, rfl⟩
      · cases hroute
        rw [if_neg hoff, if_neg hsync]
        exact ⟨rfl, rfl⟩
      · cases hroute
        rw [if_neg hoff, if_neg hsync]
        exact ⟨rfl, rfl⟩

theorem not_kicksOff (hsel : s.selection cfg l = ∅) : ¬ s.KicksOff cfg hubId sid l := by
  rintro ⟨-, b, hb, -⟩
  simp [hsel, Assoc.values] at hb

/-- A kickoff sets the time of the session, and no other step changes it. -/
theorem get?_step (h : (serverSystem cfg).step s l = some s') (hubId sid : String) :
    s'.sessionStore.get? hubId sid = ((s.prepared l).get? hubId sid).map fun a =>
      if s.KicksOff cfg hubId sid l then { a with kickoffTime := l.clock hubId } else a := by
  rcases step_cases h with ⟨hsel, hstore, -⟩ | ⟨env, henv, rfl⟩
  · simp only [if_neg (not_kicksOff hsel), hstore]
    exact Option.map_id'.symm
  · rw [get?_if_kickoff]
    cases ha : (s.prepared l).get? hubId sid with
    | none => rfl
    | some a =>
      obtain ⟨rfl, rfl⟩ := SessionStore.get?_location ha
      rw [(henv a.hubId).1]
      rfl

theorem isSome_of_kicksOff (h : s.KicksOff cfg hubId sid l) : ((s.prepared l).get? hubId sid).isSome := by
  obtain ⟨-, b, hb, hhub, hsid⟩ := h
  rw [SessionStore.isSome_get?]
  refine ⟨b, ?_, hhub, hsid⟩
  cases l with
  | connect hub stream => simp [selection, Assoc.values] at hb
  | disconnect hub => simp [selection, Assoc.values] at hb
  | tick env =>
    have hmem := Assoc.mem_of_mem_ofList hb
    exact (SessionStore.mem_ofUser.mp (SessionStore.mem_of_mem_oldest
      (SessionStore.mem_selected_gc.mp hmem))).1
  | recv hub msg env =>
    cases hv : msg.sessionOnline with
    | some v =>
      simp only [selection, hv] at hb
      have hmem := Assoc.mem_of_mem_ofList hb
      exact (List.mem_filter.mp (SessionStore.mem_of_mem_oldest hmem)).1
    | none => simp [selection, hv, Assoc.values] at hb

end PushServer

def FollowerMsg.Reports (msg : FollowerMsg) (sid : String) : Prop :=
  (∃ v ∈ msg.sessionOnline, v.sid = sid) ∨ ∃ v ∈ msg.syncSessions, v.sid = sid

instance (msg : FollowerMsg) (sid : String) : Decidable (msg.Reports sid) :=
  inferInstanceAs (Decidable (_ ∨ _))

def ServerLabel.Reports (sid : String) : ServerLabel → Prop
  | .recv _ msg _ => msg.Reports sid
  | .connect _ _ | .disconnect _ | .tick _ => False

instance (sid : String) : (l : ServerLabel) → Decidable (l.Reports sid)
  | .recv _ msg _ => inferInstanceAs (Decidable (msg.Reports sid))
  | .connect _ _ | .disconnect _ | .tick _ => isFalse not_false

/-- The leader and what happened to the session that is followed: whether its hub has reported it, and when
it was first kicked off. -/
structure Watched where
  server : PushServer
  reported : Bool
  firstKickoff : Option ℤ

namespace Watched

def start : Watched := ⟨.newPushServer, false, none⟩

/-- The session is reported once, by its hub, and the hub does not report its end. -/
def Admitted (hubId sid : String) (w : Watched) : ServerLabel → Prop
  | .recv hub msg _ => (msg.Reports sid → hub = hubId ∧ w.reported = false) ∧
      (hub = hubId → msg.sessionOffline ≠ sid)
  | _ => True

instance (hubId sid : String) (w : Watched) : (l : ServerLabel) → Decidable (w.Admitted hubId sid l)
  | .recv hub msg _ => inferInstanceAs (Decidable ((msg.Reports sid → hub = hubId ∧ w.reported = false) ∧
      (hub = hubId → msg.sessionOffline ≠ sid)))
  | .connect _ _ | .disconnect _ | .tick _ => isTrue trivial

def next (cfg : ServerConfig) (hubId sid : String) (w : Watched) (l : ServerLabel) (server : PushServer) :
    Watched where
  server := server
  reported := w.reported || decide (l.Reports sid)
  firstKickoff := if w.server.KicksOff cfg hubId sid l then some (w.firstKickoff.getD (l.clock hubId))
    else w.firstKickoff

end Watched

/-- Runs of the leader in which the session of a hub with a sid is followed. -/
def watchSystem (cfg : ServerConfig) (hubId sid : String) : System Watched ServerLabel where
  init w := w = .start
  step w l :=
    if w.Admitted hubId sid l then
      ((serverSystem cfg).step w.server l).map (w.next cfg hubId sid l)
    else none

namespace Watched
variable {cfg : ServerConfig} {hubId sid : String} {w w' : Watched} {l : ServerLabel}

theorem step_spec (h : (watchSystem cfg hubId sid).step w l = some w') :
    w.Admitted hubId sid l ∧ ∃ server, (serverSystem cfg).step w.server l = some server ∧
      w' = w.next cfg hubId sid l server := by
  simp only [watchSystem] at h
  split_ifs at h with hadm
  obtain ⟨server, hserver, rfl⟩ := Option.map_eq_some_iff.mp h
  exact ⟨hadm, server, hserver, rfl⟩

theorem Admitted.not_reports (hadm : w.Admitted hubId sid l) (hrep : w.reported = true) :
    ¬ l.Reports sid := by
  intro hreports
  cases l with
  | recv hub msg env => simp [(hadm.1 hreports).2] at hrep
  | connect hub stream => exact hreports
  | disconnect hub => exact hreports
  | tick env => exact hreports

/-- A step that does not report the session does not put it into the store. -/
theorem mem_of_mem_prepared (hadm : w.Admitted hubId sid l) (hrep : ¬ l.Reports sid) {a : Session}
    (ha : (w.server.prepared l).get? hubId sid = some a) :
    w.server.sessionStore.get? hubId sid = some a := by
  cases l with
  | connect hub stream => exact ha
  | disconnect hub => exact ha
  | tick env =>
    rw [PushServer.prepared, SessionStore.get?_clean] at ha
    split_ifs at ha
    exact (Option.filter_eq_some_iff.mp ha).1
  | recv hub msg env =>
    obtain ⟨hon, hsync⟩ := not_or.mp hrep
    rw [← ha, PushServer.prepared]
    split
    · rename_i v hv
      rw [SessionStore.get?_add, if_neg]
      rintro ⟨-, hsid⟩
      exact hon ⟨v, hv, hsid.symm⟩
    · split_ifs with hoff
      · rw [SessionStore.get?_del, if_neg]
        rintro ⟨hhub, hsid⟩
        exact hadm.2 hhub.symm hsid.symm
      · rw [SessionStore.get?_addMany_of_notMem]
        rintro - hmem
        obtain ⟨v, hv, hsid⟩ := List.mem_map.mp hmem
        exact hsync ⟨v, hv, hsid⟩
      · rfl

def KickedOnce (cfg : ServerConfig) (hubId sid : String) (w : Watched) (l : ServerLabel) : Prop :=
  w.server.KicksOff cfg hubId sid l →
    0 < l.clock hubId ∧ ∀ t ∈ w.firstKickoff, l.clock hubId ≤ t

instance (w : Watched) (l : ServerLabel) : Decidable (w.KickedOnce cfg hubId sid l) :=
  inferInstanceAs (Decidable (_ → _ ∧ ∀ t ∈ w.firstKickoff, _))

/-- A session that was kicked off bears a time between zero and its first kickoff. -/
structure Timely (hubId sid : String) (w : Watched) : Prop where
  unreported : w.reported = false → w.server.sessionStore.get? hubId sid = none
  reported : ∀ t ∈ w.firstKickoff, w.reported = true
  time : ∀ t ∈ w.firstKickoff, ∀ a ∈ w.server.sessionStore.get? hubId sid,
    0 < a.kickoffTime ∧ a.kickoffTime ≤ t

theorem timely_start (hubId sid : String) : start.Timely hubId sid where
  unreported _ := by
    simp [start, PushServer.newPushServer, SessionStore.newSessionStore, SessionStore.get?,
      SessionStore.hub]
  reported _ h := by cases h
  time _ h := by cases h

theorem timely_step (ht : w.Timely hubId sid) (hok : w.KickedOnce cfg hubId sid l)
    (hs : (watchSystem cfg hubId sid).step w l = some w') : w'.Timely hubId sid := by
  obtain ⟨hadm, server, hserver, rfl⟩ := step_spec hs
  have hget := PushServer.get?_step hserver hubId sid
  have hnone : (w.next cfg hubId sid l server).reported = false →
      (w.server.prepared l).get? hubId sid = none := by
    intro hrep
    obtain ⟨hold, hnew⟩ := Bool.or_eq_false_iff.mp hrep
    cases ha : (w.server.prepared l).get? hubId sid with
    | none => rfl
    | some a =>
      have hmem := mem_of_mem_prepared hadm (of_decide_eq_false hnew) ha
      rw [ht.unreported hold] at hmem
      cases hmem
  constructor
  · intro hrep
    rw [next, hget, hnone hrep]
    rfl
  · intro t hfirst
    by_contra hrep
    rw [Bool.not_eq_true] at hrep
    simp only [next] at hfirst
    split_ifs at hfirst with hkick
    · have hsome := PushServer.isSome_of_kicksOff hkick
      simp [hnone hrep] at hsome
    · have hold := ht.reported t hfirst
      simp [next, hold] at hrep
  · intro t hfirst a ha
    simp only [next] at hfirst ha
    rw [hget, Option.mem_def, Option.map_eq_some_iff] at ha
    obtain ⟨b, hb, rfl⟩ := ha
    split_ifs at hfirst with hkick
    · rw [if_pos hkick]
      obtain ⟨hpos, hle⟩ := hok hkick
      obtain rfl := Option.some.inj hfirst
      refine ⟨hpos, ?_⟩
      cases hw : w.firstKickoff with
      | none => exact le_refl _
      | some t => exact hle t hw
    · rw [if_neg hkick]
      have hrep := hadm.not_reports (ht.reported t hfirst)
      exact ht.time t hfirst b (mem_of_mem_prepared hadm hrep hb)

theorem get?_tick_of_timely (ht : w.Timely hubId sid) {t : ℤ} (hfirst : w.firstKickoff = some t)
    {env : ServerEnv} (hlate : t + SessionStore.deleteSinceKickoffTTL < env.now)
    (hs : (watchSystem cfg hubId sid).step w (.tick env) = some w') :
    w'.server.sessionStore.get? hubId sid = none := by
  obtain ⟨-, server, hserver, rfl⟩ := step_spec hs
  have hdropped : (w.server.prepared (.tick env)).get? hubId sid = none := by
    cases ha : (w.server.prepared (.tick env)).get? hubId sid with
    | none => rfl
    | some a =>
      rw [PushServer.prepared, SessionStore.get?_clean] at ha
      split_ifs at ha
      obtain ⟨hmem, hfresh⟩ := Option.filter_eq_some_iff.mp ha
      obtain ⟨hpos, hle⟩ := ht.time t hfirst a hmem
      have hout : SessionStore.outdated env.now a = true := by
        unfold SessionStore.outdated int64
        unfold SessionStore.deleteSinceKickoffTTL at hlate ⊢
        rw [decide_eq_true_eq]
        omega
      simp [hout] at hfresh
  rw [next, PushServer.get?_step hserver hubId sid, hdropped]
  rfl

/-- A session stamped at `clock` survives a tick that `gc` runs before its time, if its hub is live. -/
theorem get?_tick_of_stamped (cfg : ServerConfig) {a : Session}
    (ha : w.server.sessionStore.get? hubId sid = some a)
    (hlive : hubId ∈ w.server.hubStreams.getLiveHubIds) {env : ServerEnv}
    (hearly : a.kickoffTime ≤ 0 ∨ (a.kickoffTime + SessionStore.deleteSinceKickoffTTL < 2 ^ 63 ∧
      env.now ≤ a.kickoffTime + SessionStore.deleteSinceKickoffTTL))
    (hs : (watchSystem cfg hubId sid).step w (.tick env) = some w') :
    (w'.server.sessionStore.get? hubId sid).isSome := by
  obtain ⟨-, server, hserver, rfl⟩ := step_spec hs
  have hfresh : SessionStore.outdated env.now a = false := by
    unfold SessionStore.outdated int64
    unfold SessionStore.deleteSinceKickoffTTL at hearly ⊢
    rw [decide_eq_false_iff_not]
    omega
  rw [next, PushServer.get?_step hserver hubId sid, Option.isSome_map, PushServer.prepared,
    SessionStore.get?_clean, if_pos hlive, ha]
  simp [hfresh]

end Watched

/-- In every run in which the session is kicked off at most once, or again at no later time, `gc` drops it
when a minute has passed since its first kickoff. A later kickoff lets it survive such a `gc`. -/
theorem dropped_exactly_while_kickedOnce (cfg : ServerConfig) (hubId sid : String) (w : Watched)
    (hw : (watchSystem cfg hubId sid).ReachableVia (Watched.KickedOnce cfg hubId sid) w) :
    (∀ t env w', w.firstKickoff = some t → (watchSystem cfg hubId sid).step w (.tick env) = some w' →
      t + SessionStore.deleteSinceKickoffTTL < env.now →
      w'.server.sessionStore.get? hubId sid = none) ∧
    ∀ l w', (watchSystem cfg hubId sid).step w l = some w' → ¬ w.KickedOnce cfg hubId sid l →
      l.clock hubId + SessionStore.deleteSinceKickoffTTL < 2 ^ 63 →
      ∃ t env w₁ w₂, (watchSystem cfg hubId sid).step w' (.connect hubId 0) = some w₁ ∧
        w₁.firstKickoff = some t ∧ (watchSystem cfg hubId sid).step w₁ (.tick env) = some w₂ ∧
        t + SessionStore.deleteSinceKickoffTTL < env.now ∧
        (w₂.server.sessionStore.get? hubId sid).isSome := by
  have ht : w.Timely hubId sid := by
    apply hw.invariant (I := Watched.Timely hubId sid)
    · rintro _ rfl
      exact Watched.timely_start hubId sid
    · intro w l w' hi hok hs
      exact Watched.timely_step hi hok hs
  constructor
  · intro t env w' hfirst hs hlate
    exact Watched.get?_tick_of_timely ht hfirst hlate hs
  · intro l w' hs hbad hrange
    obtain ⟨-, server, hserver, rfl⟩ := Watched.step_spec hs
    obtain ⟨hkick, hlate⟩ := Classical.not_imp.mp hbad
    obtain ⟨b, hb⟩ := Option.isSome_iff_exists.mp (PushServer.isSome_of_kicksOff hkick)
    have hstamped : server.sessionStore.get? hubId sid = some { b with kickoffTime := l.clock hubId } := by
      rw [PushServer.get?_step hserver hubId sid, hb, Option.map_some, if_pos hkick]
    have hfirst : (w.next cfg hubId sid l server).firstKickoff =
        some (w.firstKickoff.getD (l.clock hubId)) := if_pos hkick
    have hconnect : ¬ server.KicksOff cfg hubId sid (.connect hubId 0) := PushServer.not_kicksOff rfl
    refine ⟨w.firstKickoff.getD (l.clock hubId), ⟨.stable _, w.firstKickoff.getD (l.clock hubId) + 61,
      fun _ => .ok, fun _ => 0⟩, _, _, rfl, (if_neg hconnect).trans hfirst, rfl, ?_, ?_⟩
    · unfold SessionStore.deleteSinceKickoffTTL
      dsimp only
      omega
    · refine Watched.get?_tick_of_stamped cfg hstamped ?_ ?_ rfl
      · exact AList.mem_keys.mp ((AList.mem_insert _).mpr (.inl rfl))
      · by_cases hpos : 0 < l.clock hubId
        · refine .inr ⟨hrange, ?_⟩
          obtain ⟨t, hmem, hlt⟩ : ∃ t ∈ w.firstKickoff, t < l.clock hubId := by
            by_contra hnone
            exact hlate ⟨hpos, fun t hmem => not_lt.mp fun hlt => hnone ⟨t, hmem, hlt⟩⟩
          have hfirst : w.firstKickoff = some t := hmem
          rw [hfirst]
          unfold SessionStore.deleteSinceKickoffTTL
          dsimp only [Option.getD_some]
          omega
        · exact .inl (not_lt.mp hpos)

/-- A user with a quota of one opens a second session; the first one is kicked off at time 200. -/
def kickedOffRun : List ServerLabel :=
  [.connect "hub" 0, .recv "hub" (onlineMsg "a" 100) (steadyEnv 150),
    .recv "hub" (onlineMsg "b" 101) (steadyEnv 200)]

theorem dropped_kickedOffRun :
    ∃ w, (watchSystem oneSession "hub" "a").ReachableVia (Watched.KickedOnce oneSession "hub" "a") w ∧
      w.firstKickoff = some 200 ∧ (w.server.sessionStore.get? "hub" "a").isSome ∧
      (∀ t env w', w.firstKickoff = some t →
        (watchSystem oneSession "hub" "a").step w (.tick env) = some w' → t + 60 < env.now →
        w'.server.sessionStore.get? "hub" "a" = none) := by
  have hrun : ((watchSystem oneSession "hub" "a").runVia
      (fun w l => decide (w.KickedOnce oneSession "hub" "a" l)) .start kickedOffRun).map (fun w =>
        (w.firstKickoff, (w.server.sessionStore.get? "hub" "a").isSome)) = some (some 200, true) := by
    decide +kernel
  obtain ⟨w, hw, hview⟩ := Option.map_eq_some_iff.mp hrun
  obtain ⟨hfirst, hstored⟩ := Prod.mk.inj hview
  have hreach : (watchSystem oneSession "hub" "a").ReachableVia
      (Watched.KickedOnce oneSession "hub" "a") w :=
    ReachableVia.runVia (fun _ _ h => of_decide_eq_true h) (.init rfl) kickedOffRun hw
  exact ⟨w, hreach, hfirst, hstored, (dropped_exactly_while_kickedOnce oneSession "hub" "a" w hreach).1⟩

/-- Then a clean tick after half a minute kicks the session off again, and the tick after a minute finds it
kicked off half a minute ago. -/
theorem kickedOffRun_keeps_session :
    ∃ w w', (watchSystem oneSession "hub" "a").Reachable w ∧ w.firstKickoff = some 200 ∧
      (watchSystem oneSession "hub" "a").step w (.tick (steadyEnv 261)) = some w' ∧
      200 + SessionStore.deleteSinceKickoffTTL < (steadyEnv 261).now ∧
      w'.server.sessionStore.get? "hub" "a" = some ⟨"hub", "a", 7, 100, 261⟩ := by
  have hrun : ((watchSystem oneSession "hub" "a").run .start
      (kickedOffRun ++ [.tick (steadyEnv 230)])).map (fun w => (w.firstKickoff,
        ((watchSystem oneSession "hub" "a").step w (.tick (steadyEnv 261))).map fun w' =>
          w'.server.sessionStore.get? "hub" "a")) =
      some (some 200, some (some ⟨"hub", "a", 7, 100, 261⟩)) := by
    decide +kernel
  obtain ⟨w, hw, hview⟩ := Option.map_eq_some_iff.mp hrun
  obtain ⟨hfirst, hafter⟩ := Prod.mk.inj hview
  obtain ⟨w', hs', hkept⟩ := Option.map_eq_some_iff.mp hafter
  exact ⟨w, w', Reachable.run (.init rfl) _ hw, hfirst, hs', by decide, hkept⟩

end MiniPush.Cluster
