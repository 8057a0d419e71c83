import MiniPush.Cluster.Route

/-! Clean ticks beside the `Route` calls: the live hubs are read under the lock of the push server,
and the sessions are deleted later under the lock of the session store. -/
namespace MiniPush.Cluster
open Foundation System

/-- The push server with its goroutines interleaved. `live` is the result of `getLiveHubIds` while a
clean tick has not yet called `gc`. -/
structure Leader where
  routes : Routes
  sessionStore : SessionStore
  live : Option (List String)

/-- `kickoff` is the loop that stamps sessions of one hub after a push. -/
inductive LeaderLabel
  | route (l : RouteLabel)
  | add (i : ℕ) (sess : Session)
  | addMany (i : ℕ) (slice : List Session)
  | del (i : ℕ) (sid : String)
  | kickoff (hubId : String) (sids : List String) (now : ℤ)
  | getLiveHubIds
  | gc (env : ServerEnv)

def IsInt64 (x : ℤ) : Prop := -2 ^ 63 ≤ x ∧ x < 2 ^ 63

instance (x : ℤ) : Decidable (IsInt64 x) := inferInstanceAs (Decidable (_ ∧ _))

namespace Leader

def start : Leader := ⟨.start, .newSessionStore, none⟩

def receivingHub (s : Leader) (i : ℕ) : Option String :=
  match s.routes.calls[i]? with
  | some ⟨hubId, .receiving, _⟩ => some hubId
  | _ => none

def step (cfg : ServerConfig) (s : Leader) : LeaderLabel → Option Leader
  | .route l => (s.routes.step l).map fun routes => { s with routes }
  | .add i sess =>
    if IsInt64 sess.kickoffTime then (s.receivingHub i).map fun hubId =>
      { s with sessionStore := s.sessionStore.add hubId sess }
    else none
  | .addMany i slice =>
    if ∀ sess ∈ slice, IsInt64 sess.kickoffTime then (s.receivingHub i).map fun hubId =>
      { s with sessionStore := s.sessionStore.addMany hubId slice }
    else none
  | .del i sid => (s.receivingHub i).map fun hubId =>
      { s with sessionStore := s.sessionStore.del hubId sid }
  | .kickoff hubId sids now =>
    if IsInt64 now then some { s with
      sessionStore := s.sessionStore.setKickoffTime hubId sids now }
    else none
  | .getLiveHubIds =>
    if s.live = none then some { s with live := some s.routes.hubStreams.getLiveHubIds } else none
  | .gc env =>
    if IsInt64 env.now then s.live.map fun live => { s with
      sessionStore := (s.sessionStore.gc env.sort live cfg.sessionQuota env.now).2
      live := none }
    else none

end Leader

def leaderSystem (cfg : ServerConfig) : System Leader LeaderLabel where
  init s := s = .start
  step s l := s.step cfg l

def Session.Expired (now : ℤ) (a : Session) : Prop :=
  0 < a.kickoffTime ∧ SessionStore.deleteSinceKickoffTTL < now - a.kickoffTime

instance (now : ℤ) (a : Session) : Decidable (a.Expired now) := inferInstanceAs (Decidable (_ ∧ _))

namespace Leader
variable {cfg : ServerConfig} {s s' : Leader}

/-- Of the sessions of registered hubs, the step to `s'` removes at most the expired ones. -/
def KeepsLive (s : Leader) (now : ℤ) (s' : Leader) : Prop :=
  ∀ a ∈ s.sessionStore.sessions, a ∉ s'.sessionStore.sessions →
    a.hubId ∉ s.routes.hubStreams ∨ a.Expired now

/-- Every session of a registered hub that has not expired lies under a hub which was registered when
the live hubs were read, and its deletion time does not overflow. -/
def Observed (s : Leader) (now : ℤ) : Prop :=
  ∀ a ∈ s.sessionStore.sessions, a.hubId ∈ s.routes.hubStreams → ¬ a.Expired now →
    (∃ live ∈ s.live, a.hubId ∈ live) ∧
      (a.kickoffTime + SessionStore.deleteSinceKickoffTTL < 2 ^ 63 ∨
        now ≤ a.kickoffTime + SessionStore.deleteSinceKickoffTTL - 2 ^ 64)

def TimesInRange (s : Leader) : Prop := ∀ a ∈ s.sessionStore.sessions, IsInt64 a.kickoffTime

theorem timesInRange_step {l : LeaderLabel} (h : s.TimesInRange) (hs : s.step cfg l = some s') :
    s'.TimesInRange := by
  intro a ha
  cases l with
  | route l =>
    obtain ⟨routes, -, rfl⟩ := Option.map_eq_some_iff.mp hs
    exact h a ha
  | add i sess =>
    simp only [step] at hs
    split_ifs at hs with hrange
    obtain ⟨hubId, -, rfl⟩ := Option.map_eq_some_iff.mp hs
    rcases SessionStore.mem_add ha with rfl | hold
    · exact hrange
    · exact h a hold
  | addMany i slice =>
    simp only [step] at hs
    split_ifs at hs with hrange
    obtain ⟨hubId, -, rfl⟩ := Option.map_eq_some_iff.mp hs
    rcases SessionStore.mem_addMany ha with ⟨sess, hsess, rfl⟩ | hold
    · exact hrange sess hsess
    · exact h a hold
  | del i sid =>
    obtain ⟨hubId, -, rfl⟩ := Option.map_eq_some_iff.mp hs
    exact h a (SessionStore.mem_del ha)
  | kickoff hubId sids now =>
    simp only [step] at hs
    split_ifs at hs with hrange
    cases hs
    rw [SessionStore.sessions_setKickoffTime] at ha
    obtain ⟨b, hb, rfl⟩ := List.mem_map.mp ha
    split_ifs
    · exact hrange
    · exact h b hb
  | getLiveHubIds =>
    simp only [step] at hs
    split_ifs at hs
    cases hs
    exact h a ha
  | gc env =>
    simp only [step] at hs
    split_ifs at hs
    obtain ⟨live, -, rfl⟩ := Option.map_eq_some_iff.mp hs
    exact h a (SessionStore.mem_clean.mp ha).1

theorem timesInRange_of_reachable (h : (leaderSystem cfg).Reachable s) : s.TimesInRange := by
  apply Reachable.invariant (I := TimesInRange) _ _ h
  · rintro _ rfl a ha
    simp [start, SessionStore.newSessionStore, SessionStore.sessions, Assoc.values] at ha
  · intro s l s' hi hs
    exact timesInRange_step hi hs

/-- Before a session expires, `gc` takes it for outdated only if its deletion time overflows. -/
theorem outdated_iff_overflow {now : ℤ} {a : Session} (htime : IsInt64 a.kickoffTime)
    (hnow : IsInt64 now) (ha : ¬ a.Expired now) :
    SessionStore.outdated now a = false ↔
      (a.kickoffTime + SessionStore.deleteSinceKickoffTTL < 2 ^ 63 ∨
        now ≤ a.kickoffTime + SessionStore.deleteSinceKickoffTTL - 2 ^ 64) := by
  unfold IsInt64 at htime hnow
  unfold Session.Expired at ha
  unfold SessionStore.outdated int64 SessionStore.deleteSinceKickoffTTL
  unfold SessionStore.deleteSinceKickoffTTL at ha
  rw [decide_eq_false_iff_not]
  omega

end Leader

/-- In every reachable state a call of `gc` removes only sessions of hubs without a stream and expired
ones, exactly if the hubs read for it still cover the stored sessions. -/
theorem gc_keeps_live_sessions_iff (cfg : ServerConfig) (s : Leader)
    (hs : (leaderSystem cfg).Reachable s) (env : ServerEnv) (s' : Leader)
    (hgc : (leaderSystem cfg).step s (.gc env) = some s') :
    s.KeepsLive env.now s' ↔ s.Observed env.now := by
  have htimes := Leader.timesInRange_of_reachable hs
  simp only [leaderSystem, Leader.step] at hgc
  split_ifs at hgc with hnow
  obtain ⟨live, hlive, rfl⟩ := Option.map_eq_some_iff.mp hgc
  constructor
  · intro hkeep a ha hreg hexp
    have hstays : a ∈ (s.sessionStore.clean live env.now).sessions := by
      by_contra hgone
      rcases hkeep a ha hgone with hunreg | hexpired
      · exact hunreg hreg
      · exact hexp hexpired
    obtain ⟨-, hhub, hout⟩ := SessionStore.mem_clean.mp hstays
    exact ⟨⟨live, hlive, hhub⟩, (Leader.outdated_iff_overflow (htimes a ha) hnow hexp).mp hout⟩
  · intro hobs a ha hgone
    by_contra hbad
    obtain ⟨hreg, hexp⟩ := not_or.mp hbad
    obtain ⟨⟨live', hlive', hhub⟩, htime⟩ := hobs a ha (not_not.mp hreg) hexp
    obtain rfl : live' = live := Option.some.inj (hlive'.symm.trans hlive)
    have hout := (Leader.outdated_iff_overflow (htimes a ha) hnow hexp).mpr htime
    exact hgone (SessionStore.mem_clean.mpr ⟨ha, hhub, hout⟩)

/-- A hub connects and reports a session before a clean tick reads the live hubs. -/
def observedRun : List LeaderLabel :=
  [.route (.call "hub"), .route (.addStream 0), .add 0 ⟨"", "a", 7, 100, 0⟩, .getLiveHubIds]

theorem gc_keeps_live_sessions_observedRun :
    ∃ s s', (leaderSystem oneSession).Reachable s ∧ s.sessionStore.sessions.length = 1 ∧
      (leaderSystem oneSession).step s (.gc calmEnv) = some s' ∧ s.Observed calmEnv.now ∧
      (s.KeepsLive calmEnv.now s' ↔ s.Observed calmEnv.now) := by
  have hrun : ((leaderSystem oneSession).run .start observedRun).map (fun s =>
      (s.sessionStore.sessions, s.live)) = some ([⟨"hub", "a", 7, 100, 0⟩], some ["hub"]) := by
    decide +kernel
  obtain ⟨s, hs, hview⟩ := Option.map_eq_some_iff.mp hrun
  obtain ⟨hsess, hlive⟩ := Prod.mk.inj hview
  have hreach : (leaderSystem oneSession).Reachable s := Reachable.run (.init rfl) _ hs
  obtain ⟨s', hs'⟩ : ∃ s', (leaderSystem oneSession).step s (.gc calmEnv) = some s' := by
    simp only [leaderSystem, Leader.step, hlive]
    exact ⟨_, if_pos (by decide)⟩
  have hobs : s.Observed calmEnv.now := by
    intro a ha _ _
    rw [hsess, List.mem_singleton] at ha
    subst ha
    exact ⟨⟨["hub"], hlive, by decide⟩, .inl (by decide)⟩
  exact ⟨s, s', hreach, by rw [hsess]; rfl, hs', hobs,
    gc_keeps_live_sessions_iff oneSession s hreach calmEnv s' hs'⟩

/-- The clean tick reads the live hubs just before the hub connects. -/
def staleRun : List LeaderLabel :=
  [.route (.call "hub"), .getLiveHubIds, .route (.addStream 0), .add 0 ⟨"", "a", 7, 100, 0⟩]

theorem staleRun_drops_live_session :
    ∃ s s', (leaderSystem oneSession).Reachable s ∧
      (leaderSystem oneSession).step s (.gc calmEnv) = some s' ∧
      s.sessionStore.get? "hub" "a" = some ⟨"hub", "a", 7, 100, 0⟩ ∧
      s'.sessionStore.get? "hub" "a" = none ∧ "hub" ∈ s.routes.hubStreams ∧
      ¬ s.KeepsLive 200 s' := by
  have hrun : ((leaderSystem oneSession).run .start staleRun).map (fun s =>
      (s.sessionStore.get? "hub" "a", decide ("hub" ∈ s.routes.hubStreams),
        ((leaderSystem oneSession).step s (.gc calmEnv)).map fun s' =>
          s'.sessionStore.get? "hub" "a")) =
      some (some ⟨"hub", "a", 7, 100, 0⟩, true, some none) := by
    decide +kernel
  obtain ⟨s, hs, hview⟩ := Option.map_eq_some_iff.mp hrun
  obtain ⟨hbefore, hrest⟩ := Prod.mk.inj hview
  obtain ⟨hreg, hafter⟩ := Prod.mk.inj hrest
  obtain ⟨s', hs', hgone⟩ := Option.map_eq_some_iff.mp hafter
  refine ⟨s, s', Reachable.run (.init rfl) _ hs, hs', hbefore, hgone, of_decide_eq_true hreg, ?_⟩
  intro hkeep
  have hmem := SessionStore.mem_sessions_of_get? hbefore
  have hnot : (⟨"hub", "a", 7, 100, 0⟩ : Session) ∉ s'.sessionStore.sessions := by
    rw [SessionStore.mem_sessions, hgone]
    simp
  rcases hkeep _ hmem hnot with hunreg | hexp
  · exact hunreg (of_decide_eq_true hreg)
  · exact absurd hexp.1 (by decide)

end MiniPush.Cluster
