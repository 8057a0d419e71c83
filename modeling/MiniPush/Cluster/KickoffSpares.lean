import MiniPush.Cluster.SessionQuota

/-! Whether a kickoff spares the sessions within the quota. The surplus is counted over all stored sessions
of the user, those already kicked off included, and the sort may leave equal create times in any order. -/
namespace MiniPush.Cluster
open Foundation System

def Session.live (a : Session) : Bool := a.kickoffTime = 0

def SessionStore.liveCount (s : SessionStore) (uid : ℤ) : ℕ := (s.ofUser uid).countP Session.live

/-- Among the sessions of a user, a live one may be in the surplus while one that was already kicked off is
kept: fewer sessions are older than the live one than are to go, and fewer are younger than the other one
than may stay. -/
def Misplaced (quota : ℤ) (slice : List Session) : Prop :=
  ∃ a ∈ slice, ∃ b ∈ slice, a.live = true ∧ b.live = false ∧
    (slice.countP fun c => c.createTime < a.createTime : ℤ) < slice.length - quota ∧
    (slice.countP fun c => b.createTime < c.createTime : ℤ) < quota

instance (quota : ℤ) (slice : List Session) : Decidable (Misplaced quota slice) :=
  inferInstanceAs (Decidable (∃ a ∈ slice, ∃ b ∈ slice, _))

namespace SessionStore
variable {quota : ℤ} {slice : List Session}

private theorem countP_live (sort : Sorting Session.createTime) (n : ℕ) (slice : List Session) :
    slice.countP Session.live =
      (sort.first n slice).countP Session.live + (sort.rest n slice).countP Session.live := by
  rw [← (sort.first_append_rest_perm n slice).countP_eq, List.countP_append]

/-- Unless sessions are misplaced, the sessions kept are as many live ones as the quota allows. -/
theorem live_rest_of_not_misplaced (sort : Sorting Session.createTime) (hquota : 1 ≤ quota)
    (h : ¬ Misplaced quota slice) :
    ((sort.rest (slice.length - quota).toNat slice).countP Session.live : ℤ) =
      min quota (slice.countP Session.live) := by
  set n := (slice.length - quota).toNat with hn
  have hcount := countP_live sort n slice
  have hlen := sort.length_rest n slice
  have hle := List.countP_le_length (p := Session.live) (l := sort.rest n slice)
  have hle' := List.countP_le_length (p := Session.live) (l := slice)
  by_cases hfirst : ∀ a ∈ sort.first n slice, a.live = false
  · have hzero : (sort.first n slice).countP Session.live = 0 := by
      rw [List.countP_eq_zero]
      simpa using hfirst
    omega
  · obtain ⟨a, ha, hlive⟩ : ∃ a ∈ sort.first n slice, a.live = true := by simpa using hfirst
    have hbefore := Sorting.countP_lt_of_mem_first ha
    have hrest : ∀ b ∈ sort.rest n slice, b.live = true := by
      intro b hb
      by_contra hkicked
      have hafter := Sorting.countP_lt_of_mem_rest hb
      refine h ⟨a, Sorting.mem_or_mem.mpr (.inl ha), b, Sorting.mem_or_mem.mpr (.inr hb), hlive,
        by simpa using hkicked, ?_, ?_⟩
      · omega
      · omega
    have hall : (sort.rest n slice).countP Session.live = (sort.rest n slice).length :=
      List.countP_eq_length.mpr hrest
    omega

/-- If sessions are misplaced, some order of equal create times kicks off a session that the quota allows. -/
theorem exists_sort_of_misplaced (h : Misplaced quota slice) :
    ∃ sort : Sorting Session.createTime,
      ((sort.rest (slice.length - quota).toNat slice).countP Session.live : ℤ) <
        min quota (slice.countP Session.live) := by
  obtain ⟨a, ha, b, hb, hlive, hkicked, hbefore, hafter⟩ := h
  have hne : b ≠ a := by
    rintro rfl
    rw [hlive] at hkicked
    cases hkicked
  let tie : Session → ℕ := fun c => if c = a then 0 else if c = b then 2 else 1
  have htie_a : ∀ c ∈ slice, tie c ≤ tie a → c = a := by
    intro c _ hle
    by_contra hca
    simp only [tie, if_neg hca, if_true] at hle
    split_ifs at hle
    · omega
    · omega
  have htie_b : ∀ c ∈ slice, tie b ≤ tie c → c = b := by
    intro c _ hle
    by_contra hcb
    simp only [tie, if_neg hcb, if_neg hne, if_true] at hle
    split_ifs at hle
    · omega
    · omega
  set n := (slice.length - quota).toNat with hn
  have hfirst : a ∈ (Sorting.thenBy Session.createTime tie).first n slice :=
    Sorting.mem_first_thenBy ha htie_a (by omega)
  have hrest : b ∈ (Sorting.thenBy Session.createTime tie).rest n slice :=
    Sorting.mem_rest_thenBy hb htie_b (by omega)
  refine ⟨.thenBy Session.createTime tie, ?_⟩
  have hcount := countP_live (.thenBy Session.createTime tie) n slice
  have hlen := (Sorting.thenBy Session.createTime tie).length_rest n slice
  have hpos : 0 < ((Sorting.thenBy Session.createTime tie).first n slice).countP Session.live :=
    List.countP_pos_iff.mpr ⟨a, hfirst, hlive⟩
  have hlt : ((Sorting.thenBy Session.createTime tie).rest n slice).countP Session.live <
      ((Sorting.thenBy Session.createTime tie).rest n slice).length :=
    List.countP_lt_length_iff.mpr ⟨b, hrest, by simp [hkicked]⟩
  omega

end SessionStore

namespace PushServer
variable {env : ServerEnv} {s : PushServer} {owner : String → String}

/-- After a kickoff of the oldest sessions of a user, the live ones are those among the others. -/
theorem liveCount_kickoff {quota uid : ℤ} (howned : s.sessionStore.Owned owner)
    (hconn : ∀ a ∈ s.sessionStore.sessions, a.hubId ∈ s.hubStreams)
    (hclock : ∀ hubId, 0 < env.clock hubId) {n : ℕ}
    (hn : n = ((s.sessionStore.ofUser uid).length - quota).toNat) :
    (let selected := s.sessionStore.getUserSessionsToKickoff env.sort uid quota
      if 0 < selected.entries.length then s.kickoff env selected else s).sessionStore.liveCount uid =
        (env.sort.rest n (s.sessionStore.ofUser uid)).countP Session.live := by
  set slice := s.sessionStore.ofUser uid with hslice
  have hsel : s.sessionStore.getUserSessionsToKickoff env.sort uid quota =
      Assoc.ofList Session.sid (env.sort.first n slice) := by
    rw [hn, ← SessionStore.oldest_eq_first]
    rfl
  have hstored : ∀ a ∈ slice, a ∈ s.sessionStore.sessions :=
    fun a ha => (SessionStore.mem_ofUser.mp ha).1
  have hfirst : ∀ a ∈ env.sort.first n slice, a ∈ slice := fun a ha => Sorting.mem_or_mem.mpr (.inl ha)
  have hrest : ∀ a ∈ env.sort.rest n slice, a ∈ slice := fun a ha => Sorting.mem_or_mem.mpr (.inr ha)
  have hstamped : ∀ a ∈ slice, Stamped s.hubStreams.keys
      (Assoc.ofList Session.sid (env.sort.first n slice)) a ↔ a ∈ env.sort.first n slice :=
    fun a ha => stamped_iff howned (fun b hb => hstored b (hfirst b hb)) (hstored a ha)
      (hconn a (hstored a ha))
  dsimp only
  rw [hsel, SessionStore.liveCount, SessionStore.ofUser, sessions_if_kickoff, List.filter_map]
  simp only [Function.comp_def, stamp_uid]
  rw [List.countP_map, ← SessionStore.ofUser, ← hslice,
    ← (env.sort.first_append_rest_perm n slice).countP_eq, List.countP_append]
  have hgone : (env.sort.first n slice).countP (Session.live ∘ stamp env s.hubStreams.keys
      (Assoc.ofList Session.sid (env.sort.first n slice))) = 0 := by
    rw [List.countP_eq_zero]
    intro a ha
    have htime := (hclock a.hubId).ne'
    simp [stamp, (hstamped a (hfirst a ha)).mpr ha, Session.live, htime]
  have hkept : (env.sort.rest n slice).countP (Session.live ∘ stamp env s.hubStreams.keys
      (Assoc.ofList Session.sid (env.sort.first n slice))) =
        (env.sort.rest n slice).countP Session.live := by
    apply List.countP_congr
    intro a ha
    have hnot : a ∉ env.sort.first n slice := fun hmem =>
      Sorting.notMem_rest (s.sessionStore.ofUser_nodup uid) hmem ha
    simp [stamp, (hstamped a (hrest a ha)).not.mpr hnot]
  rw [hgone, hkept, Nat.zero_add]

end PushServer

/-- In every state that the leader reaches with unique sids, with all hubs connected: a session that comes
online leaves, whatever the order of equal create times, as many live sessions of its user as there are
and the quota allows, exactly if no sessions are misplaced. -/
theorem quota_spared_iff (cfg : ServerConfig) (owner : String → String) (s : PushServer)
    (hs : (serverSystem cfg).ReachableVia (OwnSids owner) s) (hubId : String) (msg : FollowerMsg)
    (v : Session) (hv : msg.sessionOnline = some v) (hsid : owner v.sid = hubId)
    (hconn : ∀ a ∈ (s.sessionStore.add hubId v).sessions, a.hubId ∈ s.hubStreams) :
    (∀ env, (∀ hub, env.send hub = .ok) → (∀ hub, 0 < env.clock hub) →
      ∃ s', (serverSystem cfg).step s (.recv hubId msg env) = some s' ∧
        (s'.sessionStore.liveCount v.uid : ℤ) =
          min cfg.sessionQuota ((s.sessionStore.add hubId v).liveCount v.uid)) ↔
      ¬ Misplaced cfg.sessionQuota ((s.sessionStore.add hubId v).ofUser v.uid) := by
  have howned := (PushServer.owned_of_reachable hs).add hsid
  have hstep : ∀ env, (∀ hub, 0 < env.clock hub) →
      ∃ s', (serverSystem cfg).step s (.recv hubId msg env) = some s' ∧
        s'.sessionStore.liveCount v.uid = (env.sort.rest
          (((s.sessionStore.add hubId v).ofUser v.uid).length - cfg.sessionQuota).toNat
          ((s.sessionStore.add hubId v).ofUser v.uid)).countP Session.live := by
    intro env hclock
    exact ⟨_, PushServer.route_online hv, PushServer.liveCount_kickoff
      (s := { s with sessionStore := s.sessionStore.add hubId v }) howned hconn hclock rfl⟩
  constructor
  · intro h hmis
    obtain ⟨sort, hlt⟩ := SessionStore.exists_sort_of_misplaced hmis
    let env : ServerEnv := ⟨sort, 1, fun _ => .ok, fun _ => 1⟩
    obtain ⟨s', hs', hcount⟩ := hstep env fun _ => one_pos
    obtain ⟨t', ht', hmin⟩ := h env (fun _ => rfl) fun _ => one_pos
    obtain rfl : s' = t' := Option.some.inj (hs'.symm.trans ht')
    rw [hcount] at hmin
    exact absurd hmin hlt.ne
  · intro hmis env _ hclock
    obtain ⟨s', hs', hcount⟩ := hstep env hclock
    refine ⟨s', hs', ?_⟩
    rw [hcount, SessionStore.live_rest_of_not_misplaced env.sort cfg.quota_pos hmis]
    rfl

/-- User 7 has opened a session and opens another one; the quota is one. -/
theorem quota_spared_oneSessionRun :
    ∃ s, (serverSystem oneSession).ReachableVia (OwnSids sampleOwner) s ∧
      (s.sessionStore.add "hub2" ⟨"", "b", 7, 101, 0⟩).liveCount 7 = 2 ∧
      ∃ s', (serverSystem oneSession).step s (.recv "hub2" (onlineMsg "b" 101) calmEnv) = some s' ∧
        (s'.sessionStore.liveCount 7 : ℤ) =
          min (1 : ℤ) ((s.sessionStore.add "hub2" ⟨"", "b", 7, 101, 0⟩).liveCount 7) := by
  have hrun : ((serverSystem oneSession).runVia (fun s l => decide (OwnSids sampleOwner s l))
      .newPushServer oneSessionRun).map (fun s =>
        ((s.sessionStore.add "hub2" ⟨"", "b", 7, 101, 0⟩).liveCount 7,
          decide ((∀ a ∈ (s.sessionStore.add "hub2" ⟨"", "b", 7, 101, 0⟩).sessions,
            a.hubId ∈ s.hubStreams) ∧
            ¬ Misplaced 1 ((s.sessionStore.add "hub2" ⟨"", "b", 7, 101, 0⟩).ofUser 7)))) =
      some (2, true) := by
    decide +kernel
  obtain ⟨s, hs, hview⟩ := Option.map_eq_some_iff.mp hrun
  obtain ⟨hlive, hrest⟩ := Prod.mk.inj hview
  obtain ⟨hconn, hmis⟩ := of_decide_eq_true hrest
  have hreach : (serverSystem oneSession).ReachableVia (OwnSids sampleOwner) s :=
    ReachableVia.runVia (fun _ _ h => of_decide_eq_true h) (.init rfl) oneSessionRun hs
  exact ⟨s, hreach, hlive, (quota_spared_iff oneSession sampleOwner s hreach "hub2" (onlineMsg "b" 101)
    ⟨"", "b", 7, 101, 0⟩ rfl (by decide +kernel) hconn).mpr hmis calmEnv (fun _ => rfl)
    fun _ => (by decide : (0 : ℤ) < 200)⟩

/-- A step at time 200 whose sort puts one session behind those with its create time. -/
def lastEnv (sid : String) : ServerEnv :=
  ⟨.thenBy Session.createTime fun a => if a.sid = sid then 1 else 0, 200, fun _ => .ok, fun _ => 200⟩

/-- User 7 opens two sessions in one second; the first one is kicked off. -/
def sameSecondRun : List ServerLabel :=
  [.connect "hub" 0, .recv "hub" (onlineMsg "a" 100) (lastEnv "a"),
    .recv "hub" (onlineMsg "b" 100) (lastEnv "b")]

/-- A third session in that second makes a surplus of two. The sort leaves the session that was kicked off
already last, and both live sessions are kicked off, although the quota allows one. -/
theorem sameSecondRun_kicks_all :
    ∃ s s', (serverSystem oneSession).Reachable s ∧
      (∀ a ∈ (s.sessionStore.add "hub" ⟨"", "c", 7, 100, 0⟩).sessions, a.hubId ∈ s.hubStreams) ∧
      (s.sessionStore.add "hub" ⟨"", "c", 7, 100, 0⟩).liveCount 7 = 2 ∧
      (serverSystem oneSession).step s (.recv "hub" (onlineMsg "c" 100) (lastEnv "a")) = some s' ∧
      s'.sessionStore.liveCount 7 = 0 := by
  have hrun : ((serverSystem oneSession).run .newPushServer sameSecondRun).map (fun s =>
      (decide (∀ a ∈ (s.sessionStore.add "hub" ⟨"", "c", 7, 100, 0⟩).sessions, a.hubId ∈ s.hubStreams),
        (s.sessionStore.add "hub" ⟨"", "c", 7, 100, 0⟩).liveCount 7,
        ((serverSystem oneSession).step s (.recv "hub" (onlineMsg "c" 100) (lastEnv "a"))).map fun s' =>
          s'.sessionStore.liveCount 7)) = some (true, 2, some 0) := by
    decide +kernel
  obtain ⟨s, hs, hview⟩ := Option.map_eq_some_iff.mp hrun
  obtain ⟨hconn, hrest⟩ := Prod.mk.inj hview
  obtain ⟨hlive, hafter⟩ := Prod.mk.inj hrest
  obtain ⟨s', hs', hnone⟩ := Option.map_eq_some_iff.mp hafter
  exact ⟨s, s', Reachable.run (.init rfl) _ hs, of_decide_eq_true hconn, hlive, hs', hnone⟩

end MiniPush.Cluster
