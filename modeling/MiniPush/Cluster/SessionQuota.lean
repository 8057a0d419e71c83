import MiniPush.Cluster.Server

/-! The session quota: after a session came online, and after a clean tick, the sessions of a user
beyond the quota are kicked off, the oldest first. -/
namespace MiniPush.Cluster
open Foundation System

def SessionStore.ofUser (s : SessionStore) (uid : ℤ) : List Session :=
  s.sessions.filter fun a => a.uid = uid

def Selected (selected : GoMap String Session) (a : Session) : Prop :=
  ∃ b ∈ selected.lookup a.sid, b.hubId = a.hubId

instance (selected : GoMap String Session) (a : Session) : Decidable (Selected selected a) :=
  inferInstanceAs (Decidable (∃ b ∈ selected.lookup a.sid, b.hubId = a.hubId))

/-- Of the sessions of a user exactly those beyond the quota were selected. They are the oldest ones
and marked as kicked off, so that at most a quota of sessions is not. -/
structure QuotaKept (quota uid : ℤ) (selected : GoMap String Session) (s : SessionStore) : Prop where
  count : ((s.ofUser uid).countP fun a => Selected selected a : ℤ) =
    max 0 ((s.ofUser uid).length - quota)
  oldest : ∀ a ∈ s.ofUser uid, ∀ b ∈ s.ofUser uid, Selected selected a → ¬ Selected selected b →
    a.createTime ≤ b.createTime
  kickedOff : ∀ a ∈ s.ofUser uid, Selected selected a → 0 < a.kickoffTime
  live : ((s.ofUser uid).countP fun a => a.kickoffTime = 0 : ℤ) ≤ quota

namespace SessionStore
variable {s : SessionStore} {sort : Sorting Session.createTime} {quota uid : ℤ}

theorem oldest_eq_first (sort : Sorting Session.createTime) (quota : ℤ) (slice : List Session) :
    oldest sort quota slice = sort.first (slice.length - quota).toNat slice := by
  unfold oldest
  dsimp only
  split_ifs with h
  · rw [Int.toNat_of_nonpos h]
    rfl
  · rfl

theorem mem_of_mem_oldest {slice : List Session} {a : Session} (h : a ∈ oldest sort quota slice) :
    a ∈ slice := by
  rw [oldest_eq_first] at h
  exact Sorting.mem_or_mem.mpr (.inl h)

theorem ofUser_nodup (s : SessionStore) (uid : ℤ) : (s.ofUser uid).Nodup := s.sessions_nodup.filter _

theorem mem_ofUser {a : Session} : a ∈ s.ofUser uid ↔ a ∈ s.sessions ∧ a.uid = uid := by
  simp [ofUser]

/-- A change of the kickoff times that marks the oldest sessions of a user beyond the quota. -/
theorem quotaKept_of_marked (sort : Sorting Session.createTime) {s' : SessionStore} {selected : GoMap String Session}
    {mark : Session → Session} (hquota : 1 ≤ quota)
    (hsel : ∀ a ∈ s.ofUser uid, Selected selected (mark a) ↔ a ∈ oldest sort quota (s.ofUser uid))
    (hsess : s'.sessions = s.sessions.map mark) (huid : ∀ a, (mark a).uid = a.uid)
    (htime : ∀ a, (mark a).createTime = a.createTime)
    (hmark : ∀ a ∈ oldest sort quota (s.ofUser uid), 0 < (mark a).kickoffTime) :
    QuotaKept quota uid selected s' := by
  have huser : s'.ofUser uid = (s.ofUser uid).map mark := by
    rw [ofUser, hsess, List.filter_map, ofUser]
    simp [Function.comp_def, huid]
  rw [oldest_eq_first] at hsel hmark
  set n : ℕ := ((s.ofUser uid).length - quota).toNat with hn
  have hperm := sort.first_append_rest_perm n (s.ofUser uid)
  have hrest : ∀ a ∈ sort.rest n (s.ofUser uid), ¬ Selected selected (mark a) := by
    intro a ha hs
    have hfirst := (hsel a (Sorting.mem_or_mem.mpr (.inr ha))).mp hs
    exact Sorting.notMem_rest (s.ofUser_nodup uid) hfirst ha
  have hfirst : ∀ a ∈ sort.first n (s.ofUser uid), Selected selected (mark a) := by
    intro a ha
    exact (hsel a (Sorting.mem_or_mem.mpr (.inl ha))).mpr ha
  have hlen := sort.length_first n (s.ofUser uid)
  have hlen' := sort.length_rest n (s.ofUser uid)
  constructor
  · rw [huser, List.countP_map, ← hperm.countP_eq, List.countP_append,
      List.countP_eq_length.mpr (by simpa using hfirst),
      List.countP_eq_zero.mpr (by simpa using hrest), List.length_map, hlen]
    omega
  · intro a' ha' b' hb' hsa hsb
    rw [huser] at ha' hb'
    obtain ⟨a, ha, rfl⟩ := List.mem_map.mp ha'
    obtain ⟨b, hb, rfl⟩ := List.mem_map.mp hb'
    have hlow := (hsel a ha).mp hsa
    have hhigh := (Sorting.mem_or_mem.mp hb).resolve_left fun h => hsb ((hsel b hb).mpr h)
    rw [htime, htime]
    exact Sorting.first_le_rest hlow hhigh
  · intro a' ha' hsa
    rw [huser] at ha'
    obtain ⟨a, ha, rfl⟩ := List.mem_map.mp ha'
    exact hmark a ((hsel a ha).mp hsa)
  · have hnone : ∀ a ∈ sort.first n (s.ofUser uid), ¬ (mark a).kickoffTime = 0 :=
      fun a ha => (hmark a ha).ne'
    have hle := List.countP_le_length (l := sort.rest n (s.ofUser uid))
      (p := (fun a => decide (a.kickoffTime = 0)) ∘ mark)
    rw [huser, List.countP_map, ← hperm.countP_eq, List.countP_append,
      List.countP_eq_zero.mpr (by simpa using hnone)]
    omega

/-- Sids are unique: each belongs to one hub. -/
def Owned (owner : String → String) (s : SessionStore) : Prop :=
  ∀ a ∈ s.sessions, owner a.sid = a.hubId

theorem owned_newSessionStore (owner : String → String) : newSessionStore.Owned owner := by
  intro a ha
  simp [newSessionStore, sessions, Assoc.values] at ha

theorem Owned.add {owner : String → String} (h : s.Owned owner) {v : Session} {hubId : String}
    (hv : owner v.sid = hubId) : (s.add hubId v).Owned owner := by
  intro a ha
  rcases mem_add ha with rfl | ha
  · exact hv
  · exact h a ha

theorem Owned.addMany {owner : String → String} (h : s.Owned owner) {slice : List Session}
    {hubId : String} (hslice : ∀ v ∈ slice, owner v.sid = hubId) : (s.addMany hubId slice).Owned owner := by
  intro a ha
  rcases mem_addMany ha with ⟨v, hv, rfl⟩ | ha
  · exact hslice v hv
  · exact h a ha

theorem Owned.del {owner : String → String} (h : s.Owned owner) (hubId sid : String) :
    (s.del hubId sid).Owned owner :=
  fun a ha => h a (mem_del ha)

theorem Owned.clean {owner : String → String} (h : s.Owned owner) (live : List String) (now : ℤ) :
    (s.clean live now).Owned owner :=
  fun a ha => h a (mem_clean.mp ha).1

theorem Owned.eq_of_sid {owner : String → String} (h : s.Owned owner) {a b : Session}
    (ha : a ∈ s.sessions) (hb : b ∈ s.sessions) (hsid : a.sid = b.sid) : a = b := by
  refine eq_of_location ha hb ?_ hsid
  rw [← h a ha, ← h b hb, hsid]

theorem Owned.lookup_ofList {owner : String → String} (h : s.Owned owner) {l : List Session}
    (hl : ∀ b ∈ l, b ∈ s.sessions) {sid : String} {a : Session} :
    (Assoc.ofList Session.sid l).lookup sid = some a ↔ a ∈ l ∧ a.sid = sid :=
  Assoc.lookup_ofList fun b hb c hc => h.eq_of_sid (hl b hb) (hl c hc)

/-- With unique sids the map by sid selects the sessions of the list. -/
theorem Owned.selected_iff {owner : String → String} (h : s.Owned owner) {l : List Session}
    (hl : ∀ b ∈ l, b ∈ s.sessions) {a : Session} (ha : a ∈ s.sessions) :
    Selected (Assoc.ofList Session.sid l) a ↔ a ∈ l := by
  constructor
  · rintro ⟨b, hb, -⟩
    obtain ⟨hmem, hsid⟩ := (h.lookup_ofList hl).mp hb
    rwa [← h.eq_of_sid (hl b hmem) ha hsid]
  · intro hmem
    exact ⟨a, (h.lookup_ofList hl).mpr ⟨hmem, rfl⟩, rfl⟩

/-- Selection user by user takes a session if it is one of the oldest of its user. -/
theorem mem_oldest_groupBy {l : List Session} {a : Session} :
    a ∈ (Assoc.groupBy Session.uid id l).values.flatMap (oldest sort quota) ↔
      a ∈ oldest sort quota (l.filter fun b => b.uid = a.uid) := by
  simp only [List.mem_flatMap, Assoc.mem_values, Assoc.lookup_groupBy, List.map_id]
  constructor
  · rintro ⟨slice, ⟨uid, hslice⟩, ha⟩
    split_ifs at hslice
    obtain rfl := Option.some.inj hslice
    obtain ⟨-, huid⟩ := List.mem_filter.mp (mem_of_mem_oldest ha)
    obtain rfl : a.uid = uid := by simpa using huid
    exact ha
  · intro ha
    exact ⟨_, ⟨a.uid, if_neg (List.ne_nil_of_mem (mem_of_mem_oldest ha))⟩, ha⟩

theorem mem_selected_gc {a : Session} :
    a ∈ (Assoc.groupBy Session.uid id s.sessions).values.flatMap (oldest sort quota) ↔
      a ∈ oldest sort quota (s.ofUser a.uid) := mem_oldest_groupBy

end SessionStore

namespace PushServer
variable {cfg : ServerConfig} {owner : String → String} {env : ServerEnv} {s : PushServer}

/-- With unique sids `kickoff` stamps the sessions of the list it was given. -/
theorem stamped_iff (howned : s.sessionStore.Owned owner) {l : List Session}
    (hl : ∀ a ∈ l, a ∈ s.sessionStore.sessions) {a : Session} (ha : a ∈ s.sessionStore.sessions)
    (hconn : a.hubId ∈ s.hubStreams) :
    Stamped s.hubStreams.keys (Assoc.ofList Session.sid l) a ↔ a ∈ l := by
  constructor
  · rintro ⟨-, b, hb, hhub, hsid⟩
    have hmem := Assoc.mem_of_mem_ofList hb
    rwa [← SessionStore.eq_of_location (hl b hmem) ha hhub hsid]
  · intro hmem
    exact ⟨hconn, a, Assoc.mem_values.mpr ⟨a.sid, (howned.lookup_ofList hl).mpr ⟨hmem, rfl⟩⟩, rfl, rfl⟩

/-- A selection of the oldest sessions of a user beyond the quota, followed by `kickoff`. -/
theorem quotaKept_of_kickoff {quota uid : ℤ} {l : List Session} (hquota : 1 ≤ quota)
    (howned : s.sessionStore.Owned owner) (hl : ∀ a ∈ l, a ∈ s.sessionStore.sessions)
    (holdest : ∀ a ∈ s.sessionStore.ofUser uid,
      a ∈ l ↔ a ∈ SessionStore.oldest env.sort quota (s.sessionStore.ofUser uid))
    (hconn : ∀ a ∈ s.sessionStore.ofUser uid, a.hubId ∈ s.hubStreams)
    (hclock : ∀ hubId, 0 < env.clock hubId) :
    QuotaKept quota uid (Assoc.ofList Session.sid l)
      (if 0 < (Assoc.ofList Session.sid l).entries.length then s.kickoff env (.ofList Session.sid l)
        else s).sessionStore := by
  have hsel : ∀ a ∈ s.sessionStore.ofUser uid, Selected (Assoc.ofList Session.sid l) a ↔
      a ∈ SessionStore.oldest env.sort quota (s.sessionStore.ofUser uid) := by
    intro a ha
    rw [howned.selected_iff hl (SessionStore.mem_ofUser.mp ha).1, holdest a ha]
  refine SessionStore.quotaKept_of_marked env.sort hquota (fun a ha => ?_) (sessions_if_kickoff env s _)
    (fun a => stamp_uid _ a) (fun a => stamp_createTime _ a) fun a ha => ?_
  · rw [← hsel a ha, Selected, Selected, stamp_sid, stamp_hubId]
  · have hmem := SessionStore.mem_of_mem_oldest ha
    have hst : Stamped s.hubStreams.keys (Assoc.ofList Session.sid l) a :=
      (stamped_iff howned hl (SessionStore.mem_ofUser.mp hmem).1 (hconn a hmem)).mpr
        ((holdest a hmem).mpr ha)
    rw [stamp, if_pos hst]
    exact hclock a.hubId

theorem owned_if_kickoff (env : ServerEnv) (selected : GoMap String Session)
    (h : s.sessionStore.Owned owner) :
    (if 0 < selected.entries.length then s.kickoff env selected
      else s).sessionStore.Owned owner := by
  intro a' ha'
  rw [sessions_if_kickoff] at ha'
  obtain ⟨a, ha, rfl⟩ := List.mem_map.mp ha'
  rw [stamp_sid, stamp_hubId]
  exact h a ha

end PushServer

/-- The messages of a hub report only sids of its own. -/
def OwnSids (owner : String → String) (_ : PushServer) : ServerLabel → Prop
  | .recv hubId msg _ => (∀ v ∈ msg.sessionOnline, owner v.sid = hubId) ∧
      ∀ v ∈ msg.syncSessions, owner v.sid = hubId
  | _ => True

namespace PushServer
variable {cfg : ServerConfig} {owner : String → String} {s : PushServer}

theorem route_online {env : ServerEnv} {hubId : String} {msg : FollowerMsg} {v : Session}
    (hv : msg.sessionOnline = some v) :
    s.route cfg env hubId msg =
      let s := { s with sessionStore := s.sessionStore.add hubId v }
      let sessions := s.sessionStore.getUserSessionsToKickoff env.sort v.uid cfg.sessionQuota
      some (if 0 < sessions.entries.length then s.kickoff env sessions else s) := by
  simp only [route, hv]

theorem owned_route {env : ServerEnv} {hubId : String} {msg : FollowerMsg} {s' : PushServer}
    (h : s.sessionStore.Owned owner) (hmsg : OwnSids owner s (.recv hubId msg env))
    (hs : s.route cfg env hubId msg = some s') : s'.sessionStore.Owned owner := by
  unfold route at hs
  split at hs
  · rename_i v hv
    obtain rfl := Option.some.inj hs
    exact owned_if_kickoff env _ (h.add (hmsg.1 v hv))
  · split_ifs at hs
    · obtain rfl := Option.some.inj hs
      exact h.del hubId _
    · obtain rfl := Option.some.inj hs
      exact h.addMany hmsg.2
    · obtain rfl := Option.some.inj hs
      exact h
    · obtain rfl := Option.some.inj hs
      exact h

theorem owned_of_reachable (h : (serverSystem cfg).ReachableVia (OwnSids owner) s) :
    s.sessionStore.Owned owner := by
  refine h.invariant (I := fun s => s.sessionStore.Owned owner) ?_ ?_
  · rintro _ rfl
    exact SessionStore.owned_newSessionStore owner
  · intro s l s' hi hok hs
    cases l with
    | connect hubId stream =>
      obtain rfl := Option.some.inj hs
      exact hi
    | recv hubId msg env => exact owned_route hi hok hs
    | disconnect hubId =>
      obtain rfl := Option.some.inj hs
      exact hi
    | tick env =>
      obtain rfl := Option.some.inj hs
      exact owned_if_kickoff env _ (hi.clean _ _)

end PushServer

/-- In every state that the push server reaches with unique sids: a session that comes online, with
the hubs of all stored sessions connected, and a clean tick leave the quota kept. -/
theorem quota_kept_in_every_run (cfg : ServerConfig) (owner : String → String) (s : PushServer)
    (hs : (serverSystem cfg).ReachableVia (OwnSids owner) s) (env : ServerEnv)
    (hclock : ∀ hubId, 0 < env.clock hubId) :
    (∀ hubId msg v, msg.sessionOnline = some v → owner v.sid = hubId →
      (∀ a ∈ (s.sessionStore.add hubId v).sessions, a.hubId ∈ s.hubStreams) →
      ∃ s', (serverSystem cfg).step s (.recv hubId msg env) = some s' ∧
        QuotaKept cfg.sessionQuota v.uid ((s.sessionStore.add hubId v).getUserSessionsToKickoff
          env.sort v.uid cfg.sessionQuota) s'.sessionStore) ∧
      ∃ s', (serverSystem cfg).step s (.tick env) = some s' ∧ ∀ uid,
        QuotaKept cfg.sessionQuota uid (s.sessionStore.gc env.sort s.hubStreams.getLiveHubIds
          cfg.sessionQuota env.now).1 s'.sessionStore := by
  have howned := PushServer.owned_of_reachable hs
  constructor
  · intro hubId msg v hv hsid hconn
    refine ⟨_, PushServer.route_online hv, ?_⟩
    apply PushServer.quotaKept_of_kickoff cfg.quota_pos (howned.add hsid)
    · intro a ha
      exact (SessionStore.mem_ofUser.mp (SessionStore.mem_of_mem_oldest ha)).1
    · exact fun a _ => Iff.rfl
    · exact fun a ha => hconn a (SessionStore.mem_ofUser.mp ha).1
    · exact hclock
  · refine ⟨s.cleanSession cfg env, rfl, fun uid => ?_⟩
    rw [PushServer.cleanSession]
    apply PushServer.quotaKept_of_kickoff cfg.quota_pos (howned.clean _ _)
    · intro a ha
      exact (SessionStore.mem_ofUser.mp (SessionStore.mem_of_mem_oldest
        (SessionStore.mem_selected_gc.mp ha))).1
    · intro a ha
      rw [SessionStore.mem_selected_gc, (SessionStore.mem_ofUser.mp ha).2]
      exact Iff.rfl
    · intro a ha
      exact (SessionStore.mem_clean.mp (SessionStore.mem_ofUser.mp ha).1).2.1
    · exact hclock

instance (owner : String → String) (s : PushServer) : (l : ServerLabel) →
    Decidable (OwnSids owner s l)
  | .recv hubId msg _ => inferInstanceAs (Decidable ((∀ v ∈ msg.sessionOnline, owner v.sid = hubId) ∧
      ∀ v ∈ msg.syncSessions, owner v.sid = hubId))
  | .connect _ _ | .disconnect _ | .tick _ => isTrue trivial

def onlineMsg (sid : String) (createTime : ℤ) : FollowerMsg :=
  ⟨some ⟨"", sid, 7, createTime, 0⟩, "", [], none, false⟩

def sampleOwner (sid : String) : String := if sid = "b" then "hub2" else "hub1"

/-- Two hubs connect, and user 7 opens a session on the first. -/
def oneSessionRun : List ServerLabel :=
  [.connect "hub1" 0, .connect "hub2" 1, .recv "hub1" (onlineMsg "a" 100) calmEnv]

/-- With a quota of one, the session that user 7 then opens on the second hub is one too many. -/
theorem quota_kept_second_session :
    ∃ s, (serverSystem oneSession).ReachableVia (OwnSids sampleOwner) s ∧
      ((s.sessionStore.add "hub2" ⟨"", "b", 7, 101, 0⟩).ofUser 7).length = 2 ∧
      (∃ s', (serverSystem oneSession).step s (.recv "hub2" (onlineMsg "b" 101) calmEnv) = some s' ∧
        QuotaKept 1 7 ((s.sessionStore.add "hub2" ⟨"", "b", 7, 101, 0⟩).getUserSessionsToKickoff
          calmEnv.sort 7 1) s'.sessionStore) ∧
      ∃ s', (serverSystem oneSession).step s (.tick calmEnv) = some s' ∧ ∀ uid,
        QuotaKept 1 uid (s.sessionStore.gc calmEnv.sort s.hubStreams.getLiveHubIds 1 200).1
          s'.sessionStore := by
  have hrun : ((serverSystem oneSession).runVia (fun s l => decide (OwnSids sampleOwner s l))
      .newPushServer oneSessionRun).map (fun s =>
        (((s.sessionStore.add "hub2" ⟨"", "b", 7, 101, 0⟩).ofUser 7).length,
          decide (∀ a ∈ (s.sessionStore.add "hub2" ⟨"", "b", 7, 101, 0⟩).sessions,
            a.hubId ∈ s.hubStreams))) = some (2, true) := by
    decide +kernel
  obtain ⟨s, hs, hview⟩ := Option.map_eq_some_iff.mp hrun
  obtain ⟨hlen, hconn⟩ := Prod.mk.inj hview
  have hreach : (serverSystem oneSession).ReachableVia (OwnSids sampleOwner) s :=
    ReachableVia.runVia (fun _ _ h => of_decide_eq_true h) (.init rfl) oneSessionRun hs
  obtain ⟨honline, htick⟩ := quota_kept_in_every_run oneSession sampleOwner s hreach calmEnv
    fun _ => (by decide : (0 : ℤ) < 200)
  exact ⟨s, hreach, hlen, honline "hub2" (onlineMsg "b" 101) _ rfl (by decide +kernel)
    (of_decide_eq_true hconn), htick⟩

end MiniPush.Cluster
