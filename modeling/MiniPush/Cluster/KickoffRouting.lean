import MiniPush.Cluster.SessionQuota

/-! The messages of a kickoff: which hub gets which sids, and on which stream. -/
namespace MiniPush.Cluster
open Foundation System

namespace PushServer
variable {s : PushServer} {sessions : GoMap String Session}

/-- The messages that the loop of `kickoff` sends, in its order. -/
def kickoffMsgs (s : PushServer) (sessions : GoMap String Session) : List KickoffMsg :=
  (s.hubStreams.copyStreamsByFollower (targets sessions).keys).entries.filterMap fun e =>
    ((targets sessions).lookup e.1).map fun sids => ⟨e.1, e.2, sids⟩

theorem kickoff_pushed (env : ServerEnv) (s : PushServer) (sessions : GoMap String Session) :
    (s.kickoff env sessions).pushed =
      s.pushed ++ (s.kickoffMsgs sessions).map fun m => (m, env.send m.hubId) := by
  have hloop : ∀ (streams : List ((_ : String) × ℕ)) (s : PushServer),
      (streams.foldl (kickoffHub env (targets sessions)) s).pushed =
        s.pushed ++ (streams.filterMap fun e => ((targets sessions).lookup e.1).map fun sids =>
          KickoffMsg.mk e.1 e.2 sids).map fun m => (m, env.send m.hubId) := by
    intro streams
    induction streams with
    | nil =>
      intro s
      simp
    | cons e streams ih =>
      intro s
      rw [List.foldl_cons, ih, kickoffHub]
      cases hl : (targets sessions).lookup e.1 with
      | none => simp [hl]
      | some sids => simp [hl, pushToFollower]
  exact hloop _ s

theorem mem_kickoffMsgs {m : KickoffMsg} :
    m ∈ s.kickoffMsgs sessions ↔
      s.hubStreams.lookup m.hubId = some m.stream ∧ (targets sessions).lookup m.hubId = some m.sids := by
  have hcopy : ∀ hubId stream, (⟨hubId, stream⟩ : (_ : String) × ℕ) ∈
      (s.hubStreams.copyStreamsByFollower (targets sessions).keys).entries ↔
        s.hubStreams.lookup hubId = some stream ∧ hubId ∈ (targets sessions).keys := by
    intro hubId stream
    rw [← AList.mem_lookup_iff, Option.mem_def, HubStreams.copyStreamsByFollower, Assoc.lookup_filter,
      Option.filter_eq_some_iff, decide_eq_true_eq]
  simp only [kickoffMsgs, List.mem_filterMap, Option.map_eq_some_iff]
  constructor
  · rintro ⟨e, he, sids, hsids, rfl⟩
    exact ⟨((hcopy e.1 e.2).mp he).1, hsids⟩
  · rintro ⟨hstream, hsids⟩
    have hkey : m.hubId ∈ (targets sessions).keys :=
      AList.lookup_isSome.mp (Option.isSome_of_eq_some hsids)
    exact ⟨⟨m.hubId, m.stream⟩, (hcopy _ _).mpr ⟨hstream, hkey⟩, m.sids, hsids, rfl⟩

theorem nodup_kickoffMsgs (s : PushServer) (sessions : GoMap String Session) :
    ((s.kickoffMsgs sessions).map KickoffMsg.hubId).Nodup := by
  have hsub : ∀ streams : List ((_ : String) × ℕ),
      ((streams.filterMap fun e => ((targets sessions).lookup e.1).map fun sids =>
        KickoffMsg.mk e.1 e.2 sids).map KickoffMsg.hubId).Sublist (streams.map Sigma.fst) := by
    intro streams
    induction streams with
    | nil => exact .slnil
    | cons e streams ih =>
      cases hl : (targets sessions).lookup e.1 with
      | none => simpa [hl] using ih.cons e.1
      | some sids => simpa [hl] using ih.cons_cons e.1
  exact (hsub _).nodup (AList.keys_nodup _)

theorem eq_of_mem_kickoffMsgs {m m' : KickoffMsg} (hm : m ∈ s.kickoffMsgs sessions)
    (hm' : m' ∈ s.kickoffMsgs sessions) (hhub : m'.hubId = m.hubId) : m' = m :=
  List.inj_on_of_nodup_map (s.nodup_kickoffMsgs sessions) hm' hm hhub

theorem sids_of_mem_kickoffMsgs {m : KickoffMsg} (hm : m ∈ s.kickoffMsgs sessions) :
    m.sids = ((Assoc.values sessions).filter fun a => a.hubId = m.hubId).map Session.sid := by
  have hsids := (mem_kickoffMsgs.mp hm).2
  rw [targets, Assoc.lookup_groupBy] at hsids
  split_ifs at hsids
  exact (Option.some.inj hsids).symm

theorem mem_sids_iff {m : KickoffMsg} (hm : m ∈ s.kickoffMsgs sessions) {sid : String} :
    sid ∈ m.sids ↔ ∃ a ∈ Assoc.values sessions, a.hubId = m.hubId ∧ a.sid = sid := by
  simp [sids_of_mem_kickoffMsgs hm, and_assoc]

/-- A session to kick off is in a message, if its hub has a stream. -/
theorem exists_mem_kickoffMsgs {a : Session} (ha : a ∈ Assoc.values sessions)
    (hhub : a.hubId ∈ s.hubStreams) :
    ∃ m ∈ s.kickoffMsgs sessions, m.hubId = a.hubId ∧ a.sid ∈ m.sids := by
  obtain ⟨stream, hstream⟩ := Option.isSome_iff_exists.mp (AList.lookup_isSome.mpr hhub)
  obtain ⟨sids, hsids, hsid⟩ := mem_targets.mpr ⟨a, ha, rfl, rfl⟩
  exact ⟨⟨a.hubId, stream, sids⟩, mem_kickoffMsgs.mpr ⟨hstream, hsids⟩, rfl, hsid⟩

end PushServer

/-- What a kickoff of `chosen` sessions pushes, in the messages `msgs`: one for each hub on its
registered stream, with the chosen sessions of that hub, each listed once. Sessions of hubs without a
stream are left alone. -/
structure Routed (env : ServerEnv) (s : PushServer) (chosen : Session → Prop)
    (sessions : GoMap String Session) (msgs : List KickoffMsg) : Prop where
  sent : (s.kickoff env sessions).pushed = s.pushed ++ msgs.map fun m => (m, env.send m.hubId)
  onePerHub : (msgs.map KickoffMsg.hubId).Nodup
  registered : ∀ m ∈ msgs, s.hubStreams.lookup m.hubId = some m.stream
  stored : ∀ m ∈ msgs, ∀ sid ∈ m.sids, ∃ a, chosen a ∧ s.sessionStore.get? m.hubId sid = some a
  listedOnce : ∀ a, chosen a → a.hubId ∈ s.hubStreams → ∃ m ∈ msgs,
    m.hubId = a.hubId ∧ m.sids.count a.sid = 1 ∧ ∀ m' ∈ msgs, a.sid ∈ m'.sids → m' = m
  spared : ∀ a ∈ s.sessionStore.sessions, a.hubId ∉ s.hubStreams →
    (∀ m ∈ msgs, a.sid ∉ m.sids) ∧
      (s.kickoff env sessions).sessionStore.get? a.hubId a.sid = some a

namespace PushServer
variable {s : PushServer} {owner : String → String}

/-- Sessions picked from a store with unique sids are routed right. -/
theorem routed_of_owned (env : ServerEnv) (howned : s.sessionStore.Owned owner) {l : List Session}
    (hl : ∀ a ∈ l, a ∈ s.sessionStore.sessions) :
    Routed env s (· ∈ l) (Assoc.ofList Session.sid l) (s.kickoffMsgs (Assoc.ofList Session.sid l)) := by
  have hvalues : ∀ a, a ∈ Assoc.values (Assoc.ofList Session.sid l) ↔ a ∈ l := by
    intro a
    constructor
    · exact Assoc.mem_of_mem_ofList
    · intro ha
      exact Assoc.mem_values.mpr ⟨a.sid, (howned.lookup_ofList hl).mpr ⟨ha, rfl⟩⟩
  have hstored : ∀ m ∈ s.kickoffMsgs (Assoc.ofList Session.sid l), ∀ sid ∈ m.sids,
      ∃ a ∈ l, a.hubId = m.hubId ∧ a.sid = sid := by
    intro m hm sid hsid
    obtain ⟨a, ha, hloc⟩ := (mem_sids_iff hm).mp hsid
    exact ⟨a, (hvalues a).mp ha, hloc⟩
  -- With unique sids a message that lists a stored session goes to its hub.
  have howner : ∀ a ∈ s.sessionStore.sessions, ∀ m ∈ s.kickoffMsgs (Assoc.ofList Session.sid l),
      a.sid ∈ m.sids → m.hubId = a.hubId := by
    intro a ha m hm hsid
    obtain ⟨b, hb, hhub, hbsid⟩ := hstored m hm a.sid hsid
    rw [← hhub, howned.eq_of_sid (hl b hb) ha hbsid]
  constructor
  · exact kickoff_pushed env s _
  · exact nodup_kickoffMsgs s _
  · exact fun m hm => (mem_kickoffMsgs.mp hm).1
  · intro m hm sid hsid
    obtain ⟨a, ha, hhub, hasid⟩ := hstored m hm sid hsid
    refine ⟨a, ha, ?_⟩
    rw [← hhub, ← hasid]
    exact SessionStore.mem_sessions.mp (hl a ha)
  · intro a ha hhub
    obtain ⟨m, hm, hmhub, hsid⟩ := exists_mem_kickoffMsgs ((hvalues a).mpr ha) hhub
    refine ⟨m, hm, hmhub, ?_, fun m' hm' hsid' => ?_⟩
    · have hnodup : m.sids.Nodup := by
        rw [sids_of_mem_kickoffMsgs hm]
        exact (Assoc.nodup_map_values_ofList Session.sid l).sublist (List.filter_sublist.map _)
      exact List.count_eq_one_of_mem hnodup hsid
    · exact eq_of_mem_kickoffMsgs hm hm' ((howner a (hl a ha) m' hm' hsid').trans hmhub.symm)
  · intro a ha hhub
    constructor
    · intro m hm hsid
      have hstream := (mem_kickoffMsgs.mp hm).1
      rw [howner a ha m hm hsid] at hstream
      exact hhub (AList.lookup_isSome.mp (Option.isSome_of_eq_some hstream))
    · have hkeep : stamp env s.hubStreams.keys (Assoc.ofList Session.sid l) a = a :=
        if_neg fun hst => hhub hst.1
      rw [SessionStore.get?_of_map (kickoff_sessions env s _) (stamp_hubId _) (stamp_sid _),
        SessionStore.mem_sessions.mp ha, Option.map_some, hkeep]

end PushServer

inductive SessionStoreOp
  | add (hubId : String) (sess : Session)
  | addMany (hubId : String) (slice : List Session)
  | del (hubId sid : String)
  | gc (sort : Sorting Session.createTime) (liveHubIds : List String) (quota now : ℤ)
  | empty

def sessionStoreSystem : System SessionStore SessionStoreOp where
  init s := s = .newSessionStore
  step s
    | .add hubId sess => some (s.add hubId sess)
    | .addMany hubId slice => some (s.addMany hubId slice)
    | .del hubId sid => some (s.del hubId sid)
    | .gc sort liveHubIds quota now => some (s.gc sort liveHubIds quota now).2
    | .empty => some s.empty

/-- The sessions added for a hub bear sids of its own. -/
def SessionStoreOp.OwnSids (owner : String → String) (_ : SessionStore) : SessionStoreOp → Prop
  | .add hubId sess => owner sess.sid = hubId
  | .addMany hubId slice => ∀ sess ∈ slice, owner sess.sid = hubId
  | .del _ _ | .gc _ _ _ _ | .empty => True

instance (owner : String → String) (s : SessionStore) : (op : SessionStoreOp) →
    Decidable (SessionStoreOp.OwnSids owner s op)
  | .add hubId sess => inferInstanceAs (Decidable (owner sess.sid = hubId))
  | .addMany hubId slice => inferInstanceAs (Decidable (∀ sess ∈ slice, owner sess.sid = hubId))
  | .del _ _ | .gc _ _ _ _ | .empty => isTrue trivial

namespace SessionStore
variable {s : SessionStore} {owner : String → String}

theorem owned_of_ops (h : sessionStoreSystem.ReachableVia (SessionStoreOp.OwnSids owner) s) :
    s.Owned owner := by
  refine h.invariant (I := Owned owner) ?_ ?_
  · rintro _ rfl
    exact owned_newSessionStore owner
  · intro s op s' hi hok hs
    cases op with
    | add hubId sess =>
      obtain rfl := Option.some.inj hs
      exact hi.add hok
    | addMany hubId slice =>
      obtain rfl := Option.some.inj hs
      exact hi.addMany hok
    | del hubId sid =>
      obtain rfl := Option.some.inj hs
      exact hi.del hubId sid
    | gc sort liveHubIds quota now =>
      obtain rfl := Option.some.inj hs
      exact hi.clean liveHubIds now
    | empty =>
      obtain rfl := Option.some.inj hs
      exact owned_newSessionStore owner

end SessionStore

/-- In every session store reached with unique sids, and whatever streams are registered: the sessions of
a user beyond the quota that come online, and those of all users that `gc` selects, are kicked off by one
message for each hub with a stream, which lists each of its selected sessions once. -/
theorem kickoffs_routed_to_owner (owner : String → String) (st : SessionStore)
    (hst : sessionStoreSystem.ReachableVia (SessionStoreOp.OwnSids owner) st) (env : ServerEnv)
    (hubStreams : HubStreams) (pushed : List (KickoffMsg × SendResult)) (quota : ℤ) :
    (∀ uid, ∃ msgs, Routed env ⟨st, hubStreams, pushed⟩
      (· ∈ SessionStore.oldest env.sort quota (st.ofUser uid))
      (st.getUserSessionsToKickoff env.sort uid quota) msgs) ∧
    ∀ liveHubIds, ∃ msgs, Routed env ⟨(st.gc env.sort liveHubIds quota env.now).2, hubStreams, pushed⟩
      (fun a => a ∈ SessionStore.oldest env.sort quota ((st.clean liveHubIds env.now).ofUser a.uid))
      (st.gc env.sort liveHubIds quota env.now).1 msgs := by
  have howned := SessionStore.owned_of_ops hst
  constructor
  · intro uid
    refine ⟨_, PushServer.routed_of_owned env howned fun a ha => ?_⟩
    exact (SessionStore.mem_ofUser.mp (SessionStore.mem_of_mem_oldest ha)).1
  · intro liveHubIds
    simp only [← SessionStore.mem_selected_gc]
    refine ⟨_, PushServer.routed_of_owned env (s := ⟨st.clean liveHubIds env.now, hubStreams, pushed⟩)
      (howned.clean liveHubIds env.now) fun a ha => ?_⟩
    exact (SessionStore.mem_ofUser.mp (SessionStore.mem_of_mem_oldest
      (SessionStore.mem_selected_gc.mp ha))).1

/-- User 7 opens a session on each of three hubs; the third hub then goes away. -/
def threeHubOps : List SessionStoreOp :=
  [.add "hub1" ⟨"", "a", 7, 100, 0⟩, .addMany "hub2" [⟨"", "b", 7, 101, 0⟩],
    .add "hub3" ⟨"", "c", 7, 102, 0⟩, .gc (.stable _) ["hub1", "hub2"] 5 150]

/-- With a quota of none, the sessions of the first hub are kicked off on stream 4, and those of the second
hub, which has no stream, are not. -/
theorem kickoffs_routed_threeHubOps :
    ∃ st, sessionStoreSystem.ReachableVia (SessionStoreOp.OwnSids fun sid =>
        if sid = "a" then "hub1" else if sid = "b" then "hub2" else "hub3") st ∧
      ((⟨st, (∅ : HubStreams).addStream "hub1" 4, []⟩ : PushServer).kickoff (steadyEnv 200)
        (st.getUserSessionsToKickoff (steadyEnv 200).sort 7 0)).pushed = [(⟨"hub1", 4, ["a"]⟩, .ok)] ∧
      (st.get? "hub2" "b").isSome ∧
      ∃ msgs, Routed (steadyEnv 200) ⟨st, (∅ : HubStreams).addStream "hub1" 4, []⟩
        (· ∈ SessionStore.oldest (steadyEnv 200).sort 0 (st.ofUser 7))
        (st.getUserSessionsToKickoff (steadyEnv 200).sort 7 0) msgs := by
  have hrun : (sessionStoreSystem.runVia (fun s op => decide (SessionStoreOp.OwnSids (fun sid =>
      if sid = "a" then "hub1" else if sid = "b" then "hub2" else "hub3") s op))
      .newSessionStore threeHubOps).map (fun st =>
        (((⟨st, (∅ : HubStreams).addStream "hub1" 4, []⟩ : PushServer).kickoff (steadyEnv 200)
          (st.getUserSessionsToKickoff (steadyEnv 200).sort 7 0)).pushed,
          (st.get? "hub2" "b").isSome)) =
      some ([(⟨"hub1", 4, ["a"]⟩, .ok)], true) := by
    decide +kernel
  obtain ⟨st, hst, hview⟩ := Option.map_eq_some_iff.mp hrun
  obtain ⟨hmsgs, hstored⟩ := Prod.mk.inj hview
  have hreach := ReachableVia.runVia (fun _ _ h => of_decide_eq_true h) (.init rfl) threeHubOps hst
  exact ⟨st, hreach, hmsgs, hstored, (kickoffs_routed_to_owner _ st hreach (steadyEnv 200)
    ((∅ : HubStreams).addStream "hub1" 4) [] 0).1 7⟩

end MiniPush.Cluster
