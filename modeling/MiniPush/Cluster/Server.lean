import MiniPush.Cluster.SessionSpec
import MiniPush.Foundation.Transition

/-! The push server of the leader: the streams of the hubs, the messages that the hubs send about
their sessions, and kickoff. -/
namespace MiniPush.Cluster
open Foundation

/-- Registered streams by hub id. A stream is named by the number of its `Route` call. -/
abbrev HubStreams := GoMap String ℕ

namespace HubStreams

def addStream (hubStreams : HubStreams) (hubId : String) (stream : ℕ) : HubStreams :=
  hubStreams.insert hubId stream

def removeStream (hubStreams : HubStreams) (hubId : String) : HubStreams := hubStreams.erase hubId

def getLiveHubIds (hubStreams : HubStreams) : List String := hubStreams.keys

def copyStreamsByFollower (hubStreams : HubStreams) (hubs : List String) : HubStreams :=
  Assoc.filter (fun hub _ => hub ∈ hubs) hubStreams

end HubStreams

/-- How `stream.Send` ends. `closed` is `io.EOF` or the code `Canceled` or `Unavailable`. -/
inductive SendResult
  | ok
  | closed
  | failed
  deriving DecidableEq

/-- A message from a hub. The empty `sessionOffline` and `syncSessions` stand for absent fields. -/
structure FollowerMsg where
  sessionOnline : Option Session
  sessionOffline : String
  syncSessions : List Session
  e2eMsg : Option Bytes
  serverShutdown : Bool

/-- What a step of the push server takes from outside: the order `sort.Slice` leaves, the clock of
`gc`, and for each hub the result of `Send` and the clock after it. -/
structure ServerEnv where
  sort : Sorting Session.createTime
  now : ℤ
  send : String → SendResult
  clock : String → ℤ

structure ServerConfig where
  sessionQuota : ℤ
  quota_pos : 1 ≤ sessionQuota

/-- A kickoff message to a hub, with the stream it is sent on. -/
structure KickoffMsg where
  hubId : String
  stream : ℕ
  sids : List String
  deriving DecidableEq

/-- `pushed` are the kickoff messages pushed so far, with the results of `Send`. -/
structure PushServer where
  sessionStore : SessionStore
  hubStreams : HubStreams
  pushed : List (KickoffMsg × SendResult)

def oneSession : ServerConfig := ⟨1, by decide⟩

def calmEnv : ServerEnv := ⟨.stable _, 200, fun _ => .ok, fun _ => 200⟩

def steadyEnv (now : ℤ) : ServerEnv :=
  ⟨.thenBy Session.createTime fun a => a.sid.length, now, fun _ => .ok, fun _ => now⟩

namespace PushServer

def newPushServer : PushServer := ⟨.newSessionStore, ∅, []⟩

/-- `pushToFollower` with a kickoff message. -/
def pushToFollower (env : ServerEnv) (s : PushServer) (hubId : String) (stream : ℕ)
    (sids : List String) : PushServer :=
  { s with
    pushed := s.pushed ++ [(⟨hubId, stream, sids⟩, env.send hubId)]
    hubStreams := if env.send hubId = .closed then s.hubStreams.removeStream hubId
      else s.hubStreams }

def targets (sessions : GoMap String Session) : GoMap String (List String) :=
  Assoc.groupBy Session.hubId Session.sid (Assoc.values sessions)

/-- One iteration of `kickoff`. The `ok` that guards the time stamps is that of the lookup in
`targets`: they are set whether `Send` succeeded or not. -/
def kickoffHub (env : ServerEnv) (targets : GoMap String (List String)) (s : PushServer)
    (entry : (_ : String) × ℕ) : PushServer :=
  match targets.lookup entry.1 with
  | some sids =>
    let s := s.pushToFollower env entry.1 entry.2 sids
    { s with sessionStore := s.sessionStore.setKickoffTime entry.1 sids (env.clock entry.1) }
  | none => s

def kickoff (env : ServerEnv) (s : PushServer) (sessions : GoMap String Session) : PushServer :=
  let streams := s.hubStreams.copyStreamsByFollower (targets sessions).keys
  streams.entries.foldl (kickoffHub env (targets sessions)) s

/-- The body of the loop in `Route` for a message that was received. An end of `Route` runs the
deferred `removeStream`; `none` is the panic on an unknown message. -/
def route (cfg : ServerConfig) (env : ServerEnv) (s : PushServer) (hubId : String)
    (msg : FollowerMsg) : Option PushServer :=
  match msg.sessionOnline with
  | some v =>
    let s := { s with sessionStore := s.sessionStore.add hubId v }
    let sessions := s.sessionStore.getUserSessionsToKickoff env.sort v.uid cfg.sessionQuota
    some (if 0 < sessions.entries.length then s.kickoff env sessions else s)
  | none =>
    if msg.sessionOffline ≠ "" then
      some { s with sessionStore := s.sessionStore.del hubId msg.sessionOffline }
    else if 0 < msg.syncSessions.length then
      some { s with sessionStore := s.sessionStore.addMany hubId msg.syncSessions }
    else if msg.e2eMsg.isSome then some s
    else if msg.serverShutdown then some { s with hubStreams := s.hubStreams.removeStream hubId }
    else none

def cleanSession (cfg : ServerConfig) (env : ServerEnv) (s : PushServer) : PushServer :=
  let gc := s.sessionStore.gc env.sort s.hubStreams.getLiveHubIds cfg.sessionQuota env.now
  let s := { s with sessionStore := gc.2 }
  if 0 < gc.1.entries.length then s.kickoff env gc.1 else s

end PushServer

/-- Steps of the push server. `disconnect` is an error of `Recv`, with which `Route` returns. -/
inductive ServerLabel
  | connect (hubId : String) (stream : ℕ)
  | recv (hubId : String) (msg : FollowerMsg) (env : ServerEnv)
  | disconnect (hubId : String)
  | tick (env : ServerEnv)

/-- The push server with messages and ticks handled one at a time. -/
def serverSystem (cfg : ServerConfig) : System PushServer ServerLabel where
  init s := s = .newPushServer
  step s
    | .connect hubId stream => some { s with hubStreams := s.hubStreams.addStream hubId stream }
    | .recv hubId msg env => s.route cfg env hubId msg
    | .disconnect hubId => some { s with hubStreams := s.hubStreams.removeStream hubId }
    | .tick env => some (s.cleanSession cfg env)

namespace PushServer
variable {env : ServerEnv} {s : PushServer} {sessions : GoMap String Session}

theorem mem_targets {hubId sid : String} :
    (∃ sids, (targets sessions).lookup hubId = some sids ∧ sid ∈ sids) ↔
      ∃ a ∈ Assoc.values sessions, a.hubId = hubId ∧ a.sid = sid := by
  simp only [targets, Assoc.lookup_groupBy]
  constructor
  · rintro ⟨sids, h, hsid⟩
    split_ifs at h
    obtain rfl := Option.some.inj h
    obtain ⟨a, ha, rfl⟩ := List.mem_map.mp hsid
    obtain ⟨hmem, hhub⟩ := List.mem_filter.mp ha
    exact ⟨a, hmem, by simpa using hhub, rfl⟩
  · rintro ⟨a, ha, hhub, rfl⟩
    have hmem : a ∈ (Assoc.values sessions).filter fun b => b.hubId = hubId :=
      List.mem_filter.mpr ⟨ha, by simpa using hhub⟩
    exact ⟨_, if_neg (List.ne_nil_of_mem hmem), List.mem_map_of_mem hmem⟩

def Stamped (hubs : List String) (sessions : GoMap String Session) (a : Session) : Prop :=
  a.hubId ∈ hubs ∧ ∃ b ∈ Assoc.values sessions, b.hubId = a.hubId ∧ b.sid = a.sid

instance (hubs : List String) (sessions : GoMap String Session) (a : Session) :
    Decidable (Stamped hubs sessions a) :=
  inferInstanceAs (Decidable (_ ∧ ∃ b ∈ _, _))

def stamp (env : ServerEnv) (hubs : List String) (sessions : GoMap String Session) (a : Session) :
    Session :=
  if Stamped hubs sessions a then { a with kickoffTime := env.clock a.hubId } else a

@[simp] theorem stamp_hubId (hubs : List String) (a : Session) :
    (stamp env hubs sessions a).hubId = a.hubId := by
  unfold stamp
  split_ifs <;> rfl

@[simp] theorem stamp_sid (hubs : List String) (a : Session) :
    (stamp env hubs sessions a).sid = a.sid := by
  unfold stamp
  split_ifs <;> rfl

@[simp] theorem stamp_uid (hubs : List String) (a : Session) :
    (stamp env hubs sessions a).uid = a.uid := by
  unfold stamp
  split_ifs <;> rfl

@[simp] theorem stamp_createTime (hubs : List String) (a : Session) :
    (stamp env hubs sessions a).createTime = a.createTime := by
  unfold stamp
  split_ifs <;> rfl

private theorem kickoffHub_sessions (s : PushServer) (hubId : String) (stream : ℕ) :
    (s.kickoffHub env (targets sessions) ⟨hubId, stream⟩).sessionStore.sessions =
      s.sessionStore.sessions.map (stamp env [hubId] sessions) := by
  unfold kickoffHub
  dsimp only
  cases hl : (targets sessions).lookup hubId with
  | none =>
    have hnone : ∀ a, ¬ Stamped [hubId] sessions a := by
      rintro a ⟨hhub, hb⟩
      obtain ⟨sids, hsids, -⟩ := mem_targets.mpr hb
      rw [List.mem_singleton.mp hhub, hl] at hsids
      cases hsids
    have hid : stamp env [hubId] sessions = id := by
      funext a
      exact if_neg (hnone a)
    rw [hid, List.map_id]
  | some sids =>
    rw [SessionStore.sessions_setKickoffTime]
    apply List.map_congr_left
    intro a _
    have hiff : (a.hubId = hubId ∧ a.sid ∈ sids) ↔ Stamped [hubId] sessions a := by
      rw [Stamped, List.mem_singleton, ← mem_targets]
      constructor
      · rintro ⟨rfl, hsid⟩
        exact ⟨rfl, sids, hl, hsid⟩
      · rintro ⟨rfl, sids', hl', hsid⟩
        rw [hl] at hl'
        exact ⟨rfl, Option.some.inj hl' ▸ hsid⟩
    rw [stamp, if_congr hiff rfl rfl]
    split_ifs with hst
    · rw [List.mem_singleton.mp hst.1]
    · rfl

theorem stamped_cons {hubs : List String} {hubId : String} {a : Session} :
    Stamped (hubId :: hubs) sessions a ↔ Stamped [hubId] sessions a ∨ Stamped hubs sessions a := by
  simp only [Stamped, List.mem_cons, List.not_mem_nil, or_false]
  exact or_and_right

private theorem stamp_stamp (hubs : List String) (hubId : String) (a : Session) :
    stamp env hubs sessions (stamp env [hubId] sessions a) = stamp env (hubId :: hubs) sessions a := by
  have hinner : Stamped hubs sessions (stamp env [hubId] sessions a) ↔ Stamped hubs sessions a := by
    simp only [Stamped, stamp_hubId, stamp_sid]
  rw [stamp, if_congr hinner rfl rfl, stamp_hubId]
  by_cases h1 : Stamped [hubId] sessions a
  · simp [stamp, stamped_cons, h1]
  · simp [stamp, stamped_cons, h1]

/-- `kickoff` stamps the given sessions whose hubs have a stream, and changes no other session. -/
theorem kickoff_sessions (env : ServerEnv) (s : PushServer) (sessions : GoMap String Session) :
    (s.kickoff env sessions).sessionStore.sessions =
      s.sessionStore.sessions.map (stamp env s.hubStreams.keys sessions) := by
  have hloop : ∀ (streams : List ((_ : String) × ℕ)) (s : PushServer),
      (streams.foldl (kickoffHub env (targets sessions)) s).sessionStore.sessions =
        s.sessionStore.sessions.map (stamp env (streams.map Sigma.fst) sessions) := by
    intro streams
    induction streams with
    | nil =>
      intro s
      have hid : stamp env [] sessions = id := by
        funext a
        exact if_neg fun h => by simp [Stamped] at h
      rw [List.map_nil, hid, List.map_id, List.foldl_nil]
    | cons entry streams ih =>
      intro s
      rw [List.foldl_cons, ih, kickoffHub_sessions, List.map_map, List.map_cons]
      apply List.map_congr_left
      intro a _
      exact stamp_stamp (streams.map Sigma.fst) entry.1 a
  refine (hloop _ s).trans (List.map_congr_left ?_)
  intro a _
  have hiff : Stamped (s.hubStreams.copyStreamsByFollower (targets sessions).keys).keys sessions a ↔
      Stamped s.hubStreams.keys sessions a := by
    simp only [Stamped, HubStreams.copyStreamsByFollower, Assoc.mem_keys_filter, decide_eq_true_eq]
    constructor
    · rintro ⟨⟨hhub, -⟩, hb⟩
      exact ⟨hhub, hb⟩
    · rintro ⟨hhub, hb⟩
      obtain ⟨sids, hsids, -⟩ := mem_targets.mpr hb
      exact ⟨⟨hhub, AList.lookup_isSome.mp (Option.isSome_of_eq_some hsids)⟩, hb⟩
  exact if_congr hiff rfl rfl

theorem kickoff_oneHub (env : ServerEnv) {hubId : String} {sids : List String}
    (hkeys : s.hubStreams.keys = [hubId]) (hsend : env.send hubId = .ok)
    (hsids : (targets sessions).lookup hubId = some sids) :
    ∃ stream, (s.kickoff env sessions).pushed = s.pushed ++ [(⟨hubId, stream, sids⟩, .ok)] ∧
      (s.kickoff env sessions).hubStreams = s.hubStreams := by
  have hmem : hubId ∈ (targets sessions).keys :=
    AList.lookup_isSome.mp (Option.isSome_of_eq_some hsids)
  obtain ⟨⟨hub, stream⟩, hentries, hhub⟩ := List.map_eq_singleton_iff.mp hkeys
  obtain rfl : hub = hubId := hhub
  have hone : s.kickoff env sessions = kickoffHub env (targets sessions) s ⟨hub, stream⟩ := by
    simp [kickoff, HubStreams.copyStreamsByFollower, Assoc.filter, hentries, hmem]
  exact ⟨stream, by simp [hone, kickoffHub, hsids, pushToFollower, hsend]⟩

theorem sessions_if_kickoff (env : ServerEnv) (s : PushServer)
    (selected : GoMap String Session) :
    (if 0 < selected.entries.length then s.kickoff env selected else s).sessionStore.sessions =
      s.sessionStore.sessions.map (stamp env s.hubStreams.keys selected) := by
  split_ifs with h
  · exact kickoff_sessions env s selected
  · have hid : stamp env s.hubStreams.keys selected = id := by
      funext a
      refine if_neg fun hst => ?_
      obtain ⟨b, hb, -⟩ := hst.2
      simp [Assoc.values, List.length_eq_zero_iff.mp (Nat.eq_zero_of_not_pos h)] at hb
    rw [hid, List.map_id]

theorem get?_if_kickoff (env : ServerEnv) (s : PushServer) (selected : GoMap String Session)
    (hubId sid : String) :
    (if 0 < selected.entries.length then s.kickoff env selected else s).sessionStore.get? hubId sid =
      (s.sessionStore.get? hubId sid).map (stamp env s.hubStreams.keys selected) :=
  SessionStore.get?_of_map (sessions_if_kickoff env s selected) (stamp_hubId _) (stamp_sid _) hubId sid

end PushServer
end MiniPush.Cluster
