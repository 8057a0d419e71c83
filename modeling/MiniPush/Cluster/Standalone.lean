import MiniPush.Cluster.Server

/-! The session management of a standalone server: one map of sessions, one loop that handles the messages
of the hub and the clean ticks. -/
namespace MiniPush.Cluster
open Foundation System

def Keyed (sessions : GoMap String Session) : Prop :=
  ∀ sid sess, sessions.lookup sid = some sess → sess.sid = sid

/-- `kickoffs` are the Kickoff messages sent on `sendMsgChan` so far; `running` says that the loop of `Run`
has not returned. -/
structure Standalone where
  sessions : GoMap String Session
  keyed : Keyed sessions
  kickoffs : List (List String)
  running : Bool

/-- What a step takes from outside: the order `sort.Slice` leaves, the clock of `cleanSession` and the clock
of `kickoff`. -/
structure StandaloneEnv where
  sort : Sorting Session.createTime
  now : ℤ
  clock : ℤ

namespace Keyed
variable {sessions : GoMap String Session}

theorem insert (h : Keyed sessions) (sess : Session) : Keyed (sessions.insert sess.sid sess) := by
  intro sid a ha
  rw [GoMap.lookup_insert] at ha
  split_ifs at ha with hs
  · obtain rfl := Option.some.inj ha
    exact hs.symm
  · exact h sid a ha

theorem erase (h : Keyed sessions) (sid : String) : Keyed (sessions.erase sid) := by
  intro k a ha
  rw [GoMap.lookup_erase] at ha
  split_ifs at ha
  exact h k a ha

theorem filter (h : Keyed sessions) (p : String → Session → Bool) : Keyed (Assoc.filter p sessions) := by
  intro k a ha
  rw [Assoc.lookup_filter, Option.filter_eq_some_iff] at ha
  exact h k a ha.1

theorem mapValues (h : Keyed sessions) {f : Session → Session} (hf : ∀ a, (f a).sid = a.sid) :
    Keyed (Assoc.mapValues (fun _ => f) sessions) := by
  intro k a ha
  rw [Assoc.lookup_mapValues, Option.map_eq_some_iff] at ha
  obtain ⟨b, hb, rfl⟩ := ha
  rw [hf]
  exact h k b hb

end Keyed

namespace Standalone

def newStandalone : Standalone := ⟨∅, fun _ _ h => by simp at h, [], true⟩

def addSession (s : Standalone) (sess : Session) : Standalone :=
  { s with sessions := s.sessions.insert sess.sid sess, keyed := s.keyed.insert sess }

def addSessions (s : Standalone) (slice : List Session) : Standalone := slice.foldl addSession s

def delSession (s : Standalone) (sid : String) : Standalone :=
  { s with sessions := s.sessions.erase sid, keyed := s.keyed.erase sid }

def getUserSessionsToKickoff (s : Standalone) (sort : Sorting Session.createTime) (uid quota : ℤ) :
    List Session :=
  SessionStore.oldest sort quota ((Assoc.values s.sessions).filter fun sess => sess.uid = uid)

/-- `KickoffTime` of a session that is in the slice is set to the clock. -/
def setKickoffTime (sids : List String) (now : ℤ) (sess : Session) : Session :=
  if sess.sid ∈ sids then { sess with kickoffTime := now } else sess

theorem setKickoffTime_sid (sids : List String) (now : ℤ) (sess : Session) :
    (setKickoffTime sids now sess).sid = sess.sid := by
  unfold setKickoffTime
  split_ifs <;> rfl

/-- The slice holds sessions of the map, so the time stamps are those of the sessions stored under its
sids. -/
def kickoff (s : Standalone) (slice : List Session) (now : ℤ) : Standalone :=
  let sids := slice.map Session.sid
  { s with
    sessions := Assoc.mapValues (fun _ => setKickoffTime sids now) s.sessions
    keyed := s.keyed.mapValues (setKickoffTime_sid sids now)
    kickoffs := s.kickoffs ++ [sids] }

theorem lookup_if_kickoff (s : Standalone) (slice : List Session) (now : ℤ) (sid : String) :
    (if 0 < slice.length then s.kickoff slice now else s).sessions.lookup sid =
      (s.sessions.lookup sid).map (setKickoffTime (slice.map Session.sid) now) := by
  split_ifs with h
  · exact Assoc.lookup_mapValues _ s.sessions sid
  · have hid : setKickoffTime (slice.map Session.sid) now = id := by
      funext sess
      simp [setKickoffTime, List.length_eq_zero_iff.mp (Nat.eq_zero_of_not_pos h)]
    rw [hid, Option.map_id]
    rfl

/-- The sessions to kick off, and the server without the outdated sessions. -/
def cleanSession (s : Standalone) (sort : Sorting Session.createTime) (quota now : ℤ) :
    List Session × Standalone :=
  let s := { s with
    sessions := Assoc.filter (fun _ sess => !SessionStore.outdated now sess) s.sessions
    keyed := s.keyed.filter _ }
  let userSessions := Assoc.groupBy Session.uid id (Assoc.values s.sessions)
  (userSessions.values.flatMap (SessionStore.oldest sort quota), s)

/-- The body of the loop for a message; `none` is the panic on an unknown one. -/
def recv (cfg : ServerConfig) (env : StandaloneEnv) (s : Standalone) (msg : FollowerMsg) :
    Option Standalone :=
  match msg.sessionOnline with
  | some v =>
    let s := s.addSession v
    let slice := s.getUserSessionsToKickoff env.sort v.uid cfg.sessionQuota
    some (if 0 < slice.length then s.kickoff slice env.clock else s)
  | none =>
    if msg.sessionOffline ≠ "" then some (s.delSession msg.sessionOffline)
    else if 0 < msg.syncSessions.length then some (s.addSessions msg.syncSessions)
    else if msg.e2eMsg.isSome then some s
    else if msg.serverShutdown then some { s with running := false }
    else none

def tick (cfg : ServerConfig) (env : StandaloneEnv) (s : Standalone) : Standalone :=
  let clean := s.cleanSession env.sort cfg.sessionQuota env.now
  if 0 < clean.1.length then clean.2.kickoff clean.1 env.clock else clean.2

end Standalone

inductive StandaloneLabel
  | recv (msg : FollowerMsg) (env : StandaloneEnv)
  | tick (env : StandaloneEnv)

def standaloneSystem (cfg : ServerConfig) : System Standalone StandaloneLabel where
  init s := s = .newStandalone
  step s
    | .recv msg env => if s.running then s.recv cfg env msg else none
    | .tick env => if s.running then some (s.tick cfg env) else none

end MiniPush.Cluster
