import MiniPush.Cluster.Server

/-! A hub that is connected to the leader: its handler store, the calls that change it, and the two
channels between hub and leader. -/
namespace MiniPush.Ws
open Foundation System Cluster

/-- The local sessions by sid; a handler is named by its session. -/
abbrev HandlerStore := GoMap String Session

namespace HandlerStore

def add (hs : HandlerStore) (sess : Session) : HandlerStore := hs.insert sess.sid sess

/-- Whether the sid was stored, and the store without it. -/
def del (hs : HandlerStore) (sid : String) : Bool × HandlerStore :=
  if sid ∈ hs then (true, hs.erase sid) else (false, hs)

def shallowCopySessions (hs : HandlerStore) : List Session := Assoc.values hs

end HandlerStore

def sessionOnline (sess : Session) : FollowerMsg := ⟨some sess, "", [], none, false⟩

def sessionOffline (sid : String) : FollowerMsg := ⟨none, sid, [], none, false⟩

def syncSessions (slice : List Session) : FollowerMsg := ⟨none, "", slice, none, false⟩

/-- Where a call of `Online` is: between calls, before the copy of the sessions, or with the rest of the
copy still to be sent. -/
inductive OnlineCall
  | idle
  | copying
  | syncing (rest : List Session)
  deriving DecidableEq

def OnlineCall.rest : OnlineCall → List Session
  | .syncing rest => rest
  | .idle | .copying => []

def syncBatch : ℕ := 1000

def OnlineCall.ofRest (rest : List Session) : OnlineCall := if rest = [] then .idle else .syncing rest

/-- A hub and its leader. `accepted` counts the `ServeHTTP` calls that passed the check of `online`,
`serving` are those between `hstore.add` and the send of `SessionOnline`, `opened` the handlers whose
goroutines were started, `deleting` the `delHandler` calls between `hstore.del` and the send of
`SessionOffline`. `kicking` is the rest of the Kickoff message that `Hub.Run` works on, and `found` says
that the first of its sids was found in the store. `used` are the sids given out so far. -/
structure HubState where
  hstore : HandlerStore
  online : Bool
  used : List String
  accepted : ℕ
  serving : List Session
  opened : List String
  deleting : List String
  onlineCall : OnlineCall
  kicking : List String
  found : Bool
  followerC : List FollowerMsg
  leaderC : List (List String)
  leader : PushServer

/-- `leaderPush` is a Kickoff message that the leader sends because of another hub or a clean tick. What the tick
deletes from the leader's store is left out. -/
inductive HubLabel
  | serveHTTP
  | addHandler (uid : ℤ) (sid : String) (createTime : ℤ)
  | putOnline (sess : Session)
  | delHandler (sid : String)
  | putOffline (sid : String)
  | goOnline
  | copySessions
  | sync
  | goOffline
  | hubRecv
  | kickGet
  | kickDel
  | leaderPush (sids : List String)
  | leaderRecv (env : ServerEnv)

/-- Kickoff messages to the hub that were pushed between two states of the leader. -/
def pushedSince (hubId : String) (old new : PushServer) : List (List String) :=
  (new.pushed.drop old.pushed.length).filterMap fun p =>
    if p.1.hubId = hubId ∧ p.2 = .ok then some p.1.sids else none

namespace HubState

/-- The leader has registered the stream of the hub. -/
def start (hubId : String) : HubState where
  hstore := ∅
  online := false
  used := []
  accepted := 0
  serving := []
  opened := []
  deleting := []
  onlineCall := .idle
  kicking := []
  found := false
  followerC := []
  leaderC := []
  leader := { PushServer.newPushServer with hubStreams := HubStreams.addStream ∅ hubId 0 }

/-- The sid of a new session comes from `uuid.New`, which does not return a value twice. -/
def step (cfg : ServerConfig) (hubId : String) (s : HubState) : HubLabel → Option HubState
  | .serveHTTP => if s.online then some { s with accepted := s.accepted + 1 } else none
  | .addHandler uid sid createTime =>
    if 0 < s.accepted ∧ sid ≠ "" ∧ sid ∉ s.used then
      let sess := ⟨"", sid, uid, createTime, 0⟩
      some { s with
        accepted := s.accepted - 1
        used := sid :: s.used
        hstore := s.hstore.add sess
        serving := sess :: s.serving }
    else none
  | .putOnline sess =>
    if sess ∈ s.serving then some { s with
      serving := s.serving.erase sess
      opened := sess.sid :: s.opened
      followerC := s.followerC ++ [sessionOnline sess] }
    else none
  | .delHandler sid =>
    if sid ∈ s.opened then
      if (s.hstore.del sid).1 then some { s with
        hstore := (s.hstore.del sid).2
        deleting := sid :: s.deleting }
      else some s
    else none
  | .putOffline sid =>
    if sid ∈ s.deleting then some { s with
      deleting := s.deleting.erase sid
      followerC := s.followerC ++ [sessionOffline sid] }
    else none
  | .goOnline =>
    match s.onlineCall with
    | .idle => some { s with online := true, onlineCall := .copying }
    | _ => none
  | .copySessions =>
    match s.onlineCall with
    | .copying => some { s with onlineCall := .ofRest s.hstore.shallowCopySessions }
    | _ => none
  | .sync =>
    match s.onlineCall with
    | .syncing rest => some { s with
        onlineCall := .ofRest (rest.drop syncBatch)
        followerC := s.followerC ++ [syncSessions (rest.take syncBatch)] }
    | _ => none
  | .goOffline => some { s with online := false }
  | .hubRecv =>
    match s.kicking, s.leaderC with
    | [], sids :: rest => some { s with kicking := sids, leaderC := rest }
    | _, _ => none
  | .kickGet =>
    match s.kicking, s.found with
    | sid :: rest, false =>
      if sid ∈ s.hstore then some { s with found := true } else some { s with kicking := rest }
    | _, _ => none
  | .kickDel =>
    match s.kicking, s.found with
    | sid :: rest, true => some { s with
        hstore := (s.hstore.del sid).2
        kicking := rest
        found := false }
    | _, _ => none
  | .leaderPush sids => some { s with leaderC := s.leaderC ++ [sids] }
  | .leaderRecv env =>
    match s.followerC with
    | msg :: rest =>
      if env.send hubId = .ok then (s.leader.route cfg env hubId msg).map fun leader => { s with
        followerC := rest
        leaderC := s.leaderC ++ pushedSince hubId s.leader leader
        leader }
      else none
    | [] => none

end HubState

/-- One hub and the leader, with reliable channels of any capacity between them. -/
def hubSystem (cfg : ServerConfig) (hubId : String) : System HubState HubLabel where
  init s := s = .start hubId
  step s l := s.step cfg hubId l

end MiniPush.Ws
