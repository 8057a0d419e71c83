import MiniPush.Basic
import MiniPush.Foundation.Sorting

/-! The sessions of all hubs as the leader knows them. -/
namespace MiniPush.Cluster
open Foundation

/-- A websocket session. Times are Unix seconds; a session that was not kicked off has
`kickoffTime = 0`. -/
structure Session where
  hubId : String
  sid : String
  uid : ℤ
  createTime : ℤ
  kickoffTime : ℤ
  deriving DecidableEq

abbrev HubSessions := GoMap String Session

def HubSessions.Located (hubId : String) (v : HubSessions) : Prop :=
  ∀ sid sess, v.lookup sid = some sess → sess.hubId = hubId ∧ sess.sid = sid

/-- Map from hub id to sid to session. -/
structure SessionStore where
  kv : GoMap String HubSessions
  located : ∀ hubId v, kv.lookup hubId = some v → v.Located hubId

namespace HubSessions
variable {hubId : String} {v : HubSessions}

theorem located_empty : Located hubId ∅ := fun _ _ h => by simp at h

def put (hubId : String) (v : HubSessions) (sess : Session) : HubSessions :=
  v.insert sess.sid { sess with hubId }

theorem Located.put (h : v.Located hubId) (sess : Session) : (v.put hubId sess).Located hubId := by
  intro sid a ha
  rw [HubSessions.put, GoMap.lookup_insert] at ha
  split_ifs at ha with hs
  · obtain rfl := Option.some.inj ha
    exact ⟨rfl, hs.symm⟩
  · exact h sid a ha

theorem Located.erase (h : v.Located hubId) (sid : String) : Located hubId (v.erase sid) := by
  intro k a ha
  rw [GoMap.lookup_erase] at ha
  split_ifs at ha
  exact h k a ha

theorem Located.putMany (h : v.Located hubId) (slice : List Session) :
    (slice.foldl (HubSessions.put hubId) v).Located hubId := by
  induction slice generalizing v with
  | nil => exact h
  | cons sess slice ih => exact ih (h.put sess)

theorem lookup_putMany {slice : List Session} {sid : String} {a : Session}
    (h : (slice.foldl (put hubId) v).lookup sid = some a) :
    (∃ sess ∈ slice, a = { sess with hubId }) ∨ v.lookup sid = some a := by
  induction slice generalizing v with
  | nil => exact .inr h
  | cons sess slice ih =>
    rcases ih h with ⟨b, hb, rfl⟩ | hv
    · exact .inl ⟨b, List.mem_cons_of_mem _ hb, rfl⟩
    · rw [put, GoMap.lookup_insert] at hv
      split_ifs at hv
      · exact .inl ⟨sess, List.mem_cons_self, (Option.some.inj hv).symm⟩
      · exact .inr hv

theorem lookup_putMany_of_notMem (hubId : String) (v : HubSessions) {slice : List Session} {sid : String}
    (h : sid ∉ slice.map Session.sid) : (slice.foldl (put hubId) v).lookup sid = v.lookup sid := by
  induction slice generalizing v with
  | nil => rfl
  | cons sess slice ih =>
    obtain ⟨hne, hrest⟩ := not_or.mp (List.mem_cons.not.mp h)
    rw [List.foldl_cons, ih _ hrest, put, GoMap.lookup_insert, if_neg hne]

theorem isSome_lookup_putMany (hubId : String) (v : HubSessions) (slice : List Session) (sid : String) :
    ((slice.foldl (put hubId) v).lookup sid).isSome =
      ((v.lookup sid).isSome || decide (sid ∈ slice.map Session.sid)) := by
  induction slice generalizing v with
  | nil => simp
  | cons sess slice ih =>
    rw [List.foldl_cons, ih, put, GoMap.lookup_insert]
    by_cases hsid : sid = sess.sid
    · simp [hsid]
    · simp [hsid]

end HubSessions

namespace SessionStore

def newSessionStore : SessionStore := ⟨∅, fun _ _ h => by simp at h⟩

/-- `empty` makes a new map, whatever was stored. -/
def empty (_ : SessionStore) : SessionStore := newSessionStore

def hub (s : SessionStore) (hubId : String) : HubSessions := (s.kv.lookup hubId).getD ∅

theorem hub_located (s : SessionStore) (hubId : String) : (s.hub hubId).Located hubId := by
  cases hv : s.kv.lookup hubId with
  | none => simpa [hub, hv] using HubSessions.located_empty
  | some v => simpa [hub, hv] using s.located hubId v hv

def setHub (s : SessionStore) (hubId : String) (v : HubSessions) (hv : v.Located hubId) :
    SessionStore :=
  ⟨s.kv.insert hubId v, fun h w hw => by
    rw [GoMap.lookup_insert] at hw
    split_ifs at hw with he
    · obtain rfl := Option.some.inj hw
      exact he ▸ hv
    · exact s.located h w hw⟩

def add (s : SessionStore) (hubId : String) (sess : Session) : SessionStore :=
  s.setHub hubId ((s.hub hubId).put hubId sess) ((s.hub_located hubId).put sess)

def addMany (s : SessionStore) (hubId : String) (slice : List Session) : SessionStore :=
  s.setHub hubId (slice.foldl (HubSessions.put hubId) (s.hub hubId))
    ((s.hub_located hubId).putMany slice)

def del (s : SessionStore) (hubId sid : String) : SessionStore :=
  match h : s.kv.lookup hubId with
  | some v => s.setHub hubId (v.erase sid) ((s.located hubId v h).erase sid)
  | none => s

/-- All the sessions, in the order of some iteration over the maps. -/
def sessions (s : SessionStore) : List Session := s.kv.values.flatMap Assoc.values

def get? (s : SessionStore) (hubId sid : String) : Option Session := (s.hub hubId).lookup sid

/-- The sessions that exceed the quota, those with the earliest `createTime` first. -/
def oldest (sort : Sorting Session.createTime) (quota : ℤ) (slice : List Session) : List Session :=
  let n := slice.length - quota
  if n ≤ 0 then [] else sort.first n.toNat slice

def getUserSessionsToKickoff (s : SessionStore) (sort : Sorting Session.createTime)
    (uid quota : ℤ) : GoMap String Session :=
  Assoc.ofList Session.sid (oldest sort quota (s.sessions.filter fun sess => sess.uid = uid))

def deleteSinceKickoffTTL : ℤ := 60

def outdated (now : ℤ) (sess : Session) : Bool :=
  0 < sess.kickoffTime ∧ int64 (sess.kickoffTime + deleteSinceKickoffTTL) < now

/-- The deletions of `gc`: hubs that are not live, and outdated sessions of the others. -/
def clean (s : SessionStore) (liveHubIds : List String) (now : ℤ) : SessionStore :=
  ⟨(s.kv.filter fun hubId _ => hubId ∈ liveHubIds).mapValues fun _ v =>
      v.filter fun _ sess => !outdated now sess, by
    intro hubId v hv sid a ha
    rw [Assoc.lookup_mapValues, Assoc.lookup_filter, Option.map_eq_some_iff] at hv
    obtain ⟨w, hw, rfl⟩ := hv
    rw [Assoc.lookup_filter, Option.filter_eq_some_iff] at ha
    exact s.located hubId w (Option.filter_eq_some_iff.mp hw).1 sid a ha.1⟩

def gc (s : SessionStore) (sort : Sorting Session.createTime) (liveHubIds : List String)
    (quota now : ℤ) : GoMap String Session × SessionStore :=
  let s := s.clean liveHubIds now
  let userSessions := Assoc.groupBy Session.uid id s.sessions
  (Assoc.ofList Session.sid (userSessions.values.flatMap (oldest sort quota)), s)

def setKickoffTime (s : SessionStore) (hubId : String) (sids : List String) (now : ℤ) :
    SessionStore :=
  ⟨s.kv.mapValues fun _ v => v.mapValues fun _ sess =>
      if sess.hubId = hubId ∧ sess.sid ∈ sids then { sess with kickoffTime := now } else sess, by
    intro h v hv sid a ha
    rw [Assoc.lookup_mapValues, Option.map_eq_some_iff] at hv
    obtain ⟨w, hw, rfl⟩ := hv
    rw [Assoc.lookup_mapValues, Option.map_eq_some_iff] at ha
    obtain ⟨b, hb, rfl⟩ := ha
    split_ifs
    · exact s.located h w hw sid b hb
    · exact s.located h w hw sid b hb⟩

end SessionStore
end MiniPush.Cluster
