import Mathlib.Data.Fintype.Option
import MiniPush.Foundation.Transition

/-! The way of a message from the storage of the leader to the hubs of the followers, goroutine by
goroutine. Each node has one `sendMsgChan`. On the leader node the storage writes it and
`pushServer.run` reads it; on a follower node `client.start` writes it and `Hub.Run` reads it. A node
that runs as both has all four on the same channel. -/
namespace MiniPush.Cluster
open Foundation

/-- The roles in a cluster: one leader node, which may also follow, and the follower nodes. -/
structure Roles where
  leaderFollows : Bool
  followers : ℕ

/-- Nodes of the cluster; `none` is the leader node. -/
abbrev Roles.Node (r : Roles) := Option (Fin r.followers)

def Roles.hubs (r : Roles) : Finset r.Node :=
  Finset.univ.filter fun h => h.isSome ∨ r.leaderFollows = true

/-- Messages to the hubs. `headSeq n` is the message that the storage put after `n` others. -/
inductive LeaderMsg
  | headSeq (n : ℕ)
  | kickoff (sids : List String)
  deriving DecidableEq

def sendMsgChanCap : ℕ := 8

/-- The copies of messages in the cluster. `pushing` is the message that `pushServer.run` holds with
the hubs of its copied streams still to be served, `holding` the message between `Recv` and the put in
`client.start`, and `received` what `Hub.Run` has taken. -/
structure Broadcast (r : Roles) where
  sendMsgChan : r.Node → List LeaderMsg
  pushing : Option (LeaderMsg × Finset r.Node)
  stream : r.Node → List LeaderMsg
  holding : r.Node → Option LeaderMsg
  received : r.Node → List LeaderMsg
  puts : ℕ

inductive BroadcastLabel (r : Roles)
  | storagePut
  | serverTake
  | serverSend (hub : r.Node)
  | kickoff (hub : r.Node) (sids : List String)
  | clientRecv (hub : r.Node)
  | clientPut (hub : r.Node)
  | hubTake (hub : r.Node)

namespace Broadcast
variable {r : Roles}

def start (r : Roles) : Broadcast r :=
  ⟨fun _ => [], none, fun _ => [], fun _ => none, fun _ => [], 0⟩

def step (s : Broadcast r) : BroadcastLabel r → Option (Broadcast r)
  | .storagePut =>
    if (s.sendMsgChan none).length < sendMsgChanCap then some { s with
      sendMsgChan := Function.update s.sendMsgChan none (s.sendMsgChan none ++ [.headSeq s.puts])
      puts := s.puts + 1 }
    else none
  | .serverTake =>
    if ∀ p ∈ s.pushing, p.2 = ∅ then
      match s.sendMsgChan none with
      | msg :: rest => some { s with
          sendMsgChan := Function.update s.sendMsgChan none rest
          pushing := some (msg, r.hubs) }
      | [] => none
    else none
  | .serverSend hub =>
    match s.pushing with
    | some (msg, left) =>
      if hub ∈ left then some { s with
        pushing := some (msg, left.erase hub)
        stream := Function.update s.stream hub (s.stream hub ++ [msg]) }
      else none
    | none => none
  | .kickoff hub sids =>
    if hub ∈ r.hubs then some { s with
      stream := Function.update s.stream hub (s.stream hub ++ [.kickoff sids]) }
    else none
  | .clientRecv hub =>
    if s.holding hub = none then
      match s.stream hub with
      | msg :: rest => some { s with
          stream := Function.update s.stream hub rest
          holding := Function.update s.holding hub (some msg) }
      | [] => none
    else none
  | .clientPut hub =>
    match s.holding hub with
    | some msg =>
      if hub ∈ r.hubs ∧ (s.sendMsgChan hub).length < sendMsgChanCap then some { s with
        sendMsgChan := Function.update s.sendMsgChan hub (s.sendMsgChan hub ++ [msg])
        holding := Function.update s.holding hub none }
      else none
    | none => none
  | .hubTake hub =>
    if hub ∈ r.hubs then
      match s.sendMsgChan hub with
      | msg :: rest => some { s with
          sendMsgChan := Function.update s.sendMsgChan hub rest
          received := Function.update s.received hub (s.received hub ++ [msg]) }
      | [] => none
    else none

inductive Step (s : Broadcast r) : BroadcastLabel r → Broadcast r → Prop
  | storagePut : Step s .storagePut { s with
      sendMsgChan := Function.update s.sendMsgChan none (s.sendMsgChan none ++ [.headSeq s.puts])
      puts := s.puts + 1 }
  | serverTake {msg : LeaderMsg} {rest : List LeaderMsg} (hidle : ∀ p ∈ s.pushing, p.2 = ∅)
      (hchan : s.sendMsgChan none = msg :: rest) : Step s .serverTake { s with
        sendMsgChan := Function.update s.sendMsgChan none rest
        pushing := some (msg, r.hubs) }
  | serverSend {hub : r.Node} {msg : LeaderMsg} {left : Finset r.Node}
      (hpush : s.pushing = some (msg, left)) (hleft : hub ∈ left) : Step s (.serverSend hub) { s with
        pushing := some (msg, left.erase hub)
        stream := Function.update s.stream hub (s.stream hub ++ [msg]) }
  | kickoff {hub : r.Node} {sids : List String} : Step s (.kickoff hub sids) { s with
      stream := Function.update s.stream hub (s.stream hub ++ [.kickoff sids]) }
  | clientRecv {hub : r.Node} {msg : LeaderMsg} {rest : List LeaderMsg}
      (hhold : s.holding hub = none) (hstream : s.stream hub = msg :: rest) :
      Step s (.clientRecv hub) { s with
        stream := Function.update s.stream hub rest
        holding := Function.update s.holding hub (some msg) }
  | clientPut {hub : r.Node} {msg : LeaderMsg} (hhold : s.holding hub = some msg)
      (hhub : hub ∈ r.hubs) : Step s (.clientPut hub) { s with
        sendMsgChan := Function.update s.sendMsgChan hub (s.sendMsgChan hub ++ [msg])
        holding := Function.update s.holding hub none }
  | hubTake {hub : r.Node} {msg : LeaderMsg} {rest : List LeaderMsg} (hhub : hub ∈ r.hubs)
      (hchan : s.sendMsgChan hub = msg :: rest) : Step s (.hubTake hub) { s with
        sendMsgChan := Function.update s.sendMsgChan hub rest
        received := Function.update s.received hub (s.received hub ++ [msg]) }

theorem step_spec {s s' : Broadcast r} {l : BroadcastLabel r} (h : s.step l = some s') :
    Step s l s' := by
  cases l with
  | storagePut =>
    simp only [step] at h
    split_ifs at h
    cases h
    exact .storagePut
  | serverTake =>
    simp only [step] at h
    split_ifs at h with hidle
    split at h
    · rename_i hchan
      cases h
      exact .serverTake hidle hchan
    · cases h
  | serverSend hub =>
    simp only [step] at h
    split at h
    · rename_i hpush
      split_ifs at h with hleft
      cases h
      exact .serverSend hpush hleft
    · cases h
  | kickoff hub sids =>
    simp only [step] at h
    split_ifs at h
    cases h
    exact .kickoff
  | clientRecv hub =>
    simp only [step] at h
    split_ifs at h with hhold
    split at h
    · rename_i hstream
      cases h
      exact .clientRecv hhold hstream
    · cases h
  | clientPut hub =>
    simp only [step] at h
    split at h
    · rename_i hhold
      split_ifs at h with hcond
      cases h
      exact .clientPut hhold hcond.1
    · cases h
  | hubTake hub =>
    simp only [step] at h
    split_ifs at h with hhub
    split at h
    · rename_i hchan
      cases h
      exact .hubTake hhub hchan
    · cases h

end Broadcast

/-- A cluster whose streams stay connected and whose sends do not fail. -/
def broadcastSystem (r : Roles) : System (Broadcast r) (BroadcastLabel r) where
  init s := s = .start r
  step s l := s.step l

end MiniPush.Cluster
