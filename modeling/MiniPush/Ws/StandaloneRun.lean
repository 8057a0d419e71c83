import MiniPush.Cluster.Workers
import MiniPush.Ws.HandlerRun

/-! The goroutines of a standalone server: `Standalone.Run` with its deferred clean-up,
`storage.run` with its loops, `Hub.Run`, and the goroutines of any number of sessions.
`sendMsgChan`, `recvMsgChan` and the stop channels are unbuffered, so a send and its
receive are one step. -/
namespace MiniPush.Ws
open Foundation Cluster

inductive StopOp
  | stopTicker
  | shutdownHttp
  | recvStorageStop
  | closeStorageStop
  | recvHubStop
  | closeHubStop
  | closeSendMsgChan
  | closeRecvMsgChan
  | notifyStop
  | finished
  deriving DecidableEq

namespace StopOp

def next : StopOp → StopOp
  | .stopTicker => .shutdownHttp
  | .shutdownHttp => .recvStorageStop
  | .recvStorageStop => .closeStorageStop
  | .closeStorageStop => .recvHubStop
  | .recvHubStop => .closeHubStop
  | .closeHubStop => .closeSendMsgChan
  | .closeSendMsgChan => .closeRecvMsgChan
  | .closeRecvMsgChan => .notifyStop
  | .notifyStop => .finished
  | .finished => .finished

def pastStorage : StopOp → Bool
  | .stopTicker | .shutdownHttp | .recvStorageStop => false
  | _ => true

def pastHub : StopOp → Bool
  | .stopTicker | .shutdownHttp | .recvStorageStop | .closeStorageStop | .recvHubStop => false
  | _ => true

end StopOp

/-- Positions of `Standalone.Run`: before `Hub.Online`, inside it before and after the copy
of the sessions, at the `select` of its loop, at the send on `sendMsgChan` in `kickoff`, at a
statement of its deferred function. -/
inductive RunPhase (ι : Type)
  | starting
  | copying
  | syncing
  | loop
  | kicking (sids : List ι)
  | deferred (op : StopOp)
  deriving DecidableEq

namespace RunPhase
variable {ι : Type}

def leaving : RunPhase ι → Bool
  | .deferred _ => true
  | _ => false

def storageReceived : RunPhase ι → Bool
  | .deferred op => op.pastStorage
  | _ => false

def hubReceived : RunPhase ι → Bool
  | .deferred op => op.pastHub
  | _ => false

def sendMsgClosed : RunPhase ι → Bool
  | .deferred .closeRecvMsgChan | .deferred .notifyStop | .deferred .finished => true
  | _ => false

def recvMsgClosed : RunPhase ι → Bool
  | .deferred .notifyStop | .deferred .finished => true
  | _ => false

end RunPhase

/-- Statements of `Hub.Run` for a message: `hstore.get`, `appendDataChan` before the mutex,
`hstore.del`, `hstore.getByUid`. -/
inductive HubOp (ι : Type)
  | get (sid : ι)
  | append (sid : ι) (data : SessionData)
  | remove (sid : ι)
  | getByUid (uid : ℤ)
  deriving DecidableEq

/-- Positions of `Hub.Run`: before it sets `followerC`, at its `select`, working on a message
(with `held`, under a handler's mutex at the send on its full `dataChan`), in `hstore.close`
with these handlers left, at the send on `stopDoneNotifyC`, after it. -/
inductive HubPhase (ι : Type)
  | starting
  | select
  | handle (held : Option (ι × SessionData)) (todo : List (HubOp ι))
  | closing (rest : List ι)
  | notifying
  | stopped
  deriving DecidableEq

namespace HubPhase
variable {ι : Type}

def leaving : HubPhase ι → Bool
  | .closing _ | .notifying | .stopped => true
  | _ => false

def storeLocked : HubPhase ι → Bool
  | .closing _ => true
  | _ => false

def holds [DecidableEq ι] : HubPhase ι → ι → Bool
  | .handle (some (sid, _)) _, i => sid = i
  | _, _ => false

end HubPhase

structure StandaloneConfig (ι : Type) where
  cleanEvents : Bool
  enableClientMsg : Bool
  uid : ι → ℤ

def oneSessionConfig : StandaloneConfig (Fin 1) := ⟨false, false, fun _ => 7⟩

structure Process (ι : Type) where
  cancelled : Bool
  online : Bool
  run : RunPhase ι
  storage : StorageRun
  hub : HubPhase ι
  handlers : ι → HandlerRun

/-- Which sessions exceed the quota, the users of a head seq message and the order of a map
iteration are left to the label. -/
inductive ProcessLabel (ι : Type)
  | cancel
  | goOnline
  | copySessions
  | tick (kick : List ι)
  | runCtxDone
  | deferred
  | storage (step : StorageStep)
  | hubStart
  | hubCtxDone (order : List ι)
  | hubRecvHeadSeq (uids : List ℤ)
  | hubRecvKickoff
  | hubRecvClosed
  | hubWork (slice : List ι)
  | serveCheck (i : ι)
  | serveAdd (i : ι)
  | serveSend (i : ι)
  | serveSent (i : ι) (kick : List ι)
  | read (i : ι) (result : ReadResult)
  | recvReturn (i : ι)
  | take (i : ι) (written : Bool)
  | ping (i : ι) (written : Bool)
  | sendReturn (i : ι)
  | work (i : ι) (side : Side)
  | deliver (i : ι) (side : Side)

/-- The label is the arrival of a request, not a step of a goroutine that exists. -/
def ProcessLabel.arrives {ι : Type} : ProcessLabel ι → Bool
  | .serveCheck _ => true
  | _ => false

namespace Process
variable {ι : Type} [DecidableEq ι]

def setHandler (s : Process ι) (i : ι) (h : HandlerRun) : Process ι :=
  { s with handlers := Function.update s.handlers i h }

@[simp] theorem setHandler_handlers_self (s : Process ι) (i : ι) (h : HandlerRun) :
    (s.setHandler i h).handlers i = h := Function.update_self ..

theorem setHandler_handlers_of_ne {i j : ι} (s : Process ι) (h : HandlerRun) (hj : j ≠ i) :
    (s.setHandler i h).handlers j = s.handlers j := Function.update_of_ne hj ..

/-- `Standalone.Run` has sent a `Kickoff` message of these sessions, if there are any. -/
def kickoff (sids : List ι) : RunPhase ι := if sids = [] then .loop else .kicking sids

def perform (s : Process ι) : StopOp → Option (Process ι)
  | .recvStorageStop => s.storage.notified.map fun t => { s with storage := t }
  | .recvHubStop => if s.hub = .notifying then some { s with hub := .stopped } else none
  | .finished => none
  | _ => some s

variable [Fintype ι]

def IsSlice (cfg : StandaloneConfig ι) (s : Process ι) (uid : ℤ) (slice : List ι) : Prop :=
  slice.Nodup ∧ ∀ i, i ∈ slice ↔ (s.handlers i).stored = true ∧ cfg.uid i = uid

def IsOrder (s : Process ι) (order : List ι) : Prop :=
  order.Nodup ∧ ∀ i, i ∈ order ↔ (s.handlers i).stored = true

instance {cfg : StandaloneConfig ι} {s : Process ι} {uid : ℤ} {slice : List ι} :
    Decidable (s.IsSlice cfg uid slice) :=
  inferInstanceAs (Decidable (_ ∧ _))

instance {s : Process ι} {order : List ι} : Decidable (s.IsOrder order) :=
  inferInstanceAs (Decidable (_ ∧ _))

def hubWork (cfg : StandaloneConfig ι) (s : Process ι) (slice : List ι) : Option (Process ι) :=
  match s.hub with
  | .handle none [] => some { s with hub := .select }
  | .handle none (.get i :: todo) =>
    if (s.handlers i).stored then
      some { s with hub := .handle none (.append i .kickoff :: .remove i :: todo) }
    else some { s with hub := .handle none todo }
  | .handle none (.append i data :: todo) =>
    if (s.handlers i).locked then none
    else
      match (s.handlers i).offer data with
      | some h => some { s.setHandler i h with hub := .handle none todo }
      | none => some { s with hub := .handle (some (i, data)) todo }
  | .handle (some (i, data)) todo =>
    ((s.handlers i).offer data).map fun h => { s.setHandler i h with hub := .handle none todo }
  | .handle none (.remove i :: todo) =>
    some { s.setHandler i { s.handlers i with stored := false } with hub := .handle none todo }
  | .handle none (.getByUid uid :: todo) =>
    if s.IsSlice cfg uid slice then
      some { s with hub := .handle none (slice.map (fun i => .append i .msg) ++ todo) }
    else none
  | .closing (i :: rest) =>
    if (s.handlers i).locked then none
    else
      some { s.setHandler i { s.handlers i with closing := true } with hub := .closing rest }
  | .closing [] => some { s with hub := .notifying }
  | .starting | .select | .notifying | .stopped => none

def step (cfg : StandaloneConfig ι) (s : Process ι) : ProcessLabel ι → Option (Process ι)
  | .cancel => if s.cancelled = false then some { s with cancelled := true } else none
  | .goOnline =>
    if s.run = .starting then some { s with run := .copying, online := true } else none
  | .copySessions =>
    if s.run = .copying then
      some { s with run := if ∃ i, (s.handlers i).stored = true then .syncing else .loop }
    else none
  | .tick kick =>
    if s.run = .loop ∧ kick ≠ [] then some { s with run := .kicking kick } else none
  | .runCtxDone =>
    if s.cancelled = true ∧ s.run = .loop then
      some { s with run := .deferred .stopTicker, online := false }
    else none
  | .deferred =>
    match s.run with
    | .deferred op => (s.perform op).map fun t => { t with run := .deferred op.next }
    | _ => none
  | .storage l => (s.storage.step s.cancelled l).map fun t => { s with storage := t }
  | .hubStart => if s.hub = .starting then some { s with hub := .select } else none
  | .hubCtxDone order =>
    if s.cancelled = true ∧ s.hub = .select ∧ s.IsOrder order then
      some { s with hub := .closing order }
    else none
  | .hubRecvHeadSeq uids =>
    if s.hub = .select then
      s.storage.sent.map fun t => { s with storage := t, hub := .handle none (uids.map .getByUid) }
    else none
  | .hubRecvKickoff =>
    match s.run with
    | .kicking sids =>
      if s.hub = .select then some { s with run := .loop, hub := .handle none (sids.map .get) } else none
    | _ => none
  | .hubRecvClosed =>
    if s.hub = .select ∧ s.run.sendMsgClosed = true then some { s with hub := .stopped } else none
  | .hubWork slice => s.hubWork cfg slice
  | .serveCheck i =>
    if (s.handlers i).serve = .idle ∧ s.online = true then
      some (s.setHandler i { s.handlers i with serve := .upgrading })
    else none
  | .serveAdd i =>
    if (s.handlers i).serve = .upgrading ∧ s.hub.storeLocked = false then
      some (s.setHandler i { s.handlers i with serve := .added, stored := true })
    else none
  | .serveSend i =>
    if (s.handlers i).serve = .added then
      some (s.setHandler i { s.handlers i with
        serve := if s.hub = .starting then .parked else .sending })
    else none
  | .serveSent i kick =>
    if (s.handlers i).serve = .sending ∧ s.run = .loop then
      some { s.setHandler i { s.handlers i with
          serve := .returned, loop := fun _ => .running none [] } with
        run := kickoff kick }
    else none
  | .read i result => ((s.handlers i).read cfg.enableClientMsg result).map (s.setHandler i)
  | .recvReturn i => (s.handlers i).recvReturn.map (s.setHandler i)
  | .take i written => ((s.handlers i).take written).map (s.setHandler i)
  | .ping i written => ((s.handlers i).ping written).map (s.setHandler i)
  | .sendReturn i => (s.handlers i).sendReturn.map (s.setHandler i)
  | .work i side =>
    ((s.handlers i).work s.hub.storeLocked (s.hub.holds i) side).map (s.setHandler i)
  | .deliver i side =>
    if s.run = .loop then ((s.handlers i).delivered side).map (s.setHandler i) else none

def start (cfg : StandaloneConfig ι) : Process ι where
  cancelled := false
  online := false
  run := .starting
  storage := .start cfg.cleanEvents
  hub := .starting
  handlers _ := .start

end Process

def processSystem {ι : Type} [DecidableEq ι] [Fintype ι] (cfg : StandaloneConfig ι) :
    System (Process ι) (ProcessLabel ι) where
  init s := s = .start cfg
  step := Process.step cfg

end MiniPush.Ws
