import MiniPush.Basic
import MiniPush.Foundation.Transition

/-! The goroutines that share the handler of one websocket session: `ServeHTTP`, `recvLoop` with the callback
for a close by the peer, `sendLoop`, `Hub.Run`, and calls of `Hub.Kickoff`. What is done under the handler's
mutex or the mutex of the handler store is one step, or several where `Handler.close` goes on to
`delHandler`. Sends on `followerC` are steps of their own. Reads and writes of the connection may fail at
any time. -/
namespace MiniPush.Ws.CloseProtocol
open Foundation

inductive SessionError
  | readError
  | writeError
  | pingError
  | badRequest
  | serverStop
  | kickedOff
  deriving DecidableEq

/-- A message to the client: an answer of `recvLoop`, with anything it may hold, or what `Hub.Run` passes on. -/
inductive ServerMsg (α : Type)
  | answer (answer : α)
  | headSeq (seq : ℤ)
  | kickoff
  deriving DecidableEq

/-- Values of `dataChan`. An absent error is the zero value. -/
structure SessionData (α : Type) where
  error : Option SessionError
  serverMsg : Option (ServerMsg α)
  deriving DecidableEq

abbrev SessionData.answer {α : Type} (answer : α) : SessionData α := ⟨none, some (.answer answer)⟩

/-- The messages of the kind `g`. `sendLoop` writes no message beside an error. -/
def SessionData.pick {α β : Type} (g : ServerMsg α → Option β) (v : SessionData α) : Option β :=
  match v.error with
  | some _ => none
  | none => v.serverMsg.bind g

/-- Messages that the hub sends to the cluster about the session. -/
inductive FollowerMsg
  | sessionOnline
  | sessionOffline
  deriving DecidableEq

/-- What takes the node down: a send on the closed `dataChan`, a second close of it, the panic of
`sendLoop`. -/
inductive Crash
  | sendOnClosed
  | closeOfClosed
  | unknownData
  deriving DecidableEq

/-- The handler, and what the hub knows of it: `stored` holds while it is in the handler store. `closes`
counts the calls of `close(dataChan)`; `cause` is what `Handler.close` was first called with. -/
structure Handler (α : Type) where
  stored : Bool
  closing : Bool
  connClosed : Bool
  dataChan : List (SessionData α)
  closes : ℕ
  cause : Option SessionError
  emitted : List FollowerMsg
  crash : Option Crash
  deriving DecidableEq

/-- What a loop does before its next turn. `del` and `offline` are the two parts of `delHandler`. -/
inductive Op (α : Type)
  | append (data : SessionData α)
  | close (cause : SessionError)
  | del
  | offline
  | e2e
  | exit
  deriving DecidableEq

/-- A loop is not started, at the first of `todo` (with nothing left at its next turn), or has returned. -/
inductive LoopPos (α : Type)
  | absent
  | running (todo : List (Op α))
  | finished
  deriving DecidableEq

variable {α : Type}

namespace LoopPos

def todo : LoopPos α → List (Op α)
  | .running todo => todo
  | .absent | .finished => []

/-- A loop with nothing left but to return has returned. -/
def after : List (Op α) → LoopPos α
  | [.exit] => .finished
  | todo => .running todo

end LoopPos

namespace Handler

def dataChanCap : ℕ := 16

def new : Handler α := ⟨false, false, false, [], 0, none, [], none⟩

/-- `appendDataChan`. It waits while the channel is full. -/
def appendDataChan (h : Handler α) (v : SessionData α) : Option (Handler α) :=
  if h.closing then some h
  else if 0 < h.closes then some { h with crash := some .sendOnClosed }
  else if h.dataChan.length < dataChanCap then some { h with dataChan := h.dataChan ++ [v] }
  else none

/-- `close` of a handler that is not closing, up to `delHandler`. -/
def shut (h : Handler α) (cause : SessionError) : Handler α :=
  { h with
    closing := true
    connClosed := true
    cause := some cause
    closes := h.closes + 1
    crash := if 0 < h.closes then some .closeOfClosed else h.crash }

/-- `close` as `HandlerStore.close` calls it, which does not go on to `delHandler`. -/
def stop (h : Handler α) : Handler α := if h.closing then h else h.shut .serverStop

/-- The next statement of a loop, and where it leaves the loop. -/
def exec (h : Handler α) (rest : List (Op α)) : Op α → Option (Handler α × LoopPos α)
  | .append v => (h.appendDataChan v).map fun h => (h, .after rest)
  | .close cause =>
    if h.closing then some (h, .after rest)
    else some (h.shut cause, .after (if cause = .serverStop then rest else .del :: rest))
  | .del =>
    if h.stored then some ({ h with stored := false }, .after (.offline :: rest))
    else some (h, .after rest)
  | .offline => some ({ h with emitted := h.emitted ++ [.sessionOffline] }, .after rest)
  | .e2e => some (h, .after rest)
  | .exit => some (h, .finished)

end Handler

/-- What `ReadMessage` returns to `recvLoop`: an error after a close frame of the peer, another error, a
message that is no text or does not decode, a request of the event API, a client message, a message with no
known field; with the answer to it. A client message is answered only where the feature is off. -/
inductive ReadResult (α : Type)
  | closeFrame
  | error
  | badMessage (answer : α)
  | request (answer : α)
  | im (answer : α)
  | unsupported (answer : α)
  deriving DecidableEq

def ReadResult.ops (enableClientMsg : Bool) : ReadResult α → List (Op α)
  | .closeFrame => [.del, .append ⟨some .readError, none⟩, .exit]
  | .error => [.append ⟨some .readError, none⟩, .exit]
  | .badMessage answer => [.append (.answer answer), .append ⟨some .badRequest, none⟩, .exit]
  | .request answer => [.append (.answer answer)]
  | .im answer => if enableClientMsg then [.e2e] else [.append (.answer answer)]
  | .unsupported answer => [.append (.answer answer), .append ⟨some .badRequest, none⟩]

def ServerMsg.isKickoff : ServerMsg α → Bool
  | .kickoff => true
  | .answer _ | .headSeq _ => false

/-- What `sendLoop` does with a value, if its write succeeds or fails. `none` is the panic. -/
def SessionData.ops (v : SessionData α) (written : Bool) : Option (List (Op α)) :=
  match v.error, v.serverMsg with
  | some cause, _ => some [.close cause, .exit]
  | none, none => none
  | none, some msg =>
    if !written then some [.append ⟨some .writeError, none⟩, .exit]
    else if msg.isKickoff then some [.close .kickedOff]
    else some []

/-- Positions of `Hub.Run` and of calls of `Hub.Kickoff`, with the handler in hand: before `appendDataChan`
of a kickoff, before `hstore.del`, before `appendDataChan` of a head seq. -/
inductive TaskPos
  | idle
  | kickoff
  | deleting
  | headSeq (seq : ℤ)
  | stopped
  deriving DecidableEq

def Handler.deliver (h : Handler α) : TaskPos → Option (Handler α × TaskPos)
  | .kickoff => (h.appendDataChan ⟨none, some .kickoff⟩).map fun h => (h, .deleting)
  | .deleting => some ({ h with stored := false }, .idle)
  | .headSeq seq => (h.appendDataChan ⟨none, some (.headSeq seq)⟩).map fun h => (h, .idle)
  | .idle | .stopped => none

/-- Positions of `ServeHTTP`: before `hstore.add`, at the send of `SessionOnline`, returned. -/
inductive ServePos
  | idle
  | added
  | returned
  deriving DecidableEq

/-- The handler and the positions of the goroutines. `task none` is `Hub.Run`, the others are calls of
`Hub.Kickoff`. -/
structure Session (α : Type) where
  handler : Handler α
  serve : ServePos
  recv : LoopPos α
  send : LoopPos α
  task : Option ℕ → TaskPos

def Session.start : Session α := ⟨.new, .idle, .absent, .absent, fun _ => .idle⟩

/-- Steps of the goroutines. `take` is a receive of `sendLoop` from `dataChan`, `drained` its receive from
the closed channel; `kickoff` and `headSeq` look the handler up in the store; `stop` is the end of the
context of `Hub.Run`. -/
inductive Label (α : Type)
  | add
  | online
  | read (result : ReadResult α)
  | recvReturn
  | recvWork
  | take (written : Bool)
  | drained
  | ping (written : Bool)
  | sendWork
  | kickoff (i : Option ℕ)
  | headSeq (seq : ℤ)
  | deliver (i : Option ℕ)
  | stop
  | leaderClosed
  deriving DecidableEq

variable [DecidableEq α]

namespace Session

def next (enableClientMsg : Bool) (s : Session α) : Label α → Option (Session α)
  | .add =>
    if s.serve = .idle then some { s with serve := .added, handler := { s.handler with stored := true } }
    else none
  | .online =>
    if s.serve = .added then
      some { s with
        serve := .returned
        recv := .running []
        send := .running []
        handler := { s.handler with emitted := s.handler.emitted ++ [.sessionOnline] } }
    else none
  | .read result =>
    if s.recv = .running [] then some { s with recv := .running (result.ops enableClientMsg) } else none
  | .recvReturn =>
    if s.recv = .running [] ∧ s.handler.closing = true then some { s with recv := .finished } else none
  | .recvWork =>
    match s.recv with
    | .running (op :: rest) =>
      (s.handler.exec rest op).map fun r => { s with handler := r.1, recv := r.2 }
    | _ => none
  | .take written =>
    match s.send, s.handler.dataChan with
    | .running [], v :: rest =>
      match v.ops written with
      | some todo => some { s with handler := { s.handler with dataChan := rest }, send := .running todo }
      | none => some { s with handler := { s.handler with dataChan := rest, crash := some .unknownData } }
    | _, _ => none
  | .drained =>
    if s.send = .running [] ∧ s.handler.dataChan = [] ∧ 0 < s.handler.closes then
      some { s with handler := { s.handler with connClosed := true }, send := .finished }
    else none
  | .ping written =>
    if s.send = .running [] then
      some { s with
        send := if written then .running [] else .running [.append ⟨some .pingError, none⟩, .exit] }
    else none
  | .sendWork =>
    match s.send with
    | .running (op :: rest) =>
      (s.handler.exec rest op).map fun r => { s with handler := r.1, send := r.2 }
    | _ => none
  | .kickoff i =>
    if s.task i = .idle ∧ s.handler.stored = true then
      some { s with task := Function.update s.task i .kickoff }
    else none
  | .headSeq seq =>
    if s.task none = .idle ∧ s.handler.stored = true then
      some { s with task := Function.update s.task none (.headSeq seq) }
    else none
  | .deliver i =>
    (s.handler.deliver (s.task i)).map fun r =>
      { s with handler := r.1, task := Function.update s.task i r.2 }
  | .stop =>
    if s.task none = .idle then
      some { s with
        handler := if s.handler.stored then s.handler.stop else s.handler
        task := Function.update s.task none .stopped }
    else none
  | .leaderClosed =>
    if s.task none = .idle then some { s with task := Function.update s.task none .stopped } else none

end Session

/-- One session of a hub. A crash takes the whole node down. -/
def closeSystem (enableClientMsg : Bool) : System (Session α) (Label α) where
  init s := s = .start
  step s l := if s.handler.crash.isSome then none else s.next enableClientMsg l

end MiniPush.Ws.CloseProtocol
