import MiniPush.Basic
import Mathlib.Data.Fintype.Basic

/-! The goroutines of one websocket session: the `ServeHTTP` call that creates the handler,
its `recvLoop` and its `sendLoop`. Reads and writes of the connection and calls of the
event API return. The handler's mutex is held by whoever is between `Lock` and `Unlock`
at a statement that can block. -/
namespace MiniPush.Ws

/-- Values of `dataChan`: an answer or a head seq, a kickoff, an error. -/
inductive SessionData
  | msg
  | kickoff
  | error
  deriving DecidableEq

/-- Statements that can block while the handler's mutex is held: the send on the full
`dataChan`, `hstore.del` and the send of `SessionOffline` inside `Handler.close`. -/
inductive HeldOp
  | push (data : SessionData)
  | del
  | offline
  deriving DecidableEq

/-- Statements that a goroutine of the handler has left before its next turn. `del` and
`offline` are the two parts of `delHandler` called without the mutex. -/
inductive HandlerOp
  | append (data : SessionData)
  | close
  | del
  | offline
  | e2e
  | exit
  deriving DecidableEq

/-- A loop is not started, at its `held` statement or else at the first of `todo` (with
nothing left it is at its next turn), or has returned. -/
inductive LoopState
  | absent
  | running (held : Option HeldOp) (todo : List HandlerOp)
  | finished
  deriving DecidableEq

namespace LoopState

def held : LoopState → Option HeldOp
  | .running held _ => held
  | .absent | .finished => none

/-- The loop sends, or is blocked sending, on `followerC`. -/
def sending : LoopState → Bool
  | .running (some .offline) _ => true
  | .running none (.offline :: _) => true
  | .running none (.e2e :: _) => true
  | _ => false

end LoopState

inductive Side
  | recv
  | send
  deriving DecidableEq

instance : Fintype Side where
  elems := {.recv, .send}
  complete side := by cases side <;> decide

/-- Positions of `ServeHTTP`: not called, past the check of `online`, after `hstore.add`, at
the send of `SessionOnline`, at a send on the nil channel, returned. -/
inductive ServePhase
  | idle
  | upgrading
  | added
  | sending
  | parked
  | returned
  deriving DecidableEq

/-- `stored` holds while the handler store has the handler. -/
structure HandlerRun where
  serve : ServePhase
  loop : Side → LoopState
  stored : Bool
  closing : Bool
  dataChan : List SessionData

/-- What `ReadMessage` returns to `recvLoop`: the error after a close frame, another error,
a message that is no text or does not decode, a request of the event API, a client message,
a message with no known field. -/
inductive ReadResult
  | closeFrame
  | error
  | badMessage
  | request
  | im
  | unsupported
  deriving DecidableEq

def ReadResult.ops (enableClientMsg : Bool) : ReadResult → List HandlerOp
  | .closeFrame => [.del, .append .error, .exit]
  | .error => [.append .error, .exit]
  | .badMessage => [.append .msg, .append .error, .exit]
  | .request => [.append .msg]
  | .im => if enableClientMsg then [.e2e] else [.append .msg]
  | .unsupported => [.append .msg, .append .error]

/-- What `sendLoop` does with a value whose write succeeded or failed. -/
def SessionData.ops : SessionData → Bool → List HandlerOp
  | .error, _ => [.close, .exit]
  | .msg, true => []
  | .kickoff, true => [.close]
  | .msg, false => [.append .error, .exit]
  | .kickoff, false => [.append .error, .exit]

namespace HandlerRun

def start : HandlerRun := ⟨.idle, fun _ => .absent, false, false, []⟩

def dataChanCap : ℕ := 16

def setLoop (h : HandlerRun) (side : Side) (loop : LoopState) : HandlerRun :=
  { h with loop := Function.update h.loop side loop }

def locked (h : HandlerRun) : Bool := (h.loop .recv).held.isSome || (h.loop .send).held.isSome

/-- The send of `appendDataChan`, when it does not block. -/
def offer (h : HandlerRun) (data : SessionData) : Option HandlerRun :=
  if h.closing then some h
  else if h.dataChan.length < dataChanCap then some { h with dataChan := h.dataChan ++ [data] }
  else none

/-- The next statement of a loop that waits for no receiver. `storeLocked` says that
`HandlerStore.close` holds the lock of the store, `hubHolds` that `Hub.Run` holds the
handler's mutex. -/
def work (storeLocked hubHolds : Bool) (h : HandlerRun) (side : Side) : Option HandlerRun :=
  match h.loop side with
  | .running (some (.push data)) todo =>
    (h.offer data).map fun h' => h'.setLoop side (.running none todo)
  | .running (some .del) todo =>
    if storeLocked then none
    else if h.stored then
      some { h.setLoop side (.running (some .offline) todo) with stored := false }
    else some (h.setLoop side (.running none todo))
  | .running none (.append data :: todo) =>
    if h.locked || hubHolds then none
    else
      match h.offer data with
      | some h' => some (h'.setLoop side (.running none todo))
      | none => some (h.setLoop side (.running (some (.push data)) todo))
  | .running none (.close :: todo) =>
    if h.locked || hubHolds then none
    else if h.closing then some (h.setLoop side (.running none todo))
    else some { h.setLoop side (.running (some .del) todo) with closing := true }
  | .running none (.del :: todo) =>
    if storeLocked then none
    else if h.stored then
      some { h.setLoop side (.running none (.offline :: todo)) with stored := false }
    else some (h.setLoop side (.running none todo))
  | .running none (.exit :: _) => some (h.setLoop side .finished)
  | _ => none

def delivered (h : HandlerRun) (side : Side) : Option HandlerRun :=
  match h.loop side with
  | .running (some .offline) todo => some (h.setLoop side (.running none todo))
  | .running none (.offline :: todo) => some (h.setLoop side (.running none todo))
  | .running none (.e2e :: todo) => some (h.setLoop side (.running none todo))
  | _ => none

def read (enableClientMsg : Bool) (h : HandlerRun) (result : ReadResult) : Option HandlerRun :=
  if h.loop .recv = .running none [] then
    some (h.setLoop .recv (.running none (result.ops enableClientMsg)))
  else none

def recvReturn (h : HandlerRun) : Option HandlerRun :=
  if h.loop .recv = .running none [] ∧ h.closing = true then some (h.setLoop .recv .finished)
  else none

/-- `sendLoop` receives from `dataChan`; `written` is the result of the write. -/
def take (h : HandlerRun) (written : Bool) : Option HandlerRun :=
  match h.dataChan with
  | [] => none
  | data :: rest =>
    if h.loop .send = .running none [] then
      some { h.setLoop .send (.running none (data.ops written)) with dataChan := rest }
    else none

def sendReturn (h : HandlerRun) : Option HandlerRun :=
  if h.loop .send = .running none [] ∧ h.closing = true ∧ h.dataChan = [] then
    some (h.setLoop .send .finished)
  else none

/-- `sendLoop` writes a ping; `written` is the result of the write. -/
def ping (h : HandlerRun) (written : Bool) : Option HandlerRun :=
  if h.loop .send = .running none [] then
    if written then some h else some (h.setLoop .send (.running none [.append .error, .exit]))
  else none

end HandlerRun

end MiniPush.Ws
