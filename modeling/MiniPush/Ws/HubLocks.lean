import MiniPush.Ws.HandlerRun
import MiniPush.Foundation.Mutex
import MiniPush.Foundation.Transition
import Mathlib.Data.Finset.Dedup
import Mathlib.Data.Finset.Erase
import Mathlib.Data.Finset.Filter
import Mathlib.Data.Finset.Insert

/-! The goroutines of a hub and the locks they share: the mutex of every handler, the reader-writer lock of
the handler store, and the bounded `dataChan` between `appendDataChan` and `sendLoop`. Sessions are named by
their sid. A step is what a goroutine does between two statements at which it can block or be seen: taking a
mutex with the check of `closing`, the send on `dataChan`, the begin and the end of a `WriteMessage`, the two
parts of the store's `Lock`. Sends on `followerC` are always received; reads and writes of connections
may fail at any time. -/
namespace MiniPush.Ws.HubLocks
open Foundation

/-- The goroutines: `ServeHTTP`, `recvLoop` and `sendLoop` of a session, `Hub.Run`, and calls of
`Hub.Kickoff`. -/
inductive Gor (ι : Type)
  | serve (i : ι)
  | recv (i : ι)
  | send (i : ι)
  | run
  | kickoff (k : ℕ)
  deriving DecidableEq

inductive Frame
  | data (v : SessionData)
  | ping
  deriving DecidableEq

/-- Statements under the mutex of a handler: the send of `appendDataChan`, and those of `Handler.close`.
`stop` says that the cause is `ServerStop`; `del` and `remove` are the two parts of the store's `Lock`. -/
inductive HeldStmt
  | push (v : SessionData)
  | closeFrame (stop : Bool)
  | writing (stop : Bool)
  | shut (stop : Bool)
  | del
  | remove
  | offline
  deriving DecidableEq

/-- Statements without a handler's mutex. `append` and `close` begin with `h.Lock()`; `written` is inside a
`WriteMessage`; `del` and `add` begin with the store's `Lock`, `remove` and `insert` wait for it; `tell` says
that `delHandler` called `del`; `closeEach` is the loop of `HandlerStore.close` with the handlers that are
left. -/
inductive Stmt (ι : Type)
  | append (i : ι) (v : SessionData)
  | close (i : ι) (stop : Bool)
  | write (i : ι) (frame : Frame)
  | written (i : ι) (frame : Frame)
  | del (i : ι) (tell : Bool)
  | remove (i : ι) (tell : Bool)
  | offline
  | e2e
  | add (i : ι)
  | insert (i : ι)
  | online (i : ι)
  | get (i : ι)
  | getByUid (uid : ℤ)
  | closeAll
  | closeEach (rest : List ι)
  | notify
  | exit
  deriving DecidableEq

/-- A goroutine is not started, has `todo` left before its next turn, or has returned. -/
inductive Thread (ι : Type)
  | absent
  | running (todo : List (Stmt ι))
  | finished
  deriving DecidableEq

structure Handler where
  closing : Bool
  chanClosed : Bool
  dataChan : List SessionData
  deriving DecidableEq

structure Data (ι : Type) where
  handler : ι → Handler
  stored : Finset ι
  store : RWMutex (Gor ι)

/-- The state of a hub. A goroutine that holds a mutex is at its statement in `locks`, any other at the first
of its `thread`. -/
structure HubState (ι : Type) extends Data ι where
  locks : Locks ι (Gor ι) HeldStmt
  thread : Gor ι → Thread ι

/-- What a step does: where it leaves its goroutine, the session whose loops it starts, the new data. -/
structure Effect (ι : Type) where
  gor : Gor ι
  held : Option (ι × HeldStmt)
  thread : Thread ι
  start : Option ι
  data : Data ι

/-- Events. `take` is a receive of `sendLoop` from `dataChan`, `drained` its receive from the closed channel,
`tick` the ping ticker, `wrote` the end of its `WriteMessage`; `leaderKickoff` and `leaderHeadSeq` are
messages for `Hub.Run`, `stop` the end of its context; `getByUid` and `closeAll` carry an order of the map
of handlers; `work` is the next statement of a goroutine. -/
inductive Label (ι : Type)
  | serve (i : ι)
  | read (i : ι) (result : ReadResult)
  | recvReturn (i : ι)
  | take (i : ι)
  | drained (i : ι)
  | tick (i : ι)
  | wrote (i : ι) (ok : Bool)
  | kickoff (k : ℕ) (i : ι)
  | leaderKickoff (sids : List ι)
  | leaderHeadSeq (uids : List ℤ)
  | leaderClosed
  | stop
  | getByUid (slice : List ι)
  | closeAll (order : List ι)
  | work (g : Gor ι)

variable {ι : Type}

def Stmt.ofOp (i : ι) : HandlerOp → Stmt ι
  | .append v => .append i v
  | .close => .close i false
  | .del => .del i true
  | .offline => .offline
  | .e2e => .e2e
  | .exit => .exit

def sendOps (i : ι) : SessionData → List (Stmt ι)
  | .error => [.close i false, .exit]
  | .msg => [.write i (.data .msg)]
  | .kickoff => [.write i (.data .kickoff)]

/-- What `sendLoop` does after a write that succeeded or failed. -/
def Frame.ops : Frame → Bool → List HandlerOp
  | .data v, ok => v.ops ok
  | .ping, true => []
  | .ping, false => [.append .error, .exit]

def HubState.start : HubState ι where
  handler _ := ⟨false, false, []⟩
  stored := ∅
  store := .free
  locks := .free
  thread
    | .run => .running []
    | _ => .absent

variable [DecidableEq ι]

namespace HubState
variable (s : HubState ι)

def setHandler (i : ι) (h : Handler) : Data ι := { s.toData with handler := Function.update s.handler i h }

def full (i : ι) : Bool := HandlerRun.dataChanCap ≤ (s.handler i).dataChan.length

def goOn (g : Gor ι) (todo : List (Stmt ι)) : Effect ι := ⟨g, none, .running todo, none, s.toData⟩

def hold (g : Gor ι) (i : ι) (op : HeldStmt) (todo : List (Stmt ι)) : Effect ι :=
  ⟨g, some (i, op), .running todo, none, s.toData⟩

def execHeld (g : Gor ι) (i : ι) (todo : List (Stmt ι)) : HeldStmt → Option (Effect ι)
  | .push v =>
    if s.full i then none
    else some { s.goOn g todo with
      data := s.setHandler i { s.handler i with dataChan := (s.handler i).dataChan ++ [v] } }
  | .closeFrame stop => some (s.hold g i (.writing stop) todo)
  | .writing stop => some (s.hold g i (.shut stop) todo)
  | .shut stop =>
    let data := s.setHandler i { s.handler i with chanClosed := true }
    if stop then some { s.goOn g todo with data } else some { s.hold g i .del todo with data }
  | .del => (s.store.lock? g).map fun store =>
    { s.hold g i .remove todo with data := { s.toData with store } }
  | .remove =>
    if s.store.granted then
      let data := { s.toData with stored := s.stored.erase i, store := s.store.unlock }
      if i ∈ s.stored then some { s.hold g i .offline todo with data }
      else some { s.goOn g todo with data }
    else none
  | .offline => some (s.goOn g todo)

def exec (g : Gor ι) (todo : List (Stmt ι)) : Stmt ι → Option (Effect ι)
  | .append i v =>
    if (s.locks.owner i).isSome then none
    else if (s.handler i).closing then some (s.goOn g todo)
    else some (s.hold g i (.push v) todo)
  | .close i stop =>
    if (s.locks.owner i).isSome then none
    else if (s.handler i).closing then some (s.goOn g todo)
    else some { s.hold g i (.closeFrame stop) todo with
      data := s.setHandler i { s.handler i with closing := true } }
  | .write i frame => some (s.goOn g (.written i frame :: todo))
  | .del i tell => (s.store.lock? g).map fun store =>
    { s.goOn g (.remove i tell :: todo) with data := { s.toData with store } }
  | .remove i tell =>
    if s.store.granted then
      some { s.goOn g (if i ∈ s.stored ∧ tell = true then .offline :: todo else todo) with
        data := { s.toData with stored := s.stored.erase i, store := s.store.unlock } }
    else none
  | .add i => (s.store.lock? g).map fun store =>
    { s.goOn g (.insert i :: todo) with data := { s.toData with store } }
  | .insert i =>
    if s.store.granted then
      some { s.goOn g todo with
        data := { s.toData with stored := insert i s.stored, store := s.store.unlock } }
    else none
  | .online i => some { s.goOn g todo with start := some i }
  | .get i =>
    if s.store.rlock?.isSome then
      some (s.goOn g (if i ∈ s.stored then .append i .kickoff :: .del i false :: todo else todo))
    else none
  | .closeEach (i :: rest) => some (s.goOn g (.close i true :: .closeEach rest :: todo))
  | .closeEach [] => some { s.goOn g todo with data := { s.toData with store := s.store.runlock } }
  | .offline | .e2e | .notify => some (s.goOn g todo)
  | .exit => some { s.goOn g [] with thread := .finished }
  | .written _ _ | .getByUid _ | .closeAll => none

def idle (g : Gor ι) : Bool := (s.locks.held g).isNone && decide (s.thread g = .running [])

def turn (g : Gor ι) (todo : List (Stmt ι)) : Option (Effect ι) :=
  if s.idle g then some (s.goOn g todo) else none

def leave (g : Gor ι) : Option (Effect ι) :=
  if s.idle g then some { s.goOn g [] with thread := .finished } else none

def call (g : Gor ι) (todo : List (Stmt ι)) : Option (Effect ι) :=
  if s.thread g = .absent then some (s.goOn g todo) else none

def effect (uid : ι → ℤ) (enableClientMsg : Bool) : Label ι → Option (Effect ι)
  | .serve i => s.call (.serve i) [.add i, .online i, .exit]
  | .read i result => s.turn (.recv i) ((result.ops enableClientMsg).map (.ofOp i))
  | .recvReturn i => if (s.handler i).closing then s.leave (.recv i) else none
  | .take i =>
    match (s.handler i).dataChan with
    | [] => none
    | v :: rest => (s.turn (.send i) (sendOps i v)).map fun e =>
      { e with data := s.setHandler i { s.handler i with dataChan := rest } }
  | .drained i =>
    if (s.handler i).chanClosed ∧ (s.handler i).dataChan = [] then s.leave (.send i) else none
  | .tick i => s.turn (.send i) [.write i .ping]
  | .wrote i ok =>
    match s.locks.held (.send i), s.thread (.send i) with
    | none, .running (.written j frame :: todo) =>
      some (s.goOn (.send i) ((frame.ops ok).map (.ofOp j) ++ todo))
    | _, _ => none
  | .kickoff k i => s.call (.kickoff k) [.get i, .exit]
  | .leaderKickoff sids => s.turn .run (sids.map .get)
  | .leaderHeadSeq uids => s.turn .run (uids.map .getByUid)
  | .leaderClosed => s.leave .run
  | .stop => s.turn .run [.closeAll, .notify, .exit]
  | .getByUid slice =>
    match s.locks.held .run, s.thread .run with
    | none, .running (.getByUid u :: todo) =>
      if s.store.rlock?.isSome ∧ slice.Nodup ∧ slice.toFinset = s.stored.filter (uid · = u) then
        some (s.goOn .run (slice.map (.append · .msg) ++ todo))
      else none
    | _, _ => none
  | .closeAll order =>
    match s.locks.held .run, s.thread .run with
    | none, .running (.closeAll :: todo) =>
      if order.Nodup ∧ order.toFinset = s.stored then
        s.store.rlock?.map fun store =>
          { s.goOn .run (.closeEach order :: todo) with data := { s.toData with store } }
      else none
    | _, _ => none
  | .work g =>
    match s.locks.held g, s.thread g with
    | some (i, op), .running todo => s.execHeld g i todo op
    | none, .running (stmt :: todo) => s.exec g todo stmt
    | _, _ => none

def startLoops (i : ι) : Gor ι → Thread ι :=
  Function.update (Function.update s.thread (.recv i) (.running [])) (.send i) (.running [])

def apply (e : Effect ι) : Option (HubState ι) :=
  (s.locks.move? e.gor e.held).map fun locks =>
    { e.data with locks, thread := Function.update (e.start.elim s.thread s.startLoops) e.gor e.thread }

end HubState

/-- A hub with any number of sessions, each of the user `uid`. -/
def lockSystem (uid : ι → ℤ) (enableClientMsg : Bool) : System (HubState ι) (Label ι) where
  init s := s = .start
  step s l := (s.effect uid enableClientMsg l).bind s.apply

end MiniPush.Ws.HubLocks
