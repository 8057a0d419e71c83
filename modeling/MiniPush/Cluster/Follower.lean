import MiniPush.Basic
import MiniPush.Foundation.Transition

/-! A node that is only a follower: `runClient` with `Online`, `client.start` and its deferred clean-up,
`sendLoop` and `stop` of the client, `Hub.Run`, and the reports of the sessions. The two channels between
the hub and the client hold eight messages each. The handlers of the sessions are left out: `Hub.Run` may
wait for good at the lock or at the channel of one, where it gives it a message and where it closes it. -/
namespace MiniPush.Cluster.Follower
open Foundation

/-- `Hub.Run`: not yet started, so that `followerC` is nil; at its `select`; at work on a message; in
`hstore.close`; at the send on `stopDoneNotifyC`; returned. -/
inductive HubPc
  | starting
  | select
  | handling
  | closing
  | notifying
  | returned
  deriving DecidableEq

/-- `runClient`. `copying` and `syncing` are inside `Online`: before the copy of the sessions, and at the
sends of the copy; `parked` is a send on a `followerC` that was still nil. `recv` and `push` are inside
`client.start`: at `Recv`, and at the send of a message to the hub. `stopping` and `waiting` are the two
parts of `client.stop` in the deferred function. -/
inductive RunPc (F L : Type)
  | connect
  | online
  | copying
  | syncing (rest : List F)
  | parked
  | recv
  | push (msg : L)
  | offline
  | stopping
  | waiting
  | awaitHub
  | done
  | panicked
  deriving DecidableEq

/-- `sendLoop` of the client, which counts itself in the wait group. -/
inductive SendPc (F : Type)
  | absent
  | launched
  | select
  | sending (msg : F)
  | returned
  deriving DecidableEq

/-- The goroutine `go m.stop()` on a shutdown of the leader. -/
inductive StopPc
  | absent
  | begun
  | waiting
  | returned
  deriving DecidableEq

def chanCap : ℕ := 8

/-- `cancelled` is the context of the process, `clientCancelled` the one that `client.stop` cancels; `held`
says that `Hub.Run` waits at a handler that nobody will free. -/
structure Process (F L : Type) where
  cancelled : Bool
  clientCancelled : Bool
  online : Bool
  hub : HubPc
  held : Bool
  run : RunPc F L
  send : SendPc F
  shutdown : StopPc
  wg : ℕ
  recvMsgChan : List F
  sendMsgChan : List L

variable {F L : Type}

def start : Process F L := ⟨false, false, false, .starting, false, .connect, .absent, .absent, 0, [], []⟩

/-- Steps of the goroutines. `recvErr` tells the errors on which `client.start` returns from the others;
`report` is a send of a session's goroutine on `followerC`, `accept` a request that finds the hub online. -/
inductive Label (F L : Type)
  | cancel
  | hubStart
  | hubTake
  | hubHandled
  | hubDone
  | hubClosed
  | hold
  | connect (ok : Bool)
  | online
  | copy (msgs : List F)
  | sync
  | launch
  | recvMsg (msg : L)
  | recvShutdown
  | recvErr (fatal : Bool)
  | push
  | offline
  | stop
  | waited
  | hubStopped
  | sendBegin
  | sendTake
  | sendMsg (ok : Bool)
  | sendDone
  | stopBegin
  | stopWaited
  | report (msg : F)
  | accept

/-- One step. The contexts of the client end with the one of the process. -/
def next (s : Process F L) : Label F L → Option (Process F L)
  | .cancel => some { s with cancelled := true }
  | .hubStart =>
    match s.hub with
    | .starting => some { s with hub := .select }
    | _ => none
  | .hubTake =>
    match s.hub, s.sendMsgChan with
    | .select, _ :: rest => some { s with hub := .handling, sendMsgChan := rest }
    | _, _ => none
  | .hubHandled =>
    match s.hub with
    | .handling => if s.held then none else some { s with hub := .select }
    | _ => none
  | .hubDone =>
    match s.hub with
    | .select => if s.cancelled then some { s with hub := .closing } else none
    | _ => none
  | .hubClosed =>
    match s.hub with
    | .closing => if s.held then none else some { s with hub := .notifying }
    | _ => none
  | .hold =>
    match s.hub with
    | .handling | .closing => some { s with held := true }
    | _ => none
  | .connect ok =>
    match s.run with
    | .connect =>
      if ok then if s.cancelled then none else some { s with run := .online }
      else some { s with run := .panicked }
    | _ => none
  | .online =>
    match s.run with
    | .online => some { s with online := true, run := .copying }
    | _ => none
  | .copy msgs =>
    match s.run with
    | .copying => some { s with run := .syncing msgs }
    | _ => none
  | .sync =>
    match s.run with
    | .syncing (msg :: rest) =>
      if s.hub = .starting then some { s with run := .parked }
      else if s.recvMsgChan.length < chanCap then
        some { s with run := .syncing rest, recvMsgChan := s.recvMsgChan ++ [msg] }
      else none
    | _ => none
  | .launch =>
    match s.run with
    | .syncing [] => some { s with run := .recv, send := .launched, wg := s.wg + 1 }
    | _ => none
  | .recvMsg msg =>
    match s.run with
    | .recv => some { s with run := .push msg }
    | _ => none
  | .recvShutdown =>
    match s.run with
    | .recv => some { s with run := .offline, shutdown := .begun, wg := s.wg - 1 }
    | _ => none
  | .recvErr fatal =>
    match s.run with
    | .recv => if fatal then some { s with run := .offline, wg := s.wg - 1 } else some s
    | _ => none
  | .push =>
    match s.run with
    | .push msg =>
      if s.sendMsgChan.length < chanCap then
        some { s with run := .recv, sendMsgChan := s.sendMsgChan ++ [msg] }
      else none
    | _ => none
  | .offline =>
    match s.run with
    | .offline => some { s with online := false, run := .stopping }
    | _ => none
  | .stop =>
    match s.run with
    | .stopping => some { s with clientCancelled := true, run := .waiting }
    | _ => none
  | .waited =>
    match s.run with
    | .waiting => if s.wg = 0 then some { s with run := .awaitHub } else none
    | _ => none
  | .hubStopped =>
    match s.run, s.hub with
    | .awaitHub, .notifying => some { s with run := .done, hub := .returned }
    | _, _ => none
  | .sendBegin =>
    match s.send with
    | .launched => some { s with send := .select, wg := s.wg + 1 }
    | _ => none
  | .sendTake =>
    match s.send, s.recvMsgChan with
    | .select, msg :: rest => some { s with send := .sending msg, recvMsgChan := rest }
    | _, _ => none
  | .sendMsg _ =>
    match s.send with
    | .sending _ => some { s with send := .select }
    | _ => none
  | .sendDone =>
    match s.send with
    | .select =>
      if s.cancelled || s.clientCancelled then some { s with send := .returned, wg := s.wg - 1 } else none
    | _ => none
  | .stopBegin =>
    match s.shutdown with
    | .begun => some { s with clientCancelled := true, shutdown := .waiting }
    | _ => none
  | .stopWaited =>
    match s.shutdown with
    | .waiting => if s.wg = 0 then some { s with shutdown := .returned } else none
    | _ => none
  | .report msg =>
    if s.hub ≠ .starting ∧ s.recvMsgChan.length < chanCap then
      some { s with recvMsgChan := s.recvMsgChan ++ [msg] }
    else none
  | .accept => if s.online then some s else none

/-- A follower. A panic takes the process down. -/
def followerSystem (F L : Type) : System (Process F L) (Label F L) where
  init s := s = start
  step s l :=
    match s.run with
    | .panicked => none
    | _ => next s l

inductive Steps (s : Process F L) : Label F L → Process F L → Prop
  | cancel : Steps s .cancel { s with cancelled := true }
  | hubStart (hhub : s.hub = .starting) : Steps s .hubStart { s with hub := .select }
  | hubTake (hhub : s.hub = .select) {msg : L} {rest : List L} (hchan : s.sendMsgChan = msg :: rest) :
    Steps s .hubTake { s with hub := .handling, sendMsgChan := rest }
  | hubHandled (hhub : s.hub = .handling) (hheld : s.held = false) :
    Steps s .hubHandled { s with hub := .select }
  | hubDone (hhub : s.hub = .select) (hc : s.cancelled = true) :
    Steps s .hubDone { s with hub := .closing }
  | hubClosed (hhub : s.hub = .closing) (hheld : s.held = false) :
    Steps s .hubClosed { s with hub := .notifying }
  | hold (hhub : s.hub = .handling ∨ s.hub = .closing) : Steps s .hold { s with held := true }
  | connect (hrun : s.run = .connect) (hc : s.cancelled = false) :
    Steps s (.connect true) { s with run := .online }
  | connectErr (hrun : s.run = .connect) : Steps s (.connect false) { s with run := .panicked }
  | online (hrun : s.run = .online) : Steps s .online { s with online := true, run := .copying }
  | copy (hrun : s.run = .copying) (msgs : List F) : Steps s (.copy msgs) { s with run := .syncing msgs }
  | syncNil {msg : F} {rest : List F} (hrun : s.run = .syncing (msg :: rest)) (hhub : s.hub = .starting) :
    Steps s .sync { s with run := .parked }
  | sync {msg : F} {rest : List F} (hrun : s.run = .syncing (msg :: rest)) (hhub : s.hub ≠ .starting)
    (hroom : s.recvMsgChan.length < chanCap) :
    Steps s .sync { s with run := .syncing rest, recvMsgChan := s.recvMsgChan ++ [msg] }
  | launch (hrun : s.run = .syncing []) :
    Steps s .launch { s with run := .recv, send := .launched, wg := s.wg + 1 }
  | recvMsg (hrun : s.run = .recv) (msg : L) : Steps s (.recvMsg msg) { s with run := .push msg }
  | recvShutdown (hrun : s.run = .recv) :
    Steps s .recvShutdown { s with run := .offline, shutdown := .begun, wg := s.wg - 1 }
  | recvFatal (hrun : s.run = .recv) :
    Steps s (.recvErr true) { s with run := .offline, wg := s.wg - 1 }
  | recvErr (hrun : s.run = .recv) : Steps s (.recvErr false) s
  | push {msg : L} (hrun : s.run = .push msg) (hroom : s.sendMsgChan.length < chanCap) :
    Steps s .push { s with run := .recv, sendMsgChan := s.sendMsgChan ++ [msg] }
  | offline (hrun : s.run = .offline) : Steps s .offline { s with online := false, run := .stopping }
  | stop (hrun : s.run = .stopping) : Steps s .stop { s with clientCancelled := true, run := .waiting }
  | waited (hrun : s.run = .waiting) (hwg : s.wg = 0) : Steps s .waited { s with run := .awaitHub }
  | hubStopped (hrun : s.run = .awaitHub) (hhub : s.hub = .notifying) :
    Steps s .hubStopped { s with run := .done, hub := .returned }
  | sendBegin (hsend : s.send = .launched) :
    Steps s .sendBegin { s with send := .select, wg := s.wg + 1 }
  | sendTake (hsend : s.send = .select) {msg : F} {rest : List F} (hchan : s.recvMsgChan = msg :: rest) :
    Steps s .sendTake { s with send := .sending msg, recvMsgChan := rest }
  | sendMsg {msg : F} (hsend : s.send = .sending msg) (ok : Bool) :
    Steps s (.sendMsg ok) { s with send := .select }
  | sendDone (hsend : s.send = .select) (hc : s.cancelled = true ∨ s.clientCancelled = true) :
    Steps s .sendDone { s with send := .returned, wg := s.wg - 1 }
  | stopBegin (hstop : s.shutdown = .begun) :
    Steps s .stopBegin { s with clientCancelled := true, shutdown := .waiting }
  | stopWaited (hstop : s.shutdown = .waiting) (hwg : s.wg = 0) :
    Steps s .stopWaited { s with shutdown := .returned }
  | report (msg : F) (hhub : s.hub ≠ .starting) (hroom : s.recvMsgChan.length < chanCap) :
    Steps s (.report msg) { s with recvMsgChan := s.recvMsgChan ++ [msg] }
  | accept (honline : s.online = true) : Steps s .accept s

theorem steps_of_next {s s' : Process F L} {l : Label F L} (h : next s l = some s') : Steps s l s' := by
  cases l with
  | cancel => cases h; exact .cancel
  | hubStart =>
    simp only [next] at h
    split at h
    · cases h; exact .hubStart ‹_›
    · cases h
  | hubTake =>
    simp only [next] at h
    split at h
    · cases h; exact .hubTake ‹_› ‹_›
    · cases h
  | hubHandled =>
    simp only [next] at h
    split at h
    · split_ifs at h with hheld
      cases h; exact .hubHandled ‹_› (by simpa using hheld)
    · cases h
  | hubDone =>
    simp only [next] at h
    split at h
    · split_ifs at h with hc
      cases h; exact .hubDone ‹_› hc
    · cases h
  | hubClosed =>
    simp only [next] at h
    split at h
    · split_ifs at h with hheld
      cases h; exact .hubClosed ‹_› (by simpa using hheld)
    · cases h
  | hold =>
    simp only [next] at h
    split at h
    · cases h; exact .hold (.inl ‹_›)
    · cases h; exact .hold (.inr ‹_›)
    · cases h
  | connect ok =>
    simp only [next] at h
    split at h
    · split_ifs at h with hok hc
      · cases h; rw [hok]; exact .connect ‹_› (by simpa using hc)
      · cases h
        have hno : ok = false := by simpa using hok
        rw [hno]; exact .connectErr ‹_›
    · cases h
  | online =>
    simp only [next] at h
    split at h
    · cases h; exact .online ‹_›
    · cases h
  | copy msgs =>
    simp only [next] at h
    split at h
    · cases h; exact .copy ‹_› msgs
    · cases h
  | sync =>
    simp only [next] at h
    split at h
    · split_ifs at h with hhub hroom
      · cases h; exact .syncNil ‹_› hhub
      · cases h; exact .sync ‹_› hhub hroom
    · cases h
  | launch =>
    simp only [next] at h
    split at h
    · cases h; exact .launch ‹_›
    · cases h
  | recvMsg msg =>
    simp only [next] at h
    split at h
    · cases h; exact .recvMsg ‹_› msg
    · cases h
  | recvShutdown =>
    simp only [next] at h
    split at h
    · cases h; exact .recvShutdown ‹_›
    · cases h
  | recvErr fatal =>
    simp only [next] at h
    split at h
    · cases fatal
      · cases h; exact .recvErr ‹_›
      · cases h; exact .recvFatal ‹_›
    · cases h
  | push =>
    simp only [next] at h
    split at h
    · split_ifs at h with hroom
      cases h; exact .push ‹_› hroom
    · cases h
  | offline =>
    simp only [next] at h
    split at h
    · cases h; exact .offline ‹_›
    · cases h
  | stop =>
    simp only [next] at h
    split at h
    · cases h; exact .stop ‹_›
    · cases h
  | waited =>
    simp only [next] at h
    split at h
    · split_ifs at h with hwg
      cases h; exact .waited ‹_› hwg
    · cases h
  | hubStopped =>
    simp only [next] at h
    split at h
    · cases h; exact .hubStopped ‹_› ‹_›
    · cases h
  | sendBegin =>
    simp only [next] at h
    split at h
    · cases h; exact .sendBegin ‹_›
    · cases h
  | sendTake =>
    simp only [next] at h
    split at h
    · cases h; exact .sendTake ‹_› ‹_›
    · cases h
  | sendMsg ok =>
    simp only [next] at h
    split at h
    · cases h; exact .sendMsg ‹_› ok
    · cases h
  | sendDone =>
    simp only [next] at h
    split at h
    · split_ifs at h with hc
      cases h; exact .sendDone ‹_› (by simpa using hc)
    · cases h
  | stopBegin =>
    simp only [next] at h
    split at h
    · cases h; exact .stopBegin ‹_›
    · cases h
  | stopWaited =>
    simp only [next] at h
    split at h
    · split_ifs at h with hwg
      cases h; exact .stopWaited ‹_› hwg
    · cases h
  | report msg =>
    simp only [next] at h
    split_ifs at h with hroom
    cases h; exact .report msg hroom.1 hroom.2
  | accept =>
    simp only [next] at h
    split_ifs at h with honline
    cases h; exact .accept honline

theorem next_of_steps {s s' : Process F L} {l : Label F L} (h : Steps s l s') : next s l = some s' := by
  cases h with
  | hold hhub => rcases hhub with hhub | hhub <;> simp [next, hhub]
  | _ => simp_all [next]

theorem steps_of_step {s s' : Process F L} {l : Label F L} (h : (followerSystem F L).step s l = some s') :
    s.run ≠ .panicked ∧ Steps s l s' := by
  simp only [followerSystem] at h
  split at h
  · cases h
  · rename_i hrun
    exact ⟨hrun, steps_of_next h⟩

theorem step_of_run_ne {s : Process F L} (h : s.run ≠ .panicked) (l : Label F L) :
    (followerSystem F L).step s l = next s l := by
  simp only [followerSystem]

end MiniPush.Cluster.Follower
