import MiniPush.Ws.CloseProtocol

/-! What each step does to a handler whose channel is closed exactly while it is closing. -/
namespace MiniPush.Ws.CloseProtocol
open Foundation

variable {α : Type}

/-- `sendLoop` does not panic on such a value. -/
def SessionData.Known (v : SessionData α) : Prop := v.error.isSome = true ∨ v.serverMsg.isSome = true

theorem SessionData.isSome_ops {v : SessionData α} (hv : v.Known) (written : Bool) :
    (v.ops written).isSome = true := by
  unfold ops
  split
  · rfl
  · rename_i herror hmsg
    simp [Known, herror, hmsg] at hv
  · split_ifs
    · rfl
    · rfl
    · rfl

/-- What a statement of a loop does to such a handler. -/
inductive Executes (h : Handler α) (rest : List (Op α)) : Op α → Handler α → LoopPos α → Prop
  | appendIgnored (v : SessionData α) (hclosing : h.closing = true) :
    Executes h rest (.append v) h (.after rest)
  | append (v : SessionData α) (hopen : h.closing = false) :
    Executes h rest (.append v) { h with dataChan := h.dataChan ++ [v] } (.after rest)
  | closeIgnored (cause : SessionError) (hclosing : h.closing = true) :
    Executes h rest (.close cause) h (.after rest)
  | closeStop (hopen : h.closing = false) :
    Executes h rest (.close .serverStop) (h.shut .serverStop) (.after rest)
  | close (cause : SessionError) (hcause : cause ≠ .serverStop) (hopen : h.closing = false) :
    Executes h rest (.close cause) (h.shut cause) (.running (.del :: rest))
  | delIgnored (hgone : h.stored = false) : Executes h rest .del h (.after rest)
  | del (hstored : h.stored = true) :
    Executes h rest .del { h with stored := false } (.running (.offline :: rest))
  | offline :
    Executes h rest .offline { h with emitted := h.emitted ++ [.sessionOffline] } (.after rest)
  | e2e : Executes h rest .e2e h (.after rest)
  | exit : Executes h rest .exit h .finished

/-- What `Hub.Run` or `Hub.Kickoff` does to such a handler. -/
inductive Delivers (h : Handler α) : Handler α → Prop
  | ignored (hclosing : h.closing = true) : Delivers h h
  | append (msg : ServerMsg α) (hopen : h.closing = false) :
    Delivers h { h with dataChan := h.dataChan ++ [⟨none, some msg⟩] }
  | del : Delivers h { h with stored := false }

/-- The channel is closed once with the handler, together with the connection, and holds known values. -/
structure Handler.Sound (h : Handler α) : Prop where
  crash : h.crash = none
  closes : h.closes = if h.closing then 1 else 0
  conn : h.closing = true → h.connClosed = true
  known : ∀ v ∈ h.dataChan, v.Known

namespace Handler
variable {h h' : Handler α} {rest : List (Op α)} {op : Op α} {pos : LoopPos α}

/-- `appendDataChan` of a sound handler adds the value to the open channel, or does nothing. -/
theorem Sound.append_cases (hs : h.Sound) {v : SessionData α} (ha : h.appendDataChan v = some h') :
    (h.closing = true ∧ h' = h) ∨
      (h.closing = false ∧ h' = { h with dataChan := h.dataChan ++ [v] }) := by
  have hcloses := hs.closes
  unfold appendDataChan at ha
  split_ifs at ha with hclosing hopen hroom
  · exact .inl ⟨hclosing, (Option.some.inj ha).symm⟩
  · rw [if_neg hclosing] at hcloses
    omega
  · exact .inr ⟨by simpa using hclosing, (Option.some.inj ha).symm⟩

theorem Sound.executes (hs : h.Sound) (he : h.exec rest op = some (h', pos)) :
    Executes h rest op h' pos := by
  cases op with
  | append v =>
    obtain ⟨g, hg, hpair⟩ := Option.map_eq_some_iff.mp he
    cases hpair
    rcases hs.append_cases hg with ⟨hclosing, rfl⟩ | ⟨hopen, rfl⟩
    · exact .appendIgnored v hclosing
    · exact .append v hopen
  | close cause =>
    simp only [exec] at he
    split_ifs at he with hclosing hcause
    · cases he
      exact .closeIgnored cause hclosing
    · cases he
      subst hcause
      exact .closeStop (by simpa using hclosing)
    · cases he
      exact .close cause hcause (by simpa using hclosing)
  | del =>
    simp only [exec] at he
    split_ifs at he with hstored
    · cases he
      exact .del hstored
    · cases he
      exact .delIgnored (by simpa using hstored)
  | offline =>
    cases he
    exact .offline
  | e2e =>
    cases he
    exact .e2e
  | exit =>
    cases he
    exact .exit

theorem Sound.delivers (hs : h.Sound) {task task' : TaskPos} (hd : h.deliver task = some (h', task')) :
    Delivers h h' := by
  have happend : ∀ msg, h.appendDataChan ⟨none, some msg⟩ = some h' → Delivers h h' := by
    intro msg ha
    rcases hs.append_cases ha with ⟨hclosing, rfl⟩ | ⟨hopen, rfl⟩
    · exact .ignored hclosing
    · exact .append msg hopen
  cases task with
  | kickoff =>
    obtain ⟨g, hg, hpair⟩ := Option.map_eq_some_iff.mp hd
    cases hpair
    exact happend _ hg
  | headSeq seq =>
    obtain ⟨g, hg, hpair⟩ := Option.map_eq_some_iff.mp hd
    cases hpair
    exact happend _ hg
  | deleting =>
    cases hd
    exact .del
  | idle => cases hd
  | stopped => cases hd

theorem Sound.append (hs : h.Sound) {v : SessionData α} (hv : v.Known) :
    Sound { h with dataChan := h.dataChan ++ [v] } := by
  refine ⟨hs.crash, hs.closes, hs.conn, fun w hw => ?_⟩
  rcases List.mem_append.mp hw with hw | hw
  · exact hs.known w hw
  · rw [List.mem_singleton.mp hw]
    exact hv

theorem Sound.shut (hs : h.Sound) (hopen : h.closing = false) (cause : SessionError) :
    (h.shut cause).Sound := by
  have hcloses : h.closes = 0 := by simpa [hopen] using hs.closes
  refine ⟨?_, ?_, fun _ => rfl, hs.known⟩
  · simp [Handler.shut, hcloses, hs.crash]
  · simp [Handler.shut, hcloses]

theorem Sound.stop (hs : h.Sound) : h.stop.Sound := by
  unfold Handler.stop
  split_ifs with hclosing
  · exact hs
  · exact hs.shut (by simpa using hclosing) _

theorem stop_frame (h : Handler α) : h.stop.stored = h.stored ∧ h.stop.emitted = h.emitted := by
  unfold Handler.stop
  split_ifs
  · exact ⟨rfl, rfl⟩
  · exact ⟨rfl, rfl⟩

theorem Sound.frame (hs : h.Sound) (stored : Bool) (emitted : List FollowerMsg) :
    Sound { h with stored, emitted } :=
  ⟨hs.crash, hs.closes, hs.conn, hs.known⟩

theorem Sound.exec (hs : h.Sound) (hx : Executes h rest op h' pos)
    (hop : ∀ v, op = .append v → v.Known) : h'.Sound := by
  cases hx with
  | appendIgnored v _ => exact hs
  | append v _ => exact hs.append (hop v rfl)
  | closeIgnored cause _ => exact hs
  | closeStop hopen => exact hs.shut hopen _
  | close cause _ hopen => exact hs.shut hopen cause
  | delIgnored _ => exact hs
  | del _ => exact hs.frame false h.emitted
  | offline => exact hs.frame h.stored _
  | e2e => exact hs
  | exit => exact hs

theorem Sound.deliver (hs : h.Sound) (hd : Delivers h h') : h'.Sound := by
  cases hd with
  | ignored _ => exact hs
  | append msg _ => exact hs.append (.inr rfl)
  | del => exact hs.frame false h.emitted

end Handler

def Label.moves : Label α → Bool
  | .kickoff _ | .headSeq _ | .stop | .leaderClosed => true
  | _ => false

/-- The steps of a session whose handler is sound. -/
inductive Steps (enableClientMsg : Bool) (s : Session α) : Label α → Session α → Prop
  | add (hserve : s.serve = .idle) :
    Steps enableClientMsg s .add
      { s with serve := .added, handler := { s.handler with stored := true } }
  | online (hserve : s.serve = .added) :
    Steps enableClientMsg s .online
      { s with
        serve := .returned
        recv := .running []
        send := .running []
        handler := { s.handler with emitted := s.handler.emitted ++ [.sessionOnline] } }
  | read (result : ReadResult α) (hrecv : s.recv = .running []) :
    Steps enableClientMsg s (.read result) { s with recv := .running (result.ops enableClientMsg) }
  | recvReturn (hrecv : s.recv = .running []) (hclosing : s.handler.closing = true) :
    Steps enableClientMsg s .recvReturn { s with recv := .finished }
  | recvWork {op : Op α} {rest : List (Op α)} {h' : Handler α} {pos : LoopPos α}
      (hrecv : s.recv = .running (op :: rest)) (hx : Executes s.handler rest op h' pos) :
    Steps enableClientMsg s .recvWork { s with handler := h', recv := pos }
  | take {v : SessionData α} {rest : List (SessionData α)} {written : Bool} {todo : List (Op α)}
      (hsend : s.send = .running []) (hchan : s.handler.dataChan = v :: rest)
      (hops : v.ops written = some todo) :
    Steps enableClientMsg s (.take written)
      { s with handler := { s.handler with dataChan := rest }, send := .running todo }
  | drained (hsend : s.send = .running []) (hclosed : 0 < s.handler.closes) :
    Steps enableClientMsg s .drained
      { s with handler := { s.handler with connClosed := true }, send := .finished }
  | ping (written : Bool) (hsend : s.send = .running []) :
    Steps enableClientMsg s (.ping written)
      { s with
        send := if written then .running [] else .running [.append ⟨some .pingError, none⟩, .exit] }
  | sendWork {op : Op α} {rest : List (Op α)} {h' : Handler α} {pos : LoopPos α}
      (hsend : s.send = .running (op :: rest)) (hx : Executes s.handler rest op h' pos) :
    Steps enableClientMsg s .sendWork { s with handler := h', send := pos }
  | move {l : Label α} (hl : l.moves = true) (task : Option ℕ → TaskPos) :
    Steps enableClientMsg s l { s with task := task }
  | deliver (i : Option ℕ) {h' : Handler α} (task : Option ℕ → TaskPos) (hd : Delivers s.handler h') :
    Steps enableClientMsg s (.deliver i) { s with handler := h', task := task }
  | stop (task : Option ℕ → TaskPos) (hstored : s.handler.stored = true) :
    Steps enableClientMsg s .stop { s with handler := s.handler.stop, task := task }

theorem Handler.Sound.steps [DecidableEq α] {enableClientMsg : Bool} {s s' : Session α} {l : Label α}
    (hs : s.handler.Sound) (h : (closeSystem enableClientMsg).step s l = some s') : Steps enableClientMsg s l s' := by
  simp only [closeSystem, hs.crash, Option.isSome_none, Bool.false_eq_true, if_false] at h
  cases l with
  | add =>
    simp only [Session.next] at h
    split_ifs at h with hserve
    cases h
    exact .add hserve
  | online =>
    simp only [Session.next] at h
    split_ifs at h with hserve
    cases h
    exact .online hserve
  | read result =>
    simp only [Session.next] at h
    split_ifs at h with hrecv
    cases h
    exact .read result hrecv
  | recvReturn =>
    simp only [Session.next] at h
    split_ifs at h with hrecv
    cases h
    exact .recvReturn hrecv.1 hrecv.2
  | recvWork =>
    simp only [Session.next] at h
    split at h
    · rename_i op rest hrecv
      obtain ⟨⟨h', pos⟩, hexec, rfl⟩ := Option.map_eq_some_iff.mp h
      exact .recvWork hrecv (hs.executes hexec)
    · cases h
  | take written =>
    simp only [Session.next] at h
    split at h
    · rename_i v rest hsend hchan
      have hknown : v.Known := hs.known v (hchan ▸ List.mem_cons_self)
      obtain ⟨todo, hops⟩ := Option.isSome_iff_exists.mp (SessionData.isSome_ops hknown written)
      rw [hops] at h
      cases h
      exact .take hsend hchan hops
    · cases h
  | drained =>
    simp only [Session.next] at h
    split_ifs at h with hdrained
    cases h
    exact .drained hdrained.1 hdrained.2.2
  | ping written =>
    simp only [Session.next] at h
    split_ifs at h with hsend hwritten
    · cases h
      simpa [hwritten] using Steps.ping written hsend
    · cases h
      simpa [hwritten] using Steps.ping written hsend
  | sendWork =>
    simp only [Session.next] at h
    split at h
    · rename_i op rest hsend
      obtain ⟨⟨h', pos⟩, hexec, rfl⟩ := Option.map_eq_some_iff.mp h
      exact .sendWork hsend (hs.executes hexec)
    · cases h
  | kickoff i =>
    simp only [Session.next] at h
    split_ifs at h
    cases h
    exact .move rfl _
  | headSeq seq =>
    simp only [Session.next] at h
    split_ifs at h
    cases h
    exact .move rfl _
  | deliver i =>
    obtain ⟨⟨h', pos⟩, hdeliver, rfl⟩ := Option.map_eq_some_iff.mp h
    exact .deliver i _ (hs.delivers hdeliver)
  | stop =>
    simp only [Session.next] at h
    split_ifs at h with htask hstored
    · cases h
      exact .stop _ hstored
    · cases h
      exact .move rfl _
  | leaderClosed =>
    simp only [Session.next] at h
    split_ifs at h
    cases h
    exact .move rfl _

end MiniPush.Ws.CloseProtocol
