import MiniPush.Cluster.Route

/-! Sends on the streams of the hubs. `pushServer.run`, `cleanSessionLoop` and every `Route` call
take copies of the stream map and send after the lock is released; a `Send` has a beginning and
an end. -/
namespace MiniPush.Cluster
open Foundation System

/-- Goroutines that call `pushToFollower`. A `Route` call is named by its stream. -/
inductive Sender
  | run
  | cleanSessionLoop
  | route (i : ℕ)
  deriving DecidableEq

/-- Between two sends, inside `stream.Send`, or before `removeStream` after a `Send` on a closed
stream. -/
inductive PushStage
  | ready
  | sending (hubId : String) (stream : ℕ)
  | removing (hubId : String)
  deriving DecidableEq

/-- What is left of a goroutine's copy of the streams, and where its push is. -/
structure Push where
  streams : HubStreams
  stage : PushStage

namespace Push

def idle : Push := ⟨∅, .ready⟩

def Idle (p : Push) : Prop := p.streams.keys = [] ∧ p.stage = .ready

instance (p : Push) : Decidable p.Idle := inferInstanceAs (Decidable (_ ∧ _))

/-- The streams that the goroutine sends on, or will send on. -/
def targets (p : Push) : List ℕ :=
  match p.stage with
  | .sending _ stream => stream :: Assoc.values p.streams
  | _ => Assoc.values p.streams

end Push

structure StreamSends where
  routes : Routes
  push : Sender → Push

/-- `hubs` are the hubs of the sessions to kick off; `pushServer.run` copies all streams. -/
inductive StreamLabel
  | call (hubId : String)
  | addStream (i : ℕ)
  | recvEnd (i : ℕ)
  | removeStream (i : ℕ)
  | copyStreams (sender : Sender) (hubs : List String)
  | beginSend (sender : Sender) (hubId : String)
  | endSend (sender : Sender) (result : SendResult)
  | removeClosed (sender : Sender)

namespace StreamSends

def start : StreamSends := ⟨.start, fun _ => .idle⟩

def Active (s : StreamSends) : Sender → Prop
  | .run | .cleanSessionLoop => True
  | .route i => s.routes.calls[i]?.map RouteCall.phase = some .receiving

instance (s : StreamSends) : (sender : Sender) → Decidable (s.Active sender)
  | .run | .cleanSessionLoop => isTrue trivial
  | .route _ => inferInstanceAs (Decidable (_ = _))

def copied (s : StreamSends) (hubs : List String) : Sender → HubStreams
  | .run => s.routes.hubStreams
  | .cleanSessionLoop | .route _ => s.routes.hubStreams.copyStreamsByFollower hubs

def setPush (s : StreamSends) (sender : Sender) (p : Push) : StreamSends :=
  { s with push := Function.update s.push sender p }

def step (s : StreamSends) : StreamLabel → Option StreamSends
  | .call hubId => (s.routes.step (.call hubId)).map fun routes => { s with routes }
  | .addStream i => (s.routes.step (.addStream i)).map fun routes => { s with routes }
  | .recvEnd i =>
    if (s.push (.route i)).Idle then
      (s.routes.step (.recvEnd i)).map fun routes => { s with routes }
    else none
  | .removeStream i => (s.routes.step (.removeStream i)).map fun routes => { s with routes }
  | .copyStreams sender hubs =>
    if s.Active sender ∧ (s.push sender).Idle then
      some (s.setPush sender ⟨s.copied hubs sender, .ready⟩)
    else none
  | .beginSend sender hubId =>
    match (s.push sender).stage, (s.push sender).streams.lookup hubId with
    | .ready, some stream =>
      some (s.setPush sender ⟨(s.push sender).streams.erase hubId, .sending hubId stream⟩)
    | _, _ => none
  | .endSend sender result =>
    match (s.push sender).stage with
    | .sending hubId _ =>
      some (s.setPush sender
        ⟨(s.push sender).streams, if result = .closed then .removing hubId else .ready⟩)
    | _ => none
  | .removeClosed sender =>
    match (s.push sender).stage with
    | .removing hubId => some { s.setPush sender ⟨(s.push sender).streams, .ready⟩ with
        routes := { s.routes with hubStreams := s.routes.hubStreams.removeStream hubId } }
    | _ => none

def Sends (s : StreamSends) (sender : Sender) (stream : ℕ) : Prop :=
  ∃ hubId, (s.push sender).stage = .sending hubId stream

/-- At most one `Send` is in progress on each registered stream. -/
def OneSend (s : StreamSends) : Prop :=
  ∀ stream ∈ Assoc.values s.routes.hubStreams, ∀ a b, s.Sends a stream → s.Sends b stream → a = b

def senders (s : StreamSends) : List Sender :=
  .run :: .cleanSessionLoop :: (List.range s.routes.calls.length).map .route

/-- A goroutine copies the streams only when no other goroutine sends on one of them or still has
one of them to send on. -/
def Apart (s : StreamSends) : StreamLabel → Prop
  | .copyStreams sender hubs => ∀ stream ∈ Assoc.values (s.copied hubs sender),
      ∀ other ∈ s.senders, other ≠ sender → stream ∉ (s.push other).targets
  | _ => True

instance (s : StreamSends) : (l : StreamLabel) → Decidable (s.Apart l)
  | .copyStreams sender hubs => inferInstanceAs (Decidable (∀ stream ∈ Assoc.values
      (s.copied hubs sender), ∀ other ∈ s.senders, other ≠ sender → stream ∉ (s.push other).targets))
  | .call _ | .addStream _ | .recvEnd _ | .removeStream _ | .beginSend _ _ | .endSend _ _
  | .removeClosed _ => isTrue trivial

end StreamSends

def streamSystem : System StreamSends StreamLabel where
  init s := s = .start
  step := StreamSends.step

namespace Push
variable {p : Push} {hubId : String} {stream : ℕ}

theorem Idle.lookup_eq_none (h : p.Idle) (hubId : String) : p.streams.lookup hubId = none := by
  apply AList.lookup_eq_none.mpr
  rw [AList.mem_keys, h.1]
  exact List.not_mem_nil

theorem Idle.targets (h : p.Idle) : p.targets = [] := by
  rw [Push.targets, h.2]
  apply List.eq_nil_iff_forall_not_mem.mpr
  intro stream hs
  obtain ⟨hubId, hl⟩ := Assoc.mem_values.mp hs
  simp [h.lookup_eq_none hubId] at hl

theorem mem_targets : stream ∈ p.targets ↔
    (∃ hubId, p.stage = .sending hubId stream) ∨ ∃ hubId, p.streams.lookup hubId = some stream := by
  unfold targets
  split
  · next hubId other hstage =>
    rw [List.mem_cons, Assoc.mem_values, hstage]
    simp [eq_comm]
  · next hstage =>
    rw [Assoc.mem_values]
    constructor
    · exact .inr
    · rintro (⟨hubId, hs⟩ | hs)
      · exact absurd hs (hstage hubId stream)
      · exact hs

end Push

namespace StreamSends
variable {s t : StreamSends} {l : StreamLabel} {a b sender : Sender} {hubId : String} {stream : ℕ}

theorem setPush_push_self (p : Push) : (s.setPush sender p).push sender = p :=
  Function.update_self ..

theorem setPush_push_of_ne (p : Push) (h : a ≠ sender) : (s.setPush sender p).push a = s.push a :=
  Function.update_of_ne h ..

theorem lookup_of_removeStream {m : HubStreams} {hub hub' : String} {i : ℕ}
    (h : (m.removeStream hub').lookup hub = some i) : m.lookup hub = some i := by
  by_cases he : hub = hub'
  · subst he
    rw [HubStreams.removeStream, AList.lookup_erase] at h
    exact absurd h (by simp)
  · rwa [HubStreams.removeStream, AList.lookup_erase_ne he] at h

theorem lookup_copied {hubs : List String} {hub : String} {i : ℕ}
    (h : (s.copied hubs a).lookup hub = some i) : s.routes.hubStreams.lookup hub = some i := by
  cases a with
  | run => exact h
  | cleanSessionLoop | route _ =>
    rw [copied, HubStreams.copyStreamsByFollower, Assoc.lookup_filter, Option.filter_eq_some_iff] at h
    exact h.1

inductive PushMove (s : StreamSends) (a : Sender) : StreamLabel → Push → Prop
  | same {l : StreamLabel} : PushMove s a l (s.push a)
  | copyStreams {hubs : List String} : s.Active a →
      PushMove s a (.copyStreams a hubs) ⟨s.copied hubs a, .ready⟩
  | beginSend {hubId : String} {stream : ℕ} : (s.push a).stage = .ready →
      (s.push a).streams.lookup hubId = some stream →
      PushMove s a (.beginSend a hubId) ⟨(s.push a).streams.erase hubId, .sending hubId stream⟩
  | endSend {result : SendResult} {hubId : String} {stream : ℕ} :
      (s.push a).stage = .sending hubId stream →
      PushMove s a (.endSend a result)
        ⟨(s.push a).streams, if result = .closed then .removing hubId else .ready⟩
  | removeClosed {hubId : String} : (s.push a).stage = .removing hubId →
      PushMove s a (.removeClosed a) ⟨(s.push a).streams, .ready⟩

private theorem pushMove_setPush {p : Push} (h : PushMove s sender l p) (a : Sender) :
    PushMove s a l ((s.setPush sender p).push a) := by
  by_cases ha : a = sender
  · subst ha
    rw [setPush_push_self]
    exact h
  · rw [setPush_push_of_ne p ha]
    exact .same

theorem pushMove (h : s.step l = some t) (a : Sender) : PushMove s a l (t.push a) := by
  cases l with
  | call _ | addStream _ | removeStream _ =>
    obtain ⟨routes, -, rfl⟩ := Option.map_eq_some_iff.mp h
    exact .same
  | recvEnd i =>
    simp only [step] at h
    split_ifs at h
    obtain ⟨routes, -, rfl⟩ := Option.map_eq_some_iff.mp h
    exact .same
  | copyStreams sender hubs =>
    simp only [step] at h
    split_ifs at h with hc
    obtain rfl := Option.some.inj h
    exact pushMove_setPush (.copyStreams hc.1) a
  | beginSend sender hubId =>
    simp only [step] at h
    split at h
    · next stream hstage hlookup =>
      obtain rfl := Option.some.inj h
      exact pushMove_setPush (.beginSend hstage hlookup) a
    · exact absurd h (by simp)
  | endSend sender result =>
    simp only [step] at h
    split at h
    · next hubId stream hstage =>
      obtain rfl := Option.some.inj h
      exact pushMove_setPush (.endSend hstage) a
    · exact absurd h (by simp)
  | removeClosed sender =>
    simp only [step] at h
    split at h
    · next hubId hstage =>
      obtain rfl := Option.some.inj h
      exact pushMove_setPush (.removeClosed hstage) a
    · exact absurd h (by simp)

namespace PushMove
variable {p : Push}

/-- A goroutine gets new targets only by copying the streams. -/
theorem targets (h : PushMove s a l p) : (∀ i ∈ p.targets, i ∈ (s.push a).targets) ∨
    ∃ hubs, l = .copyStreams a hubs ∧ p.targets = Assoc.values (s.copied hubs a) := by
  cases h with
  | same => exact .inl fun _ => id
  | @copyStreams hubs _ => exact .inr ⟨hubs, rfl, rfl⟩
  | @beginSend hubId stream _ hlookup =>
    left
    intro i hi
    rw [Push.mem_targets] at hi ⊢
    rcases hi with ⟨hub, hi⟩ | ⟨hub, hi⟩
    · obtain ⟨-, rfl⟩ := PushStage.sending.inj hi
      exact .inr ⟨hubId, hlookup⟩
    · exact .inr ⟨hub, lookup_of_removeStream hi⟩
  | @endSend result hubId stream _ =>
    left
    intro i hi
    rw [Push.mem_targets] at hi ⊢
    rcases hi with ⟨hub, hi⟩ | hi
    · simp only at hi
      split_ifs at hi
    · exact .inr hi
  | removeClosed _ =>
    left
    intro i hi
    rw [Push.mem_targets] at hi ⊢
    exact .inr (hi.resolve_left (by simp))

theorem idle (h : PushMove s a l p) (hi : (s.push a).Idle) (ha : ¬s.Active a) : p.Idle := by
  cases h with
  | same => exact hi
  | copyStreams hactive => exact absurd hactive ha
  | beginSend _ hlookup => simp [hi.lookup_eq_none] at hlookup
  | endSend hstage => simp [hi.2] at hstage
  | removeClosed hstage => simp [hi.2] at hstage

/-- What a goroutine has left was left before, or is copied from the registered streams. -/
theorem lookup (h : PushMove s a l p) {hub : String} {i : ℕ}
    (hl : p.streams.lookup hub = some i) :
    (s.push a).streams.lookup hub = some i ∨ s.routes.hubStreams.lookup hub = some i := by
  cases h with
  | same => exact .inl hl
  | copyStreams _ => exact .inr (lookup_copied hl)
  | beginSend _ _ => exact .inl (lookup_of_removeStream hl)
  | endSend _ => exact .inl hl
  | removeClosed _ => exact .inl hl

/-- While a goroutine deals with a hub, it does not have it left. -/
theorem dealt (h : PushMove s a l p)
    (hold : ∀ hub i, (s.push a).stage = .sending hub i → (s.push a).streams.lookup hub = none)
    (hrem : ∀ hub, (s.push a).stage = .removing hub → (s.push a).streams.lookup hub = none) :
    (∀ hub i, p.stage = .sending hub i → p.streams.lookup hub = none) ∧
      ∀ hub, p.stage = .removing hub → p.streams.lookup hub = none := by
  cases h with
  | same => exact ⟨hold, hrem⟩
  | copyStreams _ => exact ⟨by simp, by simp⟩
  | @beginSend hubId stream _ _ =>
    refine ⟨?_, by simp⟩
    intro hub i hs
    obtain ⟨rfl, -⟩ := PushStage.sending.inj hs
    exact AList.lookup_erase hubId _
  | @endSend result hubId stream hstage =>
    constructor
    · intro hub i hs
      simp only at hs
      split_ifs at hs
    · intro hub hs
      simp only at hs
      split_ifs at hs
      obtain rfl := PushStage.removing.inj hs
      exact hold hubId stream hstage
  | removeClosed _ => exact ⟨by simp, by simp⟩

end PushMove

end StreamSends

end MiniPush.Cluster
