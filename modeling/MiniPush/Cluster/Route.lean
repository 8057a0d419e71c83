import MiniPush.Cluster.Server

/-! Registration of the hubs' streams: `Route` calls that come and go, and pushes over copies of the
stream map that may be old. -/
namespace MiniPush.Cluster
open Foundation System

/-- Where a `Route` call is: before `addStream`, in its receive loop, before the deferred
`removeStream`, or finished. -/
inductive RoutePhase
  | called
  | receiving
  | exiting
  | returned
  deriving DecidableEq

/-- A call of `Route`; `sendFailed` says that some `Send` on its stream failed. -/
structure RouteCall where
  hubId : String
  phase : RoutePhase
  sendFailed : Bool
  deriving DecidableEq

/-- A goroutine that pushes over a copy of the streams: what is left of the copy, and the hub it is
about to remove after a `Send` on a closed stream. -/
structure Pusher where
  streams : HubStreams
  removing : Option String

/-- The calls of `Route` in the order they were made; the stream of a call is its position. -/
structure Routes where
  calls : List RouteCall
  hubStreams : HubStreams
  pushers : List Pusher

inductive RouteLabel
  | call (hubId : String)
  | addStream (i : ℕ)
  | recvEnd (i : ℕ)
  | removeStream (i : ℕ)
  | copyStreams (hubs : List String)
  | pushToFollower (p : ℕ) (hubId : String) (result : SendResult)
  | removeClosed (p : ℕ)

namespace Routes

def start : Routes := ⟨[], ∅, []⟩

def afterSend (calls : List RouteCall) (i : ℕ) (result : SendResult) : List RouteCall :=
  if result = .ok then calls else calls.modify i fun c => { c with sendFailed := true }

def step (s : Routes) : RouteLabel → Option Routes
  | .call hubId =>
    if hubId = "" then none else some { s with calls := s.calls ++ [⟨hubId, .called, false⟩] }
  | .addStream i =>
    match s.calls[i]? with
    | some ⟨hubId, .called, failed⟩ => some { s with
        calls := s.calls.set i ⟨hubId, .receiving, failed⟩
        hubStreams := s.hubStreams.addStream hubId i }
    | _ => none
  | .recvEnd i =>
    match s.calls[i]? with
    | some ⟨hubId, .receiving, failed⟩ => some { s with
        calls := s.calls.set i ⟨hubId, .exiting, failed⟩ }
    | _ => none
  | .removeStream i =>
    match s.calls[i]? with
    | some ⟨hubId, .exiting, failed⟩ => some { s with
        calls := s.calls.set i ⟨hubId, .returned, failed⟩
        hubStreams := s.hubStreams.removeStream hubId }
    | _ => none
  | .copyStreams hubs => some { s with
      pushers := s.pushers ++ [⟨s.hubStreams.copyStreamsByFollower hubs, none⟩] }
  | .pushToFollower p hubId result =>
    match s.pushers[p]? with
    | some ⟨streams, none⟩ =>
      match streams.lookup hubId with
      | some i => some { s with
          calls := afterSend s.calls i result
          pushers := s.pushers.set p
            ⟨streams.erase hubId, if result = .closed then some hubId else none⟩ }
      | none => none
    | _ => none
  | .removeClosed p =>
    match s.pushers[p]? with
    | some ⟨streams, some hubId⟩ => some { s with
        hubStreams := s.hubStreams.removeStream hubId
        pushers := s.pushers.set p ⟨streams, none⟩ }
    | _ => none

def written (s : Routes) : RouteLabel → Option String
  | .addStream i => s.calls[i]?.map RouteCall.hubId
  | .removeStream i => s.calls[i]?.map RouteCall.hubId
  | .removeClosed p => s.pushers[p]?.bind Pusher.removing
  | _ => none

/-- Call `i` is the most recent one of its hub, in its receive loop, and no `Send` on its stream has
failed. -/
def Current (s : Routes) (hubId : String) (i : ℕ) : Prop :=
  s.calls[i]? = some ⟨hubId, .receiving, false⟩ ∧ hubId ∉ (s.calls.map RouteCall.hubId).drop (i + 1)

def Registered (s : Routes) : Prop :=
  ∀ hubId i, s.Current hubId i → s.hubStreams.lookup hubId = some i

def Harmless (s : Routes) (l : RouteLabel) : Prop :=
  ∀ hubId ∈ s.written l, ∀ i < s.calls.length, ¬ s.Current hubId i

instance (s : Routes) (hubId : String) (i : ℕ) : Decidable (s.Current hubId i) :=
  inferInstanceAs (Decidable (_ ∧ _))

instance (s : Routes) (l : RouteLabel) : Decidable (s.Harmless l) :=
  inferInstanceAs (Decidable (∀ hubId ∈ s.written l, ∀ i < s.calls.length, ¬ s.Current hubId i))

end Routes

def routeSystem : System Routes RouteLabel where
  init s := s = .start
  step s l := s.step l

namespace Routes
variable {s s' : Routes} {l : RouteLabel} {hubId : String} {i k : ℕ}

theorem Current.lt (h : s.Current hubId i) : i < s.calls.length :=
  (List.getElem?_eq_some_iff.mp h.1).1

theorem hubIds_set {calls : List RouteCall} {c c' : RouteCall} (hc : calls[k]? = some c)
    (hhub : c'.hubId = c.hubId) : (calls.set k c').map RouteCall.hubId = calls.map RouteCall.hubId := by
  apply List.ext_getElem?
  intro n
  rw [List.getElem?_map, List.getElem?_map, List.getElem?_set]
  split_ifs with hn hlt
  · rw [← hn, hc, Option.map_some, Option.map_some, hhub]
  · rw [← hn, List.getElem?_eq_none (not_lt.mp hlt)]
  · rfl

/-- Two states whose calls differ at most at position `k`, and there not in the hub id. -/
def SameElsewhere (k : ℕ) (s s' : Routes) : Prop :=
  s'.calls.map RouteCall.hubId = s.calls.map RouteCall.hubId ∧ ∀ i ≠ k, s'.calls[i]? = s.calls[i]?

theorem SameElsewhere.current_iff (h : SameElsewhere k s s') (hi : i ≠ k) :
    s'.Current hubId i ↔ s.Current hubId i := by
  rw [Current, Current, h.1, h.2 i hi]

theorem sameElsewhere_set {c c' : RouteCall} (hc : s.calls[k]? = some c)
    (hs' : s'.calls = s.calls.set k c') (hhub : c'.hubId = c.hubId) : SameElsewhere k s s' := by
  rw [SameElsewhere, hs']
  exact ⟨hubIds_set hc hhub, fun i hi => List.getElem?_set_ne (Ne.symm hi)⟩

inductive Step (s : Routes) : RouteLabel → Routes → Prop
  | call {hubId : String} {s' : Routes} (hcalls : s'.calls = s.calls ++ [⟨hubId, .called, false⟩])
      (hstreams : s'.hubStreams = s.hubStreams) : Step s (.call hubId) s'
  | addStream {k : ℕ} {hubId : String} {failed : Bool} {s' : Routes}
      (hk : s.calls[k]? = some ⟨hubId, .called, failed⟩)
      (hcalls : s'.calls = s.calls.set k ⟨hubId, .receiving, failed⟩)
      (hstreams : s'.hubStreams = s.hubStreams.addStream hubId k) : Step s (.addStream k) s'
  | recvEnd {k : ℕ} {hubId : String} {failed : Bool} {s' : Routes}
      (hk : s.calls[k]? = some ⟨hubId, .receiving, failed⟩)
      (hcalls : s'.calls = s.calls.set k ⟨hubId, .exiting, failed⟩)
      (hstreams : s'.hubStreams = s.hubStreams) : Step s (.recvEnd k) s'
  | removeStream {k : ℕ} {hubId : String} {failed : Bool} {s' : Routes}
      (hk : s.calls[k]? = some ⟨hubId, .exiting, failed⟩)
      (hcalls : s'.calls = s.calls.set k ⟨hubId, .returned, failed⟩)
      (hstreams : s'.hubStreams = s.hubStreams.removeStream hubId) : Step s (.removeStream k) s'
  | copyStreams {hubs : List String} {s' : Routes} (hcalls : s'.calls = s.calls)
      (hstreams : s'.hubStreams = s.hubStreams) : Step s (.copyStreams hubs) s'
  | pushToFollower {p k : ℕ} {hubId : String} {result : SendResult} {s' : Routes}
      (hcalls : s'.calls = afterSend s.calls k result) (hstreams : s'.hubStreams = s.hubStreams) :
      Step s (.pushToFollower p hubId result) s'
  | removeClosed {p : ℕ} {hubId : String} {s' : Routes}
      (hp : s.pushers[p]?.bind Pusher.removing = some hubId) (hcalls : s'.calls = s.calls)
      (hstreams : s'.hubStreams = s.hubStreams.removeStream hubId) : Step s (.removeClosed p) s'

theorem step_spec (h : s.step l = some s') : Step s l s' := by
  cases l with
  | call hubId =>
    simp only [step] at h
    split_ifs at h
    cases h
    exact .call rfl rfl
  | addStream k =>
    simp only [step] at h
    split at h
    · rename_i hk
      cases h
      exact .addStream hk rfl rfl
    · cases h
  | recvEnd k =>
    simp only [step] at h
    split at h
    · rename_i hk
      cases h
      exact .recvEnd hk rfl rfl
    · cases h
  | removeStream k =>
    simp only [step] at h
    split at h
    · rename_i hk
      cases h
      exact .removeStream hk rfl rfl
    · cases h
  | copyStreams hubs =>
    cases h
    exact .copyStreams rfl rfl
  | pushToFollower p hubId result =>
    simp only [step] at h
    split at h
    · split at h
      · cases h
        exact .pushToFollower rfl rfl
      · cases h
    · cases h
  | removeClosed p =>
    simp only [step] at h
    split at h
    · rename_i hp
      cases h
      exact .removeClosed (by simp [hp]) rfl rfl
    · cases h

private theorem current_append {c : RouteCall} (hc : c.phase ≠ .receiving)
    (hs' : s'.calls = s.calls ++ [c]) (h : s'.Current hubId i) : s.Current hubId i := by
  obtain ⟨hget, hlast⟩ := h
  rw [hs'] at hget hlast
  have hlt : i < s.calls.length := by
    by_contra hge
    obtain ⟨hi, he⟩ := List.getElem?_eq_some_iff.mp hget
    have hlen : i = s.calls.length := by
      rw [List.length_append, List.length_singleton] at hi
      omega
    subst hlen
    rw [List.getElem_concat_length rfl] at he
    exact hc (by rw [he])
  rw [List.getElem?_append_left hlt] at hget
  refine ⟨hget, fun hmem => hlast ?_⟩
  rw [List.map_append]
  exact ((List.sublist_append_left _ _).drop (i + 1)).mem hmem

private theorem current_afterSend {result : SendResult} (hs' : s'.calls = afterSend s.calls k result)
    (h : s'.Current hubId i) : s.Current hubId i := by
  rw [afterSend] at hs'
  split_ifs at hs' with hok
  · rwa [Current, hs'] at h
  · obtain ⟨hget, hlast⟩ := h
    have hsame : s'.calls.map RouteCall.hubId = s.calls.map RouteCall.hubId := by
      rw [hs']
      apply List.ext_getElem?
      intro n
      rw [List.getElem?_map, List.getElem?_map, List.getElem?_modify]
      cases s.calls[n]? with
      | none => rfl
      | some c =>
        simp only [Option.map_some]
        split_ifs <;> rfl
    rw [hsame] at hlast
    refine ⟨?_, hlast⟩
    rw [hs', List.getElem?_modify] at hget
    cases hc : s.calls[i]? with
    | none => simp [hc] at hget
    | some c =>
      simp only [hc, Option.map_eq_map, Option.map_some, Option.some.injEq] at hget
      split_ifs at hget
      · exact absurd (congrArg RouteCall.sendFailed hget) (by simp)
      · rw [hget]

private theorem current_set {c c' : RouteCall} (hk : s.calls[k]? = some c)
    (hs' : s'.calls = s.calls.set k c') (hhub : c'.hubId = c.hubId) (hphase : c'.phase ≠ .receiving)
    (h : s'.Current hubId i) : s.Current hubId i := by
  have hi : i ≠ k := by
    rintro rfl
    have hget := h.1
    rw [hs', List.getElem?_set_self (List.getElem?_eq_some_iff.mp hk).1] at hget
    exact hphase (by rw [Option.some.inj hget])
  exact ((sameElsewhere_set hk hs' hhub).current_iff hi).mp h

/-- A call becomes current only by registering its stream. -/
theorem current_step (hs : Step s l s') (h : s'.Current hubId i) :
    s.Current hubId i ∨ s'.hubStreams.lookup hubId = some i := by
  cases hs with
  | call hcalls hstreams => exact .inl (current_append (by simp) hcalls h)
  | @addStream k hub failed _ hk hcalls hstreams =>
    by_cases hi : i = k
    · subst hi
      right
      have hget := h.1
      rw [hcalls, List.getElem?_set_self (List.getElem?_eq_some_iff.mp hk).1] at hget
      obtain rfl : hub = hubId := congrArg RouteCall.hubId (Option.some.inj hget)
      rw [hstreams, HubStreams.addStream, AList.lookup_insert]
    · exact .inl (((sameElsewhere_set hk hcalls rfl).current_iff hi).mp h)
  | recvEnd hk hcalls hstreams => exact .inl (current_set hk hcalls rfl (by simp) h)
  | removeStream hk hcalls hstreams => exact .inl (current_set hk hcalls rfl (by simp) h)
  | copyStreams hcalls hstreams =>
    rw [Current, hcalls] at h
    exact .inl h
  | pushToFollower hcalls hstreams => exact .inl (current_afterSend hcalls h)
  | removeClosed hp hcalls hstreams =>
    rw [Current, hcalls] at h
    exact .inl h

theorem lookup_step (hs : Step s l s') (hw : hubId ∉ s.written l) :
    s'.hubStreams.lookup hubId = s.hubStreams.lookup hubId := by
  cases hs with
  | call hcalls hstreams => rw [hstreams]
  | @addStream k hub failed _ hk hcalls hstreams =>
    have hne : hubId ≠ hub := fun he => hw (by simp [written, hk, he])
    rw [hstreams, HubStreams.addStream, AList.lookup_insert_ne hne]
  | recvEnd hk hcalls hstreams => rw [hstreams]
  | @removeStream k hub failed _ hk hcalls hstreams =>
    have hne : hubId ≠ hub := fun he => hw (by simp [written, hk, he])
    rw [hstreams, HubStreams.removeStream, AList.lookup_erase_ne hne]
  | copyStreams hcalls hstreams => rw [hstreams]
  | pushToFollower hcalls hstreams => rw [hstreams]
  | @removeClosed p hub _ hp hcalls hstreams =>
    have hne : hubId ≠ hub := fun he => hw (by simp [written, hp, he])
    rw [hstreams, HubStreams.removeStream, AList.lookup_erase_ne hne]

/-- A write to the entry of a hub with a current call leaves that call current and not registered. -/
theorem written_step (hs : Step s l s') (hw : hubId ∈ s.written l) (h : s.Current hubId i) :
    s'.Current hubId i ∧ s'.hubStreams.lookup hubId ≠ some i := by
  cases hs with
  | call hcalls hstreams => cases hw
  | @addStream k hub failed _ hk hcalls hstreams =>
    obtain rfl : hub = hubId := by simpa [written, hk] using hw
    have hi : i ≠ k := by
      rintro rfl
      rw [h.1] at hk
      cases hk
    refine ⟨((sameElsewhere_set hk hcalls rfl).current_iff hi).mpr h, ?_⟩
    rw [hstreams, HubStreams.addStream, AList.lookup_insert]
    simpa using Ne.symm hi
  | recvEnd hk hcalls hstreams => cases hw
  | @removeStream k hub failed _ hk hcalls hstreams =>
    obtain rfl : hub = hubId := by simpa [written, hk] using hw
    have hi : i ≠ k := by
      rintro rfl
      rw [h.1] at hk
      cases hk
    refine ⟨((sameElsewhere_set hk hcalls rfl).current_iff hi).mpr h, ?_⟩
    rw [hstreams, HubStreams.removeStream, AList.lookup_erase]
    simp
  | copyStreams hcalls hstreams => cases hw
  | pushToFollower hcalls hstreams => cases hw
  | @removeClosed p hub _ hp hcalls hstreams =>
    obtain rfl : hub = hubId := by simpa [written, hp] using hw
    refine ⟨by rwa [Current, hcalls], ?_⟩
    rw [hstreams, HubStreams.removeStream, AList.lookup_erase]
    simp

/-- From a state in which all current calls are registered, exactly the harmless steps keep it so. -/
theorem registered_step_iff (hr : s.Registered) (hs : Step s l s') :
    s'.Registered ↔ s.Harmless l := by
  constructor
  · intro hr' hubId hw i _ hcur
    obtain ⟨hcur', hne⟩ := written_step hs hw hcur
    exact hne (hr' hubId i hcur')
  · intro hok hubId i hcur'
    rcases current_step hs hcur' with hcur | hreg
    · have hw : hubId ∉ s.written l := fun hw => hok hubId hw i hcur.lt hcur
      rw [lookup_step hs hw]
      exact hr hubId i hcur
    · exact hreg

theorem registered_start : start.Registered := by
  intro hubId i h
  simp [Current, start] at h

end Routes

/-- In every run of harmless steps the current call of each hub is registered, and the first step
that is not harmless leaves a hub with a current call without its registration. -/
theorem registered_exactly_while_harmless (s : Routes)
    (hs : routeSystem.ReachableVia Routes.Harmless s) :
    s.Registered ∧ ∀ l s', routeSystem.step s l = some s' → (s'.Registered ↔ s.Harmless l) := by
  refine hs.exactly (I := fun _ => True) ?_ (fun _ _ _ _ _ => trivial) ?_
  · rintro _ rfl
    exact ⟨trivial, Routes.registered_start⟩
  · intro s l s' _ hi hstep
    exact Routes.registered_step_iff hi (Routes.step_spec hstep)

/-- A hub that reconnects after its previous call has returned. -/
def reconnectRun : List RouteLabel :=
  [.call "hub", .addStream 0, .copyStreams ["hub"], .recvEnd 0, .removeStream 0, .call "hub",
    .addStream 1, .pushToFollower 0 "hub" .failed]

theorem registered_reconnectRun :
    ∃ s, routeSystem.ReachableVia Routes.Harmless s ∧ s.Current "hub" 1 ∧ s.Registered ∧
      ∀ l s', routeSystem.step s l = some s' → (s'.Registered ↔ s.Harmless l) := by
  have hrun : (routeSystem.runVia (fun s l => decide (s.Harmless l)) .start reconnectRun).map
      (fun s => decide (s.Current "hub" 1)) = some true := by
    decide +kernel
  obtain ⟨s, hs, hcur⟩ := Option.map_eq_some_iff.mp hrun
  have hreach : routeSystem.ReachableVia Routes.Harmless s :=
    ReachableVia.runVia (fun _ _ h => of_decide_eq_true h) (.init rfl) reconnectRun hs
  exact ⟨s, hreach, of_decide_eq_true hcur, registered_exactly_while_harmless s hreach⟩

/-- A hub that reconnects before its previous call has run its deferred `removeStream`. -/
def overlapRun : List RouteLabel :=
  [.call "hub", .addStream 0, .call "hub", .addStream 1, .recvEnd 0, .removeStream 0]

theorem overlapRun_unregisters :
    ∃ s, routeSystem.Reachable s ∧ s.Current "hub" 1 ∧ s.hubStreams.lookup "hub" = none ∧
      ¬ s.Registered := by
  have hrun : (routeSystem.run .start overlapRun).map
      (fun s => (decide (s.Current "hub" 1), s.hubStreams.lookup "hub")) = some (true, none) := by
    decide +kernel
  obtain ⟨s, hs, hview⟩ := Option.map_eq_some_iff.mp hrun
  obtain ⟨hcur, hnone⟩ := Prod.mk.inj hview
  have hcur' := of_decide_eq_true hcur
  refine ⟨s, Reachable.run (.init rfl) _ hs, hcur', hnone, fun hreg => ?_⟩
  rw [hreg "hub" 1 hcur'] at hnone
  cases hnone

end MiniPush.Cluster
