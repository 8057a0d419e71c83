import MiniPush.Cluster.StreamSend

/-! Sends in progress on one stream: which copies of the stream map keep the goroutines apart. -/
namespace MiniPush.Cluster
open Foundation System

namespace StreamSends
variable {s t : StreamSends} {l : StreamLabel} {a b sender : Sender} {hubId : String} {stream : ℕ}

def hubIds (s : StreamSends) : List String := s.routes.calls.map RouteCall.hubId

/-- Calls are only added, and a stream is registered under the hub of its call. -/
private theorem hubIds_route {routes routes' : Routes} {r : RouteLabel}
    (h : Routes.Step routes r routes') (hr : ∀ p hub result, r ≠ .pushToFollower p hub result) :
    routes.calls.map RouteCall.hubId <+: routes'.calls.map RouteCall.hubId ∧
      ∀ (i : ℕ) hub, routes'.hubStreams.lookup hub = some i →
        routes.hubStreams.lookup hub = some i ∨
          (routes'.calls.map RouteCall.hubId)[i]? = some hub := by
  cases h with
  | call hcalls hstreams =>
    rw [hcalls, hstreams, List.map_append]
    exact ⟨List.prefix_append _ _, fun i hub => .inl⟩
  | @addStream k hub' failed _ hk hcalls hstreams =>
    have hids : routes'.calls.map RouteCall.hubId = routes.calls.map RouteCall.hubId := by
      rw [hcalls]
      exact Routes.hubIds_set hk rfl
    rw [hids, hstreams]
    refine ⟨List.prefix_refl _, ?_⟩
    intro i hub hl
    by_cases he : hub = hub'
    · subst he
      rw [HubStreams.addStream, AList.lookup_insert] at hl
      obtain rfl := Option.some.inj hl
      right
      rw [List.getElem?_map, hk]
      rfl
    · rw [HubStreams.addStream, AList.lookup_insert_ne he] at hl
      exact .inl hl
  | recvEnd hk hcalls hstreams =>
    have hids : routes'.calls.map RouteCall.hubId = routes.calls.map RouteCall.hubId := by
      rw [hcalls]
      exact Routes.hubIds_set hk rfl
    rw [hids, hstreams]
    exact ⟨List.prefix_refl _, fun i hub => .inl⟩
  | removeStream hk hcalls hstreams =>
    have hids : routes'.calls.map RouteCall.hubId = routes.calls.map RouteCall.hubId := by
      rw [hcalls]
      exact Routes.hubIds_set hk rfl
    rw [hids, hstreams]
    exact ⟨List.prefix_refl _, fun i hub hl => .inl (lookup_of_removeStream hl)⟩
  | copyStreams hcalls hstreams =>
    rw [hcalls, hstreams]
    exact ⟨List.prefix_refl _, fun i hub => .inl⟩
  | pushToFollower => exact absurd rfl (hr _ _ _)
  | removeClosed hp hcalls hstreams =>
    rw [hcalls, hstreams]
    exact ⟨List.prefix_refl _, fun i hub hl => .inl (lookup_of_removeStream hl)⟩

/-- Streams are kept under the hubs of their calls, and a goroutine that has dealt with a hub does
not have it left. -/
structure Keyed (s : StreamSends) : Prop where
  registered : ∀ hub i, s.routes.hubStreams.lookup hub = some i → s.hubIds[i]? = some hub
  left : ∀ a hub i, (s.push a).streams.lookup hub = some i → s.hubIds[i]? = some hub
  sending : ∀ a hub i, (s.push a).stage = .sending hub i → (s.push a).streams.lookup hub = none
  removing : ∀ a hub, (s.push a).stage = .removing hub → (s.push a).streams.lookup hub = none
  absent : ∀ i, s.hubIds.length ≤ i → (s.push (.route i)).Idle

private theorem hubIds_step (h : s.step l = some t) : s.hubIds <+: t.hubIds ∧
    ∀ (i : ℕ) hub, t.routes.hubStreams.lookup hub = some i →
      s.routes.hubStreams.lookup hub = some i ∨ t.hubIds[i]? = some hub := by
  cases l with
  | call _ | addStream _ | removeStream _ =>
    obtain ⟨routes, hr, rfl⟩ := Option.map_eq_some_iff.mp h
    exact hubIds_route (Routes.step_spec hr) (by simp)
  | recvEnd i =>
    simp only [step] at h
    split_ifs at h
    obtain ⟨routes, hr, rfl⟩ := Option.map_eq_some_iff.mp h
    exact hubIds_route (Routes.step_spec hr) (by simp)
  | copyStreams sender hubs =>
    simp only [step] at h
    split_ifs at h
    obtain rfl := Option.some.inj h
    exact ⟨List.prefix_refl _, fun i hub => .inl⟩
  | beginSend sender hubId =>
    simp only [step] at h
    split at h
    · obtain rfl := Option.some.inj h
      exact ⟨List.prefix_refl _, fun i hub => .inl⟩
    · exact absurd h (by simp)
  | endSend sender result =>
    simp only [step] at h
    split at h
    · obtain rfl := Option.some.inj h
      exact ⟨List.prefix_refl _, fun i hub => .inl⟩
    · exact absurd h (by simp)
  | removeClosed sender =>
    simp only [step] at h
    split at h
    · obtain rfl := Option.some.inj h
      exact ⟨List.prefix_refl _, fun i hub hl => .inl (lookup_of_removeStream hl)⟩
    · exact absurd h (by simp)

private theorem not_active_of_length_le {i : ℕ} (h : s.hubIds.length ≤ i) :
    ¬s.Active (.route i) := by
  intro ha
  have hnone : s.routes.calls[i]? = none := by
    rw [hubIds, List.length_map] at h
    exact List.getElem?_eq_none h
  simp [Active, hnone] at ha

theorem keyed_step (hs : s.Keyed) (h : s.step l = some t) : t.Keyed := by
  obtain ⟨hinit, hregistered⟩ := hubIds_step h
  have hids : ∀ (i : ℕ) hub, s.hubIds[i]? = some hub → t.hubIds[i]? = some hub := by
    intro i hub hi
    obtain ⟨rest, hrest⟩ := hinit
    rw [← hrest, List.getElem?_append_left (List.getElem?_eq_some_iff.mp hi).1]
    exact hi
  have hdealt := fun a => (pushMove h a).dealt (hs.sending a) (hs.removing a)
  constructor
  · intro hub i hl
    rcases hregistered i hub hl with hold | hnew
    · exact hids i hub (hs.registered hub i hold)
    · exact hnew
  · intro a hub i hl
    rcases (pushMove h a).lookup hl with hleft | hreg
    · exact hids i hub (hs.left a hub i hleft)
    · exact hids i hub (hs.registered hub i hreg)
  · intro a
    exact (hdealt a).1
  · intro a
    exact (hdealt a).2
  · intro i hi
    have hle := hinit.length_le.trans hi
    exact (pushMove h (.route i)).idle (hs.absent i hle) (not_active_of_length_le hle)

theorem keyed_of_reachable (h : streamSystem.Reachable s) : s.Keyed := by
  apply h.invariant (I := Keyed)
  · intro s hs
    obtain rfl := hs
    constructor
    · intro hub i hl
      exact absurd hl (by simp [start, Routes.start])
    · intro a hub i hl
      exact absurd hl (by simp [start, Push.idle])
    · simp [start, Push.idle]
    · simp [start, Push.idle]
    · exact fun i _ => ⟨rfl, rfl⟩
  · intro s l t hs ht
    exact keyed_step hs ht

def Exclusive (s : StreamSends) : Prop :=
  ∀ a b, ∀ i ∈ (s.push a).targets, i ∈ (s.push b).targets → a = b

theorem Exclusive.oneSend (h : s.Exclusive) : s.OneSend := by
  intro i _ a b ha hb
  exact h a b i (Push.mem_targets.mpr (.inl ha)) (Push.mem_targets.mpr (.inl hb))

private theorem mem_senders_of_targets (hs : s.Keyed) {i : ℕ} (h : i ∈ (s.push b).targets) :
    b ∈ s.senders := by
  cases b with
  | run => exact List.mem_cons_self
  | cleanSessionLoop => exact List.mem_cons_of_mem _ List.mem_cons_self
  | route k =>
    apply List.mem_cons_of_mem
    apply List.mem_cons_of_mem
    apply List.mem_map_of_mem
    rw [List.mem_range]
    by_contra hk
    have hidle := hs.absent k (by simpa [hubIds] using hk)
    simp [hidle.targets] at h

theorem exclusive_step (hk : s.Keyed) (hs : s.Exclusive) (hok : s.Apart l)
    (h : s.step l = some t) : t.Exclusive := by
  have hcopy : ∀ {a b : Sender} {i : ℕ} {hubs : List String}, l = .copyStreams a hubs →
      i ∈ Assoc.values (s.copied hubs a) → i ∈ (s.push b).targets → a = b := by
    intro a b i hubs hl hi hb
    subst hl
    by_contra hne
    exact hok i hi b (mem_senders_of_targets hk hb) (Ne.symm hne) hb
  intro a b i ha hb
  rcases (pushMove h a).targets with hold | ⟨hubs, hl, htargets⟩
  · rcases (pushMove h b).targets with hold' | ⟨hubs, hl, htargets⟩
    · exact hs a b i (hold i ha) (hold' i hb)
    · exact (hcopy hl (htargets ▸ hb) (hold i ha)).symm
  · rcases (pushMove h b).targets with hold' | ⟨hubs', hl', -⟩
    · exact hcopy hl (htargets ▸ ha) (hold' i hb)
    · rw [hl] at hl'
      exact (StreamLabel.copyStreams.inj hl').1

/-- A goroutine begins a `Send` on a stream on which another one is in progress. -/
private theorem exists_clash_of_sends {i : ℕ} (hne : a ≠ b)
    (hreg : s.routes.hubStreams.lookup hubId = some i) (ha : (s.push a).stage = .ready)
    (hla : (s.push a).streams.lookup hubId = some i) (hb : s.Sends b i) :
    ∃ ls t, streamSystem.run s ls = some t ∧ ¬t.OneSend := by
  have hbegin : streamSystem.step s (.beginSend a hubId) =
      some (s.setPush a ⟨(s.push a).streams.erase hubId, .sending hubId i⟩) := by
    simp [streamSystem, step, ha, hla]
  refine System.exists_run_cons hbegin ⟨[], _, rfl, ?_⟩
  intro hone
  apply hne
  apply hone i (Assoc.mem_values.mpr ⟨hubId, hreg⟩) a b
  · exact ⟨hubId, by rw [setPush_push_self]⟩
  · obtain ⟨hub, hstage⟩ := hb
    exact ⟨hub, by rw [setPush_push_of_ne _ (Ne.symm hne), hstage]⟩

private theorem exists_clash_of_ready {i : ℕ} (hne : a ≠ b)
    (hreg : s.routes.hubStreams.lookup hubId = some i) (ha : (s.push a).stage = .ready)
    (hla : (s.push a).streams.lookup hubId = some i) (hb : (s.push b).stage = .ready)
    (hlb : (s.push b).streams.lookup hubId = some i) :
    ∃ ls t, streamSystem.run s ls = some t ∧ ¬t.OneSend := by
  have hbegin : streamSystem.step s (.beginSend b hubId) =
      some (s.setPush b ⟨(s.push b).streams.erase hubId, .sending hubId i⟩) := by
    simp [streamSystem, step, hb, hlb]
  apply System.exists_run_cons hbegin
  apply exists_clash_of_sends hne
  · exact hreg
  · rw [setPush_push_of_ne _ hne]
    exact ha
  · rw [setPush_push_of_ne _ hne]
    exact hla
  · exact ⟨hubId, by rw [setPush_push_self]⟩

/-- A goroutine with a fresh copy and another one with a stream of that copy among its targets can
both be inside `Send` on it. -/
private theorem exists_clash {i : ℕ} (hk : s.Keyed) (hne : a ≠ b)
    (hreg : s.routes.hubStreams.lookup hubId = some i) (ha : (s.push a).stage = .ready)
    (hla : (s.push a).streams.lookup hubId = some i) (hb : i ∈ (s.push b).targets) :
    ∃ ls t, streamSystem.run s ls = some t ∧ ¬t.OneSend := by
  rcases Push.mem_targets.mp hb with hsends | ⟨hub, hlb⟩
  · exact exists_clash_of_sends hne hreg ha hla hsends
  · obtain rfl : hubId = hub := by
      have hids := hk.registered hubId i hreg
      rw [hk.left b hub i hlb] at hids
      exact (Option.some.inj hids).symm
    cases hstage : (s.push b).stage with
    | ready => exact exists_clash_of_ready hne hreg ha hla hstage hlb
    | sending hub' j =>
      have hend : streamSystem.step s (.endSend b .ok) =
          some (s.setPush b ⟨(s.push b).streams, .ready⟩) := by
        simp [streamSystem, step, hstage]
      apply System.exists_run_cons hend
      apply exists_clash_of_ready hne
      · exact hreg
      · rw [setPush_push_of_ne _ hne]
        exact ha
      · rw [setPush_push_of_ne _ hne]
        exact hla
      · rw [setPush_push_self]
      · rw [setPush_push_self]
        exact hlb
    | removing hub' =>
      have hother : hubId ≠ hub' := by
        intro he
        subst he
        simp [hk.removing b hubId hstage] at hlb
      have hremove : streamSystem.step s (.removeClosed b) =
          some { s.setPush b ⟨(s.push b).streams, .ready⟩ with
            routes := { s.routes with hubStreams := s.routes.hubStreams.removeStream hub' } } := by
        simp [streamSystem, step, hstage]
      apply System.exists_run_cons hremove
      apply exists_clash_of_ready hne
      · show (s.routes.hubStreams.removeStream hub').lookup hubId = some i
        rw [HubStreams.removeStream, AList.lookup_erase_ne hother]
        exact hreg
      · show ((s.setPush b _).push a).stage = .ready
        rw [setPush_push_of_ne _ hne]
        exact ha
      · show ((s.setPush b _).push a).streams.lookup hubId = some i
        rw [setPush_push_of_ne _ hne]
        exact hla
      · show ((s.setPush b _).push b).stage = .ready
        rw [setPush_push_self]
      · show ((s.setPush b _).push b).streams.lookup hubId = some i
        rw [setPush_push_self]
        exact hlb

/-- A copy that is not apart from the other goroutines can lead to two sends at once. -/
theorem exists_clash_of_not_apart (hk : s.Keyed) (h : s.step l = some t) (hl : ¬s.Apart l) :
    ∃ ls u, streamSystem.run t ls = some u ∧ ¬u.OneSend := by
  cases l with
  | copyStreams a hubs =>
    have hkt := keyed_step hk h
    simp only [Apart, not_forall, not_not] at hl
    obtain ⟨i, hi, b, -, hne, hb⟩ := hl
    obtain ⟨hub, hlookup⟩ := Assoc.mem_values.mp hi
    simp only [step] at h
    split_ifs at h
    obtain rfl := Option.some.inj h
    apply exists_clash hkt (Ne.symm hne) (lookup_copied hlookup)
    · rw [setPush_push_self]
    · rw [setPush_push_self]
      exact hlookup
    · rw [setPush_push_of_ne _ hne]
      exact hb
  | call _ | addStream _ | recvEnd _ | removeStream _ | beginSend _ _ | endSend _ _
  | removeClosed _ => exact absurd trivial hl

end StreamSends

/-- In every run whose copies keep the goroutines apart, at most one `Send` is in progress on each
registered stream, and after any other copy a run leads to two at once. -/
theorem one_send_exactly_while_apart (s : StreamSends)
    (h : streamSystem.ReachableVia StreamSends.Apart s) :
    s.OneSend ∧ ∀ l t, streamSystem.step s l = some t → ¬s.Apart l →
      ∃ ls u, streamSystem.run t ls = some u ∧ ¬u.OneSend := by
  have hk := StreamSends.keyed_of_reachable h.reachable
  have hexclusive : s.Exclusive := by
    induction h with
    | init hs =>
      obtain rfl := hs
      intro a b i hi
      simp [StreamSends.start, Push.idle, Push.targets, Assoc.values] at hi
    | step hreach hl ht ih =>
      have hkeyed := StreamSends.keyed_of_reachable hreach.reachable
      exact StreamSends.exclusive_step hkeyed (ih hkeyed) hl ht
  exact ⟨hexclusive.oneSend, fun l t ht hl => StreamSends.exists_clash_of_not_apart hk ht hl⟩

/-- A broadcast ends before a login makes its `Route` call kick a session off. -/
def takingTurnsRun : List StreamLabel :=
  [.call "hub", .addStream 0, .copyStreams .run [], .beginSend .run "hub", .endSend .run .ok,
    .copyStreams (.route 0) ["hub"], .beginSend (.route 0) "hub"]

theorem one_send_takingTurnsRun : ∃ s, streamSystem.ReachableVia StreamSends.Apart s ∧
    s.Sends (.route 0) 0 ∧ s.OneSend := by
  have hrun : (streamSystem.runVia (fun s l => decide (s.Apart l)) .start takingTurnsRun).map
      (fun s => (s.push (.route 0)).stage) = some (.sending "hub" 0) := by
    decide +kernel
  obtain ⟨s, hs, hstage⟩ := Option.map_eq_some_iff.mp hrun
  have hreach := ReachableVia.runVia (fun _ _ h => of_decide_eq_true h) (.init rfl) _ hs
  exact ⟨s, hreach, ⟨"hub", hstage⟩, (one_send_exactly_while_apart s hreach).1⟩

/-- A login during a broadcast. -/
def collidingRun : List StreamLabel :=
  [.call "hub", .addStream 0, .copyStreams .run [], .beginSend .run "hub",
    .copyStreams (.route 0) ["hub"], .beginSend (.route 0) "hub"]

theorem collidingRun_sends_twice : ∃ s, streamSystem.Reachable s ∧
    s.routes.hubStreams.lookup "hub" = some 0 ∧ s.Sends .run 0 ∧ s.Sends (.route 0) 0 ∧
      ¬s.OneSend := by
  have hrun : (streamSystem.run .start collidingRun).map (fun s =>
      (s.routes.hubStreams.lookup "hub", (s.push .run).stage, (s.push (.route 0)).stage)) =
        some (some 0, .sending "hub" 0, .sending "hub" 0) := by
    decide +kernel
  obtain ⟨s, hs, hview⟩ := Option.map_eq_some_iff.mp hrun
  obtain ⟨hreg, hview⟩ := Prod.mk.inj hview
  obtain ⟨hrunning, hroute⟩ := Prod.mk.inj hview
  refine ⟨s, Reachable.run (.init rfl) _ hs, hreg, ⟨"hub", hrunning⟩, ⟨"hub", hroute⟩, ?_⟩
  intro hone
  have heq := hone 0 (Assoc.mem_values.mpr ⟨"hub", hreg⟩) _ _ ⟨"hub", hrunning⟩ ⟨"hub", hroute⟩
  exact absurd heq (by decide)

end MiniPush.Cluster
