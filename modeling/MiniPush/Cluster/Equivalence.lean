import MiniPush.Cluster.SessionQuota
import MiniPush.Cluster.Standalone

/-! Session management of a standalone server and of a leader with one hub, run side by side. -/
namespace MiniPush.Cluster
open Foundation System

/-- The order in which a step takes sessions of equal age. -/
structure TieBreak where
  rank : String → ℕ
  injective : Function.Injective rank

def TieBreak.sort (tie : TieBreak) : Sorting Session.createTime :=
  .thenBy Session.createTime fun a => tie.rank a.sid

def FollowerMsg.CarriesSessions (msg : FollowerMsg) : Prop :=
  msg.sessionOnline.isSome ∨ msg.sessionOffline ≠ "" ∨ 0 < msg.syncSessions.length

/-- A message about sessions or a clean tick, with the clock readings it meets. -/
inductive SessionOp
  | recv (msg : FollowerMsg) (carries : msg.CarriesSessions) (tie : TieBreak) (clock : ℤ)
  | tick (tie : TieBreak) (now clock : ℤ)

/-- The step of the leader, whose sends succeed. -/
def SessionOp.cluster (hubId : String) : SessionOp → ServerLabel
  | .recv msg _ tie clock => .recv hubId msg ⟨tie.sort, clock, fun _ => .ok, fun _ => clock⟩
  | .tick tie now clock => .tick ⟨tie.sort, now, fun _ => .ok, fun _ => clock⟩

def SessionOp.standalone : SessionOp → StandaloneLabel
  | .recv msg _ tie clock => .recv msg ⟨tie.sort, clock, clock⟩
  | .tick tie now clock => .tick ⟨tie.sort, now, clock⟩

def Session.anyHub (a : Session) : Session := { a with hubId := "" }

def SameSessions (hubId : String) (c : PushServer) (s : Standalone) : Prop :=
  ∀ sid, (c.sessionStore.get? hubId sid).map Session.anyHub = (s.sessions.lookup sid).map Session.anyHub

/-- The same Kickoff messages, up to the order of the sids in them. -/
def SameKickoffs (hubId : String) (c : PushServer) (s : Standalone) : Prop :=
  List.Forall₂ (fun p sids => p.1.hubId = hubId ∧ ∀ sid, sid ∈ p.1.sids ↔ sid ∈ sids) c.pushed s.kickoffs

structure InStep (hubId : String) (c : PushServer) (s : Standalone) : Prop where
  connected : c.hubStreams.keys = [hubId]
  oneHub : c.sessionStore.Owned fun _ => hubId
  running : s.running = true
  sessions : SameSessions hubId c s
  kickoffs : SameKickoffs hubId c s

structure SameLists (l l' : List Session) : Prop where
  perm : (l.map Session.anyHub).Perm (l'.map Session.anyHub)
  nodup : (l.map Session.sid).Nodup

namespace SameLists
variable {l l' : List Session}

theorem filter (h : SameLists l l') {p : Session → Bool} (hp : ∀ a, p a.anyHub = p a) :
    SameLists (l.filter p) (l'.filter p) where
  perm := by
    have hcomm : ∀ m : List Session, (m.filter p).map Session.anyHub = (m.map Session.anyHub).filter p := by
      intro m
      rw [List.filter_map]
      simp only [Function.comp_def, hp]
    rw [hcomm, hcomm]
    exact h.perm.filter p
  nodup := h.nodup.sublist (List.filter_sublist.map _)

theorem oldest (h : SameLists l l') (tie : TieBreak) (quota : ℤ) :
    (SessionStore.oldest tie.sort quota l).map Session.anyHub =
      (SessionStore.oldest tie.sort quota l').map Session.anyHub := by
  have hinj : ∀ a ∈ l.map Session.anyHub, ∀ b ∈ l.map Session.anyHub,
      tie.rank a.sid = tie.rank b.sid → a = b := by
    intro a' ha' b' hb' hab
    obtain ⟨a, ha, rfl⟩ := List.mem_map.mp ha'
    obtain ⟨b, hb, rfl⟩ := List.mem_map.mp hb'
    rw [List.inj_on_of_nodup_map h.nodup ha hb (tie.injective hab)]
  have hlen : l.length = l'.length := by simpa using h.perm.length_eq
  have hsort : (tie.sort.sort l).map Session.anyHub = (tie.sort.sort l').map Session.anyHub :=
    Sorting.map_sort_thenBy (f := Session.anyHub) (fun _ => rfl) (fun _ => rfl) h.perm hinj
  rw [SessionStore.oldest_eq_first, SessionStore.oldest_eq_first, Sorting.first, Sorting.first,
    List.map_take, List.map_take, hsort, hlen]

theorem sids_oldest (h : SameLists l l') (tie : TieBreak) (quota : ℤ) :
    (SessionStore.oldest tie.sort quota l).map Session.sid =
      (SessionStore.oldest tie.sort quota l').map Session.sid := by
  have hsid : ∀ m : List Session, m.map Session.sid = (m.map Session.anyHub).map Session.sid := by
    intro m
    rw [List.map_map]
    rfl
  rw [hsid, h.oldest tie quota, ← hsid]

private theorem mem_sids_groupBy {sort : Sorting Session.createTime} {quota : ℤ} {sid : String} :
    sid ∈ ((Assoc.groupBy Session.uid id l).values.flatMap
        (SessionStore.oldest sort quota)).map Session.sid ↔
      ∃ uid, sid ∈ (SessionStore.oldest sort quota (l.filter fun a => a.uid = uid)).map Session.sid := by
  simp only [List.mem_map, SessionStore.mem_oldest_groupBy]
  constructor
  · rintro ⟨a, ha, rfl⟩
    exact ⟨a.uid, a, ha, rfl⟩
  · rintro ⟨uid, a, ha, rfl⟩
    obtain ⟨-, huid⟩ := List.mem_filter.mp (SessionStore.mem_of_mem_oldest ha)
    obtain rfl : a.uid = uid := by simpa using huid
    exact ⟨a, ha, rfl⟩

theorem sids_groupBy (h : SameLists l l') (tie : TieBreak) (quota : ℤ) (sid : String) :
    sid ∈ ((Assoc.groupBy Session.uid id l).values.flatMap
        (SessionStore.oldest tie.sort quota)).map Session.sid ↔
      sid ∈ ((Assoc.groupBy Session.uid id l').values.flatMap
        (SessionStore.oldest tie.sort quota)).map Session.sid := by
  rw [mem_sids_groupBy, mem_sids_groupBy]
  apply exists_congr
  intro uid
  have huser : SameLists (l.filter fun a => a.uid = uid) (l'.filter fun a => a.uid = uid) :=
    h.filter fun _ => rfl
  rw [huser.sids_oldest tie quota]

end SameLists

namespace InStep
variable {cfg : ServerConfig} {hubId : String} {c : PushServer} {s : Standalone}

private theorem nodup_anyHub {l : List Session} (h : (l.map Session.sid).Nodup) :
    (l.map Session.anyHub).Nodup := by
  apply List.Nodup.of_map Session.sid
  rw [List.map_map]
  exact h

theorem sameLists (h : InStep hubId c s) :
    SameLists c.sessionStore.sessions (Assoc.values s.sessions) := by
  have hnodup : (c.sessionStore.sessions.map Session.sid).Nodup :=
    List.Nodup.map_on (fun a ha b hb => h.oneHub.eq_of_sid ha hb) c.sessionStore.sessions_nodup
  have hnodup' : ((Assoc.values s.sessions).map Session.sid).Nodup := by
    have hkeys : (Assoc.values s.sessions).map Session.sid = s.sessions.keys := by
      rw [Assoc.values, List.map_map]
      apply List.map_congr_left
      rintro ⟨k, a⟩ ha
      exact s.keyed k a (AList.mem_lookup_iff.mpr ha)
    rw [hkeys]
    exact s.sessions.keys_nodup
  have hmem : ∀ b, b ∈ c.sessionStore.sessions.map Session.anyHub ↔
      ∃ sid, (c.sessionStore.get? hubId sid).map Session.anyHub = some b := by
    intro b
    simp only [List.mem_map, Option.map_eq_some_iff]
    constructor
    · rintro ⟨a, ha, rfl⟩
      have hget := SessionStore.mem_sessions.mp ha
      rw [← h.oneHub a ha] at hget
      exact ⟨a.sid, a, hget, rfl⟩
    · rintro ⟨sid, a, ha, rfl⟩
      exact ⟨a, SessionStore.mem_sessions_of_get? ha, rfl⟩
  have hmem' : ∀ b, b ∈ (Assoc.values s.sessions).map Session.anyHub ↔
      ∃ sid, (s.sessions.lookup sid).map Session.anyHub = some b := by
    intro b
    simp only [List.mem_map, Option.map_eq_some_iff, Assoc.mem_values]
    constructor
    · rintro ⟨a, ⟨sid, ha⟩, rfl⟩
      exact ⟨sid, a, ha, rfl⟩
    · rintro ⟨sid, a, ha, rfl⟩
      exact ⟨a, ⟨sid, ha⟩, rfl⟩
  refine ⟨(List.perm_ext_iff_of_nodup (nodup_anyHub hnodup) (nodup_anyHub hnodup')).mpr ?_, hnodup⟩
  intro b
  rw [hmem, hmem']
  simp only [h.sessions _]

/-- The map by sid that the leader kicks off has the sids of the list it is made from. -/
theorem mem_selected (h : InStep hubId c s) {l : List Session}
    (hl : ∀ a ∈ l, a ∈ c.sessionStore.sessions) {sid : String} :
    (∃ b ∈ Assoc.values (Assoc.ofList Session.sid l), b.hubId = hubId ∧ b.sid = sid) ↔
      sid ∈ l.map Session.sid := by
  simp only [Assoc.mem_values, h.oneHub.lookup_ofList hl, List.mem_map]
  constructor
  · rintro ⟨b, ⟨-, hb, -⟩, -, hsid⟩
    exact ⟨b, hb, hsid⟩
  · rintro ⟨b, hb, hsid⟩
    exact ⟨b, ⟨b.sid, hb, rfl⟩, (h.oneHub b (hl b hb)).symm, hsid⟩

theorem stamped_iff (h : InStep hubId c s) {l : List Session}
    (hl : ∀ a ∈ l, a ∈ c.sessionStore.sessions) {a : Session} (ha : a ∈ c.sessionStore.sessions) :
    PushServer.Stamped c.hubStreams.keys (.ofList Session.sid l) a ↔ a.sid ∈ l.map Session.sid := by
  rw [PushServer.Stamped, h.connected, ← h.oneHub a ha, h.mem_selected hl]
  simp

theorem sessions_kickoff (h : InStep hubId c s) (env : ServerEnv) {l l' : List Session}
    (hl : ∀ a ∈ l, a ∈ c.sessionStore.sessions)
    (hsids : ∀ sid, sid ∈ l.map Session.sid ↔ sid ∈ l'.map Session.sid) :
    SameSessions hubId
      (if 0 < (Assoc.ofList Session.sid l).entries.length then c.kickoff env (.ofList Session.sid l) else c)
      (if 0 < l'.length then s.kickoff l' (env.clock hubId) else s) := by
  intro sid
  rw [PushServer.get?_if_kickoff, Standalone.lookup_if_kickoff]
  have hset : ∀ a, (Standalone.setKickoffTime (l'.map Session.sid) (env.clock hubId) a).anyHub =
      Standalone.setKickoffTime (l'.map Session.sid) (env.clock hubId) a.anyHub := by
    intro a
    unfold Standalone.setKickoffTime
    rw [apply_ite Session.anyHub]
    rfl
  have hstamp : ∀ a ∈ c.sessionStore.get? hubId sid,
      (PushServer.stamp env c.hubStreams.keys (.ofList Session.sid l) a).anyHub =
        Standalone.setKickoffTime (l'.map Session.sid) (env.clock hubId) a.anyHub := by
    intro a ha
    have hmem := SessionStore.mem_sessions_of_get? ha
    have hiff := (h.stamped_iff hl hmem).trans (hsids a.sid)
    rw [← hset, PushServer.stamp, Standalone.setKickoffTime, if_congr hiff rfl rfl,
      ← h.oneHub a hmem]
  have hsame := h.sessions sid
  cases hc : c.sessionStore.get? hubId sid with
  | none =>
    rw [hc] at hsame
    cases hs : s.sessions.lookup sid with
    | none => rfl
    | some b => simp [hs] at hsame
  | some a =>
    rw [hc] at hsame
    cases hs : s.sessions.lookup sid with
    | none => simp [hs] at hsame
    | some b =>
      rw [hs] at hsame
      have hab : a.anyHub = b.anyHub := Option.some.inj hsame
      simp only [Option.map_some, hset, hstamp a hc, hab]

theorem kickoff (h : InStep hubId c s) (env : ServerEnv) (hsend : env.send hubId = .ok)
    {l l' : List Session} (hl : ∀ a ∈ l, a ∈ c.sessionStore.sessions)
    (hsids : ∀ sid, sid ∈ l.map Session.sid ↔ sid ∈ l'.map Session.sid) :
    InStep hubId
      (if 0 < (Assoc.ofList Session.sid l).entries.length then c.kickoff env (.ofList Session.sid l) else c)
      (if 0 < l'.length then s.kickoff l' (env.clock hubId) else s) := by
  have hsessions := h.sessions_kickoff env hl hsids
  have howned := PushServer.owned_if_kickoff env (.ofList Session.sid l) h.oneHub
  cases l with
  | nil =>
    have hnil : l' = [] := by
      cases l' with
      | nil => rfl
      | cons b l' => simpa using (hsids b.sid).mpr (by simp)
    subst hnil
    exact h
  | cons a l =>
    have hfound := (h.oneHub.lookup_ofList hl).mpr ⟨List.mem_cons_self, (rfl : a.sid = a.sid)⟩
    have hvalue := Assoc.mem_values.mpr ⟨a.sid, hfound⟩
    have hpos : 0 < (Assoc.ofList Session.sid (a :: l)).entries.length := by
      simpa [Assoc.values] using List.length_pos_of_mem hvalue
    have hpos' : 0 < l'.length := by
      simpa using List.length_pos_of_mem ((hsids a.sid).mp (by simp))
    have hhub := h.oneHub a (hl a List.mem_cons_self)
    obtain ⟨sids, hlookup, -⟩ := PushServer.mem_targets.mpr ⟨a, hvalue, hhub.symm, rfl⟩
    rw [if_pos hpos] at hsessions howned ⊢
    rw [if_pos hpos'] at hsessions ⊢
    obtain ⟨stream, hpushed, hstreams⟩ := PushServer.kickoff_oneHub env h.connected hsend hlookup
    refine ⟨by rw [hstreams, h.connected], howned, h.running, hsessions, ?_⟩
    rw [SameKickoffs, hpushed]
    refine List.rel_append h.kickoffs (.cons ⟨rfl, fun sid => ?_⟩ .nil)
    rw [← hsids sid]
    have hmem : sid ∈ sids ↔ ∃ sids, (PushServer.targets (.ofList Session.sid (a :: l))).lookup hubId =
        some sids ∧ sid ∈ sids := by
      simp [hlookup]
    rw [hmem, PushServer.mem_targets, h.mem_selected hl]

theorem add (h : InStep hubId c s) (v : Session) :
    InStep hubId { c with sessionStore := c.sessionStore.add hubId v } (s.addSession v) := by
  refine { h with oneHub := h.oneHub.add rfl, sessions := fun sid => ?_ }
  rw [SessionStore.get?_add]
  simp only [Standalone.addSession, GoMap.lookup_insert, true_and]
  split_ifs
  · rfl
  · exact h.sessions sid

theorem del (h : InStep hubId c s) (k : String) :
    InStep hubId { c with sessionStore := c.sessionStore.del hubId k } (s.delSession k) := by
  refine { h with oneHub := h.oneHub.del hubId k, sessions := fun sid => ?_ }
  rw [SessionStore.get?_del]
  simp only [Standalone.delSession, GoMap.lookup_erase, true_and]
  split_ifs
  · rfl
  · exact h.sessions sid

private theorem lookup_putMany_addSessions (slice : List Session) :
    ∀ (v : HubSessions) (s : Standalone),
      (∀ sid, (v.lookup sid).map Session.anyHub = (s.sessions.lookup sid).map Session.anyHub) →
      ∀ sid, ((slice.foldl (HubSessions.put hubId) v).lookup sid).map Session.anyHub =
        ((s.addSessions slice).sessions.lookup sid).map Session.anyHub := by
  induction slice with
  | nil => exact fun v s h => h
  | cons sess slice ih =>
    intro v s h
    apply ih (v.put hubId sess) (s.addSession sess)
    intro sid
    simp only [HubSessions.put, Standalone.addSession, GoMap.lookup_insert]
    split_ifs
    · rfl
    · exact h sid

private theorem addSessions_frame (slice : List Session) (s : Standalone) :
    (s.addSessions slice).kickoffs = s.kickoffs ∧ (s.addSessions slice).running = s.running := by
  induction slice generalizing s with
  | nil => exact ⟨rfl, rfl⟩
  | cons sess slice ih => exact ih (s.addSession sess)

theorem addMany (h : InStep hubId c s) (slice : List Session) :
    InStep hubId { c with sessionStore := c.sessionStore.addMany hubId slice } (s.addSessions slice) := by
  obtain ⟨hkickoffs, hrunning⟩ := addSessions_frame slice s
  refine ⟨h.connected, h.oneHub.addMany fun _ _ => rfl, by rw [hrunning, h.running], fun sid => ?_, ?_⟩
  · rw [SessionStore.get?, SessionStore.addMany, SessionStore.hub_setHub, if_pos rfl]
    exact lookup_putMany_addSessions slice _ s h.sessions sid
  · rw [SameKickoffs, hkickoffs]
    exact h.kickoffs

theorem clean (h : InStep hubId c s) (sort : Sorting Session.createTime) (quota now : ℤ) :
    InStep hubId { c with sessionStore := c.sessionStore.clean c.hubStreams.getLiveHubIds now }
      (s.cleanSession sort quota now).2 := by
  refine { h with oneHub := h.oneHub.clean _ _, sessions := fun sid => ?_ }
  have hlive : hubId ∈ c.hubStreams.getLiveHubIds := by
    rw [HubStreams.getLiveHubIds, h.connected]
    exact List.mem_singleton_self hubId
  have hcomm : ∀ o : Option Session, (o.filter fun a => !SessionStore.outdated now a).map Session.anyHub =
      (o.map Session.anyHub).filter fun a => !SessionStore.outdated now a := by
    intro o
    rw [Option.filter_map]
    rfl
  rw [SessionStore.get?_clean, if_pos hlive]
  simp only [Standalone.cleanSession, Assoc.lookup_filter]
  rw [hcomm, hcomm, h.sessions sid]

theorem online (h : InStep hubId c s) {msg : FollowerMsg} {v : Session}
    (hv : msg.sessionOnline = some v) (tie : TieBreak) (clock now : ℤ) :
    ∃ c' s', c.route cfg ⟨tie.sort, now, fun _ => .ok, fun _ => clock⟩ hubId msg = some c' ∧
      s.recv cfg ⟨tie.sort, now, clock⟩ msg = some s' ∧ InStep hubId c' s' := by
  have hadd := h.add v
  have huser := hadd.sameLists.filter (p := fun a => decide (a.uid = v.uid)) fun _ => rfl
  refine ⟨_, _, PushServer.route_online hv, by rw [Standalone.recv, hv], ?_⟩
  apply hadd.kickoff ⟨tie.sort, now, fun _ => .ok, fun _ => clock⟩ rfl
  · intro a ha
    exact (List.mem_filter.mp (SessionStore.mem_of_mem_oldest ha)).1
  · intro sid
    rw [huser.sids_oldest tie cfg.sessionQuota]
    rfl

theorem tick (h : InStep hubId c s) (tie : TieBreak) (now clock : ℤ) :
    InStep hubId (c.cleanSession cfg ⟨tie.sort, now, fun _ => .ok, fun _ => clock⟩)
      (s.tick cfg ⟨tie.sort, now, clock⟩) := by
  have hclean := h.clean tie.sort cfg.sessionQuota now
  apply hclean.kickoff ⟨tie.sort, now, fun _ => .ok, fun _ => clock⟩ rfl
  · intro a ha
    exact (SessionStore.mem_ofUser.mp (SessionStore.mem_of_mem_oldest
      (SessionStore.mem_selected_gc.mp ha))).1
  · exact hclean.sameLists.sids_groupBy tie cfg.sessionQuota

theorem step (cfg : ServerConfig) (h : InStep hubId c s) (op : SessionOp) :
    ∃ c' s', (serverSystem cfg).step c (op.cluster hubId) = some c' ∧
      (standaloneSystem cfg).step s op.standalone = some s' ∧ InStep hubId c' s' := by
  cases op with
  | recv msg carries tie clock =>
    simp only [serverSystem, SessionOp.cluster, standaloneSystem, SessionOp.standalone, h.running, if_true]
    cases hv : msg.sessionOnline with
    | some v => exact h.online hv tie clock clock
    | none =>
      simp only [PushServer.route, Standalone.recv, hv]
      by_cases hoff : msg.sessionOffline = ""
      · have hsync : 0 < msg.syncSessions.length := by
          rcases carries with honline | hoff' | hsync
          · simp [hv] at honline
          · exact absurd hoff hoff'
          · exact hsync
        rw [if_neg (not_not.mpr hoff), if_neg (not_not.mpr hoff), if_pos hsync, if_pos hsync]
        exact ⟨_, _, rfl, rfl, h.addMany msg.syncSessions⟩
      · rw [if_pos hoff, if_pos hoff]
        exact ⟨_, _, rfl, rfl, h.del msg.sessionOffline⟩
  | tick tie now clock =>
    simp only [serverSystem, SessionOp.cluster, standaloneSystem, SessionOp.standalone, h.running, if_true]
    exact ⟨_, _, rfl, rfl, h.tick tie now clock⟩

end InStep

/-- Whatever messages about sessions and clean ticks come, with the same clock readings and tie breaks: the
standalone server and the leader with one hub have the same sessions and have kicked off the same sids. -/
theorem standalone_equivalent_to_one_hub (cfg : ServerConfig) (hubId : String) (stream : ℕ)
    (ops : List SessionOp) :
    ∃ c s, (serverSystem cfg).run .newPushServer
        (.connect hubId stream :: ops.map (SessionOp.cluster hubId)) = some c ∧
      (standaloneSystem cfg).run .newStandalone (ops.map SessionOp.standalone) = some s ∧
      SameSessions hubId c s ∧ SameKickoffs hubId c s := by
  have hrun : ∀ (ops : List SessionOp) (c : PushServer) (s : Standalone), InStep hubId c s →
      ∃ c' s', (serverSystem cfg).run c (ops.map (SessionOp.cluster hubId)) = some c' ∧
        (standaloneSystem cfg).run s (ops.map SessionOp.standalone) = some s' ∧ InStep hubId c' s' := by
    intro ops
    induction ops with
    | nil => exact fun c s h => ⟨c, s, rfl, rfl, h⟩
    | cons op ops ih =>
      intro c s h
      obtain ⟨c₁, s₁, hc, hs, h₁⟩ := h.step cfg op
      obtain ⟨c', s', hc', hs', h'⟩ := ih c₁ s₁ h₁
      refine ⟨c', s', ?_, ?_, h'⟩
      · rw [List.map_cons, run_cons, hc]
        exact hc'
      · rw [List.map_cons, run_cons, hs]
        exact hs'
  have hstart : InStep hubId
      { PushServer.newPushServer with hubStreams := HubStreams.addStream ∅ hubId stream }
      .newStandalone := by
    refine ⟨rfl, fun a ha => ?_, rfl, fun sid => rfl, .nil⟩
    simp [PushServer.newPushServer, SessionStore.newSessionStore, SessionStore.sessions, Assoc.values] at ha
  obtain ⟨c, s, hc, hs, h⟩ := hrun ops _ _ hstart
  exact ⟨c, s, hc, hs, h.sessions, h.kickoffs⟩

end MiniPush.Cluster
