import MiniPush.Cluster.KickoffExpiry
import MiniPush.Cluster.KickoffRouting

/-! Whether a hub was told of the sessions that the leader has marked as kicked off. -/
namespace MiniPush.Cluster
open Foundation System

namespace PushServer
variable {cfg : ServerConfig} {s s' : PushServer} {l : ServerLabel} {hubId sid : String}

theorem kickoffMsgs_of_empty {sessions : GoMap String Session} (h : Assoc.values sessions = [])
    (s : PushServer) : s.kickoffMsgs sessions = [] := by
  apply List.eq_nil_iff_forall_not_mem.mpr
  intro m hm
  have hsids := (mem_kickoffMsgs.mp hm).2
  simp [targets, h, Assoc.lookup_groupBy] at hsids

/-- A step sends the messages for the sessions it selects, and no others. -/
theorem pushed_step (h : (serverSystem cfg).step s l = some s') :
    s'.pushed = s.pushed ++ (s.kickoffMsgs (s.selection cfg l)).map fun m =>
      (m, l.send m.hubId) := by
  rcases step_cases h with ⟨hsel, -, hpushed⟩ | ⟨env, henv, rfl⟩
  · have hempty : Assoc.values (s.selection cfg l) = [] := by
      rw [hsel]
      rfl
    rw [kickoffMsgs_of_empty hempty, hpushed, List.map_nil, List.append_nil]
  · simp only [fun hubId => (henv hubId).2]
    split_ifs with hsome
    · exact kickoff_pushed env _ _
    · have hempty : Assoc.values (s.selection cfg l) = [] := by
        rw [Assoc.values, List.length_eq_zero_iff.mp (Nat.eq_zero_of_not_pos hsome)]
        rfl
      rw [kickoffMsgs_of_empty hempty, List.map_nil, List.append_nil]

def Told (s : PushServer) (hubId sid : String) : Prop :=
  ∃ p ∈ s.pushed, p.1.hubId = hubId ∧ sid ∈ p.1.sids ∧ p.2 = .ok

instance : Decidable (s.Told hubId sid) := inferInstanceAs (Decidable (∃ p ∈ _, _))

theorem told_step (h : (serverSystem cfg).step s l = some s') :
    s'.Told hubId sid ↔ s.Told hubId sid ∨ s.KicksOff cfg hubId sid l ∧ l.send hubId = .ok := by
  have hnew : (∃ m ∈ s.kickoffMsgs (s.selection cfg l), m.hubId = hubId ∧ sid ∈ m.sids) ↔
      s.KicksOff cfg hubId sid l := by
    constructor
    · rintro ⟨m, hm, rfl, hsid⟩
      exact ⟨AList.lookup_isSome.mp (Option.isSome_of_eq_some (mem_kickoffMsgs.mp hm).1),
        (mem_sids_iff hm).mp hsid⟩
    · rintro ⟨hhub, b, hb, rfl, rfl⟩
      exact exists_mem_kickoffMsgs hb hhub
  rw [← hnew, Told, Told, pushed_step h]
  simp only [List.mem_append, List.mem_map]
  constructor
  · rintro ⟨p, hp | ⟨m, hm, rfl⟩, hhub, hsid, hsent⟩
    · exact .inl ⟨p, hp, hhub, hsid, hsent⟩
    · exact .inr ⟨⟨m, hm, hhub, hsid⟩, hhub ▸ hsent⟩
  · rintro (⟨p, hp, hloc⟩ | ⟨⟨m, hm, rfl, hsid⟩, hsent⟩)
    · exact ⟨p, .inl hp, hloc⟩
    · exact ⟨_, .inr ⟨m, hm, rfl⟩, rfl, hsid, hsent⟩

end PushServer

def FollowerMsg.joins (msg : FollowerMsg) : List Session :=
  match msg.sessionOnline with
  | some v => [v]
  | none => if msg.sessionOffline ≠ "" then [] else msg.syncSessions

/-- The leader, and for each hub and sid the kickoff time with which the session was last added. -/
structure Traced where
  server : PushServer
  added : String → String → ℤ

namespace Traced

def start : Traced := ⟨.newPushServer, fun _ _ => 0⟩

def join (added : String → ℤ) (slice : List Session) : String → ℤ :=
  slice.foldl (fun added v => Function.update added v.sid v.kickoffTime) added

/-- The kickoff times with which sessions were added, after a step. -/
def addedAfter (t : Traced) : ServerLabel → String → String → ℤ
  | .recv hub msg _ => Function.update t.added hub (join (t.added hub) msg.joins)
  | .connect _ _ | .disconnect _ | .tick _ => t.added

end Traced

def tracedSystem (cfg : ServerConfig) : System Traced ServerLabel where
  init t := t = .start
  step t l := ((serverSystem cfg).step t.server l).map fun server => ⟨server, t.addedAfter l⟩

namespace Traced
variable {cfg : ServerConfig} {t t' : Traced} {l : ServerLabel} {hubId sid : String}

theorem lookup_join (hubId : String) {slice : List Session} {v : HubSessions} {a : Session}
    (added : String → ℤ) (h : (slice.foldl (HubSessions.put hubId) v).lookup sid = some a) :
    (v.lookup sid = some a ∧ join added slice sid = added sid) ∨ join added slice sid = a.kickoffTime := by
  induction slice generalizing v added with
  | nil => exact .inl ⟨h, rfl⟩
  | cons sess slice ih =>
    rcases ih (Function.update added sess.sid sess.kickoffTime) h with ⟨hold, hsame⟩ | hnew
    · rw [HubSessions.put, GoMap.lookup_insert] at hold
      have hjoin : join added (sess :: slice) sid =
          Function.update added sess.sid sess.kickoffTime sid := hsame
      split_ifs at hold with hsid
      · obtain rfl := Option.some.inj hold
        right
        rw [hjoin, hsid, Function.update_self]
      · left
        rw [hjoin, Function.update_of_ne hsid]
        exact ⟨hold, rfl⟩
    · exact .inr hnew

/-- A session of the prepared store was there before or was added by the step. -/
theorem addedAfter_of_prepared {a : Session} (h : (t.server.prepared l).get? hubId sid = some a) :
    (t.server.sessionStore.get? hubId sid = some a ∧ t.addedAfter l hubId sid = t.added hubId sid) ∨
      t.addedAfter l hubId sid = a.kickoffTime := by
  cases l with
  | connect hub stream => exact .inl ⟨h, rfl⟩
  | disconnect hub => exact .inl ⟨h, rfl⟩
  | tick env =>
    rw [PushServer.prepared, SessionStore.get?_clean] at h
    split_ifs at h
    exact .inl ⟨(Option.filter_eq_some_iff.mp h).1, rfl⟩
  | recv hub msg env =>
    have hmany : ∀ slice, msg.joins = slice →
        (t.server.sessionStore.addMany hub slice).get? hubId sid = some a →
        (t.server.sessionStore.get? hubId sid = some a ∧
          t.addedAfter (.recv hub msg env) hubId sid = t.added hubId sid) ∨
            t.addedAfter (.recv hub msg env) hubId sid = a.kickoffTime := by
      rintro slice rfl hget
      rw [SessionStore.get?, SessionStore.addMany, SessionStore.hub_setHub] at hget
      split_ifs at hget with hhub
      · subst hhub
        rw [addedAfter, Function.update_self]
        exact lookup_join hubId _ hget
      · rw [addedAfter, Function.update_of_ne hhub]
        exact .inl ⟨hget, rfl⟩
    have hnone : msg.joins = [] → t.addedAfter (.recv hub msg env) hubId sid = t.added hubId sid := by
      intro hjoins
      rw [addedAfter, hjoins]
      exact congrFun (congrFun (Function.update_eq_self hub t.added) hubId) sid
    rw [PushServer.prepared] at h
    split at h
    · rename_i v hv
      exact hmany [v] (by rw [FollowerMsg.joins, hv]) h
    · rename_i hv
      split_ifs at h with hoff hsync
      · have hjoins : msg.joins = [] := by
          rw [FollowerMsg.joins, hv]
          exact if_pos hoff
        rw [SessionStore.get?_del] at h
        split_ifs at h
        exact .inl ⟨h, hnone hjoins⟩
      · have hjoins : msg.joins = msg.syncSessions := by
          rw [FollowerMsg.joins, hv]
          exact if_neg hoff
        exact hmany _ hjoins h
      · have hjoins : msg.joins = [] := by
          rw [FollowerMsg.joins, hv]
          exact (if_neg hoff).trans (List.length_eq_zero_iff.mp (Nat.eq_zero_of_not_pos hsync))
        exact .inl ⟨h, hnone hjoins⟩

/-- The hubs were told of the stored sessions that were kicked off since they were added. -/
def HubsTold (t : Traced) : Prop :=
  ∀ hubId sid a, t.server.sessionStore.get? hubId sid = some a → t.added hubId sid = 0 →
    0 < a.kickoffTime → t.server.Told hubId sid

/-- Of a session that a step kicks off for the first time, the hub was told before or the send to it
succeeds. -/
def Delivers (cfg : ServerConfig) (t : Traced) (l : ServerLabel) : Prop :=
  ∀ b ∈ Assoc.values (t.server.selection cfg l), b.hubId ∈ t.server.hubStreams.keys →
    t.addedAfter l b.hubId b.sid = 0 → 0 < l.clock b.hubId →
    l.send b.hubId = .ok ∨ t.server.Told b.hubId b.sid

instance : Decidable (t.Delivers cfg l) := inferInstanceAs (Decidable (∀ b ∈ _, _))

theorem hubsTold_start : start.HubsTold := by
  intro hubId sid a ha
  simp [start, PushServer.newPushServer, SessionStore.newSessionStore, SessionStore.get?,
    SessionStore.hub] at ha

theorem hubsTold_step_iff (ht : t.HubsTold) (hs : (tracedSystem cfg).step t l = some t') :
    t'.HubsTold ↔ t.Delivers cfg l := by
  obtain ⟨server, hserver, rfl⟩ := Option.map_eq_some_iff.mp hs
  have hget := PushServer.get?_step hserver
  have htold : ∀ hubId sid, server.Told hubId sid ↔ _ := fun _ _ => PushServer.told_step hserver
  constructor
  · intro h b hb hhub hadded hclock
    have hkick : t.server.KicksOff cfg b.hubId b.sid l := ⟨hhub, b, hb, rfl, rfl⟩
    obtain ⟨a, ha⟩ := Option.isSome_iff_exists.mp (PushServer.isSome_of_kicksOff hkick)
    have hstamped := hget b.hubId b.sid
    rw [ha, Option.map_some, if_pos hkick] at hstamped
    rcases (htold b.hubId b.sid).mp (h b.hubId b.sid _ hstamped hadded hclock) with hold | hnew
    · exact .inr hold
    · exact .inl hnew.2
  · intro h hubId sid a ha hadded hmarked
    rw [htold]
    dsimp only at ha
    rw [hget, Option.map_eq_some_iff] at ha
    obtain ⟨b, hb, rfl⟩ := ha
    by_cases hkick : t.server.KicksOff cfg hubId sid l
    · rw [if_pos hkick] at hmarked
      obtain ⟨hhub, c, hc, rfl, rfl⟩ := hkick
      rcases h c hc hhub hadded hmarked with hsent | hold
      · exact .inr ⟨⟨hhub, c, hc, rfl, rfl⟩, hsent⟩
      · exact .inl hold
    · rw [if_neg hkick] at hmarked
      rcases addedAfter_of_prepared hb with ⟨hold, hsame⟩ | hnew
      · exact .inl (ht hubId sid b hold (hsame ▸ hadded) hmarked)
      · have hzero : b.kickoffTime = 0 := hnew.symm.trans hadded
        omega

end Traced

/-- As long as the sends succeed by which hubs first hear of a kickoff, the hubs were told of all stored
sessions that are marked, and so of those that `gc` deletes for their age. A send that fails leaves a
session marked of which its hub was not told. -/
theorem told_exactly_while_delivered (cfg : ServerConfig) (t : Traced)
    (ht : (tracedSystem cfg).ReachableVia (Traced.Delivers cfg) t) :
    t.HubsTold ∧
    (∀ now hubId sid a, t.server.sessionStore.get? hubId sid = some a → t.added hubId sid = 0 →
      SessionStore.outdated now a = true → t.server.Told hubId sid) ∧
    ∀ l t', (tracedSystem cfg).step t l = some t' → (t'.HubsTold ↔ t.Delivers cfg l) := by
  have hall : t.HubsTold ∧ ∀ l t', (tracedSystem cfg).step t l = some t' →
      (t'.HubsTold ↔ t.Delivers cfg l) := by
    refine ht.exactly (I := fun _ => True) ?_ (fun _ _ _ _ _ => trivial) ?_
    · rintro _ rfl
      exact ⟨trivial, Traced.hubsTold_start⟩
    · intro t l t' _ hi hs
      exact Traced.hubsTold_step_iff hi hs
  obtain ⟨htold, hstep⟩ := hall
  refine ⟨htold, fun now hubId sid a ha hadded hout => ?_, hstep⟩
  have hmarked : 0 < a.kickoffTime := by
    unfold SessionStore.outdated at hout
    exact (of_decide_eq_true hout).1
  exact htold hubId sid a ha hadded hmarked

theorem told_kickedOffRun :
    ∃ t, (tracedSystem oneSession).ReachableVia (Traced.Delivers oneSession) t ∧
      t.server.sessionStore.get? "hub" "a" = some ⟨"hub", "a", 7, 100, 200⟩ ∧
      t.added "hub" "a" = 0 ∧ t.server.Told "hub" "a" := by
  have hrun : ((tracedSystem oneSession).runVia (fun t l => decide (t.Delivers oneSession l)) .start
      kickedOffRun).map (fun t => (t.server.sessionStore.get? "hub" "a", t.added "hub" "a")) =
      some (some ⟨"hub", "a", 7, 100, 200⟩, 0) := by
    decide +kernel
  obtain ⟨t, ht, hview⟩ := Option.map_eq_some_iff.mp hrun
  obtain ⟨hstored, hadded⟩ := Prod.mk.inj hview
  have hreach : (tracedSystem oneSession).ReachableVia (Traced.Delivers oneSession) t :=
    ReachableVia.runVia (fun _ _ h => of_decide_eq_true h) (.init rfl) kickedOffRun ht
  exact ⟨t, hreach, hstored, hadded, (told_exactly_while_delivered oneSession t hreach).1 "hub" "a" _
    hstored hadded (by decide)⟩

/-- The second session of the user comes online when a send to the hub of the first one fails. -/
def failedSendRun : List ServerLabel :=
  [.connect "hub" 0, .recv "hub" (onlineMsg "a" 100) (steadyEnv 150),
    .recv "hub" (onlineMsg "b" 101) { steadyEnv 200 with send := fun _ => .failed }]

/-- The first session is then marked, and deleted a minute later, although its hub was never told. -/
theorem failedSendRun_forgets_session :
    ∃ t t', (tracedSystem oneSession).Reachable t ∧
      t.server.sessionStore.get? "hub" "a" = some ⟨"hub", "a", 7, 100, 200⟩ ∧
      t.added "hub" "a" = 0 ∧ ¬ t.server.Told "hub" "a" ∧
      (tracedSystem oneSession).step t (.tick (steadyEnv 261)) = some t' ∧
      "hub" ∈ t'.server.hubStreams.keys ∧ ¬ t'.server.Told "hub" "a" ∧
      t'.server.sessionStore.get? "hub" "a" = none := by
  have hrun : ((tracedSystem oneSession).run .start failedSendRun).map (fun t =>
      ((t.server.sessionStore.get? "hub" "a", t.added "hub" "a", decide (t.server.Told "hub" "a")),
        ((tracedSystem oneSession).step t (.tick (steadyEnv 261))).map fun t' =>
          (t'.server.hubStreams.keys, decide (t'.server.Told "hub" "a"),
            t'.server.sessionStore.get? "hub" "a"))) =
      some ((some ⟨"hub", "a", 7, 100, 200⟩, 0, false), some (["hub"], false, none)) := by
    decide +kernel
  obtain ⟨t, ht, hview⟩ := Option.map_eq_some_iff.mp hrun
  obtain ⟨hbefore, hafter⟩ := Prod.mk.inj hview
  obtain ⟨hstored, hrest⟩ := Prod.mk.inj hbefore
  obtain ⟨hadded, htold⟩ := Prod.mk.inj hrest
  obtain ⟨t', ht', hview'⟩ := Option.map_eq_some_iff.mp hafter
  obtain ⟨hkeys, hrest'⟩ := Prod.mk.inj hview'
  obtain ⟨htold', hgone⟩ := Prod.mk.inj hrest'
  exact ⟨t, t', Reachable.run (.init rfl) _ ht, hstored, hadded, of_decide_eq_false htold, ht',
    hkeys ▸ List.mem_singleton_self _, of_decide_eq_false htold', hgone⟩

end MiniPush.Cluster
