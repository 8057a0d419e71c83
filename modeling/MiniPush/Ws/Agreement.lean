import MiniPush.Ws.Ledger

/-! Whether the leader and a hub agree on the sessions of the hub once all messages are processed. -/
namespace MiniPush.Ws
open Foundation System Cluster

/-- What `Route` does with the sessions of the hub whose message it handles. -/
theorem isSome_route {cfg : ServerConfig} {env : ServerEnv} {s s' : PushServer} {hubId : String}
    {msg : FollowerMsg} (h : s.route cfg env hubId msg = some s') (sid : String) :
    (s'.sessionStore.get? hubId sid).isSome =
      afterMsg sid (s.sessionStore.get? hubId sid).isSome msg := by
  unfold PushServer.route at h
  split at h
  · rename_i v hv
    cases h
    rw [PushServer.get?_if_kickoff, Option.isSome_map, SessionStore.get?_add, afterMsg, hv]
    by_cases hsid : sid = v.sid
    · simp [hsid]
    · simp [hsid]
  · rename_i hnone
    simp only [afterMsg, hnone]
    split_ifs at h with hoff hsync he2e hshut
    · cases h
      rw [SessionStore.get?_del, if_pos hoff]
      by_cases hsid : sid = msg.sessionOffline
      · simp [hsid]
      · simp [hsid]
    · cases h
      rw [SessionStore.isSome_get?_addMany, if_neg hoff]
    · cases h
      rw [if_neg hoff, List.length_eq_zero_iff.mp (Nat.eq_zero_of_not_pos hsync)]
      simp
    · cases h
      rw [if_neg hoff, List.length_eq_zero_iff.mp (Nat.eq_zero_of_not_pos hsync)]
      simp

namespace HubState
variable {cfg : ServerConfig} {hubId : String} {s s' : HubState} {l : HubLabel}

/-- Whether the leader will have a session once it has processed the messages on the way. -/
def view (hubId : String) (s : HubState) (sid : String) : Bool :=
  s.followerC.foldl (afterMsg sid) (s.leader.sessionStore.get? hubId sid).isSome

/-- No message is on the way, and no call is between two of its steps. -/
structure Quiescent (s : HubState) : Prop where
  serving : s.serving = []
  deleting : s.deleting = []
  onlineCall : s.onlineCall = .idle
  kicking : s.kicking = []
  followerC : s.followerC = []
  leaderC : s.leaderC = []

instance (s : HubState) : Decidable s.Quiescent :=
  decidable_of_iff (s.serving = [] ∧ s.deleting = [] ∧ s.onlineCall = .idle ∧ s.kicking = [] ∧
      s.followerC = [] ∧ s.leaderC = [])
    ⟨fun ⟨h1, h2, h3, h4, h5, h6⟩ => ⟨h1, h2, h3, h4, h5, h6⟩,
      fun h => ⟨h.serving, h.deleting, h.onlineCall, h.kicking, h.followerC, h.leaderC⟩⟩

/-- The leader has under the hub id exactly the sids of the handler store. -/
def Agree (hubId : String) (s : HubState) : Prop :=
  ∀ sid, (s.leader.sessionStore.get? hubId sid).isSome ↔ sid ∈ s.hstore

/-- `Hub.Run` does not delete a stored handler, and `Online` does not send a session whose
`SessionOffline` was sent before. -/
def Announced (s : HubState) : HubLabel → Prop
  | .kickDel => ∀ sid ∈ s.kicking.head?, sid ∉ s.hstore
  | .sync => ∀ sess ∈ s.onlineCall.rest.take syncBatch, sess.sid ∈ s.hstore ∨ sess.sid ∈ s.deleting
  | _ => True

instance (s : HubState) : (l : HubLabel) → Decidable (s.Announced l)
  | .kickDel => inferInstanceAs (Decidable (∀ sid ∈ s.kicking.head?, sid ∉ s.hstore))
  | .sync => inferInstanceAs (Decidable (∀ sess ∈ s.onlineCall.rest.take syncBatch,
      sess.sid ∈ s.hstore ∨ sess.sid ∈ s.deleting))
  | .serveHTTP | .addHandler _ _ _ | .putOnline _ | .delHandler _ | .putOffline _ | .goOnline
  | .copySessions | .goOffline | .hubRecv | .kickGet | .leaderPush _ | .leaderRecv _ => isTrue trivial

def ledger (hubId : String) (s : HubState) : Ledger :=
  ⟨s.hstore, s.used, s.serving, s.opened, s.deleting, s.onlineCall.rest, s.view hubId⟩

inductive Step (hubId : String) (s : HubState) : HubLabel → HubState → Prop
  | frame {l : HubLabel} {s' : HubState} (hok : s.Announced l) (h : s'.ledger hubId = s.ledger hubId) :
      Step hubId s l s'
  | addHandler {uid : ℤ} {sid : String} {createTime : ℤ} {s' : HubState} (hne : sid ≠ "")
      (hfresh : sid ∉ s.used)
      (h : s'.ledger hubId = (s.ledger hubId).serve ⟨"", sid, uid, createTime, 0⟩) :
      Step hubId s (.addHandler uid sid createTime) s'
  | putOnline {sess : Session} {s' : HubState} (hsess : sess ∈ s.serving)
      (h : s'.ledger hubId = (s.ledger hubId).announce sess) : Step hubId s (.putOnline sess) s'
  | delHandler {sid : String} {s' : HubState} (hopen : sid ∈ s.opened) (hin : sid ∈ s.hstore)
      (h : s'.ledger hubId = (s.ledger hubId).delete sid) : Step hubId s (.delHandler sid) s'
  | putOffline {sid : String} {s' : HubState} (hdel : sid ∈ s.deleting)
      (h : s'.ledger hubId = (s.ledger hubId).report sid) : Step hubId s (.putOffline sid) s'
  | copySessions {s' : HubState} (h : s'.ledger hubId = (s.ledger hubId).copy) :
      Step hubId s .copySessions s'
  | sync {s' : HubState} (h : s'.ledger hubId = (s.ledger hubId).send) : Step hubId s .sync s'
  | kickDel {sid : String} {s' : HubState} (hkick : s.kicking.head? = some sid) (hin : sid ∈ s.hstore)
      (h : s'.ledger hubId = (s.ledger hubId).kick sid) : Step hubId s .kickDel s'

theorem view_append (s : HubState) (msg : FollowerMsg) (hC : s'.followerC = s.followerC ++ [msg])
    (hleader : s'.leader = s.leader) : s'.view hubId = fun k => afterMsg k (s.view hubId k) msg := by
  funext k
  rw [view, hC, hleader, List.foldl_append]
  rfl

theorem view_route {env : ServerEnv} {msg : FollowerMsg} {rest : List FollowerMsg}
    (hC : s.followerC = msg :: rest) (hC' : s'.followerC = rest)
    (hroute : s.leader.route cfg env hubId msg = some s'.leader) : s'.view hubId = s.view hubId := by
  funext k
  rw [view, view, hC, hC', isSome_route hroute]
  rfl

theorem rest_ofRest (rest : List Session) : (OnlineCall.ofRest rest).rest = rest := by
  unfold OnlineCall.ofRest
  split_ifs with h
  · rw [h]
    rfl
  · rfl

theorem step_spec (h : s.step cfg hubId l = some s') : Step hubId s l s' := by
  cases l with
  | serveHTTP =>
    simp only [step] at h
    split_ifs at h
    cases h
    exact .frame trivial rfl
  | addHandler uid sid createTime =>
    simp only [step] at h
    split_ifs at h with hcond
    cases h
    exact .addHandler hcond.2.1 hcond.2.2 rfl
  | putOnline sess =>
    simp only [step] at h
    split_ifs at h with hsess
    cases h
    apply Step.putOnline hsess
    rw [ledger, view_append s (sessionOnline sess)]
    · rfl
    · rfl
    · rfl
  | delHandler sid =>
    simp only [step] at h
    split_ifs at h with hopen hdel
    · cases h
      have hin : sid ∈ s.hstore := by
        by_contra hout
        simp [HandlerStore.del, hout] at hdel
      apply Step.delHandler hopen hin
      rw [HandlerStore.del, if_pos hin]
      rfl
    · cases h
      exact .frame trivial rfl
  | putOffline sid =>
    simp only [step] at h
    split_ifs at h with hdel
    cases h
    apply Step.putOffline hdel
    rw [ledger, view_append s (sessionOffline sid)]
    · rfl
    · rfl
    · rfl
  | goOnline =>
    simp only [step] at h
    split at h
    · rename_i hidle
      cases h
      refine .frame trivial ?_
      rw [ledger, ledger, hidle]
      rfl
    · cases h
  | copySessions =>
    simp only [step] at h
    split at h
    · cases h
      apply Step.copySessions
      rw [ledger, rest_ofRest]
      rfl
    · cases h
  | sync =>
    simp only [step] at h
    split at h
    · rename_i rest hrest
      cases h
      apply Step.sync
      rw [ledger, view_append s (syncSessions (rest.take syncBatch)), rest_ofRest, ledger, hrest]
      · rfl
      · rfl
      · rfl
    · cases h
  | goOffline =>
    cases h
    exact .frame trivial rfl
  | hubRecv =>
    simp only [step] at h
    split at h
    · cases h
      exact .frame trivial rfl
    · cases h
  | kickGet =>
    simp only [step] at h
    split at h
    · split_ifs at h
      · cases h
        exact .frame trivial rfl
      · cases h
        exact .frame trivial rfl
    · cases h
  | kickDel =>
    simp only [step] at h
    split at h
    · rename_i sid rest hkick hfound
      cases h
      rw [HandlerStore.del]
      split_ifs with hin
      · exact .kickDel (by rw [hkick]; rfl) hin rfl
      · refine .frame ?_ rfl
        intro k hk
        rw [hkick] at hk
        obtain rfl := Option.some.inj hk
        exact hin
    · cases h
  | leaderPush sids =>
    cases h
    exact .frame trivial rfl
  | leaderRecv env =>
    simp only [step] at h
    split at h
    · rename_i msg rest hC
      split_ifs at h with hsend
      obtain ⟨leader, hroute, rfl⟩ := Option.map_eq_some_iff.mp h
      refine .frame trivial ?_
      rw [ledger, view_route hC rfl hroute]
      rfl
    · cases h

theorem tracked_step (ht : (s.ledger hubId).Tracked) (hok : s.Announced l) (hs : Step hubId s l s') :
    (s'.ledger hubId).Tracked := by
  cases hs with
  | frame _ h =>
    rw [h]
    exact ht
  | addHandler hne hfresh h =>
    rw [h]
    exact ht.serve hne hfresh
  | putOnline hsess h =>
    rw [h]
    exact ht.announce hsess
  | delHandler hopen hin h =>
    rw [h]
    exact ht.delete hopen hin
  | putOffline hdel h =>
    rw [h]
    exact ht.report hdel
  | copySessions h =>
    rw [h]
    exact ht.copy
  | sync h =>
    rw [h]
    exact ht.send hok
  | kickDel hkick hin h => exact absurd hin (hok _ hkick)

theorem ghost_of_not_announced (ht : (s.ledger hubId).Tracked) (hs : Step hubId s l s')
    (hbad : ¬ s.Announced l) : ∃ sid, (s'.ledger hubId).Ghost sid := by
  cases hs with
  | frame hok h => exact absurd hok hbad
  | addHandler hne hfresh h => exact absurd trivial hbad
  | putOnline hsess h => exact absurd trivial hbad
  | delHandler hopen hin h => exact absurd trivial hbad
  | putOffline hdel h => exact absurd trivial hbad
  | copySessions h => exact absurd trivial hbad
  | sync h =>
    simp only [Announced, not_forall, not_or] at hbad
    obtain ⟨sess, hsess, hgone, hsilent⟩ := hbad
    refine ⟨sess.sid, ?_⟩
    rw [h]
    exact ht.ghost_send hsess hgone hsilent
  | @kickDel sid _ hkick hin h =>
    refine ⟨sid, ?_⟩
    rw [h]
    exact ht.ghost_kick hin

/-- No step tells the leader about a ghost. -/
theorem ghost_step {sid : String} (hg : (s.ledger hubId).Ghost sid) (hs : Step hubId s l s') :
    (s'.ledger hubId).Ghost sid := by
  cases hs with
  | frame hok h =>
    rw [h]
    exact hg
  | addHandler hne hfresh h =>
    rw [h]
    exact hg.serve hfresh
  | putOnline hsess h =>
    rw [h]
    exact hg.announce _
  | delHandler hopen hin h =>
    rw [h]
    exact hg.delete hin
  | putOffline hdel h =>
    rw [h]
    exact hg.report hdel
  | copySessions h =>
    rw [h]
    exact hg.copy
  | sync h =>
    rw [h]
    exact hg.send
  | kickDel hkick hin h =>
    rw [h]
    exact hg.kick _

theorem tracked_start (hubId : String) : ((start hubId).ledger hubId).Tracked := by
  have hview : ∀ sid, (start hubId).view hubId sid = false := by
    intro sid
    simp [view, start, PushServer.newPushServer, SessionStore.newSessionStore, SessionStore.get?,
      SessionStore.hub]
  constructor
  case known =>
    intro sid h
    exact absurd ((hview sid).symm.trans h) Bool.false_ne_true
  all_goals simp [ledger, start, OnlineCall.rest]

/-- In a quiescent state what the leader will know is what it knows. -/
theorem Quiescent.agree_iff (hq : s.Quiescent) :
    s.Agree hubId ↔ ∀ sid, s.view hubId sid = true ↔ sid ∈ s.hstore := by
  simp only [Agree, view, hq.followerC, List.foldl_nil]

theorem Quiescent.agree (hq : s.Quiescent) (ht : (s.ledger hubId).Tracked) : s.Agree hubId := by
  rw [hq.agree_iff]
  intro sid
  constructor
  · intro hv
    rcases ht.known sid hv with hin | hdel
    · exact hin
    · simp [ledger, hq.deleting] at hdel
  · intro hin
    rcases ht.stored_known sid hin with hv | hserving
    · exact hv
    · simp [ledger, hq.serving] at hserving

theorem Quiescent.not_agree {sid : String} (hq : s.Quiescent) (hg : (s.ledger hubId).Ghost sid) :
    ¬ s.Agree hubId := by
  rw [hq.agree_iff]
  intro hagree
  rcases hg.known with hv | hserving
  · exact hg.gone ((hagree sid).mp hv)
  · simp [ledger, hq.serving] at hserving

end HubState

/-- In every run of announced steps the leader and the hub agree whenever they are quiescent, and after
the first other step they never agree again when they are. -/
theorem agree_exactly_while_announced (cfg : ServerConfig) (hubId : String) (s : HubState)
    (hs : (hubSystem cfg hubId).ReachableVia HubState.Announced s) :
    (s.Quiescent → s.Agree hubId) ∧
      ∀ l s', (hubSystem cfg hubId).step s l = some s' → ¬ s.Announced l →
        ∀ ls t, (hubSystem cfg hubId).run s' ls = some t → t.Quiescent → ¬ t.Agree hubId := by
  have ht : (s.ledger hubId).Tracked := by
    apply hs.invariant (I := fun s => (s.ledger hubId).Tracked)
    · rintro _ rfl
      exact HubState.tracked_start hubId
    · intro s l s' hi hok hstep
      exact HubState.tracked_step hi hok (HubState.step_spec hstep)
  constructor
  · intro hq
    exact hq.agree ht
  · intro l s' hstep hbad ls t hrun hq
    obtain ⟨sid, hghost⟩ := HubState.ghost_of_not_announced ht (HubState.step_spec hstep) hbad
    have hlast : (t.ledger hubId).Ghost sid := by
      apply run_invariant (I := fun s => (HubState.ledger hubId s).Ghost sid) _ hghost ls hrun
      intro s l s' hi hstep
      exact HubState.ghost_step hi (HubState.step_spec hstep)
    exact hq.not_agree hlast

/-- A session is added while `Online` is between its first step and the copy. -/
def syncedRun : List HubLabel :=
  [.goOnline, .serveHTTP, .addHandler 7 "a" 100, .copySessions, .putOnline ⟨"", "a", 7, 100, 0⟩, .sync,
    .leaderRecv (steadyEnv 200), .leaderRecv (steadyEnv 200)]

theorem agree_syncedRun :
    ∃ s, (hubSystem oneSession "hub").ReachableVia HubState.Announced s ∧ s.Quiescent ∧
      "a" ∈ s.hstore ∧ (s.Quiescent → s.Agree "hub") ∧
      ∀ l s', (hubSystem oneSession "hub").step s l = some s' → ¬ s.Announced l →
        ∀ ls t, (hubSystem oneSession "hub").run s' ls = some t → t.Quiescent → ¬ t.Agree "hub" := by
  have hrun : ((hubSystem oneSession "hub").runVia (fun s l => decide (s.Announced l)) (.start "hub")
      syncedRun).map (fun s => (decide s.Quiescent, decide ("a" ∈ s.hstore))) = some (true, true) := by
    decide +kernel
  obtain ⟨s, hs, hview⟩ := Option.map_eq_some_iff.mp hrun
  obtain ⟨hquiet, hin⟩ := Prod.mk.inj hview
  have hreach : (hubSystem oneSession "hub").ReachableVia HubState.Announced s :=
    ReachableVia.runVia (fun _ _ h => of_decide_eq_true h) (.init rfl) syncedRun hs
  exact ⟨s, hreach, of_decide_eq_true hquiet, of_decide_eq_true hin,
    agree_exactly_while_announced oneSession "hub" s hreach⟩

/-- A user with a quota of one opens a second session; the hub kicks the first one off and closes its
handler. -/
def kickedRun : List HubLabel :=
  [.goOnline, .copySessions, .serveHTTP, .addHandler 7 "a" 100, .putOnline ⟨"", "a", 7, 100, 0⟩,
    .leaderRecv (steadyEnv 200), .serveHTTP, .addHandler 7 "b" 101, .putOnline ⟨"", "b", 7, 101, 0⟩,
    .leaderRecv (steadyEnv 200), .hubRecv, .kickGet, .kickDel, .delHandler "a"]

theorem kickedRun_leaves_ghost :
    ∃ s, (hubSystem oneSession "hub").Reachable s ∧ s.Quiescent ∧
      (s.leader.sessionStore.get? "hub" "a").isSome ∧ "a" ∉ s.hstore ∧ ¬ s.Agree "hub" := by
  have hrun : ((hubSystem oneSession "hub").run (.start "hub") kickedRun).map (fun s =>
      (decide s.Quiescent, (s.leader.sessionStore.get? "hub" "a").isSome, decide ("a" ∉ s.hstore))) =
      some (true, true, true) := by
    decide +kernel
  obtain ⟨s, hs, hview⟩ := Option.map_eq_some_iff.mp hrun
  obtain ⟨hquiet, hrest⟩ := Prod.mk.inj hview
  obtain ⟨hleader, hgone⟩ := Prod.mk.inj hrest
  have hgone' := of_decide_eq_true hgone
  refine ⟨s, Reachable.run (.init rfl) _ hs, of_decide_eq_true hquiet, hleader, hgone', ?_⟩
  intro hagree
  exact hgone' ((hagree "a").mp hleader)

end MiniPush.Ws
