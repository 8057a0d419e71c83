import MiniPush.Ws.SessionView
import MiniPush.Ws.StandaloneSpec

/-! Each session of a standalone server goes through states of `closeSystem`. -/
namespace MiniPush.Ws
open Foundation CloseProtocol

variable {ι : Type} [DecidableEq ι]

namespace HubOp

/-- The statement works on the handler of the session. -/
def about (i : ι) : HubOp ι → Bool
  | .append j _ | .remove j => j = i
  | .get _ | .getByUid _ => false

def looksUp : HubOp ι → Bool
  | .get _ | .getByUid _ => true
  | .append _ _ | .remove _ => false

omit [DecidableEq ι] in
theorem looksUp_of_get (sids : List ι) : ∀ op ∈ sids.map get, op.looksUp = true := by
  simp [looksUp]

omit [DecidableEq ι] in
theorem looksUp_of_getByUid (uids : List ℤ) : ∀ op ∈ uids.map (getByUid (ι := ι)), op.looksUp = true := by
  simp [looksUp]

theorem filter_of_looksUp {i : ι} {todo : List (HubOp ι)} (h : ∀ op ∈ todo, op.looksUp = true) :
    todo.filter (about i) = [] := by
  refine List.filter_eq_nil_iff.mpr fun op hop => ?_
  have hup := h op hop
  cases op with
  | get _ | getByUid _ => simp [about]
  | append _ _ | remove _ => cases hup

theorem filter_slice {i : ι} {slice : List ι} (h : slice.Nodup) :
    (slice.map fun j => append j .msg).filter (about i) = if i ∈ slice then [append i .msg] else [] := by
  induction slice with
  | nil => rfl
  | cons j slice ih =>
    obtain ⟨hj, hslice⟩ := List.nodup_cons.mp h
    by_cases hij : j = i
    · subst hij
      simp [about, ih hslice, hj]
    · simp [about, ih hslice, hij, Ne.symm hij]

end HubOp

/-- The statements on the handler of the session that a task has left. -/
def hubOps (i : ι) : TaskPos → List (HubOp ι)
  | .kickoff => [.append i .kickoff, .remove i]
  | .deleting => [.remove i]
  | .headSeq _ => [.append i .msg]
  | .idle | .stopped => []

section Deliver
variable {i : ι} {pos : TaskPos} {rest : List (HubOp ι)}

omit [DecidableEq ι] in
theorem deliver_append {g : CloseProtocol.Handler Unit} {h h' : HandlerRun} (hm : g.Matches h) (hs : g.Sound)
    {data : SessionData} (hops : .append i data :: rest = hubOps i pos) (ho : h.offer data = some h') :
    ∃ g' pos', g.deliver pos = some (g', pos') ∧ g'.Matches h' ∧ rest = hubOps i pos' ∧ pos' ≠ .stopped := by
  cases pos with
  | kickoff =>
    obtain ⟨hhead, hrest⟩ := List.cons.inj hops
    obtain ⟨-, rfl⟩ := HubOp.append.inj hhead
    obtain ⟨g', happend, hm'⟩ := hm.offer (v := ⟨none, some .kickoff⟩) hs (by simp) ho
    exact ⟨g', .deleting, by simp [Handler.deliver, happend], hm', hrest, by simp⟩
  | headSeq seq =>
    obtain ⟨hhead, hrest⟩ := List.cons.inj hops
    obtain ⟨-, rfl⟩ := HubOp.append.inj hhead
    obtain ⟨g', happend, hm'⟩ := hm.offer (v := ⟨none, some (.headSeq seq)⟩) hs (by simp) ho
    exact ⟨g', .idle, by simp [Handler.deliver, happend], hm', hrest, by simp⟩
  | deleting | idle | stopped => cases hops

omit [DecidableEq ι] in
theorem deleting_of_remove (hops : .remove i :: rest = hubOps i pos) : pos = .deleting ∧ rest = [] := by
  cases pos with
  | deleting => exact ⟨rfl, (List.cons.inj hops).2⟩
  | kickoff | headSeq _ | idle | stopped => cases hops

omit [DecidableEq ι] in
theorem idle_or_stopped (hops : [] = hubOps i pos) : pos = .idle ∨ pos = .stopped := by
  cases pos with
  | idle => exact .inl rfl
  | stopped => exact .inr rfl
  | kickoff | deleting | headSeq _ => cases hops

end Deliver

namespace HubPhase

/-- The same of `Hub.Run` in the server. -/
def opsOf (i : ι) : HubPhase ι → List (HubOp ι)
  | .handle held todo => ((held.map fun p => HubOp.append p.1 p.2).toList ++ todo).filter (HubOp.about i)
  | _ => []

/-- `Hub.Run` has left its loop, and will not come to the handler of the session again. -/
def past (i : ι) : HubPhase ι → Bool
  | .closing rest => i ∉ rest
  | .notifying | .stopped => true
  | _ => false

/-- `Hub.Run` looks sessions up only when it is done with those it has found. -/
def Shaped : HubPhase ι → Prop
  | .handle _ todo => todo.Pairwise fun op op' => op.looksUp = true → op'.looksUp = true
  | .closing rest => rest.Nodup
  | _ => True

end HubPhase

namespace Process
variable {i : ι} {h h' : HandlerRun} {hub hub' : HubPhase ι} {t : CloseProtocol.Session Unit}
  {enableClientMsg : Bool}

/-- The session in both models, with `Hub.Run`. While `Hub.Run` closes the handlers, those it has left stay in
the store. -/
structure Shown (i : ι) (h : HandlerRun) (hub : HubPhase ι) (t : CloseProtocol.Session Unit) : Prop where
  handler : h.Shown t
  ops : hub.opsOf i = hubOps i (t.task none)
  past : t.task none = .stopped ↔ hub.past i = true
  shaped : hub.Shaped
  stays : ∀ rest, hub = .closing rest → i ∈ rest → h.stored = true

theorem Shown.idle (hs : Shown i h hub t) (hops : hub.opsOf i = []) (hpast : hub.past i = false) :
    t.task none = .idle := by
  refine (idle_or_stopped (hops.symm.trans hs.ops)).resolve_right fun hstopped => ?_
  rw [hs.past.mp hstopped] at hpast
  cases hpast

theorem Shown.follow (hs : Shown i h hub t) (hf : h'.Follows enableClientMsg t)
    (hstored : hub.storeLocked = true → h'.stored = h.stored) :
    ∃ t', (closeSystem enableClientMsg).Reachable t' ∧ Shown i h' hub t' := by
  obtain ⟨t', hr, hshown, htask⟩ := hf
  refine ⟨t', hr, hshown, by rw [htask]; exact hs.ops, by rw [htask]; exact hs.past, hs.shaped, ?_⟩
  rintro rest rfl hi
  rw [hstored rfl]
  exact hs.stays rest rfl hi

theorem Shown.pass (hs : Shown i h hub t) (hops : hub'.opsOf i = hub.opsOf i) (hpast : hub'.past i = hub.past i)
    (hshaped : hub'.Shaped) (hstays : ∀ rest, hub' = .closing rest → i ∈ rest → h.stored = true) :
    Shown i h hub' t :=
  ⟨hs.handler, hops.trans hs.ops, by rw [hpast]; exact hs.past, hshaped, hstays⟩

theorem Shown.advance (hs : Shown i h hub t) (hr : (closeSystem enableClientMsg).Reachable t)
    (l : CloseProtocol.Label Unit) (pos : TaskPos) {g : CloseProtocol.Handler Unit}
    (hstep : t.next enableClientMsg l = some { t with handler := g, task := Function.update t.task none pos })
    (hm : g.Matches h') (hloop : h'.loop = h.loop) (hserve : h'.serve = h.serve)
    (hops : hub'.opsOf i = hubOps i pos) (hpast : pos = .stopped ↔ hub'.past i = true) (hshaped : hub'.Shaped)
    (hstays : ∀ rest, hub' = .closing rest → i ∈ rest → h'.stored = true) :
    ∃ t', (closeSystem enableClientMsg).Reachable t' ∧ Shown i h' hub' t' := by
  have hreach := hr.step ((Session.step_of_next hr l).trans hstep)
  refine ⟨_, hreach, hs.handler.handOver hm hloop hserve _, ?_, ?_, hshaped, hstays⟩
  · simpa using hops
  · simpa using hpast

/-- `appendDataChan` of `Hub.Run`, with the mutex free or after a wait under it. -/
theorem Shown.appended (hs : Shown i h hub t) (hr : (closeSystem enableClientMsg).Reachable t)
    {data : Ws.SessionData} {todo : List (HubOp ι)}
    (hops : hub.opsOf i = .append i data :: todo.filter (HubOp.about i)) (ho : h.offer data = some h')
    (hshaped : (HubPhase.handle none todo).Shaped) :
    ∃ t', (closeSystem enableClientMsg).Reachable t' ∧ Shown i h' (.handle none todo) t' := by
  obtain ⟨hloop, -, hserve, -⟩ := HandlerRun.offer_eq_some ho
  have hsound := (Session.inv_of_reachable hr).sound
  obtain ⟨g, pos, hdeliver, hm, hrest, hpos⟩ :=
    deliver_append hs.handler.handler hsound (hops.symm.trans hs.ops) ho
  refine hs.advance hr (.deliver none) pos ?_ hm hloop hserve hrest (by simp [HubPhase.past, hpos]) hshaped (by simp)
  simp [Session.next, hdeliver]

/-- `Hub.Run` looks sessions up while it has none in hand. -/
theorem Shown.lookup (hs : Shown i h hub t) {op : HubOp ι} {todo : List (HubOp ι)}
    (hhub : hub = .handle none (op :: todo)) (hop : op.looksUp = true) :
    t.task none = .idle ∧ todo.filter (HubOp.about i) = [] ∧ ∀ op' ∈ todo, op'.looksUp = true := by
  have hshaped := hs.shaped
  rw [hhub] at hshaped
  have hlater : ∀ op' ∈ todo, op'.looksUp = true := fun op' hop' => (List.pairwise_cons.mp hshaped).1 op' hop' hop
  refine ⟨hs.idle ?_ (by simp [hhub, HubPhase.past]), HubOp.filter_of_looksUp hlater, hlater⟩
  rw [hhub]
  exact HubOp.filter_of_looksUp (List.forall_mem_cons.mpr ⟨hop, hlater⟩)

/-- `Hub.Run` at its `select` takes a message, which it only looks sessions up for. -/
theorem Shown.looking (hs : Shown i h .select t) {todo : List (HubOp ι)} (hlookups : ∀ op ∈ todo, op.looksUp = true) :
    Shown i h (.handle none todo) t := by
  refine hs.pass (HubOp.filter_of_looksUp hlookups) rfl ?_ (by simp)
  exact List.pairwise_of_forall_mem_list fun _ _ op' hop' _ => hlookups op' hop'

theorem Shown.found (hs : Shown i h hub t) (hr : (closeSystem enableClientMsg).Reachable t)
    (hidle : t.task none = .idle) (hstored : h.stored = true)
    (hops : hub'.opsOf i = [.append i .kickoff, .remove i]) (hpast : hub'.past i = false) (hshaped : hub'.Shaped) :
    ∃ t', (closeSystem enableClientMsg).Reachable t' ∧ Shown i h hub' t' := by
  refine hs.advance hr (.kickoff none) .kickoff ?_ hs.handler.handler rfl rfl hops (by simp [hpast])
    hshaped fun _ _ _ => hstored
  rw [Session.next, if_pos ⟨hidle, hs.handler.handler.stored.trans hstored⟩]

/-- `hstore.getByUid` finds the session. The head seq has no part in the model of the server. -/
theorem Shown.listed (hs : Shown i h hub t) (hr : (closeSystem enableClientMsg).Reachable t)
    (hidle : t.task none = .idle) (hstored : h.stored = true)
    (hops : hub'.opsOf i = [.append i .msg]) (hpast : hub'.past i = false) (hshaped : hub'.Shaped) :
    ∃ t', (closeSystem enableClientMsg).Reachable t' ∧ Shown i h hub' t' := by
  refine hs.advance hr (.headSeq 0) (.headSeq 0) ?_ hs.handler.handler rfl rfl hops (by simp [hpast])
    hshaped fun _ _ _ => hstored
  rw [Session.next, if_pos ⟨hidle, hs.handler.handler.stored.trans hstored⟩]

theorem Shown.removed (hs : Shown i h hub t) (hr : (closeSystem enableClientMsg).Reachable t)
    {todo : List (HubOp ι)} (hops : hub.opsOf i = .remove i :: todo.filter (HubOp.about i))
    (hshaped : (HubPhase.handle none todo).Shaped) :
    ∃ t', (closeSystem enableClientMsg).Reachable t' ∧
      Shown i { h with stored := false } (.handle none todo) t' := by
  have hm := hs.handler.handler
  obtain ⟨htask, hrest⟩ := deleting_of_remove (hops.symm.trans hs.ops)
  refine hs.advance hr (.deliver none) .idle (g := { t.handler with stored := false }) ?_
    ⟨rfl, hm.closing, hm.chan, hm.own⟩ rfl rfl hrest (by simp [HubPhase.past]) hshaped (by simp)
  simp [Session.next, htask, Handler.deliver]

theorem Shown.closed (hs : Shown i h hub t) (hr : (closeSystem enableClientMsg).Reachable t) {rest : List ι}
    (hhub : hub = .closing (i :: rest)) :
    ∃ t', (closeSystem enableClientMsg).Reachable t' ∧ Shown i { h with closing := true } (.closing rest) t' := by
  have hshaped := hs.shaped
  rw [hhub] at hshaped
  obtain ⟨hnot, hrest⟩ := List.nodup_cons.mp hshaped
  have hidle := hs.idle (by simp [hhub, HubPhase.opsOf]) (by simp [hhub, HubPhase.past])
  have hstored : h.stored = true := hs.stays _ hhub List.mem_cons_self
  have hm := hs.handler.handler
  have hmatch : t.handler.stop.Matches { h with closing := true } := by
    unfold Handler.stop
    split_ifs with hclosing
    · exact ⟨hm.stored, hclosing, hm.chan, hm.own⟩
    · exact ⟨hm.stored, rfl, hm.chan, hm.own⟩
  refine hs.advance hr .stop .stopped ?_ hmatch rfl rfl rfl
    (by simpa [HubPhase.past] using hnot) hrest fun _ _ _ => hstored
  rw [Session.next, if_pos hidle, if_pos (hm.stored.trans hstored)]

/-- The end of the context: `HandlerStore.close` goes over the stored handlers in some order and passes a
session over that is not among them. -/
theorem Shown.ctxDone (hs : Shown i h .select t) (hr : (closeSystem enableClientMsg).Reachable t) {order : List ι}
    (hnodup : order.Nodup) (hi : i ∈ order ↔ h.stored = true) :
    ∃ t', (closeSystem enableClientMsg).Reachable t' ∧ Shown i h (.closing order) t' := by
  by_cases hmem : i ∈ order
  · exact ⟨t, hr, hs.pass rfl (by simp [HubPhase.past, hmem]) hnodup fun _ _ _ => hi.mp hmem⟩
  · have hgone : t.handler.stored = false := by
      rw [hs.handler.handler.stored]
      simpa using mt hi.mpr hmem
    refine hs.advance hr .stop .stopped ?_ hs.handler.handler rfl rfl rfl
      (by simpa [HubPhase.past] using hmem) hnodup ?_
    · simp [Session.next, hs.idle rfl rfl, hgone]
    · rintro rest hrest hrest'
      cases hrest
      exact absurd hrest' hmem

section Server
variable {cfg : StandaloneConfig ι} {s s' : Process ι}

/-- A step on the handler of `j` is a step of this session or leaves it as it was. -/
theorem Shown.setHandler (hr : (closeSystem enableClientMsg).Reachable t) {j : ι}
    (hown : j = i → ∃ t', (closeSystem enableClientMsg).Reachable t' ∧ Shown i h' hub' t')
    (hother : j ≠ i → Shown i (s.handlers i) hub' t) :
    ∃ t', (closeSystem enableClientMsg).Reachable t' ∧ Shown i ((s.setHandler j h').handlers i) hub' t' := by
  by_cases hj : j = i
  · rw [hj, setHandler_handlers_self]
    exact hown hj
  · rw [setHandler_handlers_of_ne _ _ (Ne.symm hj)]
    exact ⟨t, hr, hother hj⟩

theorem Shown.own (hs : Shown i (s.handlers i) s.hub t) (hr : (closeSystem enableClientMsg).Reachable t) {j : ι}
    (hf : j = i → h'.Follows enableClientMsg t)
    (hstored : s.hub.storeLocked = true → h'.stored = (s.handlers j).stored) :
    ∃ t', (closeSystem enableClientMsg).Reachable t' ∧ Shown i ((s.setHandler j h').handlers i) s.hub t' := by
  refine Shown.setHandler hr ?_ fun _ => hs
  rintro rfl
  exact hs.follow (hf rfl) hstored

theorem Shown.moved (hs : Shown i (s.handlers i) s.hub t) (hr : (closeSystem enableClientMsg).Reachable t) {j : ι}
    {side : Side} (hf : j = i → h'.Follows enableClientMsg t)
    (hmoved : HandlerRun.Moved true false (s.handlers j) side h') :
    ∃ t', (closeSystem enableClientMsg).Reachable t' ∧ Shown i ((s.setHandler j h').handlers i) s.hub t' :=
  hs.own hr hf fun _ => hmoved.stored_eq

theorem Shown.hubMove {slice : List ι} (hs : Shown i (s.handlers i) s.hub t)
    (hr : (closeSystem enableClientMsg).Reachable t) (h : HubMove cfg s slice s') :
    ∃ t', (closeSystem enableClientMsg).Reachable t' ∧ Shown i (s'.handlers i) s'.hub t' := by
  have hshaped := hs.shaped
  cases h with
  | back hhub =>
    exact ⟨t, hr, hs.pass (by simp [hhub, HubPhase.opsOf]) (by simp [hhub, HubPhase.past]) trivial (by simp)⟩
  | @found j todo hhub hstored =>
    obtain ⟨hidle, hnone, -⟩ := hs.lookup hhub rfl
    have hshaped' : (HubPhase.handle none (.append j .kickoff :: .remove j :: todo)).Shaped := by
      rw [hhub] at hshaped
      simpa [HubPhase.Shaped, HubOp.looksUp] using (List.pairwise_cons.mp hshaped).2
    by_cases hj : j = i
    · subst hj
      exact hs.found hr hidle hstored (by simp [HubPhase.opsOf, HubOp.about, hnone]) rfl hshaped'
    · refine ⟨t, hr, hs.pass ?_ (by simp [hhub, HubPhase.past]) hshaped' (by simp)⟩
      simp [hhub, HubPhase.opsOf, HubOp.about, hj]
  | missed hhub =>
    refine ⟨t, hr, hs.pass ?_ (by simp [hhub, HubPhase.past]) ?_ (by simp)⟩
    · simp [hhub, HubPhase.opsOf, HubOp.about]
    · rw [hhub] at hshaped
      exact (List.pairwise_cons.mp hshaped).2
  | @appended j data todo h' hhub hfree ho =>
    rw [hhub] at hshaped
    have hshaped' : (HubPhase.handle none todo).Shaped := (List.pairwise_cons.mp hshaped).2
    refine Shown.setHandler hr ?_ fun hj => ?_
    · rintro rfl
      exact hs.appended hr (by simp [hhub, HubPhase.opsOf, HubOp.about]) ho hshaped'
    · refine hs.pass ?_ (by simp [hhub, HubPhase.past]) hshaped' (by simp)
      simp [hhub, HubPhase.opsOf, HubOp.about, hj]
  | blocked hhub hfree ho =>
    rw [hhub] at hshaped
    refine ⟨t, hr, hs.pass ?_ (by simp [hhub, HubPhase.past]) (List.pairwise_cons.mp hshaped).2 (by simp)⟩
    simp [hhub, HubPhase.opsOf]
  | @resumed j data todo h' hhub ho =>
    rw [hhub] at hshaped
    refine Shown.setHandler hr ?_ fun hj => ?_
    · rintro rfl
      exact hs.appended hr (by simp [hhub, HubPhase.opsOf, HubOp.about]) ho hshaped
    · refine hs.pass ?_ (by simp [hhub, HubPhase.past]) hshaped (by simp)
      simp [hhub, HubPhase.opsOf, HubOp.about, hj]
  | @removed j todo hhub =>
    rw [hhub] at hshaped
    have hshaped' : (HubPhase.handle none todo).Shaped := (List.pairwise_cons.mp hshaped).2
    refine Shown.setHandler hr ?_ fun hj => ?_
    · rintro rfl
      exact hs.removed hr (by simp [hhub, HubPhase.opsOf, HubOp.about]) hshaped'
    · refine hs.pass ?_ (by simp [hhub, HubPhase.past]) hshaped' (by simp)
      simp [hhub, HubPhase.opsOf, HubOp.about, hj]
  | @listed u todo hhub hslice =>
    obtain ⟨hidle, hnone, hlater⟩ := hs.lookup hhub rfl
    have hops : (HubPhase.handle none (slice.map (fun j => .append j .msg) ++ todo)).opsOf i =
        if i ∈ slice then [.append i .msg] else [] := by
      simp only [HubPhase.opsOf, Option.map_none, Option.toList_none, List.nil_append, List.filter_append, hnone,
        HubOp.filter_slice hslice.1, List.append_nil]
    have hshaped' : (HubPhase.handle none (slice.map (fun j => .append j .msg) ++ todo)).Shaped := by
      rw [hhub] at hshaped
      refine List.pairwise_append.mpr ⟨?_, (List.pairwise_cons.mp hshaped).2, fun _ _ op' hop' _ => hlater op' hop'⟩
      exact List.pairwise_map.mpr (List.pairwise_of_forall fun _ _ hup => by cases hup)
    by_cases hi : i ∈ slice
    · exact hs.listed hr hidle ((hslice.2 i).mp hi).1 (by rw [hops, if_pos hi]) rfl hshaped'
    · refine ⟨t, hr, hs.pass ?_ (by simp [hhub, HubPhase.past]) hshaped' (by simp)⟩
      rw [hops, if_neg hi, hs.ops, hidle]
      rfl
  | @closed j rest hhub =>
    refine Shown.setHandler hr ?_ fun hj => ?_
    · rintro rfl
      exact hs.closed hr hhub
    · rw [hhub] at hshaped
      refine hs.pass (by simp [hhub, HubPhase.opsOf]) ?_ (List.nodup_cons.mp hshaped).2 ?_
      · simp [hhub, HubPhase.past, Ne.symm hj]
      · rintro rest' hrest hi
        cases hrest
        exact hs.stays _ hhub (List.mem_cons_of_mem _ hi)
  | closedAll hhub =>
    exact ⟨t, hr, hs.pass (by simp [hhub, HubPhase.opsOf]) (by simp [hhub, HubPhase.past]) trivial (by simp)⟩

variable [Fintype ι]

theorem Shown.step {l : ProcessLabel ι} (hs : Shown i (s.handlers i) s.hub t)
    (hr : (closeSystem cfg.enableClientMsg).Reachable t) (h : s.step cfg l = some s') :
    ∃ t', (closeSystem cfg.enableClientMsg).Reachable t' ∧ Shown i (s'.handlers i) s'.hub t' := by
  cases l with
  | cancel | goOnline | copySessions | tick _ | runCtxDone => cases step_spec h <;> exact ⟨t, hr, hs⟩
  | deferred =>
    cases step_spec h with
    | recvStorageStop _ _ => exact ⟨t, hr, hs⟩
    | deferred _ _ => exact ⟨t, hr, hs⟩
    | recvHubStop _ hhub =>
      exact ⟨t, hr, hs.pass (by simp [hhub, HubPhase.opsOf]) (by simp [hhub, HubPhase.past]) trivial (by simp)⟩
  | storage l =>
    obtain ⟨u, -, rfl⟩ := Option.map_eq_some_iff.mp h
    exact ⟨t, hr, hs⟩
  | hubStart =>
    simp only [Process.step] at h
    split_ifs at h with hhub
    obtain rfl := Option.some.inj h
    exact ⟨t, hr, hs.pass (by simp [hhub, HubPhase.opsOf]) (by simp [hhub, HubPhase.past]) trivial (by simp)⟩
  | hubCtxDone order =>
    simp only [Process.step] at h
    split_ifs at h with hdone
    obtain rfl := Option.some.inj h
    obtain ⟨-, hhub, horder⟩ := hdone
    rw [hhub] at hs
    exact hs.ctxDone hr horder.1 (horder.2 i)
  | hubRecvHeadSeq uids =>
    simp only [Process.step] at h
    split_ifs at h with hhub
    obtain ⟨u, -, rfl⟩ := Option.map_eq_some_iff.mp h
    rw [hhub] at hs
    exact ⟨t, hr, hs.looking (HubOp.looksUp_of_getByUid uids)⟩
  | hubRecvKickoff =>
    cases step_spec h with
    | @hubRecvKickoff sids _ hhub =>
      rw [hhub] at hs
      exact ⟨t, hr, hs.looking (HubOp.looksUp_of_get sids)⟩
  | hubRecvClosed =>
    simp only [Process.step] at h
    split_ifs at h with hclosed
    obtain rfl := Option.some.inj h
    have hidle := hs.idle (by simp [hclosed.1, HubPhase.opsOf]) (by simp [hclosed.1, HubPhase.past])
    refine hs.advance hr .leaderClosed .stopped ?_ hs.handler.handler rfl rfl rfl
      (by simp [HubPhase.past]) trivial (by simp)
    simp [Session.next, hidle]
  | hubWork slice => exact hs.hubMove hr (hubWork_spec h)
  | serveCheck j =>
    cases step_spec h with
    | serveCheck hidle =>
      refine hs.own hr ?_ fun _ => rfl
      rintro rfl
      exact ⟨t, hr, hs.handler.moveServe (by rw [hidle]; rfl), rfl⟩
  | serveAdd j =>
    simp only [Process.step] at h
    split_ifs at h with hadd
    obtain rfl := Option.some.inj h
    refine hs.own hr ?_ fun hlocked => ?_
    · rintro rfl
      exact hs.handler.add hr (by rw [hadd.1]; rfl)
    · rw [hadd.2] at hlocked
      cases hlocked
  | serveSend j =>
    cases step_spec h with
    | park hadded _ | serveSend hadded _ =>
      refine hs.own hr ?_ fun _ => rfl
      rintro rfl
      exact ⟨t, hr, hs.handler.moveServe (by rw [hadded]; rfl), rfl⟩
  | serveSent j kick =>
    simp only [Process.step] at h
    split_ifs at h with hsent
    obtain rfl := Option.some.inj h
    refine hs.own hr ?_ fun _ => rfl
    rintro rfl
    exact hs.handler.online hr (by rw [hsent.1]; rfl)
  | read j result =>
    obtain ⟨h', hread, rfl⟩ := Option.map_eq_some_iff.mp h
    refine hs.moved hr ?_ (HandlerRun.read_moved hread)
    rintro rfl
    exact hs.handler.read hr hread
  | recvReturn j =>
    obtain ⟨h', hreturn, rfl⟩ := Option.map_eq_some_iff.mp h
    refine hs.moved hr ?_ (HandlerRun.recvReturn_moved hreturn)
    rintro rfl
    exact hs.handler.recvReturn hr hreturn
  | take j written =>
    obtain ⟨h', htake, rfl⟩ := Option.map_eq_some_iff.mp h
    refine hs.moved hr ?_ (HandlerRun.take_moved htake)
    rintro rfl
    exact hs.handler.take hr htake
  | ping j written =>
    obtain ⟨h', hping, rfl⟩ := Option.map_eq_some_iff.mp h
    have hf : j = i → h'.Follows cfg.enableClientMsg t := by
      rintro rfl
      exact hs.handler.ping hr hping
    rcases HandlerRun.ping_moved hping with rfl | hmoved
    · exact hs.own hr hf fun _ => rfl
    · exact hs.moved hr hf hmoved
  | sendReturn j =>
    obtain ⟨h', hreturn, rfl⟩ := Option.map_eq_some_iff.mp h
    refine hs.moved hr ?_ (HandlerRun.sendReturn_moved hreturn)
    rintro rfl
    exact hs.handler.sendReturn hr hreturn
  | work j side =>
    obtain ⟨h', hwork, rfl⟩ := Option.map_eq_some_iff.mp h
    refine hs.own hr ?_ fun hlocked => ?_
    · rintro rfl
      exact hs.handler.work hr hwork
    · have hmoved := HandlerRun.work_moved hwork
      rw [hlocked] at hmoved
      exact hmoved.stored_eq
  | deliver j side =>
    simp only [Process.step] at h
    split_ifs at h with hrun
    obtain ⟨h', hdelivered, rfl⟩ := Option.map_eq_some_iff.mp h
    refine hs.moved hr ?_ (HandlerRun.delivered_moved hdelivered)
    rintro rfl
    exact hs.handler.delivered hr hdelivered

/-- Every session of a standalone server, in every run, is in a state that `closeSystem` reaches with the same
handler, the same loops and the same `Hub.Run`. -/
theorem session_refines (h : (processSystem cfg).Reachable s) (i : ι) :
    ∃ t, (closeSystem cfg.enableClientMsg).Reachable t ∧ Shown i (s.handlers i) s.hub t := by
  refine h.invariant (I := fun s => ∃ t, (closeSystem cfg.enableClientMsg).Reachable t ∧
    Shown i (s.handlers i) s.hub t) ?_ ?_
  · rintro _ rfl
    refine ⟨.start, .init rfl, ⟨⟨rfl, rfl, rfl, List.forall_mem_nil _⟩, rfl, fun side => ?_, fun side => ?_⟩, rfl,
      by simp [Session.start, HubPhase.past, Process.start], trivial, fun rest hrest => by cases hrest⟩
    · cases side <;> exact .absent
    · cases side <;> exact List.forall_mem_nil _
  · rintro s l s' ⟨t, hr, hs⟩ hstep
    exact hs.step hr hstep

end Server
end Process
end MiniPush.Ws
