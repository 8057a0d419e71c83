import MiniPush.Ws.HandlerLocks
import MiniPush.Ws.StandaloneSpec

/-! Shutdown of a standalone server: the order of steps under which its goroutines never all
wait for each other. -/
namespace MiniPush.Ws
open Foundation Cluster

namespace RunPhase
variable {ι : Type}

def kicks : RunPhase ι → Bool
  | .kicking _ => true
  | _ => false

/-- `Standalone.Run` does not come back to receive from `recvMsgChan` on its own. -/
def away : RunPhase ι → Bool
  | .kicking _ | .deferred _ => true
  | _ => false

end RunPhase

def HubOp.appends {ι : Type} [DecidableEq ι] : HubOp ι → ι → Bool
  | .append sid _, i => sid = i
  | _, _ => false

namespace HubPhase
variable {ι : Type} [DecidableEq ι]

/-- `Hub.Run` still has to append to the handler's `dataChan` for this message. -/
def needs : HubPhase ι → ι → Bool
  | .handle _ todo, i => todo.any (·.appends i)
  | _, _ => false

def closes : HubPhase ι → ι → Bool
  | .closing rest, i => i ∈ rest
  | _, _ => false

end HubPhase

namespace Process
variable {ι : Type} [DecidableEq ι]

/-- `Hub.Run` works on a message for the handler while `Standalone.Run` does not receive. -/
def needed (s : Process ι) (i : ι) : Bool := s.run.away && s.hub.needs i

/-- No handler that `Hub.Run` still has to append to waits, under its mutex, for
`Standalone.Run` to receive. -/
def NobodyWaits (s : Process ι) : Prop :=
  ∀ i side, s.hub.needs i = true → ((s.handlers i).loop side).held ≠ some .offline

/-- `Hub.Run`, if it is about to append, does not block or is drained by `sendLoop`. -/
def hubDrains (s : Process ι) : Bool :=
  match s.hub with
  | .handle none (.append i data :: _) => (s.handlers i).drains data
  | _ => true

/-- Steps of an orderly run. `Hub.Online` finds no session. `Standalone.Run` turns to a kickoff
while `Hub.Run` can still take it, and stops receiving while no handler that `Hub.Run` waits for
needs it. `sendLoop` of the storage starts a send only before `Hub.Run` has seen the cancelled
context, and `Hub.Run` sees it only with no sender and no closing handler in its way. A full
`dataChan` is appended to only while its `sendLoop` receives. -/
def InOrder (s : Process ι) : ProcessLabel ι → Prop
  | .copySessions => ∀ i, (s.handlers i).stored = false
  | .tick _ => s.hub.leaving = false ∧ s.NobodyWaits
  | .serveSent _ kick => kick ≠ [] → s.hub.leaving = false ∧ s.NobodyWaits
  | .runCtxDone => s.NobodyWaits
  | .storage .check => s.hub.leaving = false
  | .hubCtxDone _ => s.storage.sending = false ∧ s.run.kicks = false ∧
      ∀ i side, (s.handlers i).stored = true → ((s.handlers i).loop side).held ≠ some .del
  | .hubWork _ => s.hubDrains = true
  | .work i side => (s.handlers i).mayWork (s.hub.closes i) (s.needed i) side = true
  | .ping i written => written = true ∨ (s.handlers i).pushing (s.hub.holds i) = false
  | _ => True

instance [Fintype ι] {s : Process ι} : Decidable s.NobodyWaits :=
  inferInstanceAs (Decidable (∀ _ _, _))

instance [Fintype ι] {s : Process ι} : (l : ProcessLabel ι) → Decidable (s.InOrder l)
  | .copySessions => inferInstanceAs (Decidable (∀ _, _))
  | .tick _ => inferInstanceAs (Decidable (_ ∧ _))
  | .serveSent _ _ => inferInstanceAs (Decidable (_ → _))
  | .runCtxDone => inferInstanceAs (Decidable s.NobodyWaits)
  | .storage .check => inferInstanceAs (Decidable (_ = _))
  | .hubCtxDone _ => inferInstanceAs (Decidable (_ ∧ _ ∧ ∀ _ _, _))
  | .hubWork _ => inferInstanceAs (Decidable (_ = _))
  | .work _ _ => inferInstanceAs (Decidable (_ = _))
  | .ping _ _ => inferInstanceAs (Decidable (_ ∨ _))
  | .storage (.add _) | .storage (.exit _) | .storage .ctxDone | .storage .close
  | .storage .wait | .cancel | .goOnline | .deferred | .hubStart | .hubRecvHeadSeq _
  | .hubRecvKickoff | .hubRecvClosed | .serveCheck _ | .serveAdd _ | .serveSend _ | .read _ _
  | .recvReturn _ | .take _ _ | .sendReturn _ | .deliver _ _ => isTrue trivial

/-- What holds of the positions of `Standalone.Run`, `storage.run` and `Hub.Run`. -/
structure Phased (s : Process ι) : Prop where
  syncing : s.run ≠ .syncing
  kicking : s.run.kicks = true → s.hub.leaving = false
  sending : s.storage.sending = true → s.hub.leaving = false
  storage : s.storage.phase = .stopped → s.run.storageReceived = true
  hub : s.hub = .stopped ↔ s.run.hubReceived = true

def Sound (s : Process ι) : Prop :=
  ∀ i, (s.handlers i).Sound (s.hub.holds i) (s.hub.closes i) (s.needed i)

variable {cfg : StandaloneConfig ι} {s t : Process ι} {i : ι} {h : HandlerRun}

private theorem storeLocked_of_closes {p : HubPhase ι} (hc : p.closes i = true) :
    p.storeLocked = true := by
  cases p with
  | closing rest => rfl
  | starting | select | handle _ _ | notifying | stopped => exact absurd hc (by simp [HubPhase.closes])

theorem Sound.of_handlers_eq (hs : s.Sound) (hh : t.handlers = s.handlers)
    (hholds : ∀ i, t.hub.holds i = true → s.hub.holds i = true)
    (hcloses : ∀ i, t.hub.closes i = true → s.hub.closes i = true)
    (hneeded : ∀ i, t.needed i = true → s.needed i = true) : t.Sound := by
  intro i
  rw [hh]
  exact (hs i).mono (hholds i) (hcloses i) (hneeded i)

theorem Sound.of_setHandler (hs : s.Sound) (hh : t.handlers = (s.setHandler i h).handlers)
    (hnew : h.Sound (t.hub.holds i) (t.hub.closes i) (t.needed i))
    (hholds : ∀ j, t.hub.holds j = true → s.hub.holds j = true)
    (hcloses : ∀ j, t.hub.closes j = true → s.hub.closes j = true)
    (hneeded : ∀ j, t.needed j = true → s.needed j = true) : t.Sound := by
  intro j
  rw [hh]
  by_cases hj : j = i
  · subst hj
    rw [setHandler_handlers_self]
    exact hnew
  · rw [setHandler_handlers_of_ne s h hj]
    exact (hs j).mono (hholds j) (hcloses j) (hneeded j)

theorem Sound.setHandler (hs : s.Sound)
    (hnew : h.Sound (s.hub.holds i) (s.hub.closes i) (s.needed i)) : (s.setHandler i h).Sound :=
  hs.of_setHandler rfl hnew (fun _ => id) (fun _ => id) fun _ => id

theorem Sound.goAway (hs : s.Sound) (hw : s.NobodyWaits) (run : RunPhase ι) (online : Bool) :
    Sound { s with run := run, online := online } := by
  intro i
  refine { hs i with receives := ?_ }
  intro hn side
  simp only [needed, Bool.and_eq_true] at hn
  exact hw i side hn.2

theorem Sound.setHub (hs : s.Sound) (hub : HubPhase ι)
    (hholds : ∀ i, hub.holds i = true → s.hub.holds i = true)
    (hcloses : ∀ i, hub.closes i = true → s.hub.closes i = true)
    (hneeds : ∀ i, hub.needs i = true → s.hub.needs i = true) : Sound { s with hub := hub } := by
  apply hs.of_handlers_eq
  · rfl
  · exact hholds
  · exact hcloses
  · intro i hn
    simp only [needed, Bool.and_eq_true] at hn ⊢
    exact ⟨hn.1, hneeds i hn.2⟩

private theorem needs_tail {held held' : Option (ι × SessionData)} {op : HubOp ι}
    {todo : List (HubOp ι)} (hn : (HubPhase.handle held todo).needs i = true) :
    (HubPhase.handle held' (op :: todo)).needs i = true := by
  simp only [HubPhase.needs, List.any_cons, Bool.or_eq_true] at hn ⊢
  exact .inr hn

private theorem sound_hubMove {slice : List ι} (hs : s.Sound) (hok : s.hubDrains = true)
    (hm : HubMove cfg s slice t) : t.Sound := by
  have htail : ∀ {op todo}, s.hub = .handle none (op :: todo) →
      ∀ j, (HubPhase.handle none todo).needs j = true → s.hub.needs j = true := by
    intro op todo hub j hn
    rw [hub]
    exact needs_tail hn
  cases hm with
  | back hub => apply hs.setHub <;> simp [HubPhase.holds, HubPhase.closes, HubPhase.needs]
  | closedAll hub => apply hs.setHub <;> simp [HubPhase.holds, HubPhase.closes, HubPhase.needs]
  | found hub hstored =>
    intro j
    refine ((hs j).need ?_).mono (by simp [HubPhase.holds]) (by simp [HubPhase.closes]) id
    simp only [needed, HubPhase.needs, hub, List.any_cons, HubOp.appends, Bool.and_eq_true,
      Bool.or_eq_true, decide_eq_true_eq, Bool.false_or]
    rintro ⟨haway, rfl | hneeds⟩
    · exact .inr hstored
    · exact .inl ⟨haway, hneeds⟩
  | missed hub =>
    exact hs.setHub _ (by simp [HubPhase.holds]) (by simp [HubPhase.closes]) (htail hub)
  | @appended i data todo h hub hfree ho =>
    have hnew := (hs i).offer (HandlerRun.locked_eq_false_iff.mp hfree) ho
    have hset : (s.setHandler i h).Sound :=
      hs.setHandler (hnew.mono (by simp [HubPhase.holds, hub]) id id)
    exact hset.setHub _ (by simp [HubPhase.holds]) (by simp [HubPhase.closes]) (htail hub)
  | @blocked i data todo hub hfree ho =>
    have hdrains : (s.handlers i).drains data = true := by simpa [hubDrains, hub] using hok
    have hblock := (hs i).block hfree hdrains ho
    have hneeded : ∀ j, (s.run.away && (HubPhase.handle (some (i, data)) todo).needs j) = true →
        s.needed j = true := by
      intro j hn
      simp only [needed, Bool.and_eq_true, hub] at hn ⊢
      exact ⟨hn.1, needs_tail hn.2⟩
    intro j
    by_cases hj : j = i
    · subst hj
      exact hblock.mono (fun _ => rfl) (by simp [HubPhase.closes]) (hneeded j)
    · refine (hs j).mono ?_ (by simp [HubPhase.closes]) (hneeded j)
      intro hh
      simp only [HubPhase.holds, decide_eq_true_eq] at hh
      exact absurd hh.symm hj
  | @resumed i data todo h hub ho =>
    have hfree : ∀ side, ((s.handlers i).loop side).held = none := by
      intro side
      by_contra hheld
      have hholds := (hs i).hubFree side hheld
      simp [HubPhase.holds, hub] at hholds
    have hneeded : ∀ j, (s.run.away && (HubPhase.handle none todo).needs j) = true →
        s.needed j = true := by
      intro j hn
      rw [needed, hub]
      exact hn
    apply hs.of_setHandler (h := h)
    · rfl
    · exact ((hs i).offer hfree ho).mono (by simp [HubPhase.holds]) (by simp [HubPhase.closes])
        (hneeded i)
    · simp [HubPhase.holds]
    · simp [HubPhase.closes]
    · exact hneeded
  | @removed i todo hub =>
    have hset : (s.setHandler i { s.handlers i with stored := false }).Sound := by
      apply hs.setHandler
      have hcloses : s.hub.closes i = false := by simp [HubPhase.closes, hub]
      have hold := hs i
      rw [hcloses] at hold ⊢
      exact hold.remove
    exact hset.setHub _ (by simp [HubPhase.holds]) (by simp [HubPhase.closes]) (htail hub)
  | listed hub hslice =>
    intro j
    refine ((hs j).need ?_).mono (by simp [HubPhase.holds]) (by simp [HubPhase.closes]) id
    simp only [needed, HubPhase.needs, hub, List.any_append, List.any_cons, List.any_map,
      HubOp.appends, Bool.and_eq_true, Bool.or_eq_true, Bool.false_or, List.any_eq_true,
      Function.comp_apply, decide_eq_true_eq]
    rintro ⟨haway, ⟨k, hk, rfl⟩ | hneeds⟩
    · exact .inr ((hslice.2 k).mp hk).1
    · exact .inl ⟨haway, hneeds⟩
  | @closed i rest hub =>
    have hset : (s.setHandler i { s.handlers i with closing := true }).Sound :=
      hs.setHandler (hs i).close
    apply hset.setHub
    · simp [HubPhase.holds]
    · intro j hc
      show s.hub.closes j = true
      rw [hub]
      simp only [HubPhase.closes, decide_eq_true_eq] at hc ⊢
      exact List.mem_cons_of_mem i hc
    · simp [HubPhase.needs]

/-- `Hub.Run` keeps its part as long as it neither starts to leave nor reports its stop. -/
private theorem phased_hubMove {slice : List ι} (hs : s.Phased) (hm : HubMove cfg s slice t) :
    t.Phased := by
  have hkeep : ∀ hub : HubPhase ι, ∀ handlers : ι → HandlerRun, s.hub ≠ .stopped →
      hub ≠ .stopped → (s.hub.leaving = false → hub.leaving = false) →
      Phased { s with hub := hub, handlers := handlers } := by
    intro hub handlers hold hnew hleaving
    refine ⟨hs.syncing, fun hk => hleaving (hs.kicking hk), fun hk => hleaving (hs.sending hk),
      hs.storage, ?_⟩
    exact iff_of_false hnew fun hr => hold (hs.hub.mpr hr)
  cases hm with
  | back hub | found hub _ | missed hub | appended hub _ _ | blocked hub _ _ | resumed hub _
  | removed hub | listed hub _ => exact hkeep _ _ (by simp [hub]) (by simp) fun _ => rfl
  | closed hub | closedAll hub =>
    exact hkeep _ _ (by simp [hub]) (by simp) (by simp [hub, HubPhase.leaving])

omit [DecidableEq ι] in
private theorem phased_deferred {op : StopOp} (hs : s.Phased) (hrun : s.run = .deferred op)
    (hplain : op.plain = true) : Phased { s with run := .deferred op.next } := by
  obtain ⟨-, -, hsending, hstorage, hhub⟩ := hs
  simp only [hrun, RunPhase.storageReceived, RunPhase.hubReceived] at hstorage hhub
  cases op with
  | recvStorageStop | recvHubStop | finished => exact absurd hplain (by decide)
  | stopTicker | shutdownHttp | closeStorageStop | closeHubStop | closeSendMsgChan
  | closeRecvMsgChan | notifyStop =>
    exact ⟨by simp, by simp [RunPhase.kicks], hsending, hstorage, hhub⟩

omit [DecidableEq ι] in
private theorem Phased.setRun (hs : s.Phased) {run : RunPhase ι} (hsync : run ≠ .syncing)
    (hkicks : run.kicks = true → s.hub.leaving = false)
    (hstorage : run.storageReceived = s.run.storageReceived)
    (hhub : run.hubReceived = s.run.hubReceived) (online : Bool) (handlers : ι → HandlerRun) :
    Phased { s with run := run, online := online, handlers := handlers } := by
  refine ⟨hsync, hkicks, hs.sending, ?_, ?_⟩
  · intro hstopped
    show run.storageReceived = true
    rw [hstorage]
    exact hs.storage hstopped
  · show _ ↔ run.hubReceived = true
    rw [hhub]
    exact hs.hub

omit [DecidableEq ι] in
private theorem hubReceived_of_sendMsgClosed {run : RunPhase ι} (h : run.sendMsgClosed = true) :
    run.hubReceived = true := by
  cases run with
  | deferred op =>
    cases op with
    | closeRecvMsgChan | notifyStop | finished => rfl
    | _ => exact absurd h (by simp [RunPhase.sendMsgClosed])
  | _ => exact absurd h (by simp [RunPhase.sendMsgClosed])

variable [Fintype ι]

theorem sound_step {l : ProcessLabel ι} (hs : s.Sound) (hok : s.InOrder l)
    (ht : s.step cfg l = some t) : t.Sound := by
  have hstore : ∀ i, s.hub.closes i = true → s.hub.storeLocked = true :=
    fun i hc => storeLocked_of_closes hc
  have hdeferred : ∀ {op}, s.run = .deferred op → ∀ (run : RunPhase ι) i,
      (run.away && s.hub.needs i) = true → s.needed i = true := by
    intro op hrun run i hn
    rw [needed, hrun]
    simp only [Bool.and_eq_true] at hn ⊢
    exact ⟨rfl, hn.2⟩
  cases step_spec ht with
  | deferred hrun _ =>
    exact hs.of_handlers_eq rfl (fun _ => id) (fun _ => id) (hdeferred hrun _)
  | recvStorageStop hrun _ =>
    exact hs.of_handlers_eq rfl (fun _ => id) (fun _ => id) (hdeferred hrun _)
  | recvHubStop hrun _ =>
    apply hs.of_handlers_eq <;> simp [HubPhase.holds, HubPhase.closes, needed, HubPhase.needs]
  | hubWork hm => exact sound_hubMove hs hok hm
  | cancel | storage _ => exact hs
  | goOnline _ | sync _ _ | noSession _ =>
    apply hs.of_handlers_eq <;> simp [needed, RunPhase.away]
  | tick _ => exact hs.goAway hok.2 _ _
  | runCtxDone _ => exact hs.goAway hok _ _
  | hubStart _ | hubRecvClosed _ _ =>
    apply hs.setHub <;> simp [HubPhase.holds, HubPhase.closes, HubPhase.needs]
  | hubCtxDone _ horder =>
    intro i
    refine { (hs i).mono (by simp [HubPhase.holds]) id (by simp [needed, HubPhase.needs]) with
      stays := ?_ }
    intro hc
    simp only [HubPhase.closes, decide_eq_true_eq] at hc
    have hstored := (horder.2 i).mp hc
    exact ⟨hstored, fun side => hok.2.2 i side hstored⟩
  | hubRecvHeadSeq _ _ | hubRecvKickoff _ _ =>
    apply hs.of_handlers_eq <;>
      simp [HubPhase.holds, HubPhase.closes, needed, HubPhase.needs, HubOp.appends]
  | @serveCheck i hserve =>
    exact hs.setHandler ((hs i).serve (by simp [hserve]) fun hc => ((hs i).stays hc).1)
  | @serveAdd i hserve => exact hs.setHandler ((hs i).serve (by simp [hserve]) fun _ => rfl)
  | @park i hserve _ =>
    exact hs.setHandler ((hs i).serve (by simp [hserve]) fun hc => ((hs i).stays hc).1)
  | @serveSend i hserve _ =>
    exact hs.setHandler ((hs i).serve (by simp [hserve]) fun hc => ((hs i).stays hc).1)
  | @serveSent i kick _ =>
    have hset : (s.setHandler i { s.handlers i with
        serve := .returned, loop := fun _ => .running none [] }).Sound :=
      hs.setHandler (hs i).start
    by_cases hkick : kick = []
    · subst hkick
      apply hset.of_handlers_eq <;> simp [needed, RunPhase.away, kickoff]
    · refine hset.goAway ?_ (kickoff kick) s.online
      intro j side hn
      by_cases hj : j = i
      · subst hj
        rw [setHandler_handlers_self]
        simp [LoopState.held]
      · rw [setHandler_handlers_of_ne s _ hj]
        exact (hok hkick).2 j side hn
  | @read i _ _ hr => exact hs.setHandler ((hs i).read (hstore i) hr)
  | @recvReturn i _ hr => exact hs.setHandler ((hs i).recvReturn (hstore i) hr)
  | @take i _ _ hr => exact hs.setHandler ((hs i).take (hstore i) hr)
  | @ping i _ _ hr => exact hs.setHandler ((hs i).ping (hstore i) hok hr)
  | @sendReturn i _ hr => exact hs.setHandler ((hs i).sendReturn (hstore i) hr)
  | @work i _ _ hw => exact hs.setHandler ((hs i).work (hstore i) hok hw)
  | @deliver i _ _ _ hd => exact hs.setHandler ((hs i).delivered (hstore i) hd)

theorem phased_step {l : ProcessLabel ι} (hs : s.Phased) (hok : s.InOrder l)
    (ht : s.step cfg l = some t) : t.Phased := by
  have hsame : ∀ cancelled online handlers,
      Phased { s with cancelled := cancelled, online := online, handlers := handlers } :=
    fun _ _ _ => ⟨hs.syncing, hs.kicking, hs.sending, hs.storage, hs.hub⟩
  cases step_spec ht with
  | deferred hrun hplain => exact phased_deferred hs hrun hplain
  | recvStorageStop hrun hv =>
    obtain ⟨-, -, hsending, hstorage, hhub⟩ := hs
    simp only [hrun, RunPhase.storageReceived, RunPhase.hubReceived] at hstorage hhub
    simp only [StorageRun.notified] at hv
    split_ifs at hv
    obtain rfl := Option.some.inj hv
    exact ⟨by simp, by simp [RunPhase.kicks], hsending, fun _ => rfl, hhub⟩
  | recvHubStop hrun hnotify =>
    obtain ⟨-, -, hsending, hstorage, -⟩ := hs
    simp only [hrun, RunPhase.storageReceived] at hstorage
    refine ⟨by simp, by simp [RunPhase.kicks], ?_, hstorage, iff_of_true rfl rfl⟩
    intro hsend
    have hleaving := hsending hsend
    simp [hnotify, HubPhase.leaving] at hleaving
  | hubWork hm => exact phased_hubMove hs hm
  | goOnline hrun =>
    exact hs.setRun (by simp) (by simp [RunPhase.kicks]) (by rw [hrun]; rfl) (by rw [hrun]; rfl) _ _
  | @sync i _ hi => exact absurd (hok i) (by simp [hi])
  | noSession hrun =>
    exact hs.setRun (by simp) (by simp [RunPhase.kicks]) (by rw [hrun]; rfl) (by rw [hrun]; rfl) _ _
  | tick hrun =>
    exact hs.setRun (by simp) (fun _ => hok.1) (by rw [hrun]; rfl) (by rw [hrun]; rfl) _ _
  | runCtxDone hrun =>
    exact hs.setRun (by simp) (by simp [RunPhase.kicks]) (by rw [hrun]; rfl) (by rw [hrun]; rfl) _ _
  | storage hu =>
    refine ⟨hs.syncing, hs.kicking, ?_, ?_, hs.hub⟩
    · intro hsend
      rcases StorageRun.sending_step hu hsend with hold | rfl
      · exact hs.sending hold
      · exact hok
    · intro hstopped
      apply hs.storage
      by_contra hold
      exact StorageRun.phase_step_ne_stopped hold hu hstopped
  | hubStart hhub =>
    refine ⟨hs.syncing, fun _ => rfl, fun _ => rfl, hs.storage, iff_of_false (by simp) ?_⟩
    intro hr
    exact absurd (hs.hub.mpr hr) (by simp [hhub])
  | hubCtxDone hhub _ =>
    refine ⟨hs.syncing, ?_, ?_, hs.storage, iff_of_false (by simp) ?_⟩
    · intro hk
      exact absurd hk (by simp [hok.2.1])
    · intro hsend
      exact absurd hsend (by simp [hok.1])
    · intro hr
      exact absurd (hs.hub.mpr hr) (by simp [hhub])
  | hubRecvHeadSeq hhub hu =>
    simp only [StorageRun.sent] at hu
    split_ifs at hu
    obtain rfl := Option.some.inj hu
    refine ⟨hs.syncing, fun _ => rfl, fun _ => rfl, hs.storage, iff_of_false (by simp) ?_⟩
    intro hr
    exact absurd (hs.hub.mpr hr) (by simp [hhub])
  | hubRecvKickoff hrun _ =>
    refine ⟨by simp, fun _ => rfl, fun _ => rfl, ?_, iff_of_false (by simp) (by
      simp [RunPhase.hubReceived])⟩
    intro hstopped
    have hr := hs.storage hstopped
    simp [hrun, RunPhase.storageReceived] at hr
  | hubRecvClosed hhub hclosed =>
    have hstopped := hs.hub.mpr (hubReceived_of_sendMsgClosed hclosed)
    simp [hhub] at hstopped
  | @serveSent i kick hrun =>
    unfold kickoff
    split_ifs with hkick
    · exact hs.setRun (by simp) (by simp [RunPhase.kicks]) (by rw [hrun]) (by rw [hrun]) _ _
    · exact hs.setRun (by simp) (fun _ => (hok hkick).1) (by rw [hrun]; rfl) (by rw [hrun]; rfl) _ _
  | cancel | serveCheck _ | serveAdd _ | park _ _ | serveSend _ _ | read _ | recvReturn _ | take _
  | ping _ | sendReturn _ | work _ | deliver _ _ => exact hsame _ _ _

end Process

end MiniPush.Ws
