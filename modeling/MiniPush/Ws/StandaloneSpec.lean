import MiniPush.Ws.StandaloneRun

/-! What one step of a standalone server does, statement by statement. Every invariant of its runs
is derived from these relations. -/
namespace MiniPush.Ws
open Foundation Cluster

/-- A statement of the deferred function that never blocks. -/
def StopOp.plain : StopOp → Bool
  | .recvStorageStop | .recvHubStop | .finished => false
  | _ => true

namespace Process
variable {ι : Type} [DecidableEq ι] [Fintype ι]

/-- The statements of `Hub.Run` on a message and in `HandlerStore.close`. -/
inductive HubMove (cfg : StandaloneConfig ι) (s : Process ι) (slice : List ι) : Process ι → Prop
  | back : s.hub = .handle none [] → HubMove cfg s slice { s with hub := .select }
  | found {i : ι} {todo : List (HubOp ι)} : s.hub = .handle none (.get i :: todo) →
      (s.handlers i).stored = true →
      HubMove cfg s slice { s with hub := .handle none (.append i .kickoff :: .remove i :: todo) }
  | missed {i : ι} {todo : List (HubOp ι)} : s.hub = .handle none (.get i :: todo) →
      HubMove cfg s slice { s with hub := .handle none todo }
  | appended {i : ι} {data : SessionData} {todo : List (HubOp ι)} {h : HandlerRun} :
      s.hub = .handle none (.append i data :: todo) → (s.handlers i).locked = false →
      (s.handlers i).offer data = some h →
      HubMove cfg s slice { s.setHandler i h with hub := .handle none todo }
  | blocked {i : ι} {data : SessionData} {todo : List (HubOp ι)} :
      s.hub = .handle none (.append i data :: todo) → (s.handlers i).locked = false →
      (s.handlers i).offer data = none →
      HubMove cfg s slice { s with hub := .handle (some (i, data)) todo }
  | resumed {i : ι} {data : SessionData} {todo : List (HubOp ι)} {h : HandlerRun} :
      s.hub = .handle (some (i, data)) todo → (s.handlers i).offer data = some h →
      HubMove cfg s slice { s.setHandler i h with hub := .handle none todo }
  | removed {i : ι} {todo : List (HubOp ι)} : s.hub = .handle none (.remove i :: todo) →
      HubMove cfg s slice
        { s.setHandler i { s.handlers i with stored := false } with hub := .handle none todo }
  | listed {uid : ℤ} {todo : List (HubOp ι)} : s.hub = .handle none (.getByUid uid :: todo) →
      s.IsSlice cfg uid slice →
      HubMove cfg s slice
        { s with hub := .handle none (slice.map (fun i => .append i .msg) ++ todo) }
  | closed {i : ι} {rest : List ι} : s.hub = .closing (i :: rest) →
      HubMove cfg s slice
        { s.setHandler i { s.handlers i with closing := true } with hub := .closing rest }
  | closedAll : s.hub = .closing [] → HubMove cfg s slice { s with hub := .notifying }

variable {cfg : StandaloneConfig ι} {s t : Process ι}

theorem hubWork_spec {slice : List ι} (hw : s.hubWork cfg slice = some t) :
    HubMove cfg s slice t := by
  unfold hubWork at hw
  split at hw
  next hub =>
    obtain rfl := Option.some.inj hw
    exact .back hub
  next i todo hub =>
    split_ifs at hw with hstored
    · obtain rfl := Option.some.inj hw
      exact .found hub hstored
    · obtain rfl := Option.some.inj hw
      exact .missed hub
  next i data todo hub =>
    split_ifs at hw with hlocked
    have hfree : (s.handlers i).locked = false := by simpa using hlocked
    split at hw
    next h ho =>
      obtain rfl := Option.some.inj hw
      exact .appended hub hfree ho
    next ho =>
      obtain rfl := Option.some.inj hw
      exact .blocked hub hfree ho
  next i data todo hub =>
    obtain ⟨h, ho, rfl⟩ := Option.map_eq_some_iff.mp hw
    exact .resumed hub ho
  next i todo hub =>
    obtain rfl := Option.some.inj hw
    exact .removed hub
  next uid todo hub =>
    split_ifs at hw with hslice
    obtain rfl := Option.some.inj hw
    exact .listed hub hslice
  next i rest hub =>
    split_ifs at hw
    obtain rfl := Option.some.inj hw
    exact .closed hub
  next hub =>
    obtain rfl := Option.some.inj hw
    exact .closedAll hub
  all_goals exact absurd hw (by simp)

inductive Step (cfg : StandaloneConfig ι) (s : Process ι) : ProcessLabel ι → Process ι → Prop
  | cancel : Step cfg s .cancel { s with cancelled := true }
  | goOnline : s.run = .starting → Step cfg s .goOnline { s with run := .copying, online := true }
  | sync {i : ι} : s.run = .copying → (s.handlers i).stored = true →
      Step cfg s .copySessions { s with run := .syncing }
  | noSession : s.run = .copying → Step cfg s .copySessions { s with run := .loop }
  | tick {kick : List ι} : s.run = .loop → Step cfg s (.tick kick) { s with run := .kicking kick }
  | runCtxDone : s.run = .loop →
      Step cfg s .runCtxDone { s with run := .deferred .stopTicker, online := false }
  | recvStorageStop {u : StorageRun} : s.run = .deferred .recvStorageStop →
      s.storage.notified = some u →
      Step cfg s .deferred { s with storage := u, run := .deferred StopOp.recvStorageStop.next }
  | recvHubStop : s.run = .deferred .recvHubStop → s.hub = .notifying →
      Step cfg s .deferred { s with hub := .stopped, run := .deferred StopOp.recvHubStop.next }
  | deferred {op : StopOp} : s.run = .deferred op → op.plain = true →
      Step cfg s .deferred { s with run := .deferred op.next }
  | storage {l : StorageStep} {u : StorageRun} : s.storage.step s.cancelled l = some u →
      Step cfg s (.storage l) { s with storage := u }
  | hubStart : s.hub = .starting → Step cfg s .hubStart { s with hub := .select }
  | hubCtxDone {order : List ι} : s.hub = .select → s.IsOrder order →
      Step cfg s (.hubCtxDone order) { s with hub := .closing order }
  | hubRecvHeadSeq {uids : List ℤ} {u : StorageRun} : s.hub = .select → s.storage.sent = some u →
      Step cfg s (.hubRecvHeadSeq uids)
        { s with storage := u, hub := .handle none (uids.map .getByUid) }
  | hubRecvKickoff {sids : List ι} : s.run = .kicking sids → s.hub = .select →
      Step cfg s .hubRecvKickoff { s with run := .loop, hub := .handle none (sids.map .get) }
  | hubRecvClosed : s.hub = .select → s.run.sendMsgClosed = true →
      Step cfg s .hubRecvClosed { s with hub := .stopped }
  | hubWork {slice : List ι} {t : Process ι} : HubMove cfg s slice t →
      Step cfg s (.hubWork slice) t
  | serveCheck {i : ι} : (s.handlers i).serve = .idle →
      Step cfg s (.serveCheck i) (s.setHandler i { s.handlers i with serve := .upgrading })
  | serveAdd {i : ι} : (s.handlers i).serve = .upgrading →
      Step cfg s (.serveAdd i)
        (s.setHandler i { s.handlers i with serve := .added, stored := true })
  | park {i : ι} : (s.handlers i).serve = .added → s.hub = .starting →
      Step cfg s (.serveSend i) (s.setHandler i { s.handlers i with serve := .parked })
  | serveSend {i : ι} : (s.handlers i).serve = .added → s.hub ≠ .starting →
      Step cfg s (.serveSend i) (s.setHandler i { s.handlers i with serve := .sending })
  | serveSent {i : ι} {kick : List ι} : s.run = .loop →
      Step cfg s (.serveSent i kick)
        { s.setHandler i { s.handlers i with
            serve := .returned, loop := fun _ => .running none [] } with run := kickoff kick }
  | read {i : ι} {result : ReadResult} {h : HandlerRun} :
      (s.handlers i).read cfg.enableClientMsg result = some h →
      Step cfg s (.read i result) (s.setHandler i h)
  | recvReturn {i : ι} {h : HandlerRun} : (s.handlers i).recvReturn = some h →
      Step cfg s (.recvReturn i) (s.setHandler i h)
  | take {i : ι} {written : Bool} {h : HandlerRun} : (s.handlers i).take written = some h →
      Step cfg s (.take i written) (s.setHandler i h)
  | ping {i : ι} {written : Bool} {h : HandlerRun} : (s.handlers i).ping written = some h →
      Step cfg s (.ping i written) (s.setHandler i h)
  | sendReturn {i : ι} {h : HandlerRun} : (s.handlers i).sendReturn = some h →
      Step cfg s (.sendReturn i) (s.setHandler i h)
  | work {i : ι} {side : Side} {h : HandlerRun} :
      (s.handlers i).work s.hub.storeLocked (s.hub.holds i) side = some h →
      Step cfg s (.work i side) (s.setHandler i h)
  | deliver {i : ι} {side : Side} {h : HandlerRun} : s.run = .loop →
      (s.handlers i).delivered side = some h → Step cfg s (.deliver i side) (s.setHandler i h)

private theorem deferred_spec (ht : s.step cfg .deferred = some t) : Step cfg s .deferred t := by
  simp only [step] at ht
  split at ht
  next op hrun =>
    obtain ⟨u, hu, rfl⟩ := Option.map_eq_some_iff.mp ht
    cases op with
    | recvStorageStop =>
      obtain ⟨v, hv, rfl⟩ := Option.map_eq_some_iff.mp hu
      exact .recvStorageStop hrun hv
    | recvHubStop =>
      simp only [perform] at hu
      split_ifs at hu with hnotify
      obtain rfl := Option.some.inj hu
      exact .recvHubStop hrun hnotify
    | finished => exact absurd hu (by simp [perform])
    | stopTicker | shutdownHttp | closeStorageStop | closeHubStop | closeSendMsgChan
    | closeRecvMsgChan | notifyStop =>
      obtain rfl := Option.some.inj hu
      exact .deferred hrun rfl
  next => exact absurd ht (by simp)

/-- Each step of a run is one of the steps above. -/
theorem step_spec {l : ProcessLabel ι} (ht : s.step cfg l = some t) : Step cfg s l t := by
  cases l with
  | deferred => exact deferred_spec ht
  | hubWork slice => exact .hubWork (hubWork_spec ht)
  | copySessions =>
    simp only [step] at ht
    split_ifs at ht with hrun hstored
    · obtain rfl := Option.some.inj ht
      obtain ⟨i, hi⟩ := hstored
      exact .sync hrun hi
    · obtain rfl := Option.some.inj ht
      exact .noSession hrun
  | hubRecvKickoff =>
    simp only [step] at ht
    split at ht
    next sids hrun =>
      split_ifs at ht with hhub
      obtain rfl := Option.some.inj ht
      exact .hubRecvKickoff hrun hhub
    next => exact absurd ht (by simp)
  | serveSend i =>
    simp only [step] at ht
    split_ifs at ht with hserve hstart
    · obtain rfl := Option.some.inj ht
      exact .park hserve hstart
    · obtain rfl := Option.some.inj ht
      exact .serveSend hserve hstart
  | hubRecvHeadSeq uids =>
    simp only [step] at ht
    split_ifs at ht with hhub
    obtain ⟨u, hu, rfl⟩ := Option.map_eq_some_iff.mp ht
    exact .hubRecvHeadSeq hhub hu
  | deliver i side =>
    simp only [step] at ht
    split_ifs at ht with hrun
    obtain ⟨h, hd, rfl⟩ := Option.map_eq_some_iff.mp ht
    exact .deliver hrun hd
  | storage l =>
    obtain ⟨u, hu, rfl⟩ := Option.map_eq_some_iff.mp ht
    exact .storage hu
  | read i result =>
    obtain ⟨h, hr, rfl⟩ := Option.map_eq_some_iff.mp ht
    exact .read hr
  | recvReturn i =>
    obtain ⟨h, hr, rfl⟩ := Option.map_eq_some_iff.mp ht
    exact .recvReturn hr
  | take i written =>
    obtain ⟨h, hr, rfl⟩ := Option.map_eq_some_iff.mp ht
    exact .take hr
  | ping i written =>
    obtain ⟨h, hr, rfl⟩ := Option.map_eq_some_iff.mp ht
    exact .ping hr
  | sendReturn i =>
    obtain ⟨h, hr, rfl⟩ := Option.map_eq_some_iff.mp ht
    exact .sendReturn hr
  | work i side =>
    obtain ⟨h, hr, rfl⟩ := Option.map_eq_some_iff.mp ht
    exact .work hr
  | cancel =>
    simp only [step] at ht
    split_ifs at ht
    obtain rfl := Option.some.inj ht
    exact .cancel
  | goOnline =>
    simp only [step] at ht
    split_ifs at ht with hrun
    obtain rfl := Option.some.inj ht
    exact .goOnline hrun
  | tick kick =>
    simp only [step] at ht
    split_ifs at ht with hp
    obtain rfl := Option.some.inj ht
    exact .tick hp.1
  | runCtxDone =>
    simp only [step] at ht
    split_ifs at ht with hp
    obtain rfl := Option.some.inj ht
    exact .runCtxDone hp.2
  | hubStart =>
    simp only [step] at ht
    split_ifs at ht with hhub
    obtain rfl := Option.some.inj ht
    exact .hubStart hhub
  | hubCtxDone order =>
    simp only [step] at ht
    split_ifs at ht with hp
    obtain rfl := Option.some.inj ht
    exact .hubCtxDone hp.2.1 hp.2.2
  | hubRecvClosed =>
    simp only [step] at ht
    split_ifs at ht with hp
    obtain rfl := Option.some.inj ht
    exact .hubRecvClosed hp.1 hp.2
  | serveCheck i =>
    simp only [step] at ht
    split_ifs at ht with hp
    obtain rfl := Option.some.inj ht
    exact .serveCheck hp.1
  | serveAdd i =>
    simp only [step] at ht
    split_ifs at ht with hp
    obtain rfl := Option.some.inj ht
    exact .serveAdd hp.1
  | serveSent i kick =>
    simp only [step] at ht
    split_ifs at ht with hp
    obtain rfl := Option.some.inj ht
    exact .serveSent hp.2

end Process

end MiniPush.Ws
