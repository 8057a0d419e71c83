import MiniPush.Cluster.Push
import MiniPush.Ws.Traffic

/-! The way of a head seq in a `Standalone` process: from the cache of the storage over the channel to
`Hub.Run`, to the handlers of the user, and to the connection. One session of the user is followed; what the
others do takes no part but time. -/
namespace MiniPush.Ws.Pipeline
open Foundation Cluster CloseProtocol

variable {α : Type}

/-- The message that a step of the storage sends on `pushChan`. -/
def outgoing (c : Cache) : StorageLabel → Option (GoMap ℤ ℤ)
  | .check .send =>
    match c.pc with
    | .loop [] _ out => if out.entries = [] then none else some out
    | _ => none
  | _ => none

def crashes : StorageLabel → Bool
  | .crash => true
  | _ => false

/-- A message to `Hub.Run` that is not about head seqs, or the end of its loop. -/
def toHub : CloseProtocol.Label α → Bool
  | .kickoff none | .stop | .leaderClosed => true
  | _ => false

def looksUp : CloseProtocol.Label α → Bool
  | .headSeq _ => true
  | _ => false

theorem stored_of_executes {h h' : Handler α} {rest : List (Op α)} {op : Op α} {pos : LoopPos α}
    (hx : Executes h rest op h' pos) (hstored : h'.stored = true) : h.stored = true := by
  cases hx with
  | del _ => cases hstored
  | _ => exact hstored

/-- The session comes into the store once, with the first step of `ServeHTTP`. -/
theorem stored_of_steps {enableClientMsg : Bool} {s s' : CloseProtocol.Session α} {l : CloseProtocol.Label α}
    (h : Steps enableClientMsg s l s') :
    (s'.serve = .idle → s.serve = .idle) ∧
      (s'.handler.stored = true → s.serve = .idle ∨ s.handler.stored = true) := by
  cases h with
  | add hserve => exact ⟨fun _ => hserve, fun _ => .inl hserve⟩
  | online _ => exact ⟨(fun h => by cases h), .inr⟩
  | recvWork _ hx => exact ⟨id, fun h => .inr (stored_of_executes hx h)⟩
  | sendWork _ hx => exact ⟨id, fun h => .inr (stored_of_executes hx h)⟩
  | deliver i task hd =>
    refine ⟨id, fun h => .inr ?_⟩
    cases hd with
    | ignored _ => exact h
    | append msg _ => exact h
    | del => cases h
  | stop task hstored => exact ⟨id, fun _ => .inr hstored⟩
  | _ => exact ⟨id, .inr⟩

theorem note_looked {enableClientMsg : Bool} {s : CloseProtocol.Session α} {l : CloseProtocol.Label α}
    (hl : looksUp l = false) (r : Traffic α) : (r.note enableClientMsg s l).looked = r.looked := by
  cases l with
  | headSeq seq => cases hl
  | take ok => cases ok <;> rfl
  | _ => rfl

/-- `hand` are the entries of the message in the hands of `Hub.Run` that its loop has not reached. -/
structure State (α : Type) where
  storage : Storage
  hand : GoMap ℤ ℤ
  session : CloseProtocol.Session α × Traffic α

/-- Steps of the process. `entry` is the next pass of the loop over the message; the order is up to the
map. -/
inductive Label (α : Type)
  | storage (l : StorageLabel)
  | entry (uid : ℤ)
  | session (l : CloseProtocol.Label α)

variable (cfg : StorageConfig) (enableClientMsg : Bool) (uid : ℤ) [DecidableEq α]

def started (storage : Storage) : State α := ⟨storage, ∅, .start, ⟨[], [], []⟩⟩

/-- The channel has no buffer: a message is sent when `Hub.Run` is at its receive. -/
def next (s : State α) : Label α → Option (State α)
  | .storage l =>
    if crashes l then (s.storage.step cfg l).map started
    else
      match outgoing s.storage.cache l with
      | some out =>
        if s.hand.entries = [] ∧ s.session.1.task none = .idle then
          (s.storage.step cfg l).map fun storage => { s with storage, hand := out }
        else none
      | none => (s.storage.step cfg l).map fun storage => { s with storage }
  | .entry u =>
    match s.hand.lookup u with
    | some seq =>
      if s.session.1.task none = .idle then
        if u = uid ∧ s.session.1.handler.stored = true then
          ((trafficSystem enableClientMsg).step s.session (.headSeq seq)).map fun session =>
            { s with hand := s.hand.erase u, session }
        else some { s with hand := s.hand.erase u }
      else none
    | none => none
  | .session l =>
    if looksUp l ∨ toHub l ∧ s.hand.entries ≠ [] then none
    else ((trafficSystem enableClientMsg).step s.session l).map fun session => { s with session }

/-- The head seqs of the user for which `Hub.Run` did not find the session, since the last start. -/
def noteSkipped (s : State α) (l : Label α) (skipped : List ℤ) : List ℤ :=
  match l with
  | .storage l => if crashes l then [] else skipped
  | .entry u =>
    if u = uid ∧ s.session.1.handler.stored = false then skipped ++ (s.hand.lookup u).toList else skipped
  | _ => skipped

def start (now : ℤ) : State α := started (newStorage now)

/-- The process with one session of the user `uid`, from an empty database, with any crashes and restarts:
after each of them another session is followed. -/
def pipelineSystem : System (State α × List ℤ) (Label α) :=
  System.record ⟨fun s => ∃ now, s = start now, next cfg enableClientMsg uid⟩ [] (noteSkipped uid)

inductive Moves (s : State α) : Label α → State α → Prop
  | storage {l : StorageLabel} {storage : Storage} {hand : GoMap ℤ ℤ} : crashes l = false →
      s.storage.step cfg l = some storage →
      (outgoing s.storage.cache l = none ∧ hand = s.hand ∨
        outgoing s.storage.cache l = some hand ∧ s.hand.entries = []) →
      Moves s (.storage l) { s with storage, hand }
  | crash {storage : Storage} : s.storage.step cfg .crash = some storage →
      Moves s (.storage .crash) (started storage)
  | found {seq : ℤ} {session : CloseProtocol.Session α × Traffic α} : s.hand.lookup uid = some seq →
      s.session.1.handler.stored = true →
      (trafficSystem enableClientMsg).step s.session (.headSeq seq) = some session →
      Moves s (.entry uid) { s with hand := s.hand.erase uid, session }
  | passed {u seq : ℤ} : s.hand.lookup u = some seq → ¬(u = uid ∧ s.session.1.handler.stored = true) →
      Moves s (.entry u) { s with hand := s.hand.erase u }
  | session {l : CloseProtocol.Label α} {session : CloseProtocol.Session α × Traffic α} : looksUp l = false →
      (trafficSystem enableClientMsg).step s.session l = some session →
      Moves s (.session l) { s with session }

variable {cfg enableClientMsg uid} in
theorem moves_of_next {s s' : State α} {l : Label α} (h : next cfg enableClientMsg uid s l = some s') :
    Moves cfg enableClientMsg uid s l s' := by
  cases l with
  | storage l =>
    simp only [next] at h
    cases hl : crashes l with
    | true =>
      rw [if_pos hl] at h
      obtain rfl : l = .crash := by cases l <;> first | rfl | cases hl
      obtain ⟨storage, hstep, rfl⟩ := Option.map_eq_some_iff.mp h
      exact .crash hstep
    | false =>
      rw [hl, if_neg Bool.false_ne_true] at h
      cases hout : outgoing s.storage.cache l with
      | none =>
        rw [hout] at h
        obtain ⟨storage, hstep, rfl⟩ := Option.map_eq_some_iff.mp h
        exact .storage hl hstep (.inl ⟨hout, rfl⟩)
      | some out =>
        rw [hout] at h
        dsimp only at h
        split_ifs at h with hfree
        obtain ⟨storage, hstep, rfl⟩ := Option.map_eq_some_iff.mp h
        exact .storage hl hstep (.inr ⟨hout, hfree.1⟩)
  | entry u =>
    simp only [next] at h
    cases hseq : s.hand.lookup u with
    | none =>
      rw [hseq] at h
      cases h
    | some seq =>
      rw [hseq] at h
      dsimp only at h
      split_ifs at h with htask hfound
      · obtain ⟨session, hstep, rfl⟩ := Option.map_eq_some_iff.mp h
        obtain ⟨rfl, hstored⟩ := hfound
        exact .found hseq hstored hstep
      · cases h
        exact .passed hseq hfound
  | session l =>
    simp only [next] at h
    split_ifs at h with hl
    obtain ⟨session, hstep, rfl⟩ := Option.map_eq_some_iff.mp h
    rw [not_or] at hl
    exact .session (by simpa using hl.1) hstep

section Storage
variable {cfg} {s s' : Storage} {l : StorageLabel}

theorem put_sent (now : ℤ) (c : Cache) (data : GoMap ℤ ℤ) : (c.put now data).sent = c.sent := by
  refine Cache.putLoop_induction (I := fun c' => c'.sent = c.sent) ?_ (fun _ h => h) rfl data.entries
  intro c' u seq c'' hc he
  obtain ⟨v, -, -, rfl⟩ := Cache.putEntry_cases he
  exact hc

/-- What is sent for the user grows by what the message has for them. -/
theorem sentSeqs_step (h : Storage.Step cfg s l s') (hl : crashes l = false) (uid : ℤ) :
    s'.cache.sentSeqs uid =
      s.cache.sentSeqs uid ++ ((outgoing s.cache l).bind fun out => out.lookup uid).toList := by
  cases h with
  | crash => cases hl
  | @put i res _ =>
    simp only [Cache.sentSeqs, put_sent, outgoing]
    simp
  | check hc =>
    rcases Cache.checkStep_cases hc with ⟨rfl, -, rfl | rfl⟩ | ⟨u, todo, kept, out, v, rfl, -, -, rfl⟩ |
      ⟨u, todo, kept, out, rfl, -, rfl⟩ | ⟨u, todo, kept, out, rfl, -, rfl⟩ | ⟨kept, out, rfl, hpc, rfl⟩ |
      ⟨rfl, -, rfl⟩
    · simp [outgoing]
    · simp [Cache.sentSeqs, outgoing]
    · simp [Cache.sentSeqs, outgoing]
    · simp [Cache.sentSeqs, outgoing]
    · simp [Cache.sentSeqs, outgoing]
    · by_cases hempty : out.entries = []
      · simp [Cache.sentSeqs, outgoing, hpc, hempty]
      · cases hout : out.lookup uid with
        | none => simp [Cache.sentSeqs, outgoing, hpc, hempty, hout]
        | some seq => simp [Cache.sentSeqs, outgoing, hpc, hempty, hout]
    · simp [Cache.sentSeqs, outgoing]
  | _ => simp [outgoing]

end Storage

theorem stored_eq_false {s : CloseProtocol.Session α} (hi : s.Inv) (hserve : s.serve = .idle) :
    s.handler.stored = false := by
  have hledger := hi.ledger
  rw [Session.Ledger, hserve] at hledger
  exact hledger.1

/-- What the session has to do with the head seqs that were sent for its user: those for which it was
found, and those to come, are among them in their order; before it leaves the store none is missing but
the ones for which it was not there yet. -/
structure Fed (s : State α) (skipped : List ℤ) : Prop where
  storage : (storageSystem cfg).Reachable s.storage
  session : (trafficSystem enableClientMsg).Reachable s.session
  sub : (s.session.2.looked ++ (s.hand.lookup uid).toList).Sublist (s.storage.cache.sentSeqs uid)
  idle : s.session.1.serve = .idle → s.session.2.looked = []
  all : s.session.1.serve = .idle ∨ s.session.1.handler.stored = true →
    s.storage.cache.sentSeqs uid = skipped ++ (s.session.2.looked ++ (s.hand.lookup uid).toList)

variable {cfg enableClientMsg uid} {s : State α} {skipped : List ℤ}

theorem fed_started {storage : Storage} (h : (storageSystem cfg).Reachable storage)
    (hcache : storage.cache = newCache) : Fed cfg enableClientMsg uid (started storage : State α) [] where
  storage := h
  session := .init ⟨rfl, rfl⟩
  sub := List.nil_sublist _
  idle := fun _ => rfl
  all := fun _ => by
    dsimp only [started]
    rw [hcache]
    rfl

theorem Fed.storageStep (hi : Fed cfg enableClientMsg uid s skipped) {l : StorageLabel}
    (hl : crashes l = false) {storage : Storage} (hstep : s.storage.step cfg l = some storage) {hand : GoMap ℤ ℤ}
    (hhand : outgoing s.storage.cache l = none ∧ hand = s.hand ∨
      outgoing s.storage.cache l = some hand ∧ s.hand.entries = []) :
    Fed cfg enableClientMsg uid { s with storage, hand } skipped := by
  have hreach : (storageSystem cfg).Reachable storage := hi.storage.step hstep
  have hsent := sentSeqs_step (Storage.step_spec hstep) hl uid
  have hmore : (s.hand.lookup uid).toList ++
      ((outgoing s.storage.cache l).bind fun out => out.lookup uid).toList = (hand.lookup uid).toList := by
    rcases hhand with ⟨hout, rfl⟩ | ⟨hout, hempty⟩
    · simp [hout]
    · obtain hnil : s.hand = ∅ := AList.ext hempty
      simp [hout, hnil]
  refine ⟨hreach, hi.session, ?_, hi.idle, fun hstored => ?_⟩
  · dsimp only
    rw [hsent, ← hmore, ← List.append_assoc]
    exact hi.sub.append (List.Sublist.refl _)
  · dsimp only
    rw [hsent, hi.all hstored, ← hmore]
    simp only [List.append_assoc]

theorem Fed.inOrder (hi : Fed cfg enableClientMsg uid s skipped) : InOrder s.session.1 s.session.2 :=
  inOrder_of_reachable hi.session

/-- The loop over the message comes to a user whose session it finds. -/
theorem Fed.found (hi : Fed cfg enableClientMsg uid s skipped) {seq : ℤ} (hseq : s.hand.lookup uid = some seq)
    (hstored : s.session.1.handler.stored = true) {session : CloseProtocol.Session α × Traffic α}
    (hstep : (trafficSystem enableClientMsg).step s.session (.headSeq seq) = some session) :
    Fed cfg enableClientMsg uid { s with hand := s.hand.erase uid, session } skipped := by
  have hreach := hi.session.step hstep
  obtain ⟨hsession, hnote⟩ := System.record_step.mp hstep
  have hsteps := hi.inOrder.inv.sound.steps hsession
  have hsub := hi.sub
  have hall := hi.all (.inr hstored)
  rw [hseq] at hsub hall
  have hlooked : session.2.looked = s.session.2.looked ++ [seq] := by rw [hnote]; rfl
  refine ⟨hi.storage, hreach, ?_, fun hidle => ?_, fun _ => ?_⟩
  · simpa [hlooked] using hsub
  · have hgone := stored_eq_false hi.inOrder.inv ((stored_of_steps hsteps).1 hidle)
    rw [hstored] at hgone
    cases hgone
  · simpa [hlooked] using hall

/-- The loop comes to another user, or to the user whose session is not in the store. -/
theorem Fed.passed (hi : Fed cfg enableClientMsg uid s skipped) {u seq : ℤ} (hseq : s.hand.lookup u = some seq)
    (hmissed : ¬(u = uid ∧ s.session.1.handler.stored = true)) :
    Fed cfg enableClientMsg uid { s with hand := s.hand.erase u } (noteSkipped uid s (.entry u) skipped) := by
  by_cases hu : u = uid
  · subst hu
    have hgone : s.session.1.handler.stored = false := by simpa using hmissed
    have hnote : noteSkipped u s (.entry u) skipped = skipped ++ [seq] := by
      simp [noteSkipped, hgone, hseq]
    rw [hnote]
    refine ⟨hi.storage, hi.session, ?_, hi.idle, fun hin => ?_⟩
    · simpa using (List.sublist_append_left _ _).trans hi.sub
    · have hidle := hin.resolve_right (by simp [hgone])
      have hall := hi.all (.inl hidle)
      rw [hi.idle hidle, hseq] at hall
      simpa [hi.idle hidle] using hall
  · have hnote : noteSkipped uid s (.entry u) skipped = skipped := by simp [noteSkipped, hu]
    have hhand : (s.hand.erase u).lookup uid = s.hand.lookup uid := AList.lookup_erase_ne (Ne.symm hu)
    rw [hnote]
    refine ⟨hi.storage, hi.session, ?_, hi.idle, fun hin => ?_⟩
    · dsimp only
      rw [hhand]
      exact hi.sub
    · dsimp only
      rw [hhand]
      exact hi.all hin

theorem Fed.sessionStep (hi : Fed cfg enableClientMsg uid s skipped) {l : CloseProtocol.Label α}
    (hl : looksUp l = false) {session : CloseProtocol.Session α × Traffic α}
    (hstep : (trafficSystem enableClientMsg).step s.session l = some session) :
    Fed cfg enableClientMsg uid { s with session } skipped := by
  have hreach := hi.session.step hstep
  obtain ⟨hsession, hnote⟩ := System.record_step.mp hstep
  obtain ⟨hserve, hstored⟩ := stored_of_steps (hi.inOrder.inv.sound.steps hsession)
  have hlooked : session.2.looked = s.session.2.looked := by rw [hnote, note_looked hl]
  refine ⟨hi.storage, hreach, ?_, fun hidle => ?_, fun hin => ?_⟩
  · dsimp only
    rw [hlooked]
    exact hi.sub
  · dsimp only
    rw [hlooked]
    exact hi.idle (hserve hidle)
  · dsimp only
    rw [hlooked]
    refine hi.all ?_
    rcases hin with hidle | hin
    · exact .inl (hserve hidle)
    · exact hstored hin

theorem Fed.step (hi : Fed cfg enableClientMsg uid s skipped) {l : Label α} {s' : State α}
    (h : next cfg enableClientMsg uid s l = some s') :
    Fed cfg enableClientMsg uid s' (noteSkipped uid s l skipped) := by
  cases moves_of_next h with
  | @storage l _ _ hl hstep hhand =>
    have hnote : noteSkipped uid s (.storage l) skipped = skipped := by simp [noteSkipped, hl]
    rw [hnote]
    exact hi.storageStep hl hstep hhand
  | crash hstep =>
    refine fed_started (hi.storage.step (l := .crash) hstep) ?_
    cases Storage.step_spec hstep
    rfl
  | found hseq hstored hstep =>
    have hnote : noteSkipped uid s (.entry uid) skipped = skipped := by simp [noteSkipped, hstored]
    rw [hnote]
    exact hi.found hseq hstored hstep
  | passed hseq hmissed => exact hi.passed hseq hmissed
  | session hl hstep => exact hi.sessionStep hl hstep

theorem fed_of_reachable {s : State α × List ℤ} (h : (pipelineSystem cfg enableClientMsg uid).Reachable s) :
    Fed cfg enableClientMsg uid s.1 s.2 := by
  refine h.invariant (I := fun s => Fed cfg enableClientMsg uid s.1 s.2) ?_ ?_
  · rintro ⟨_, _⟩ ⟨⟨now, rfl⟩, rfl⟩
    exact fed_started (.init ⟨now, rfl⟩) rfl
  · rintro ⟨s, skipped⟩ l ⟨s', skipped'⟩ hi ht
    obtain ⟨hstep, rfl⟩ := System.record_step.mp ht
    exact hi.step hstep

/-- What was written are some of the head seqs that were sent, and so of those that the storage announces. -/
theorem Fed.written (hi : Fed cfg enableClientMsg uid s skipped) :
    (s.session.2.written.filterMap ServerMsg.seq?).Sublist (s.storage.cache.sentSeqs uid) ∧
      (s.session.2.written.filterMap ServerMsg.seq?).Sublist (s.storage.cache.trail uid) := by
  have hlooked := (List.sublist_append_left _ _).trans hi.sub
  have hsent := hi.inOrder.seqs.isPrefix.sublist.trans hlooked
  exact ⟨hsent, hsent.trans (List.sublist_append_left _ _)⟩

theorem Fed.written_le (hi : Fed cfg enableClientMsg uid s skipped) {seq : ℤ}
    (hseq : seq ∈ s.session.2.written.filterMap ServerMsg.seq?) : seq ≤ s.storage.db.headSeq uid :=
  (pushInv_of_reachable hi.storage).forward.trail_le uid seq (hi.written.2.subset hseq)

/-- The head seqs that a client is told increase, and none is above the head seq that is stored: they are
some of those that the storage sent for the user, in their order. -/
theorem client_head_seqs_increase (cfg : StorageConfig) (enableClientMsg : Bool) (uid : ℤ)
    {s : State α × List ℤ} (h : (pipelineSystem cfg enableClientMsg uid).Reachable s) :
    (s.1.session.2.written.filterMap ServerMsg.seq?).Sublist (s.1.storage.cache.sentSeqs uid) ∧
      (s.1.session.2.written.filterMap ServerMsg.seq?).Pairwise (· < ·) ∧
      ∀ seq ∈ s.1.session.2.written.filterMap ServerMsg.seq?, seq ≤ s.1.storage.db.headSeq uid := by
  have hi := fed_of_reachable h
  obtain ⟨hsent, htrail⟩ := hi.written
  have hincreasing := (pushInv_of_reachable hi.storage).forward.increasing uid
  exact ⟨hsent, hincreasing.sublist htrail, fun seq hseq => hi.written_le hseq⟩

/-- The session of user 2 comes between the two messages. It is told of the second one, after its answer. -/
def secondRun : List (Label Unit) :=
  (pushRun.take 9).map .storage ++
  [.entry 2, .storage (.check .finish), .session .add, .session .online,
    .session (.read (.request ())), .session .recvWork] ++
  (pushRun.drop 10).map .storage ++
  [.entry 2, .session (.deliver none), .session (.take true), .session (.take true)]

theorem client_head_seqs_secondRun :
    ∃ s : State Unit × List ℤ, (pipelineSystem sampleConfig true 2).Reachable s ∧
      s.1.session.2.written = [.answer (), .headSeq 2] ∧
      (s.1.session.2.written.filterMap ServerMsg.seq?).Pairwise (· < ·) := by
  have hrun : ((pipelineSystem sampleConfig true 2).run (start 0, []) secondRun).map
      (fun s => s.1.session.2.written) = some [.answer (), .headSeq 2] := by
    decide +kernel
  obtain ⟨s, hs, hwritten⟩ := Option.map_eq_some_iff.mp hrun
  have hstart : (pipelineSystem sampleConfig true 2).Reachable ((start 0 : State Unit), []) := .init ⟨⟨0, rfl⟩, rfl⟩
  have hreach := hstart.run _ hs
  exact ⟨s, hreach, hwritten, (client_head_seqs_increase sampleConfig true 2 hreach).2.1⟩

/-- While a session is in the store, open, and `sendLoop` has not left, no head seq that was sent for its
user is lost: but for those for which the session was not there yet, each has been written, or is on its
way in this order: in the channel of the handler, in the hands of `Hub.Run`, in its message. -/
theorem open_session_misses_nothing (cfg : StorageConfig) (enableClientMsg : Bool) (uid : ℤ)
    {s : State α × List ℤ} (h : (pipelineSystem cfg enableClientMsg uid).Reachable s)
    (hstored : s.1.session.1.handler.stored = true) (hopen : s.1.session.1.handler.closing = false)
    (hhere : s.1.session.1.send.leaving = false) :
    s.1.storage.cache.sentSeqs uid = s.2 ++ (s.1.session.2.written.filterMap ServerMsg.seq? ++
      (s.1.session.1.handler.dataChan.filterMap (SessionData.pick ServerMsg.seq?) ++
        ((s.1.session.1.task none).owed ++ (s.1.hand.lookup uid).toList))) := by
  have hi := fed_of_reachable h
  have hall := hi.all (.inr hstored)
  have hseqs := hi.inOrder.seqs.complete (by simp [hopen]) (by simp [hhere])
  rw [hall, hseqs]
  simp only [List.append_assoc]

theorem open_session_secondRun :
    ∃ s : State Unit × List ℤ, (pipelineSystem sampleConfig true 2).Reachable s ∧ s.2 = [1] ∧
      s.1.session.1.handler.dataChan = [.answer (), ⟨none, some (.headSeq 2)⟩] ∧
      s.1.storage.cache.sentSeqs 2 = s.2 ++ (s.1.session.2.written.filterMap ServerMsg.seq? ++
        (s.1.session.1.handler.dataChan.filterMap (SessionData.pick ServerMsg.seq?) ++
          ((s.1.session.1.task none).owed ++ (s.1.hand.lookup 2).toList))) := by
  have hrun : ((pipelineSystem sampleConfig true 2).run (start 0, []) (secondRun.take 25)).map (fun s =>
      (s.2, s.1.session.1.handler.dataChan, s.1.session.1.handler.stored, s.1.session.1.handler.closing,
        s.1.session.1.send.leaving)) =
      some ([1], [.answer (), ⟨none, some (.headSeq 2)⟩], true, false, false) := by
    decide +kernel
  obtain ⟨s, hs, hview⟩ := Option.map_eq_some_iff.mp hrun
  simp only [Prod.mk.injEq] at hview
  obtain ⟨hskipped, hchan, hstored, hopen, hhere⟩ := hview
  have hstart : (pipelineSystem sampleConfig true 2).Reachable ((start 0 : State Unit), []) := .init ⟨⟨0, rfl⟩, rfl⟩
  have hreach := hstart.run _ hs
  exact ⟨s, hreach, hskipped, hchan, open_session_misses_nothing sampleConfig true 2 hreach hstored hopen hhere⟩

end MiniPush.Ws.Pipeline
