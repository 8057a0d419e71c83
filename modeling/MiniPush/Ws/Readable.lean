import MiniPush.Cluster.Retention
import MiniPush.Ws.Pipeline
import MiniPush.Ws.Requests

/-! A head seq that a client is told stands for events that the client can read. -/
namespace MiniPush.Ws.Pipeline
open Foundation Cluster Store
open Requests (EventApi)

variable {α : Type}

/-- The clock does not go back, and a message is saved within a day. -/
def Timely (s : State α × List ℤ) : Label α → Prop
  | .storage l => s.1.storage.Timely l
  | _ => True

instance (s : State α × List ℤ) : (l : Label α) → Decidable (Timely s l)
  | .storage l => inferInstanceAs (Decidable (s.1.storage.Timely l))
  | .entry _ | .session _ => .isTrue trivial

variable {cfg : StorageConfig} {enableClientMsg : Bool} {uid : ℤ} [DecidableEq α]

theorem storage_of_timely {s : State α × List ℤ}
    (h : (pipelineSystem cfg enableClientMsg uid).ReachableVia Timely s) :
    (storageSystem cfg).ReachableVia Storage.Timely s.1.storage := by
  refine h.invariant (I := fun s => (storageSystem cfg).ReachableVia Storage.Timely s.1.storage) ?_ ?_
  · rintro ⟨_, _⟩ ⟨⟨now, rfl⟩, -⟩
    exact .init ⟨now, rfl⟩
  · rintro ⟨s, skipped⟩ l ⟨s', skipped'⟩ hs ht hstep
    cases moves_of_next (System.record_step.mp hstep).1 with
    | storage _ hstorage _ => exact hs.step ht hstorage
    | crash hstorage => exact hs.step (l := .crash) ht hstorage
    | _ => exact hs

theorem serve_getEvents {api : EventApi} {req : GetEventsReq} {events : List UserEvent} {db : Database}
    (hvalid : getEventsErrs api.conf.toWsConf req = []) (now : ℤ)
    (h : Store.getEvents .calm none uid req db = (.ok events, db)) :
    api.serve ⟨now, .calm, none⟩ uid { getEvents := some req } db =
      some (⟨[.answer (.getEvents events)], none, false⟩, db) := by
  simp only [EventApi.serve, EventApi.getEvents, hvalid, h, List.length_nil, gt_iff_lt, lt_self_iff_false,
    if_false]
  rfl

/-- A client that was told a head seq can read what it stands for: in any range up to the head seq a request
for events is answered with every event that the user was sent, the last one first, with the payload of its
message. Only an event that is older than its time to live by a day may be missing, where events are cleaned
up. -/
theorem told_events_readable (cfg : StorageConfig)
    (httl : cfg.ValidTtl) (enableClientMsg : Bool) (uid : ℤ)
    {s : State α × List ℤ} (h : (pipelineSystem cfg enableClientMsg uid).ReachableVia Timely s) {seq : ℤ}
    (hseq : seq ∈ s.1.session.2.written.filterMap CloseProtocol.ServerMsg.seq?) (api : EventApi) (now : ℤ)
    {req : GetEventsReq} (hfrom : 1 ≤ req.fromSeq) (hrange : req.fromSeq ≤ req.toSeq) (hto : req.toSeq ≤ seq) :
    ∃ events, api.serve ⟨now, .calm, none⟩ uid { getEvents := some req } s.1.storage.db =
        some (⟨[.answer (.getEvents events)], none, false⟩, s.1.storage.db) ∧
      (events.Pairwise fun a b => b.seq < a.seq) ∧
      ∀ n, req.fromSeq ≤ n → n ≤ req.toSeq → ∃ msg, SentAs cfg s.1.storage.db uid n msg ∧
        ((∃ event ∈ events, event.seq = n ∧ event.payload = msg.value) ∨
          cfg.cleanEvents = true ∧
            msg.time * Time.millisecond ≤ s.1.storage.now - (cfg.delEventsTtlDays + 1) * 24 * Time.hour) := by
  have hi := fed_of_reachable h.reachable
  have hstorage := storage_of_timely h
  have hhead : seq ≤ s.1.storage.db.headSeq uid := hi.written_le hseq
  have hfit := seqsFit_of_reachable cfg.platform (store_reachable hi.storage) uid
  obtain ⟨rows, hget, hdesc, hmem⟩ := getEvents_rows uid req s.1.storage.db (by omega) (by omega)
  have hvalid : getEventsErrs api.conf.toWsConf req = [] := by
    have hlimit := api.conf.min_le
    unfold minGetEventsLimit at hlimit
    exact (getEventsErrs_eq_nil_iff (by omega) (by omega)).mpr ⟨by omega, by omega, by omega⟩
  refine ⟨rows.map (readEvent uid), serve_getEvents hvalid now hget, ?_, fun n hlo hhi => ?_⟩
  · exact List.pairwise_map.mpr hdesc
  · exact readable_of_timely httl hstorage hmem (by omega) hlo hhi (by omega)

def sampleApi : EventApi where
  conf := Requests.sampleConf
  platform := .utc
  errorText _ := "error"
  unmarshal _ := ({}, none)

/-- The session of `secondRun` is told the head seq 2, and asks for all events up to it. -/
theorem told_events_secondRun :
    ∃ (s : State Unit × List ℤ) (events : List UserEvent), (pipelineSystem sampleConfig true 2).ReachableVia Timely s ∧
      s.1.session.2.written = [.answer (), .headSeq 2] ∧
      sampleApi.serve ⟨0, .calm, none⟩ 2 { getEvents := some ⟨1, 2⟩ } s.1.storage.db =
        some (⟨[.answer (.getEvents events)], none, false⟩, s.1.storage.db) ∧
      ∀ n, 1 ≤ n → n ≤ 2 → ∃ event ∈ events, event.seq = n := by
  have hrun : ((pipelineSystem sampleConfig true 2).runVia (fun s l => decide (Timely s l)) (start 0, [])
      secondRun).map (fun s => (s.1.session.2.written, decide (s.1.storage.now < 8 * 24 * Time.hour))) =
      some ([.answer (), .headSeq 2], true) := by
    decide +kernel
  obtain ⟨s, hs, hview⟩ := Option.map_eq_some_iff.mp hrun
  obtain ⟨hwritten, hearly⟩ := Prod.mk.inj hview
  have hstart : (pipelineSystem sampleConfig true 2).ReachableVia Timely ((start 0 : State Unit), []) :=
    .init ⟨⟨0, rfl⟩, rfl⟩
  have hreach : (pipelineSystem sampleConfig true 2).ReachableVia Timely s :=
    System.ReachableVia.runVia (fun _ _ => of_decide_eq_true) hstart _ hs
  obtain ⟨events, hserve, -, hall⟩ := told_events_readable sampleConfig (fun _ => by decide) true 2 hreach
    (by rw [hwritten]; exact List.mem_singleton_self 2) sampleApi 0 (by decide : 1 ≤ (⟨1, 2⟩ : GetEventsReq).fromSeq)
    (by decide) (le_refl 2)
  refine ⟨s, events, hreach, hwritten, hserve, fun n hlo hhi => ?_⟩
  obtain ⟨msg, hsent, ⟨event, hevent, hseq, -⟩ | ⟨-, hold⟩⟩ := hall n hlo hhi
  · exact ⟨event, hevent, hseq⟩
  · have htime : 0 ≤ msg.time := (by decide : ∀ msg ∈ sampleConfig.partition.messages, 0 ≤ msg.time) msg hsent.mem
    have hdays : sampleConfig.delEventsTtlDays = 7 := by decide
    have hnow := of_decide_eq_true hearly
    rw [hdays] at hold
    unfold Time.hour Time.millisecond at *
    omega

end MiniPush.Ws.Pipeline
