import MiniPush.Store.RoundTrip
import MiniPush.Ws.Requests

/-! The page of the demo: what it asks the server for and what it makes of the answers, and the runs of a page
with its session. -/
namespace MiniPush.Ws.DemoClient
open Foundation Store Requests

/-- A number of the script. `none` is `NaN`, which an undefined value becomes in arithmetic. -/
abbrev Num := Option ℤ

namespace Num

def add (a b : Num) : Num := Option.map₂ (· + ·) a b

def sub (a b : Num) : Num := Option.map₂ (· - ·) a b

/-- No comparison with `NaN` holds. -/
def le (a b : Num) : Bool := (Option.map₂ (fun x y => decide (x ≤ y)) a b).getD false

def lt (a b : Num) : Bool := (Option.map₂ (fun x y => decide (x < y)) a b).getD false

/-- `JSON.stringify` and `json.Unmarshal` into an `int32`: `NaN` is sent as `null`, which leaves 0. -/
def sent (a : Num) : ℤ := a.getD 0

/-- A number of a message: 0 is not sent. -/
def received (n : ℤ) : Num := if n = 0 then none else some n

end Num

/-- The loop of `requestGetEvents` with the ranges it asks for, or `none` if it takes more turns than
`fuel`. -/
def getEventsLoop (limit : Num) (minSeq : ℤ) : ℕ → Num → Option (List (Num × Num))
  | 0, _ => none
  | fuel + 1, upper =>
    if Num.le (some 1) upper then
      let lower := Num.add (Num.sub upper limit) (some 1)
      let lower := if Num.le lower (some minSeq) then some (minSeq + 1) else lower
      if Num.lt upper lower then some []
      else (getEventsLoop limit minSeq fuel (Num.sub upper limit)).map ((lower, upper) :: ·)
    else some []

/-- The ranges follow each other downwards, from `top` to above `bottom`, without gap or overlap. -/
def Tiles : ℤ → List (ℤ × ℤ) → ℤ → Prop
  | top, [], bottom => top = bottom
  | top, range :: rest, bottom => range.2 = top ∧ range.1 ≤ range.2 ∧ Tiles (range.1 - 1) rest bottom

section Loop
variable {limit minSeq upper : ℤ} {fuel : ℕ}

theorem getEventsLoop_succ (limit minSeq upper : ℤ) (fuel : ℕ) :
    getEventsLoop (some limit) minSeq (fuel + 1) (some upper) =
      if 1 ≤ upper ∧ max (upper - limit + 1) (minSeq + 1) ≤ upper then
        (getEventsLoop (some limit) minSeq fuel (some (upper - limit))).map
          ((some (max (upper - limit + 1) (minSeq + 1)), some upper) :: ·)
      else some [] := by
  have hlower : (if Num.le (some (upper - limit + 1)) (some minSeq) then some (minSeq + 1)
      else some (upper - limit + 1)) = some (max (upper - limit + 1) (minSeq + 1)) := by
    simp only [Num.le, Option.map₂_coe_coe, Option.getD_some, decide_eq_true_eq]
    split_ifs <;> congr 1 <;> omega
  have hsub : Num.sub (some upper) (some limit) = some (upper - limit) := rfl
  have hadd : Num.add (some (upper - limit)) (some 1) = some (upper - limit + 1) := rfl
  have hturn : Num.le (some 1) (some upper) = decide (1 ≤ upper) := rfl
  have hbreak : ∀ lower : ℤ, Num.lt (some upper) (some lower) = decide (upper < lower) := fun _ => rfl
  simp only [getEventsLoop, hsub, hadd, hlower, hturn, hbreak, decide_eq_true_eq]
  split_ifs <;> first | rfl | omega

theorem getEventsLoop_tiles (hlimit : 1 ≤ limit) (hmin : 0 ≤ minSeq) (hfuel : upper.toNat < fuel) :
    ∃ ranges : List (ℤ × ℤ), getEventsLoop (some limit) minSeq fuel (some upper) =
        some (ranges.map fun range => (some range.1, some range.2)) ∧
      Tiles (max upper minSeq) ranges minSeq ∧ ∀ range ∈ ranges, minSeq < range.1 ∧ range.2 - range.1 < limit := by
  induction fuel generalizing upper with
  | zero => omega
  | succ fuel ih =>
    rw [getEventsLoop_succ]
    by_cases hover : minSeq < upper
    · rw [if_pos (by omega)]
      obtain ⟨ranges, hloop, htiles, hwidth⟩ := @ih (upper - limit) (by omega)
      refine ⟨(max (upper - limit + 1) (minSeq + 1), upper) :: ranges, by rw [hloop]; rfl, ?_, ?_⟩
      · refine ⟨by dsimp only; omega, by dsimp only; omega, ?_⟩
        have htop : max (upper - limit + 1) (minSeq + 1) - 1 = max (upper - limit) minSeq := by omega
        dsimp only
        rw [htop]
        exact htiles
      · intro range hrange
        rcases List.mem_cons.mp hrange with rfl | hrange
        · dsimp only
          omega
        · exact hwidth range hrange
    · rw [if_neg (by omega)]
      exact ⟨[], rfl, by simp only [Tiles]; omega, by simp⟩

/-- The loop ends whatever the limit is. Without a number for the limit there is one range, whose lower end
is not a number; a limit that is not positive asks for nothing; and with any other limit the ranges are those
that are missing, each once and none longer than the limit. -/
theorem missing_ranges_requested (hmin : 0 ≤ minSeq) (hover : minSeq < upper) (hfuel : upper.toNat < fuel) :
    getEventsLoop none minSeq fuel (some upper) = some [(none, some upper)] ∧
    (∀ limit ≤ 0, getEventsLoop (some limit) minSeq fuel (some upper) = some []) ∧
    ∀ limit, 1 ≤ limit → ∃ ranges : List (ℤ × ℤ), getEventsLoop (some limit) minSeq fuel (some upper) =
        some (ranges.map fun range => (some range.1, some range.2)) ∧
      Tiles upper ranges minSeq ∧ ∀ range ∈ ranges, range.2 - range.1 < limit := by
  obtain ⟨fuel, rfl⟩ : ∃ n, fuel = n + 2 := ⟨fuel - 2, by omega⟩
  refine ⟨?_, fun limit hlimit => ?_, fun limit hlimit => ?_⟩
  · have hturn : Num.le (some 1) (some upper) = true := decide_eq_true (by omega)
    simp only [getEventsLoop, hturn]
    rfl
  · rw [getEventsLoop_succ, if_neg (by omega)]
  · obtain ⟨ranges, hloop, htiles, hwidth⟩ := getEventsLoop_tiles hlimit hmin hfuel
    rw [max_eq_left hover.le] at htiles
    exact ⟨ranges, hloop, htiles, fun range hrange => (hwidth range hrange).2⟩

theorem missing_ranges_seven :
    getEventsLoop (some 3) 2 10 (some 9) = some [(some 7, some 9), (some 4, some 6), (some 3, some 3)] ∧
    ∃ ranges : List (ℤ × ℤ), getEventsLoop (some 3) 2 10 (some 9) =
        some (ranges.map fun range => (some range.1, some range.2)) ∧
      Tiles 9 ranges 2 ∧ ∀ range ∈ ranges, range.2 - range.1 < 3 :=
  ⟨by decide, (missing_ranges_requested (by decide) (by decide) (by decide)).2.2 3 (by decide)⟩

end Loop

/-- The field of `_serverConf` that the script reads. -/
def limitField : String := "get_events_le2eit"

/-- The fields of `WsConf` as `jsonpb` names them. A `true` counts as 1, and zero values are left out. -/
def confJson (conf : HubConf) : List (String × ℤ) :=
  [("event_ttl_days", conf.eventTtlDays), ("get_events_limit", conf.getEventsLimit),
    ("enable_client_msg", if conf.enableClientMsg then 1 else 0), ("max_msg_size", conf.maxMsgSize)].filter
    fun field => field.2 ≠ 0

/-- The variables of the script; `conn` says whether there is a connection. -/
structure Client where
  serverConf : Option (List (String × ℤ))
  eventMap : GoMap ℤ UserEvent
  sortedEventList : List UserEvent
  kickoff : Bool
  conn : Bool

namespace Client

def requestGetEvents (c : Client) (seq : Num) : List ClientMsg :=
  match c.serverConf with
  | none => []
  | some conf =>
    let limit : Num := conf.lookup limitField
    let minSeq := (c.sortedEventList.head?.map UserEvent.seq).getD 0
    if Num.le seq (some minSeq) then []
    else ((getEventsLoop limit minSeq ((seq.getD 0).toNat + 1) seq).getD []).map fun range =>
      { getEvents := some ⟨range.1.sent, range.2.sent⟩ }

def requestStats : ClientMsg := { stats := some ⟨true⟩ }

def requestGetReadStates (c : Client) : List ClientMsg :=
  match c.sortedEventList with
  | [] => []
  | e :: _ => [{ getReadStates := some ⟨e.seq⟩ }]

/-- `sendIm`: its field is none of `ClientMsg`. -/
def sendIm : ClientMsg := {}

/-- The events of the table, of which those that are not read can be clicked. -/
def shown (c : Client) : List UserEvent := c.sortedEventList.take 10

/-- The events of the map and those of the list are the same objects. -/
def refresh (c : Client) (eventMap : GoMap ℤ UserEvent) : Client :=
  { c with
    eventMap
    sortedEventList := c.sortedEventList.map fun e => (eventMap.lookup e.seq).getD e }

def handleGetEventsResp (c : Client) (events : List UserEvent) : Client :=
  if events = [] then c
  else
    let eventMap := events.foldl (fun m e => m.insert e.seq e) c.eventMap
    { c with eventMap, sortedEventList := (Assoc.values eventMap).mergeSort fun a b => b.seq ≤ a.seq }

def setReadState (m : GoMap ℤ UserEvent) (seq : ℤ) (read : Bool) : GoMap ℤ UserEvent :=
  match m.lookup seq with
  | some e => m.insert seq { e with readState := read }
  | none => m

/-- The loop over the blocks, which ends at the exception of a text that is not Base64. -/
def readBlocks (m : GoMap ℤ UserEvent) : List Block → GoMap ℤ UserEvent
  | [] => m
  | block :: blocks =>
    match decodeBlock block with
    | some states => readBlocks (states.foldl (fun m state => setReadState m state.1 state.2) m) blocks
    | none => m

/-- `onmessage`, with what is sent. -/
def onmessage (c : Client) : ServerMsg → Client × List ClientMsg
  | .answer (.error _) => (c, [])
  | .answer (.stats resp) =>
    let c' := { c with serverConf := some (confJson resp.conf) }
    (c', c'.requestGetEvents (Num.received resp.headSeq))
  | .answer (.getReadStates blocks) => (c.refresh (readBlocks c.eventMap blocks), [])
  | .headSeq seq => if seq > 0 then (c, c.requestGetEvents (some seq)) else (c, [])
  | .answer (.getEvents events) => (c.handleGetEventsResp events, [])
  | .kickoff => ({ c with kickoff := true, conn := false }, [])
  | .answer (.setRead resp) => (c.refresh (setReadState c.eventMap resp.seq true), [])

end Client

structure Page where
  client : Client
  toServer : List ClientMsg
  toClient : List ServerMsg

/-- `serve` is a turn of `recvLoop` with any store; `push` and `kick` are messages of the hub. `click` is a click
on an event, `timer` the interval of the script. -/
inductive Label
  | connect
  | timer
  | click (seq : ℤ)
  | sendIm
  | serve (call : Call) (uid : ℤ) (db : Database)
  | push (seq : ℤ)
  | kick
  | message
  | close

namespace Page

def send (s : Page) (msgs : List ClientMsg) : Page := { s with toServer := s.toServer ++ msgs }

def next (api : EventApi) (s : Page) : Label → Option Page
  | .connect =>
    if s.client.conn then none
    else some { s with client := { s.client with conn := true }, toServer := [Client.requestStats], toClient := [] }
  | .timer => if s.client.conn then some (s.send s.client.requestGetReadStates) else none
  | .click seq =>
    if s.client.conn ∧ ∃ e ∈ s.client.shown, e.seq = seq ∧ e.readState = false then
      some (s.send [{ setRead := some ⟨seq⟩ }])
    else none
  | .sendIm => if s.client.conn then some (s.send [Client.sendIm]) else none
  | .serve call uid db =>
    match s.toServer with
    | [] => none
    | req :: rest => (api.serve call uid req db).map fun r =>
      { s with toServer := rest, toClient := s.toClient ++ r.1.data.filterMap (CloseProtocol.SessionData.pick some) }
  | .push seq => if s.client.conn then some { s with toClient := s.toClient ++ [.headSeq seq] } else none
  | .kick => if s.client.conn then some { s with toClient := s.toClient ++ [.kickoff] } else none
  | .message =>
    match s.toClient with
    | [] => none
    | msg :: rest =>
      let r := s.client.onmessage msg
      some ({ s with client := r.1, toClient := rest }.send r.2)
  | .close => some { s with client := { s.client with conn := false }, toServer := [], toClient := [] }

end Page

def pageSystem (api : EventApi) : System Page Label where
  init s := s = ⟨⟨none, ∅, [], false, false⟩, [], []⟩
  step := Page.next api

/-- The server sends no field of that name. -/
theorem confJson_limitField (conf : HubConf) : (confJson conf).lookup limitField = none := by
  rw [List.lookup_eq_none_iff]
  intro field hfield
  have hname := List.mem_of_mem_filter hfield
  simp only [List.mem_cons, List.not_mem_nil, or_false] at hname
  rcases hname with rfl | rfl | rfl | rfl <;> simp [limitField]

theorem getEventsLoop_none {minSeq : ℤ} {fuel : ℕ} {upper : Num} {ranges : List (Num × Num)}
    (h : getEventsLoop none minSeq fuel upper = some ranges) : ∀ range ∈ ranges, range.1 = none := by
  induction fuel generalizing upper ranges with
  | zero => cases h
  | succ fuel ih =>
    have hsub : Num.sub upper none = none := Option.map₂_none_right ..
    have hlower : (if Num.le (Num.add none (some 1)) (some minSeq) then some (minSeq + 1)
        else Num.add none (some 1)) = none := rfl
    simp only [getEventsLoop, hsub, hlower] at h
    split_ifs at h
    · cases h
      simp
    · obtain ⟨rest, hrest, rfl⟩ := Option.map_eq_some_iff.mp h
      intro range hrange
      rcases List.mem_cons.mp hrange with rfl | hrange
      · rfl
      · exact ih hrest range hrange
    · cases h
      simp

/-- A request whose answer has no events: a range from 0 is refused. -/
def Fruitless (req : ClientMsg) : Prop :=
  ∀ range, req.getEvents = some range → range.fromSeq = 0

def Eventless (msg : ServerMsg) : Prop := ∀ events, msg ≠ .answer (.getEvents events)

theorem answer_data {α : Type} (wrap : α → Answer) (r : Except Requests.Error α × Database) :
    (∃ resp, (answer wrap r).1.data = [.answer (wrap resp)]) ∨
      ∃ err, (answer wrap r).1.data = [.answer (.error err)] := by
  obtain ⟨err | resp, db⟩ := r
  · exact .inr ⟨_, rfl⟩
  · exact .inl ⟨resp, rfl⟩

theorem getEventsErrs_of_zero (conf : WsConf) {range : GetEventsReq} (h : range.fromSeq = 0) :
    0 < (getEventsErrs conf range).length := by
  simp [getEventsErrs, h]

theorem Fruitless.answer {api : EventApi} {call : Call} {uid : ℤ} {req : ClientMsg} {db : Database}
    {r : Turn × Database} (hreq : Fruitless req) (h : api.serve call uid req db = some r) :
    ∀ msg ∈ r.1.data.filterMap (CloseProtocol.SessionData.pick some), Eventless msg := by
  have hplain : ∀ {α : Type} (wrap : α → Answer) (out : Except Requests.Error α × Database),
      (∀ resp events, wrap resp ≠ .getEvents events) →
      ∀ msg ∈ (Requests.answer wrap out).1.data.filterMap (CloseProtocol.SessionData.pick some), Eventless msg := by
    intro α wrap out hwrap
    rcases answer_data wrap out with ⟨resp, hdata⟩ | ⟨err, hdata⟩
    · rw [hdata]
      simpa [CloseProtocol.SessionData.pick, Eventless] using hwrap resp
    · simp [hdata, CloseProtocol.SessionData.pick, Eventless]
  unfold EventApi.serve at h
  split at h
  · obtain rfl := Option.some.inj h
    exact hplain _ _ (by simp)
  · rename_i range _ hget
    obtain rfl := Option.some.inj h
    have herrs := getEventsErrs_of_zero api.conf.toWsConf (hreq range hget)
    simp [EventApi.getEvents, herrs, Requests.answer, CloseProtocol.SessionData.pick, Eventless]
  · obtain rfl := Option.some.inj h
    exact hplain _ _ (by simp)
  · obtain ⟨out, -, rfl⟩ := Option.map_eq_some_iff.mp h
    exact hplain _ _ (by simp)
  · split_ifs at h <;> obtain rfl := Option.some.inj h <;>
      simp [CloseProtocol.SessionData.pick, Eventless]
  · obtain rfl := Option.some.inj h
    simp [refuse, CloseProtocol.SessionData.pick, Eventless]

structure Bare (c : Client) : Prop where
  map : c.eventMap = ∅
  list : c.sortedEventList = []
  conf : ∀ fields, c.serverConf = some fields → fields.lookup limitField = none

namespace Bare
variable {c : Client}

theorem requestGetEvents (hc : Bare c) (seq : Num) : ∀ req ∈ c.requestGetEvents seq, Fruitless req := by
  intro req hreq
  unfold Client.requestGetEvents at hreq
  split at hreq
  · simp at hreq
  · rename_i fields hfields
    dsimp only at hreq
    split_ifs at hreq
    · simp at hreq
    · rw [hc.conf fields hfields] at hreq
      obtain ⟨range, hrange, rfl⟩ := List.mem_map.mp hreq
      intro asked hasked
      obtain rfl := Option.some.inj hasked
      cases hloop : getEventsLoop none ((c.sortedEventList.head?.map UserEvent.seq).getD 0)
          ((seq.getD 0).toNat + 1) seq with
      | none => simp [hloop] at hrange
      | some ranges =>
        rw [hloop] at hrange
        rw [getEventsLoop_none hloop range hrange]
        rfl

theorem setReadState (seq : ℤ) (read : Bool) : Client.setReadState ∅ seq read = ∅ := rfl

theorem readBlocks (blocks : List Block) : Client.readBlocks ∅ blocks = ∅ := by
  induction blocks with
  | nil => rfl
  | cons block blocks ih =>
    have hfold : ∀ states : List (ℤ × Bool),
        states.foldl (fun m state => Client.setReadState m state.1 state.2) ∅ = ∅ := by
      intro states
      induction states with
      | nil => rfl
      | cons state states ih => exact ih
    rw [Client.readBlocks]
    split
    · rw [hfold, ih]
    · rfl

theorem refresh (hc : Bare c) : Bare (c.refresh ∅) :=
  ⟨rfl, by simp [Client.refresh, hc.list], hc.conf⟩

theorem onmessage (hc : Bare c) {msg : ServerMsg} (hmsg : Eventless msg) :
    Bare (c.onmessage msg).1 ∧ ∀ req ∈ (c.onmessage msg).2, Fruitless req := by
  cases msg with
  | answer answer =>
    cases answer with
    | error err => exact ⟨hc, by simp [Client.onmessage]⟩
    | stats resp =>
      have hc' : Bare { c with serverConf := some (confJson resp.conf) } := by
        refine ⟨hc.map, hc.list, fun fields hfields => ?_⟩
        obtain rfl := Option.some.inj hfields
        exact confJson_limitField resp.conf
      exact ⟨hc', hc'.requestGetEvents _⟩
    | getEvents events => exact absurd rfl (hmsg events)
    | getReadStates blocks =>
      simp only [Client.onmessage, hc.map, readBlocks]
      exact ⟨hc.refresh, by simp⟩
    | setRead resp =>
      simp only [Client.onmessage, hc.map, setReadState]
      exact ⟨hc.refresh, by simp⟩
  | headSeq seq =>
    simp only [Client.onmessage]
    split_ifs
    · exact ⟨hc, hc.requestGetEvents _⟩
    · exact ⟨hc, by simp⟩
  | kickoff => exact ⟨⟨hc.map, hc.list, hc.conf⟩, by simp [Client.onmessage]⟩

end Bare

structure Page.Bare (s : Page) : Prop where
  client : DemoClient.Bare s.client
  asked : ∀ req ∈ s.toServer, Fruitless req
  told : ∀ msg ∈ s.toClient, Eventless msg

namespace Page.Bare
variable {api : EventApi} {s s' : Page} {l : Label}

theorem send (hs : s.Bare) {msgs : List ClientMsg} (hmsgs : ∀ req ∈ msgs, Fruitless req) : (s.send msgs).Bare :=
  ⟨hs.client, fun req hreq => (List.mem_append.mp hreq).elim (hs.asked req) (hmsgs req), hs.told⟩

theorem tell (hs : s.Bare) {msgs : List ServerMsg} (hmsgs : ∀ msg ∈ msgs, Eventless msg) :
    ∀ msg ∈ s.toClient ++ msgs, Eventless msg :=
  fun msg hmsg => (List.mem_append.mp hmsg).elim (hs.told msg) (hmsgs msg)

theorem step (hs : s.Bare) (h : s.next api l = some s') : s'.Bare := by
  cases l with
  | connect =>
    simp only [Page.next] at h
    split_ifs at h
    obtain rfl := Option.some.inj h
    refine ⟨⟨hs.client.map, hs.client.list, hs.client.conf⟩, fun req hreq => ?_, by simp⟩
    rw [List.mem_singleton.mp hreq]
    intro range hrange
    cases hrange
  | timer =>
    simp only [Page.next, Client.requestGetReadStates, hs.client.list] at h
    split_ifs at h
    obtain rfl := Option.some.inj h
    exact hs.send (by simp)
  | click seq =>
    simp only [Page.next, Client.shown, hs.client.list] at h
    simp at h
  | sendIm =>
    simp only [Page.next] at h
    split_ifs at h
    obtain rfl := Option.some.inj h
    refine hs.send fun req hreq => ?_
    rw [List.mem_singleton.mp hreq]
    intro range hrange
    cases hrange
  | serve call uid db =>
    simp only [Page.next] at h
    split at h
    · cases h
    · rename_i req rest hto
      obtain ⟨r, hr, rfl⟩ := Option.map_eq_some_iff.mp h
      have hreq := hs.asked req (by simp [hto])
      exact ⟨hs.client, fun req' hreq' => hs.asked req' (by simp [hto, hreq']), hs.tell (hreq.answer hr)⟩
  | push seq =>
    simp only [Page.next] at h
    split_ifs at h
    obtain rfl := Option.some.inj h
    exact ⟨hs.client, hs.asked, hs.tell (by simp [Eventless])⟩
  | kick =>
    simp only [Page.next] at h
    split_ifs at h
    obtain rfl := Option.some.inj h
    exact ⟨hs.client, hs.asked, hs.tell (by simp [Eventless])⟩
  | message =>
    simp only [Page.next] at h
    split at h
    · cases h
    · rename_i msg rest hto
      obtain rfl := Option.some.inj h
      obtain ⟨hclient, hsent⟩ := hs.client.onmessage (hs.told msg (by simp [hto]))
      have hrest : Page.Bare { s with client := (s.client.onmessage msg).1, toClient := rest } :=
        ⟨hclient, hs.asked, fun msg' hmsg' => hs.told msg' (by simp [hto, hmsg'])⟩
      exact hrest.send hsent
  | close =>
    obtain rfl := Option.some.inj h
    exact ⟨⟨hs.client.map, hs.client.list, hs.client.conf⟩, by simp, by simp⟩

end Page.Bare

/-- The page never has an event to show, whatever the store holds and whatever head seqs it is told: every range
that it asks for is refused for its lower end. -/
theorem demo_shows_no_events (api : EventApi) {s : Page} (h : (pageSystem api).Reachable s) :
    s.client.eventMap = ∅ ∧ s.client.shown = [] ∧
      ∀ req ∈ s.toServer, ∀ range, req.getEvents = some range →
        "from_seq: should be positive integer" ∈ getEventsErrs api.conf.toWsConf range := by
  have hs : s.Bare := by
    refine h.invariant (I := Page.Bare) ?_ fun s l s' hs ht => hs.step ht
    rintro s rfl
    exact ⟨⟨rfl, rfl, by simp⟩, by simp, by simp⟩
  refine ⟨hs.client.map, by simp [Client.shown, hs.client.list], fun req hreq range hrange => ?_⟩
  have hzero := hs.asked req hreq range hrange
  simp [getEventsErrs, hzero]

def oneEvent : Database := (Store.save .calm ⟨0, 0, [1], []⟩ .empty).2

def demoApi : EventApi where
  conf := sampleConf
  platform := .utc
  errorText _ := "error"
  unmarshal _ := ({}, none)

/-- The page connects, gets its statistics with the head seq 1, and asks for the event. -/
theorem demo_shows_no_events_oneEvent :
    ∃ s, (pageSystem demoApi).Reachable s ∧ s.toServer.map ClientMsg.getEvents = [some ⟨0, 1⟩] ∧
      oneEvent.headSeq 1 = 1 ∧ s.client.eventMap = ∅ ∧ s.client.shown = [] := by
  have hrun : ((pageSystem demoApi).run ⟨⟨none, ∅, [], false, false⟩, [], []⟩
      [.connect, .serve ⟨0, .calm, none⟩ 1 oneEvent, .message]).map
        (fun s => s.toServer.map ClientMsg.getEvents) = some [some ⟨0, 1⟩] := by
    decide +kernel
  obtain ⟨s, hs, hasked⟩ := Option.map_eq_some_iff.mp hrun
  have hstart : (pageSystem demoApi).Reachable ⟨⟨none, ∅, [], false, false⟩, [], []⟩ := .init rfl
  obtain ⟨hmap, hshown, -⟩ := demo_shows_no_events demoApi (hstart.run _ hs)
  exact ⟨s, hstart.run _ hs, hasked, by decide +kernel, hmap, hshown⟩

end MiniPush.Ws.DemoClient
