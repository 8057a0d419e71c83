import MiniPush.Foundation.Transition
import MiniPush.Store.Isolation
import MiniPush.Ws.CloseProtocol
import MiniPush.Ws.EventApi

/-! The requests of websocket clients: what `recvLoop` makes of a frame, with the answers of `EventApi`
and the errors it reports, and the runs of any number of sessions over one store. -/
namespace MiniPush.Ws.Requests
open Foundation Store

structure SetReadReq where
  seq : ℤ

/-- `pb.E2EMsg`; `fromUid` and `toUids` are `From` and `To`. -/
structure E2EMsg where
  type : Bytes
  fromUid : ℤ
  toUids : List ℤ
  props : GoMap Bytes Bytes
  body : Bytes

/-- `pb.ClientMsg`. A field that is not set is nil. -/
structure ClientMsg where
  stats : Option StatsReq := none
  getEvents : Option GetEventsReq := none
  setRead : Option SetReadReq := none
  getReadStates : Option GetReadStatesReq := none
  im : Option E2EMsg := none

structure Error where
  code : ℤ
  params : List String
  req : Option ClientMsg

/-- `pb.WsConf`, with its limit as `validateFlags` lets it pass. -/
structure HubConf extends WsConf where
  eventTtlDays : ℤ
  enableClientMsg : Bool
  maxMsgSize : ℤ

def sampleConf : HubConf := ⟨⟨50, by decide, by decide⟩, 7, true, 4096⟩

structure StatsResp where
  conf : HubConf
  headSeq : ℤ
  unreadCount : ℤ

/-- The answers of `recvLoop`: a `pb.ServerMsg` by the field that is set. -/
inductive Answer
  | error (err : Error)
  | stats (resp : StatsResp)
  | getEvents (events : List UserEvent)
  | getReadStates (blocks : List Block)
  | setRead (resp : SetReadResp)

abbrev ServerMsg := CloseProtocol.ServerMsg Answer

abbrev SessionData := CloseProtocol.SessionData Answer

def newInvalidArgumentError (req : Option ClientMsg) (errs : List String) : Error :=
  ⟨errorCodeInvalidArguments, errs, req⟩

def newInternalError (req : Option ClientMsg) (err : String) : Error :=
  ⟨errorCodeInternal, [err], req⟩

/-- `interceptError`: the text of an internal error does not leave the hub. -/
def interceptError (err : Error) : Error :=
  if err.code = errorCodeInternal then { err with params := ["temp storage error"] } else err

/-- What the API works with. `unmarshal` is `json.Unmarshal`: the message as far as it was filled, and
the text of its error; `errorText` is `err.Error()` of the driver. -/
structure EventApi where
  conf : HubConf
  platform : Platform
  errorText : SqlError → String
  unmarshal : Bytes → ClientMsg × Option String

/-- The surroundings of one request: the clock, the fate of its transaction, and where its result set
breaks off. -/
structure Call where
  now : ℤ
  env : TxEnv SqlError
  broken : Option ℕ

/-- A function of the store that may panic, which is a response `none`. -/
def panicking {α : Type} : Except SqlError (Option α) × Database → Option (Except SqlError α × Database)
  | (.ok (some resp), db) => some (.ok resp, db)
  | (.ok none, _) => none
  | (.error err, db) => some (.error err, db)

namespace EventApi
variable (api : EventApi)

/-- An error of the store is reported as an internal one. -/
def reply {α : Type} (req : ClientMsg) : Except SqlError α × Database → Except Error α × Database
  | (.ok resp, db) => (.ok resp, db)
  | (.error err, db) => (.error (newInternalError (some req) (api.errorText err)), db)

def stats (call : Call) (uid : ℤ) (req : StatsReq) (db : Database) :
    Except Error StatsResp × Database :=
  api.reply { stats := some req }
    (Prod.map (Except.map fun resp => ⟨api.conf, resp.headSeq, resp.unreadCount⟩) id
      (Store.stats api.platform call.env call.now uid api.conf.eventTtlDays req db))

def getEvents (call : Call) (uid : ℤ) (req : GetEventsReq) (db : Database) :
    Except Error (List UserEvent) × Database :=
  let errs := getEventsErrs api.conf.toWsConf req
  if errs.length > 0 then (.error (newInvalidArgumentError (some { getEvents := some req }) errs), db)
  else api.reply { getEvents := some req } (Store.getEvents call.env call.broken uid req db)

def setRead (call : Call) (uid : ℤ) (req : SetReadReq) (db : Database) :
    Except Error SetReadResp × Database :=
  if req.seq ≤ 0 then
    (.error (newInvalidArgumentError (some { setRead := some req })
      ["seq: should be positive integer"]), db)
  else api.reply { setRead := some req } (Store.setRead call.env uid req.seq db)

/-- `none` stands for a panic. -/
def getReadStates (call : Call) (uid : ℤ) (req : GetReadStatesReq) (db : Database) :
    Option (Except Error (List Block) × Database) :=
  if req.headSeq ≤ 0 then
    some (.error (newInvalidArgumentError (some { getReadStates := some req })
      ["head_seq: should be positive integer"]), db)
  else (panicking (Store.getReadStates api.platform call.env call.broken call.now uid
    api.conf.eventTtlDays req db)).map (api.reply { getReadStates := some req })

end EventApi

/-- What `recvLoop` does with a frame: the values it gives to `appendDataChan`, the message it routes to
the leader, and whether it returns. -/
structure Turn where
  data : List SessionData
  routed : Option E2EMsg := none
  returns : Bool := false

def answer {α : Type} (wrap : α → Answer) : Except Error α × Database → Turn × Database
  | (.ok resp, db) => (⟨[.answer (wrap resp)], none, false⟩, db)
  | (.error err, db) => (⟨[.answer (.error (interceptError err))], none, false⟩, db)

/-- A message that is answered with an error, after which the session is to be closed. -/
def refuse (req : Option ClientMsg) (err : String) (returns : Bool) : Turn :=
  ⟨[.answer (.error (newInvalidArgumentError req [err])), ⟨some .badRequest, none⟩], none, returns⟩

inductive Frame
  | error
  | text (msg : Bytes)
  | other

namespace EventApi
variable (api : EventApi)

/-- A decoded message: the first field that is set decides. `none` stands for a panic. -/
def serve (call : Call) (uid : ℤ) (req : ClientMsg) (db : Database) : Option (Turn × Database) :=
  match req.stats, req.getEvents, req.setRead, req.getReadStates, req.im with
  | some v, _, _, _, _ => some (answer .stats (api.stats call uid v db))
  | none, some v, _, _, _ => some (answer .getEvents (api.getEvents call uid v db))
  | none, none, some v, _, _ => some (answer .setRead (api.setRead call uid v db))
  | none, none, none, some v, _ => (api.getReadStates call uid v db).map (answer .getReadStates)
  | none, none, none, none, some v =>
    if api.conf.enableClientMsg then some (⟨[], some v, false⟩, db)
    else some (⟨[.answer (.error ⟨errorCodeInvalidArguments, ["feature is not supported"], none⟩)], none,
      false⟩, db)
  | none, none, none, none, none => some (refuse (some req) "unsupported request" false, db)

def recv (call : Call) (uid : ℤ) (db : Database) : Frame → Option (Turn × Database)
  | .error => some (⟨[⟨some .readError, none⟩], none, true⟩, db)
  | .other => some (refuse none "websocket only supports TextMessage" true, db)
  | .text msg =>
    match api.unmarshal msg with
    | (req, some err) => some (refuse (some req) ("marshal error: " ++ err) true, db)
    | (req, none) => api.serve call uid req db

end EventApi

def Turn.ops (turn : Turn) : List (CloseProtocol.Op Answer) :=
  turn.data.map .append ++ (if turn.routed.isSome then [.e2e] else []) ++ if turn.returns then [.exit] else []

section Ops
variable {api : EventApi} {call : Call} {uid : ℤ} {db : Database} {r : Turn × Database}

theorem exists_request {α : Type} (wrap : α → Answer) (out : Except Error α × Database) :
    ∃ a, (answer wrap out).1.ops = [.append (.answer a)] := by
  obtain ⟨err | resp, db⟩ := out
  · exact ⟨_, rfl⟩
  · exact ⟨_, rfl⟩

theorem EventApi.serve_ops {req : ClientMsg} (h : api.serve call uid req db = some r) :
    ∃ result : CloseProtocol.ReadResult Answer, r.1.ops = result.ops api.conf.enableClientMsg := by
  have hanswer : ∀ {α : Type} (wrap : α → Answer) (out : Except Error α × Database),
      ∃ result : CloseProtocol.ReadResult Answer,
        (answer wrap out).1.ops = result.ops api.conf.enableClientMsg := by
    intro α wrap out
    obtain ⟨a, ha⟩ := exists_request wrap out
    exact ⟨.request a, ha⟩
  unfold EventApi.serve at h
  split at h
  · obtain rfl := Option.some.inj h
    exact hanswer _ _
  · obtain rfl := Option.some.inj h
    exact hanswer _ _
  · obtain rfl := Option.some.inj h
    exact hanswer _ _
  · obtain ⟨out, -, rfl⟩ := Option.map_eq_some_iff.mp h
    exact hanswer _ _
  · refine ⟨.im (.error ⟨errorCodeInvalidArguments, ["feature is not supported"], none⟩), ?_⟩
    split_ifs at h with henabled
    · obtain rfl := Option.some.inj h
      rw [CloseProtocol.ReadResult.ops, if_pos henabled]
      rfl
    · obtain rfl := Option.some.inj h
      rw [CloseProtocol.ReadResult.ops, if_neg henabled]
      rfl
  · obtain rfl := Option.some.inj h
    exact ⟨.unsupported _, rfl⟩

/-- What `recvLoop` does with a frame is one of the turns of `closeSystem`. -/
theorem EventApi.recv_ops {frame : Frame} (h : api.recv call uid db frame = some r) :
    ∃ result : CloseProtocol.ReadResult Answer, r.1.ops = result.ops api.conf.enableClientMsg := by
  cases frame with
  | error =>
    obtain rfl := Option.some.inj h
    exact ⟨.error, rfl⟩
  | other =>
    obtain rfl := Option.some.inj h
    exact ⟨.badMessage _, rfl⟩
  | text msg =>
    simp only [EventApi.recv] at h
    split at h
    · obtain rfl := Option.some.inj h
      exact ⟨.badMessage _, rfl⟩
    · exact serve_ops h

end Ops

structure Sessions (ι : Type) where
  db : Database
  returned : ι → Bool

/-- Frames of the sessions, and what the storage does meanwhile. `closing` is a `recvLoop` that finds its
handler closing. -/
inductive Label (ι : Type)
  | frame (i : ι) (frame : Frame) (call : Call)
  | closing (i : ι)
  | save (env : TxEnv SqlError) (e : Event)
  | deleteOutdated (env : TxEnv SqlError) (now ttlDays : ℤ)

variable {ι : Type} [DecidableEq ι]

/-- The runs of the sessions named by `ι`, each of the user `uid`. What the storage saves and deletes meanwhile
does not depend on the frames. -/
def requestSystem (api : EventApi) (uid : ι → ℤ) : System (Sessions ι) (Label ι) where
  init s := s.db = .empty ∧ ∀ i, s.returned i = false
  step s
    | .frame i frame call =>
      if s.returned i then none
      else (api.recv call (uid i) s.db frame).map fun r =>
        ⟨r.2, Function.update s.returned i r.1.returns⟩
    | .closing i =>
      if s.returned i then none else some { s with returned := Function.update s.returned i true }
    | .save env e => some { s with db := (Store.save env e s.db).2 }
    | .deleteOutdated env now ttlDays =>
      some { s with db := (deleteOutdatedEvents api.platform env now ttlDays s.db).2 }

/-- What the sessions of a user are told: the values given to `appendDataChan`, with the session. -/
def told (api : EventApi) (uid : ι → ℤ) (u : ℤ) (s : Sessions ι) : Label ι → List (ι × SessionData)
  | .frame i frame call =>
    if uid i = u ∧ s.returned i = false then
      match api.recv call (uid i) s.db frame with
      | some r => r.1.data.map fun v => (i, v)
      | none => []
    else []
  | _ => []

def Label.foreign (uid : ι → ℤ) (u : ℤ) : Label ι → Bool
  | .frame i _ _ => uid i ≠ u
  | .closing i => uid i ≠ u
  | _ => false

end MiniPush.Ws.Requests
