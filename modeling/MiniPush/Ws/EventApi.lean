import MiniPush.Store.GetEvents

/-! `EventApi.GetEvents`, which answers the request of a websocket client, and its limit on the
number of events. -/
namespace MiniPush.Ws
open Foundation Store

def minGetEventsLimit : ℤ := 25

def maxGetEventsLimit : ℤ := 100

def errorCodeInvalidArguments : ℤ := 3

def errorCodeInternal : ℤ := 13

/-- The part of `WsConf` that `GetEvents` reads, as `validateFlags` lets it pass. -/
structure WsConf where
  getEventsLimit : ℤ
  min_le : minGetEventsLimit ≤ getEventsLimit
  le_max : getEventsLimit ≤ maxGetEventsLimit

/-- `pb.Error`, for a request for events. -/
structure Error where
  code : ℤ
  params : List String
  req : GetEventsReq
  deriving DecidableEq

def newInvalidArgumentError (req : GetEventsReq) (errs : List String) : Error :=
  ⟨errorCodeInvalidArguments, errs, req⟩

def newInternalError (req : GetEventsReq) (err : String) : Error :=
  ⟨errorCodeInternal, [err], req⟩

/-- What is wrong with a request. The difference is an `int32`. -/
def getEventsErrs (conf : WsConf) (req : GetEventsReq) : List String :=
  (if req.fromSeq ≤ 0 then ["from_seq: should be positive integer"] else []) ++
    (if req.toSeq ≤ 0 then ["to_seq: should be positive integer"] else []) ++
    if int32 (req.fromSeq - req.toSeq) ≥ conf.getEventsLimit then
      ["seq range: exceeds limit: " ++ toString conf.getEventsLimit]
    else []

/-- `EventApi.GetEvents`; `errorText` is `err.Error()` of the driver. -/
def getEvents (errorText : SqlError → String) (conf : WsConf) (env : TxEnv SqlError)
    (broken : Option ℕ) (uid : ℤ) (req : GetEventsReq) (db : Database) :
    Except Error (List UserEvent) × Database :=
  let errs := getEventsErrs conf req
  if errs.length > 0 then (.error (newInvalidArgumentError req errs), db)
  else
    match Store.getEvents env broken uid req db with
    | (.error err, db') => (.error (newInternalError req (errorText err)), db')
    | (.ok events, db') => (.ok events, db')

def Rejected (result : Except Error (List UserEvent)) : Prop :=
  ∃ err, result = .error err ∧ err.code = errorCodeInvalidArguments

/-- The validator lets a request pass exactly if both ends are positive and the range does not run
backwards by the limit: the difference it compares with the limit has the wrong sign. -/
theorem getEventsErrs_eq_nil_iff {conf : WsConf} {req : GetEventsReq}
    (hfrom : req.fromSeq < 2 ^ 31) (hto : req.toSeq < 2 ^ 31) :
    getEventsErrs conf req = [] ↔
      0 < req.fromSeq ∧ 0 < req.toSeq ∧ req.fromSeq - req.toSeq < conf.getEventsLimit := by
  simp only [getEventsErrs, List.append_eq_nil_iff, ite_eq_right_iff, List.cons_ne_self, imp_false]
  constructor
  · rintro ⟨⟨hf, ht⟩, hd⟩
    rw [int32_of_range (by omega) (by omega)] at hd
    simp_all
  · rintro ⟨hf, ht, hd⟩
    rw [int32_of_range (by omega) (by omega)]
    simp_all

section
variable {errorText : SqlError → String} {conf : WsConf} {env : TxEnv SqlError}
  {broken : Option ℕ} {uid : ℤ} {req : GetEventsReq} {db : Database}

theorem getEvents_of_valid (h : getEventsErrs conf req = []) :
    (getEvents errorText conf env broken uid req db).1 =
      (Store.getEvents env broken uid req db).1.mapError fun err =>
        newInternalError req (errorText err) := by
  unfold getEvents
  rw [h]
  rcases Store.getEvents env broken uid req db with ⟨_ | _, db'⟩ <;> rfl

/-- A request is rejected exactly by the validator, whatever happens in the store. -/
theorem rejected_iff :
    Rejected (getEvents errorText conf env broken uid req db).1 ↔ getEventsErrs conf req ≠ [] := by
  constructor
  · rintro ⟨err, herr, hcode⟩ hvalid
    rw [getEvents_of_valid hvalid] at herr
    cases hr : (Store.getEvents env broken uid req db).1 with
    | error e =>
      rw [hr] at herr
      obtain rfl := Except.error.inj herr
      cases hcode
    | ok events =>
      rw [hr] at herr
      cases herr
  · intro hne
    have hlen : (getEventsErrs conf req).length > 0 := List.length_pos_of_ne_nil hne
    refine ⟨newInvalidArgumentError req (getEventsErrs conf req), ?_, rfl⟩
    simp only [getEvents, if_pos hlen]

theorem ok_iff {events : List UserEvent} :
    (getEvents errorText conf env broken uid req db).1 = .ok events ↔
      getEventsErrs conf req = [] ∧ (Store.getEvents env broken uid req db).1 = .ok events := by
  by_cases hvalid : getEventsErrs conf req = []
  · rw [getEvents_of_valid hvalid]
    cases (Store.getEvents env broken uid req db).1 <;> simp [hvalid, Except.mapError]
  · obtain ⟨err, herr, -⟩ := rejected_iff.mpr hvalid
    rw [herr]
    simp [hvalid]

end

/-- The limit, for one request of one user: in every reachable store a response holds at most
`GetEventsLimit` events, and a range of at most that many sequences is not rejected. -/
def HonoursLimit (P : Platform) (errorText : SqlError → String) (conf : WsConf) (uid : ℤ)
    (req : GetEventsReq) : Prop :=
  (∀ db, (storeSystem P).Reachable db → ∀ env broken events,
    (getEvents errorText conf env broken uid req db).1 = .ok events →
      (events.length : ℤ) ≤ conf.getEventsLimit) ∧
  (1 ≤ req.fromSeq → req.fromSeq ≤ req.toSeq →
    req.toSeq - req.fromSeq < conf.getEventsLimit → ∀ db env broken,
      ¬Rejected (getEvents errorText conf env broken uid req db).1)

section
variable {P : Platform} {errorText : SqlError → String} {conf : WsConf} {uid : ℤ}
  {req : GetEventsReq}

private theorem int32_range {x : ℤ} (h : int32 x = x) : -2 ^ 31 ≤ x ∧ x < 2 ^ 31 := by
  unfold int32 at h
  omega

theorem length_le_of_short {db : Database} {env : TxEnv SqlError} {broken : Option ℕ}
    {events : List UserEvent} (hshort : req.toSeq - req.fromSeq < conf.getEventsLimit)
    (h : (getEvents errorText conf env broken uid req db).1 = .ok events) :
    (events.length : ℤ) ≤ conf.getEventsLimit := by
  have hle := getEvents_length_le (ok_iff.mp h).2
  have hrange := length_inRange_le db uid req
  have hmin : 25 ≤ conf.getEventsLimit := conf.min_le
  omega

theorem length_le_of_neg {db : Database} {env : TxEnv SqlError} {broken : Option ℕ}
    {events : List UserEvent} (huid : uid < 0) (hdb : (storeSystem P).Reachable db)
    (h : (getEvents errorText conf env broken uid req db).1 = .ok events) :
    (events.length : ℤ) ≤ conf.getEventsLimit := by
  have hnone : db.inRange uid req = [] := by
    refine List.eq_nil_iff_forall_not_mem.mpr fun u hu => ?_
    obtain ⟨hmem, rfl, -⟩ := mem_inRange.mp hu
    have hfit := of_decide_eq_true (uidsFit_of_reachable P hdb u hmem)
    omega
  have hle := getEvents_length_le (ok_iff.mp h).2
  have hmin : 25 ≤ conf.getEventsLimit := conf.min_le
  rw [hnone, List.length_nil] at hle
  omega

/-- For a longer range there is a store that answers with too many events. -/
theorem exists_length_gt (P : Platform) (errorText : SqlError → String)
    (hfit : fitsInt uid = true) (hfrom : 0 < req.fromSeq) (hto : req.toSeq < 2 ^ 31)
    (hlong : conf.getEventsLimit ≤ req.toSeq - req.fromSeq) :
    ∃ db, (storeSystem P).Reachable db ∧ ∃ events,
      (getEvents errorText conf .calm none uid req db).1 = .ok events ∧
        conf.getEventsLimit < events.length := by
  have hmin : 25 ≤ conf.getEventsLimit := conf.min_le
  obtain ⟨n, hn⟩ := Int.eq_ofNat_of_zero_le
    (show 0 ≤ req.fromSeq + conf.getEventsLimit by omega)
  obtain ⟨db, hfilled⟩ := exists_filled P hfit (n := n) (by omega)
  obtain ⟨events, hok, hlen⟩ := getEvents_calm uid db
    (show -2 ^ 31 ≤ req.fromSeq by omega) hto
  have hvalid : getEventsErrs conf req = [] :=
    (getEventsErrs_eq_nil_iff (by omega) hto).mpr ⟨hfrom, by omega, by omega⟩
  refine ⟨db, hfilled.reachable, events, ok_iff.mpr ⟨hvalid, hok⟩, ?_⟩
  have hlast : (n : ℤ) ≤ req.toSeq := by omega
  have hrows := le_length_inRange hlast fun seq hlo hhi => hfilled.rows seq (by omega) hhi
  omega

end

/-- The limit holds for a request exactly if the request is rejected for an end that is not
positive, or asks for at most `GetEventsLimit` sequences, or comes from a user without rows. -/
theorem honoursLimit_iff (P : Platform) (errorText : SqlError → String) (conf : WsConf) (uid : ℤ)
    (req : GetEventsReq) (huid : int32 uid = uid) (hfrom : int32 req.fromSeq = req.fromSeq)
    (hto : int32 req.toSeq = req.toSeq) :
    HonoursLimit P errorText conf uid req ↔
      uid < 0 ∨ req.fromSeq ≤ 0 ∨ req.toSeq ≤ 0 ∨
        req.toSeq - req.fromSeq < conf.getEventsLimit := by
  have huid := int32_range huid
  have hfrom := int32_range hfrom
  have hto := int32_range hto
  constructor
  · rintro ⟨hlimit, -⟩
    by_contra hcond
    obtain ⟨hpos, hfrom', -, hlong⟩ : 0 ≤ uid ∧ 0 < req.fromSeq ∧ 0 < req.toSeq ∧
        conf.getEventsLimit ≤ req.toSeq - req.fromSeq := by omega
    have hfit : fitsInt uid = true := decide_eq_true (by omega)
    obtain ⟨db, hdb, events, hok, hgt⟩ := exists_length_gt P errorText hfit hfrom' hto.2
      hlong
    have := hlimit db hdb .calm none events hok
    omega
  · intro hcond
    refine ⟨fun db hdb env broken events h => ?_, fun hf hle hshort db env broken => ?_⟩
    · have hvalid := (getEventsErrs_eq_nil_iff hfrom.2 hto.2).mp (ok_iff.mp h).1
      rcases hcond with hneg | hf | ht | hshort
      · exact length_le_of_neg hneg hdb h
      · omega
      · omega
      · exact length_le_of_short hshort h
    · rw [rejected_iff, not_not, getEventsErrs_eq_nil_iff hfrom.2 hto.2]
      have hmin : 25 ≤ conf.getEventsLimit := conf.min_le
      omega

def smallestLimit : WsConf := ⟨25, by decide, by decide⟩

theorem honoursLimit_first_sequences :
    HonoursLimit .utc (fun _ => "") smallestLimit 7 ⟨1, 25⟩ :=
  (honoursLimit_iff .utc (fun _ => "") smallestLimit 7 ⟨1, 25⟩ (by decide) (by decide)
    (by decide)).mpr (.inr (.inr (.inr (by decide))))

def sampleSaves : List StoreOp := (List.range 26).map fun n => .save .calm (nextEvent 7 n)

/-- A request for 26 sequences under the limit 25 is answered with 26 events. -/
theorem sampleSaves_exceed_limit :
    ∃ db events, (storeSystem .utc).Reachable db ∧
      (getEvents (fun _ => "") smallestLimit .calm none 7 ⟨1, 26⟩ db).1 = .ok events ∧
      smallestLimit.getEventsLimit < events.length := by
  have hrun : ((storeSystem .utc).run .empty sampleSaves).map (fun db =>
      (getEvents (fun _ => "") smallestLimit .calm none 7 ⟨1, 26⟩ db).1.toOption.map
        List.length) = some (some 26) := by
    decide +kernel
  obtain ⟨db, hdb, hlen⟩ := Option.map_eq_some_iff.mp hrun
  obtain ⟨events, hok, hlen⟩ := Option.map_eq_some_iff.mp hlen
  refine ⟨db, events, System.Reachable.run (.init rfl) _ hdb, ?_, ?_⟩
  · cases hr : (getEvents (fun _ => "") smallestLimit .calm none 7 ⟨1, 26⟩ db).1 with
    | error e =>
      rw [hr] at hok
      cases hok
    | ok events' =>
      rw [hr] at hok
      rw [Option.some.inj hok]
  · rw [hlen]
    decide

end MiniPush.Ws
