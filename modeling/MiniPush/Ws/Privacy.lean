import MiniPush.Ws.Requests

/-! What a user is told depends on its own requests and on the stored events alone: not on what other
users ask, and not on the texts of errors in the store. -/
namespace MiniPush.Ws.Requests
open Foundation Store

/-- Outcomes of a turn in two runs: the same for the session, and stores that look the same to its user. -/
def Alike (u : ℤ) (r r' : Turn × Database) : Prop := r.1 = r'.1 ∧ SameFor u r.2 r'.2

section Turns
variable {u : ℤ} {db db' : Database}

private theorem answer_alike {α : Type} (api : EventApi) (texts : SqlError → String) (req : ClientMsg)
    (wrap : α → Answer) {r r' : Except SqlError α × Database} (hres : r.1 = r'.1)
    (hdb : SameFor u r.2 r'.2) :
    Alike u (answer wrap (api.reply req r)) (answer wrap ({ api with errorText := texts }.reply req r')) := by
  obtain ⟨res, db⟩ := r
  obtain ⟨res', db'⟩ := r'
  obtain rfl : res = res' := hres
  cases res <;> exact ⟨rfl, hdb⟩

private theorem panicking_alike {α : Type} (api : EventApi) (texts : SqlError → String) (req : ClientMsg)
    (wrap : α → Answer) {r r' : Except SqlError (Option α) × Database} (hres : r.1 = r'.1)
    (hdb : SameFor u r.2 r'.2) :
    Option.Rel (Alike u) (((panicking r).map (api.reply req)).map (answer wrap))
      (((panicking r').map ({ api with errorText := texts }.reply req)).map (answer wrap)) := by
  obtain ⟨res, db⟩ := r
  obtain ⟨res', db'⟩ := r'
  obtain rfl : res = res' := hres
  rcases res with err | _ | resp
  · exact .some ⟨rfl, hdb⟩
  · exact .none
  · exact .some ⟨rfl, hdb⟩

private theorem serve_alike (api : EventApi) (texts : SqlError → String) (call : Call) (req : ClientMsg)
    (h : SameFor u db db') :
    Option.Rel (Alike u) (api.serve call u req db)
      ({ api with errorText := texts }.serve call u req db') := by
  unfold EventApi.serve
  split
  · obtain ⟨hres, hdb⟩ := stats_agree api.platform call.env call.now api.conf.eventTtlDays _ h
    exact .some (answer_alike api texts _ _ (congrArg (Except.map _) hres) hdb)
  · unfold EventApi.getEvents
    dsimp only
    split_ifs
    · exact .some ⟨rfl, h⟩
    · obtain ⟨hres, hdb⟩ := getEvents_agree call.env call.broken _ h
      exact .some (answer_alike api texts _ _ hres hdb)
  · unfold EventApi.setRead
    split_ifs
    · exact .some ⟨rfl, h⟩
    · obtain ⟨hres, hdb⟩ := setRead_agree call.env _ h
      exact .some (answer_alike api texts _ _ hres hdb)
  · unfold EventApi.getReadStates
    split_ifs
    · exact .some ⟨rfl, h⟩
    · obtain ⟨hres, hdb⟩ := getReadStates_agree api.platform call.env call.broken call.now
        api.conf.eventTtlDays _ h
      exact panicking_alike api texts _ _ hres hdb
  · dsimp only
    split_ifs
    · exact .some ⟨rfl, h⟩
    · exact .some ⟨rfl, h⟩
  · exact .some ⟨rfl, h⟩

/-- A user that sends a frame to stores that look the same to it is told the same. -/
theorem recv_alike (api : EventApi) (texts : SqlError → String) (call : Call) (frame : Frame)
    (h : SameFor u db db') :
    Option.Rel (Alike u) (api.recv call u db frame)
      ({ api with errorText := texts }.recv call u db' frame) := by
  cases frame with
  | error => exact .some ⟨rfl, h⟩
  | other => exact .some ⟨rfl, h⟩
  | text msg =>
    simp only [EventApi.recv]
    rcases api.unmarshal msg with ⟨req, _ | err⟩
    · exact serve_alike api texts call req h
    · exact .some ⟨rfl, h⟩

private theorem answer_snd {α : Type} (api : EventApi) (req : ClientMsg) (wrap : α → Answer)
    (r : Except SqlError α × Database) : (answer wrap (api.reply req r)).2 = r.2 := by
  obtain ⟨_ | _, db⟩ := r <;> rfl

private theorem getReadStates_returns (api : EventApi) (call : Call) (v : ℤ) (req : GetReadStatesReq)
    (db : Database) : ∃ resp, api.getReadStates call v req db = some (resp, db) := by
  unfold EventApi.getReadStates
  split_ifs
  · exact ⟨_, rfl⟩
  · have hdb := getReadStates_readOnly api.platform call.env call.broken call.now v
      api.conf.eventTtlDays req db
    have hne := getReadStates_ne_none api.platform call.env call.broken call.now v
      api.conf.eventTtlDays req db
    revert hdb hne
    rcases Store.getReadStates api.platform call.env call.broken call.now v api.conf.eventTtlDays
      req db with ⟨_ | _ | _, db'⟩
    · rintro rfl -
      exact ⟨_, rfl⟩
    · rintro - hne
      exact absurd rfl hne
    · rintro rfl -
      exact ⟨_, rfl⟩

/-- The only request that writes is `setRead`. -/
theorem serve_writes {api : EventApi} {call : Call} {v : ℤ} {req : ClientMsg} {r : Turn × Database}
    (h : api.serve call v req db = some r) :
    r.2 = db ∨ ∃ seq, r.2 = (Store.setRead call.env v seq db).2 := by
  unfold EventApi.serve at h
  split at h
  · obtain rfl := Option.some.inj h
    rw [EventApi.stats, answer_snd, Prod.map_snd, stats_readOnly]
    exact .inl rfl
  · obtain rfl := Option.some.inj h
    unfold EventApi.getEvents
    dsimp only
    split_ifs
    · exact .inl rfl
    · rw [answer_snd, getEvents_readOnly]
      exact .inl rfl
  · obtain rfl := Option.some.inj h
    unfold EventApi.setRead
    split_ifs
    · exact .inl rfl
    · rw [answer_snd]
      exact .inr ⟨_, rfl⟩
  · rename_i states _ _ _ _
    obtain ⟨resp, hresp⟩ := getReadStates_returns api call v states db
    rw [hresp] at h
    obtain rfl := Option.some.inj h
    cases resp <;> exact .inl rfl
  · split_ifs at h <;> obtain rfl := Option.some.inj h <;> exact .inl rfl
  · obtain rfl := Option.some.inj h
    exact .inl rfl

theorem recv_writes {api : EventApi} {call : Call} {v : ℤ} {frame : Frame} {r : Turn × Database}
    (h : api.recv call v db frame = some r) :
    r.2 = db ∨ ∃ seq, r.2 = (Store.setRead call.env v seq db).2 := by
  cases frame with
  | error =>
    obtain rfl := Option.some.inj h
    exact .inl rfl
  | other =>
    obtain rfl := Option.some.inj h
    exact .inl rfl
  | text msg =>
    simp only [EventApi.recv] at h
    rcases hm : api.unmarshal msg with ⟨req, _ | err⟩ <;> rw [hm] at h
    · exact serve_writes h
    · obtain rfl := Option.some.inj h
      exact .inl rfl

/-- What one user asks for changes nothing that another user can see. -/
theorem recv_sameFor {v : ℤ} (hv : v ≠ u) {api : EventApi} {call : Call} {frame : Frame}
    {r : Turn × Database} (h : api.recv call v db frame = some r) : SameFor u r.2 db := by
  rcases recv_writes h with heq | ⟨seq, heq⟩
  · rw [heq]
    exact .refl u db
  · rw [heq]
    exact setRead_sameFor hv call.env seq db

end Turns

/-- Two states that look the same to a user: its sessions are as far, and the stores look the same. -/
structure SameTo {ι : Type} (uid : ι → ℤ) (u : ℤ) (s s' : Sessions ι) : Prop where
  db : SameFor u s.db s'.db
  returned : ∀ i, uid i = u → s.returned i = s'.returned i

section Runs
variable {ι : Type} [DecidableEq ι] {uid : ι → ℤ} {u : ℤ}

theorem SameTo.update {s s' : Sessions ι} (h : SameTo uid u s s') {db db' : Database}
    (hdb : SameFor u db db') (i : ι) (b : Bool) :
    SameTo uid u ⟨db, Function.update s.returned i b⟩ ⟨db', Function.update s'.returned i b⟩ := by
  refine ⟨hdb, fun j hj => ?_⟩
  by_cases hji : j = i
  · subst hji
    simp only [Function.update_self]
  · simp only [Function.update_of_ne hji]
    exact h.returned j hj

theorem SameTo.update_left {s s' : Sessions ι} (h : SameTo uid u s s') {db : Database}
    (hdb : SameFor u db s'.db) {i : ι} (hi : uid i ≠ u) (b : Bool) :
    SameTo uid u ⟨db, Function.update s.returned i b⟩ s' := by
  refine ⟨hdb, fun j hj => ?_⟩
  have hji : j ≠ i := fun he => hi (he ▸ hj)
  simp only [Function.update_of_ne hji]
  exact h.returned j hj

/-- The unwinding of the requests: sessions of other users are hidden. -/
theorem requests_unwind (api : EventApi) (texts : SqlError → String) (uid : ι → ℤ) (u : ℤ) :
    System.Unwinding (requestSystem api uid) (requestSystem { api with errorText := texts } uid)
      (told api uid u) (told { api with errorText := texts } uid u) (Label.foreign uid u)
      (SameTo uid u) where
  skip s s' l t h hl ht := by
    cases l with
    | frame i frame call =>
      have hi : uid i ≠ u := of_decide_eq_true hl
      refine ⟨if_neg fun hc => hi hc.1, ?_⟩
      simp only [requestSystem] at ht
      split_ifs at ht
      obtain ⟨r, hr, rfl⟩ := Option.map_eq_some_iff.mp ht
      exact h.update_left ((recv_sameFor hi hr).trans h.db) hi _
    | closing i =>
      have hi : uid i ≠ u := of_decide_eq_true hl
      refine ⟨rfl, ?_⟩
      simp only [requestSystem] at ht
      split_ifs at ht
      obtain rfl := Option.some.inj ht
      exact h.update_left h.db hi true
    | save env e => cases hl
    | deleteOutdated env now ttlDays => cases hl
  both s s' l h hl := by
    cases l with
    | frame i frame call =>
      obtain rfl : uid i = u := not_not.mp (of_decide_eq_false hl)
      have hret := h.returned i rfl
      have halike := recv_alike api texts call frame h.db
      simp only [told, requestSystem, hret]
      cases s'.returned i with
      | true => exact ⟨rfl, .inl ⟨rfl, rfl⟩⟩
      | false =>
        simp only [Bool.false_eq_true, if_false, and_self, if_true]
        cases hr : api.recv call (uid i) s.db frame <;>
          cases hr' : EventApi.recv { api with errorText := texts } call (uid i) s'.db frame <;>
          rw [hr, hr'] at halike
        · exact ⟨rfl, .inl ⟨rfl, rfl⟩⟩
        · cases halike
        · cases halike
        · obtain ⟨hturn, hdb⟩ : Alike (uid i) _ _ := by
            cases halike with
            | some halike => exact halike
          refine ⟨by simp only [hturn], .inr ⟨_, _, rfl, rfl, ?_⟩⟩
          simp only [hturn]
          exact h.update hdb i _
    | closing i =>
      obtain rfl : uid i = u := not_not.mp (of_decide_eq_false hl)
      have hret := h.returned i rfl
      refine ⟨rfl, ?_⟩
      simp only [requestSystem, hret]
      cases s'.returned i with
      | true => exact .inl ⟨rfl, rfl⟩
      | false => exact .inr ⟨_, _, rfl, rfl, h.update h.db i true⟩
    | save env e => exact ⟨rfl, .inr ⟨_, _, rfl, rfl, save_sameFor env e h.db, h.returned⟩⟩
    | deleteOutdated env now ttlDays =>
      exact ⟨rfl, .inr ⟨_, _, rfl, rfl, deleteOutdatedEvents_sameFor api.platform env now ttlDays h.db,
        h.returned⟩⟩

end Runs

/-- In every run, what the sessions of a user are told is the same as in the run without the frames of
all other users' sessions, and under other texts of the errors in the store. -/
theorem told_by_own_requests {ι : Type} [DecidableEq ι] (api : EventApi) (texts : SqlError → String)
    (uid : ι → ℤ) (u : ℤ) (s : Sessions ι) (ls : List (Label ι)) :
    (requestSystem api uid).observe (told api uid u) s ls =
      (requestSystem { api with errorText := texts } uid).observe
        (told { api with errorText := texts } uid u) s (ls.filter fun l => !l.foreign uid u) :=
  (requests_unwind api texts uid u).observe_eq ⟨.refl u s.db, fun _ _ => rfl⟩ ls

/-- No frame makes `recvLoop` panic, whatever the store holds and whatever fails in it. -/
theorem recv_never_panics (api : EventApi) (call : Call) (uid : ℤ) (db : Database) (frame : Frame) :
    (api.recv call uid db frame).isSome := by
  cases frame with
  | error => rfl
  | other => rfl
  | text msg =>
    simp only [EventApi.recv]
    rcases api.unmarshal msg with ⟨req, _ | err⟩
    · unfold EventApi.serve
      dsimp only
      split
      · rfl
      · rfl
      · rfl
      · rename_i states _ _ _ _
        obtain ⟨resp, hresp⟩ := getReadStates_returns api call uid states db
        rw [hresp]
        rfl
      · split_ifs <;> rfl
      · rfl
    · rfl

end MiniPush.Ws.Requests
