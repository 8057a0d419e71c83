import MiniPush.Store.Stats

/-! Result sets that break off. The loops over `rows.Next` in `GetEvents` and `GetReadStates` do not
ask `rows.Err`, so they take a broken result set for a short one. -/
namespace MiniPush.Store
open Foundation

/-- `rows.Next` returns false with an error before it comes to the end of the result set. -/
def interrupted {α : Type} (broken : Option ℕ) (rows : List α) : Bool :=
  match broken with
  | none => false
  | some n => n ≤ rows.length

theorem fetch_of_not_interrupted {α : Type} {broken : Option ℕ} {rows : List α}
    (h : interrupted broken rows = false) : fetch broken rows = rows := by
  cases broken with
  | none => rfl
  | some n =>
    have hlt : rows.length < n := by simpa [interrupted] using h
    exact List.take_of_length_le hlt.le

/-- A reader of result sets never answers with less: an interrupted result set is an error, and an
answer without an error is the one to all rows. -/
def NeverTruncates {α β : Type} (broken : Option ℕ) (rows : List α) (answer : List α → β)
    (result : Except SqlError β) : Prop :=
  (interrupted broken rows = true → ∃ e, result = .error e) ∧
    ∀ resp, result = .ok resp → resp = answer rows

/-- A reader that answers to whatever it was handed truncates exactly the interrupted result sets. -/
theorem neverTruncates_iff {α β : Type} {broken : Option ℕ} {rows : List α} {answer : List α → β}
    {result : Except SqlError β} {ok : Prop}
    (hok : ok → result = .ok (answer (fetch broken rows))) (hbad : ¬ok → ∃ e, result = .error e) :
    NeverTruncates broken rows answer result ↔ ¬(ok ∧ interrupted broken rows = true) := by
  constructor
  · rintro ⟨herror, -⟩ ⟨h, hbroken⟩
    obtain ⟨e, he⟩ := herror hbroken
    rw [hok h] at he
    cases he
  · intro h
    by_cases hgood : ok
    · have hwhole : interrupted broken rows = false := by
        rw [← Bool.not_eq_true]
        exact fun hbroken => h ⟨hgood, hbroken⟩
      refine ⟨fun hbroken => ?_, fun resp hresp => ?_⟩
      · rw [hwhole] at hbroken
        cases hbroken
      · rw [hok hgood, fetch_of_not_interrupted hwhole] at hresp
        exact (Except.ok.inj hresp).symm
    · obtain ⟨e, he⟩ := hbad hgood
      refine ⟨fun _ => ⟨e, he⟩, fun resp hresp => ?_⟩
      rw [he] at hresp
      cases hresp

section Queries
variable {env : TxEnv SqlError} {broken : Option ℕ} {uid : ℤ} {db : Database}

/-- The answer to `GetEvents` over the rows that the driver hands over. -/
theorem getEvents_of_rows {req : GetEventsReq} {rows : List (UserEventRow × EventRow)}
    (hrows : selectEvents uid req db = .ok (rows, db)) :
    (env.succeeds = true ∧ (fetch broken rows).all (fun row => fitsInt32 row.1.seq) = true →
      (getEvents env broken uid req db).1 = .ok ((fetch broken rows).map (readEvent uid))) ∧
    (¬(env.succeeds = true ∧ (fetch broken rows).all (fun row => fitsInt32 row.1.seq) = true) →
      ∃ e, (getEvents env broken uid req db).1 = .error e) := by
  cases hsucceeds : env.succeeds with
  | false =>
    refine ⟨fun h => ?_, fun _ => ?_⟩
    · cases h.1
    · exact withTx_statement_of_not_succeeds hsucceeds _ _ db
  | true =>
    rw [getEvents, getEventsBody, withTx_statement_of_succeeds hsucceeds _ hrows, scanEvents_eq]
    cases (fetch broken rows).all fun row => fitsInt32 row.1.seq with
    | true => exact ⟨fun _ => rfl, fun h => absurd ⟨rfl, rfl⟩ h⟩
    | false => exact ⟨fun h => absurd h.2 (by simp), fun _ => ⟨.scan, rfl⟩⟩

/-- The answer to `GetReadStates` over the rows that the driver hands over. -/
theorem getReadStates_of_rows {P : Platform} {now days : ℤ} {req : GetReadStatesReq}
    {rows : List UserEventRow} (hrows : selectReadStates P now uid days req.headSeq db = .ok (rows, db)) :
    (env.succeeds = true ∧ (fetch broken rows).all (fun r => fitsInt32 r.seq) = true →
      (getReadStates P env broken now uid days req db).1 = .ok (makeGetReadStatesResp
        ((fetch broken rows).map UserEventRow.seq) ((fetch broken rows).map UserEventRow.readState))) ∧
    (¬(env.succeeds = true ∧ (fetch broken rows).all (fun r => fitsInt32 r.seq) = true) →
      ∃ e, (getReadStates P env broken now uid days req db).1 = .error e) := by
  have hbody : ∀ result, (withTx env (getReadStatesBody P broken now uid days req) db).1 = result →
      (getReadStates P env broken now uid days req db).1 =
        result.map fun states => makeGetReadStatesResp (states.map Prod.fst) (states.map Prod.snd) := by
    rintro result rfl
    rw [getReadStates]
    rcases withTx env (getReadStatesBody P broken now uid days req) db with ⟨e | states, db'⟩ <;> rfl
  cases hsucceeds : env.succeeds with
  | false =>
    refine ⟨fun h => ?_, fun _ => ?_⟩
    · cases h.1
    · obtain ⟨e, he⟩ := withTx_statement_of_not_succeeds hsucceeds
        (selectReadStates P now uid days req.headSeq) _ db
      exact ⟨e, hbody _ he⟩
  | true =>
    rw [hbody _ rfl, getReadStatesBody, withTx_statement_of_succeeds hsucceeds _ hrows, scanReadStates_eq]
    cases (fetch broken rows).all fun r => fitsInt32 r.seq with
    | true =>
      refine ⟨fun _ => ?_, fun h => absurd ⟨rfl, rfl⟩ h⟩
      show Except.ok (makeGetReadStatesResp _ _) = _
      rw [List.map_map, List.map_map]
      rfl
    | false => exact ⟨fun h => absurd h.2 (by simp), fun _ => ⟨.scan, rfl⟩⟩

end Queries

/-- `GetEvents` and `GetReadStates` answer with less than the result set exactly where it breaks off
while begin, the query, the scans before the break and the commit succeed. -/
theorem truncates_iff_interrupted (P : Platform) (env : TxEnv SqlError) (broken : Option ℕ)
    (now uid days : ℤ) (req : GetEventsReq) (req' : GetReadStatesReq) (db : Database) :
    ∃ rows states, selectEvents uid req db = .ok (rows, db) ∧
      selectReadStates P now uid days req'.headSeq db = .ok (states, db) ∧
      (NeverTruncates broken rows (List.map (readEvent uid)) (getEvents env broken uid req db).1 ↔
        ¬((env.succeeds = true ∧ (fetch broken rows).all (fun row => fitsInt32 row.1.seq) = true) ∧
          interrupted broken rows = true)) ∧
      (NeverTruncates broken states
          (fun rows => makeGetReadStatesResp (rows.map UserEventRow.seq) (rows.map UserEventRow.readState))
          (getReadStates P env broken now uid days req' db).1 ↔
        ¬((env.succeeds = true ∧ (fetch broken states).all (fun r => fitsInt32 r.seq) = true) ∧
          interrupted broken states = true)) := by
  refine ⟨_, _, rfl, rfl, ?_, ?_⟩
  · exact neverTruncates_iff (getEvents_of_rows rfl).1 (getEvents_of_rows rfl).2
  · exact neverTruncates_iff (getReadStates_of_rows rfl).1 (getReadStates_of_rows rfl).2

/-- User 1 of `sampleOps` has the events 3, 2 and 1. If the result set breaks off after the first of
them, `GetEvents` answers without an error as if there were no others. -/
theorem sampleOps_truncated : ∃ db rows, (storeSystem .utc).run .empty sampleOps = some db ∧
    selectEvents 1 ⟨1, 3⟩ db = .ok (rows, db) ∧ rows.length = 3 ∧
    (∃ events, (getEvents .calm (some 1) 1 ⟨1, 3⟩ db).1 = .ok events ∧ events.length = 1) ∧
    ¬NeverTruncates (some 1) rows (List.map (readEvent 1)) (getEvents .calm (some 1) 1 ⟨1, 3⟩ db).1 := by
  refine ⟨_, _, rfl, rfl, by decide +kernel,
    ⟨_, (getEvents_of_rows rfl).1 ⟨rfl, by decide +kernel⟩, by decide +kernel⟩, ?_⟩
  rintro ⟨herror, -⟩
  obtain ⟨e, he⟩ := herror (by decide +kernel)
  rw [(getEvents_of_rows rfl).1 ⟨rfl, by decide +kernel⟩] at he
  cases he

end MiniPush.Store
