import MiniPush.Ws.HandlerSpec

/-! Who holds a handler's mutex, and what keeps its goroutines from waiting for each other
forever. -/
namespace MiniPush.Ws

def LoopState.pushing : LoopState → Bool
  | .running (some (.push _)) _ => true
  | _ => false

namespace HandlerRun
variable {storeLocked hubHolds closes needed : Bool} {h h' : HandlerRun} {side : Side}
  {old new : LoopState} {stored : Bool}

/-- `appendDataChan` does not block, or `sendLoop` is about to receive. -/
def drains (h : HandlerRun) (data : SessionData) : Bool :=
  (h.offer data).isSome || h.loop .send = .running none []

/-- A goroutine holds the mutex at the send on the full `dataChan`. -/
def pushing (hubHolds : Bool) (h : HandlerRun) : Bool :=
  hubHolds || (h.loop .recv).pushing || (h.loop .send).pushing

/-- The next statement of the loop starts no wait that `Hub.Run` could be part of. `closes`
says that `HandlerStore.close` still has to close the handler, `needed` that `Hub.Run` still
has to append to its `dataChan` while `Standalone.Run` does not receive. -/
def mayWork (closes needed : Bool) (h : HandlerRun) (side : Side) : Bool :=
  match h.loop side with
  | .running none (.append data :: _) => h.drains data
  | .running none (.close :: _) => h.closing || !closes
  | .running (some .del) _ => !h.stored || !needed
  | _ => true

/-- What holds of a handler between any two steps of an orderly run. -/
structure Sound (hubHolds closes needed : Bool) (h : HandlerRun) : Prop where
  absent : h.serve ≠ .returned → ∀ side, h.loop side = .absent
  offline : ∀ side, (h.loop side).held = some .offline → h.stored = false
  short : h.dataChan.length ≤ dataChanCap
  hubFree : ∀ side, (h.loop side).held ≠ none → hubHolds = false
  exclusive : ∀ side side', (h.loop side).held ≠ none → (h.loop side').held ≠ none → side = side'
  draining : h.pushing hubHolds = true →
    h.closing = true ∨ h.dataChan.length < dataChanCap ∨ h.loop .send = .running none []
  stays : closes = true → h.stored = true ∧ ∀ side, (h.loop side).held ≠ some .del
  receives : needed = true → ∀ side, (h.loop side).held ≠ some .offline

theorem locked_eq_false_iff : h.locked = false ↔ ∀ side, (h.loop side).held = none := by
  simp only [locked, Bool.or_eq_false_iff, Option.isSome_eq_false_iff, Option.isNone_iff_eq_none]
  constructor
  · intro hl side
    cases side with
    | recv => exact hl.1
    | send => exact hl.2
  · intro hl
    exact ⟨hl .recv, hl .send⟩

theorem pushing_held (hp : old.pushing = true) : ∃ data, old.held = some (.push data) := by
  unfold LoopState.pushing at hp
  split at hp
  · next data todo => exact ⟨data, rfl⟩
  · exact absurd hp (by simp)

theorem pushing_iff : h.pushing hubHolds = true ↔
    hubHolds = true ∨ ∃ side, (h.loop side).pushing = true := by
  simp only [pushing, Bool.or_eq_true, or_assoc]
  apply or_congr_right
  constructor
  · rintro (hr | hs)
    · exact ⟨.recv, hr⟩
    · exact ⟨.send, hs⟩
  · rintro ⟨side, hp⟩
    cases side with
    | recv => exact .inl hp
    | send => exact .inr hp

theorem Sound.mono {hubHolds' closes' needed' : Bool} (hs : h.Sound hubHolds closes needed)
    (hh : hubHolds' = true → hubHolds = true) (hc : closes' = true → closes = true)
    (hn : needed' = true → needed = true) : h.Sound hubHolds' closes' needed' where
  absent := hs.absent
  offline := hs.offline
  short := hs.short
  hubFree side hheld := by
    have hfree := hs.hubFree side hheld
    cases hubHolds' with
    | false => rfl
    | true => exact absurd (hh rfl) (by simp [hfree])
  exclusive := hs.exclusive
  draining hp := by
    apply hs.draining
    rw [pushing_iff] at hp ⊢
    exact hp.imp_left hh
  stays h := hs.stays (hc h)
  receives h := hs.receives (hn h)

namespace LoopMove

theorem held_ne_none (hm : LoopMove storeLocked hubHolds h old new stored)
    (hn : new.held ≠ none) : old.held ≠ none ∨ h.locked = false ∧ hubHolds = false := by
  cases hm with
  | block hl hh _ => exact .inr ⟨hl, hh⟩
  | lock hl hh _ => exact .inr ⟨hl, hh⟩
  | unstoreHeld _ _ => exact .inl (by simp [LoopState.held])
  | resume _ | next _ | unstore _ _ | leave | turn _ | stop =>
    exact absurd rfl hn

theorem held_offline (hm : LoopMove storeLocked hubHolds h old new stored)
    (hn : new.held = some .offline) : old.held = some .del ∧ h.stored = true ∧ stored = false := by
  cases hm with
  | unstoreHeld _ hs => exact ⟨rfl, hs, rfl⟩
  | resume _ | next _ | block _ _ _ | lock _ _ _ | unstore _ _ | leave | turn _ | stop =>
    simp [LoopState.held] at hn

theorem held_del (hm : LoopMove storeLocked hubHolds h old new stored)
    (hn : new.held = some .del) : ∃ todo, old = .running none (.close :: todo) ∧
      h.closing = false := by
  cases hm with
  | @lock todo _ _ hc => exact ⟨todo, rfl, hc⟩
  | resume _ | next _ | block _ _ _ | unstoreHeld _ _ | unstore _ _ | leave | turn _ | stop =>
    simp [LoopState.held] at hn

theorem stored_eq (hm : LoopMove storeLocked hubHolds h old new stored) :
    stored = h.stored ∨ storeLocked = false ∧ stored = false := by
  cases hm with
  | unstoreHeld hl _ => exact .inr ⟨hl, rfl⟩
  | unstore hl _ => exact .inr ⟨hl, rfl⟩
  | resume _ | next _ | block _ _ _ | lock _ _ _ | leave | turn _ | stop => exact .inl rfl

theorem ne_absent (hm : LoopMove storeLocked hubHolds h old new stored) : old ≠ .absent := by
  cases hm <;> simp

theorem pushing (hm : LoopMove storeLocked hubHolds h old new stored)
    (hn : new.pushing = true) : ∃ data todo, old = .running none (.append data :: todo) ∧
      h.offer data = none := by
  cases hm with
  | @block data todo _ _ hoffer => exact ⟨data, todo, rfl, hoffer⟩
  | resume _ | next _ | lock _ _ _ | unstoreHeld _ _ | unstore _ _ | leave | turn _ | stop =>
    simp [LoopState.pushing] at hn

end LoopMove

/-- Whoever holds the mutex after a move held it before, or took it when it was free. -/
private theorem Moved.held (hm : Moved storeLocked hubHolds h side h') {x : Side}
    (hx : (h'.loop x).held ≠ none) :
    (h.loop x).held ≠ none ∨ x = side ∧ h.locked = false ∧ hubHolds = false := by
  by_cases hxs : x = side
  · subst hxs
    exact (hm.move.held_ne_none hx).imp_right fun hl => ⟨rfl, hl⟩
  · rw [hm.other x hxs] at hx
    exact .inl hx

private theorem Sound.moved_hubFree (hs : h.Sound hubHolds closes needed)
    (hm : Moved storeLocked hubHolds h side h') {x : Side} (hx : (h'.loop x).held ≠ none) :
    hubHolds = false := by
  rcases hm.held hx with hold | hnew
  · exact hs.hubFree x hold
  · exact hnew.2.2

private theorem Sound.moved_exclusive (hs : h.Sound hubHolds closes needed)
    (hm : Moved storeLocked hubHolds h side h') {x y : Side} (hx : (h'.loop x).held ≠ none)
    (hy : (h'.loop y).held ≠ none) : x = y := by
  rcases hm.held hx with hxold | hxnew
  · rcases hm.held hy with hyold | hynew
    · exact hs.exclusive x y hxold hyold
    · exact absurd (locked_eq_false_iff.mp hynew.2.1 x) hxold
  · rcases hm.held hy with hyold | hynew
    · exact absurd (locked_eq_false_iff.mp hxnew.2.1 y) hyold
    · rw [hxnew.1, hynew.1]

/-- Nobody appends to `dataChan` while another goroutine holds the mutex. -/
private theorem Sound.length_le (hs : h.Sound hubHolds closes needed)
    (hm : Moved storeLocked hubHolds h side h')
    (hother : hubHolds = true ∨ ∃ x, x ≠ side ∧ (h.loop x).held ≠ none) :
    h'.dataChan.length ≤ h.dataChan.length := by
  rcases hm.grown with hle | ⟨-, ⟨hl, hh⟩ | ⟨data, hpush⟩⟩
  · exact hle
  · rcases hother with hub | ⟨x, -, hx⟩
    · exact absurd hub (by simp [hh])
    · exact absurd (locked_eq_false_iff.mp hl x) hx
  · have hside : (h.loop side).held ≠ none := by simp [hpush]
    rcases hother with hub | ⟨x, hne, hx⟩
    · exact absurd hub (by simp [hs.hubFree side hside])
    · exact absurd (hs.exclusive x side hx hside) hne

private theorem Sound.moved_draining (hs : h.Sound hubHolds closes needed)
    (hm : Moved storeLocked hubHolds h side h') (hok : h.mayWork closes needed side = true)
    (hturn : h.loop .send = .running none [] → side = .send →
      h'.closing = true ∨ h'.dataChan.length < dataChanCap ∨ h.pushing hubHolds = false)
    (hp : h'.pushing hubHolds = true) :
    h'.closing = true ∨ h'.dataChan.length < dataChanCap ∨ h'.loop .send = .running none [] := by
  by_cases hblock : (h'.loop side).pushing = true
  · obtain ⟨data, todo, hold, hoffer⟩ := hm.move.pushing hblock
    have hsend : h.loop .send = .running none [] := by
      simpa [mayWork, hold, drains, hoffer] using hok
    have hne : Side.send ≠ side := by
      intro he
      rw [← he, hsend] at hold
      simp at hold
    rw [hm.other _ hne]
    exact .inr (.inr hsend)
  · have hold : h.pushing hubHolds = true ∧
        (hubHolds = true ∨ ∃ x, x ≠ side ∧ (h.loop x).held ≠ none) := by
      rw [pushing_iff] at hp ⊢
      rcases hp with hub | ⟨x, hx⟩
      · exact ⟨.inl hub, .inl hub⟩
      · have hne : x ≠ side := by
          intro he
          exact hblock (he ▸ hx)
        rw [hm.other x hne] at hx
        obtain ⟨data, hdata⟩ := pushing_held hx
        exact ⟨.inr ⟨x, hx⟩, .inr ⟨x, hne, by simp [hdata]⟩⟩
    have hlen := hs.length_le hm hold.2
    rcases hs.draining hold.1 with hc | hl | hsend
    · exact .inl (hm.closing hc)
    · exact .inr (.inl (lt_of_le_of_lt hlen hl))
    · by_cases hne : Side.send = side
      · rcases hturn hsend hne.symm with hc | hl | hnone
        · exact .inl hc
        · exact .inr (.inl hl)
        · exact absurd hold.1 (by simp [hnone])
      · rw [hm.other _ hne]
        exact .inr (.inr hsend)

/-- A move that starts no wait on `Hub.Run` keeps the handler sound. -/
theorem Sound.moved (hs : h.Sound hubHolds closes needed)
    (hm : Moved storeLocked hubHolds h side h') (hstore : closes = true → storeLocked = true)
    (hok : h.mayWork closes needed side = true)
    (hturn : h.loop .send = .running none [] → side = .send →
      h'.closing = true ∨ h'.dataChan.length < dataChanCap ∨ h.pushing hubHolds = false) :
    h'.Sound hubHolds closes needed where
  absent hserve := by
    rw [hm.serve] at hserve
    exact absurd (hs.absent hserve side) hm.move.ne_absent
  offline x hx := by
    by_cases hxs : x = side
    · subst hxs
      exact (hm.move.held_offline hx).2.2
    · rw [hm.other x hxs] at hx
      rcases hm.move.stored_eq with he | he
      · rw [he]
        exact hs.offline x hx
      · exact he.2
  short := by
    rcases hm.grown with hl | ⟨hl, -⟩
    · exact hl.trans hs.short
    · exact hl
  hubFree x hx := hs.moved_hubFree hm hx
  exclusive x y hx hy := hs.moved_exclusive hm hx hy
  draining hp := hs.moved_draining hm hok hturn hp
  stays hc := by
    have hstays := hs.stays hc
    constructor
    · rcases hm.move.stored_eq with he | he
      · rw [he]
        exact hstays.1
      · exact absurd (hstore hc) (by simp [he.1])
    · intro x hx
      by_cases hxs : x = side
      · subst hxs
        obtain ⟨todo, hold, hclosing⟩ := hm.move.held_del hx
        simp [mayWork, hold, hclosing, hc] at hok
      · rw [hm.other x hxs] at hx
        exact hstays.2 x hx
  receives hn := by
    intro x hx
    by_cases hxs : x = side
    · subst hxs
      obtain ⟨hold, hstored, -⟩ := hm.move.held_offline hx
      cases hl : h.loop x with
      | running held todo =>
        rw [hl] at hold
        obtain rfl : held = some .del := hold
        simp [mayWork, hl, hstored, hn] at hok
      | absent | finished => simp [hl, LoopState.held] at hold
    · rw [hm.other x hxs] at hx
      exact hs.receives hn x hx

theorem mayWork_of_turn (hl : h.loop side = .running none []) :
    h.mayWork closes needed side = true := by
  simp [mayWork, hl]

theorem Sound.take {written : Bool} (hs : h.Sound hubHolds closes needed)
    (hstore : closes = true → storeLocked = true) (ht : h.take written = some h') :
    h'.Sound hubHolds closes needed := by
  have hm : Moved storeLocked hubHolds h .send h' := take_moved ht
  unfold HandlerRun.take at ht
  split at ht
  · exact absurd ht (by simp)
  · next data rest hdata =>
    split_ifs at ht with hl
    obtain rfl := Option.some.inj ht
    apply hs.moved hm hstore (mayWork_of_turn hl)
    intro _ _
    have hshort := hs.short
    rw [hdata, List.length_cons] at hshort
    exact .inr (.inl hshort)

theorem Sound.sendReturn (hs : h.Sound hubHolds closes needed)
    (hstore : closes = true → storeLocked = true) (hr : h.sendReturn = some h') :
    h'.Sound hubHolds closes needed := by
  have hm : Moved storeLocked hubHolds h .send h' := sendReturn_moved hr
  unfold HandlerRun.sendReturn at hr
  split_ifs at hr with hl
  obtain rfl := Option.some.inj hr
  apply hs.moved hm hstore (mayWork_of_turn hl.1)
  intro _ _
  exact .inl hl.2.1

theorem Sound.ping {written : Bool} (hs : h.Sound hubHolds closes needed)
    (hstore : closes = true → storeLocked = true)
    (hok : written = true ∨ h.pushing hubHolds = false) (hp : h.ping written = some h') :
    h'.Sound hubHolds closes needed := by
  rcases @ping_moved storeLocked hubHolds _ _ written hp with rfl | hm
  · exact hs
  · unfold HandlerRun.ping at hp
    split_ifs at hp with hl hw
    · obtain rfl := Option.some.inj hp
      exact hs
    · apply hs.moved hm hstore (mayWork_of_turn hl)
      intro _ _
      exact .inr (.inr (hok.resolve_left hw))

theorem Sound.read {enableClientMsg : Bool} {result : ReadResult}
    (hs : h.Sound hubHolds closes needed) (hstore : closes = true → storeLocked = true)
    (hr : h.read enableClientMsg result = some h') : h'.Sound hubHolds closes needed := by
  have hm : Moved storeLocked hubHolds h .recv h' := read_moved hr
  unfold HandlerRun.read at hr
  split_ifs at hr with hl
  exact hs.moved hm hstore (mayWork_of_turn hl) fun _ he => absurd he (by decide)

theorem Sound.recvReturn (hs : h.Sound hubHolds closes needed)
    (hstore : closes = true → storeLocked = true) (hr : h.recvReturn = some h') :
    h'.Sound hubHolds closes needed := by
  have hm : Moved storeLocked hubHolds h .recv h' := recvReturn_moved hr
  unfold HandlerRun.recvReturn at hr
  split_ifs at hr with hl
  exact hs.moved hm hstore (mayWork_of_turn hl.1) fun _ he => absurd he (by decide)

theorem Sound.work (hs : h.Sound hubHolds closes needed)
    (hstore : closes = true → storeLocked = true) (hok : h.mayWork closes needed side = true)
    (hw : h.work storeLocked hubHolds side = some h') : h'.Sound hubHolds closes needed := by
  apply hs.moved (work_moved hw) hstore hok
  intro hl he
  subst he
  simp [HandlerRun.work, hl] at hw

theorem Sound.delivered (hs : h.Sound hubHolds closes needed)
    (hstore : closes = true → storeLocked = true) (hd : h.delivered side = some h') :
    h'.Sound hubHolds closes needed := by
  have hm : Moved storeLocked hubHolds h side h' := delivered_moved hd
  unfold HandlerRun.delivered at hd
  split at hd
  · next todo hl =>
    exact hs.moved hm hstore (by simp [mayWork, hl]) fun hsend he => by simp [← he, hl] at hsend
  · next todo hl =>
    exact hs.moved hm hstore (by simp [mayWork, hl]) fun hsend he => by simp [← he, hl] at hsend
  · next todo hl =>
    exact hs.moved hm hstore (by simp [mayWork, hl]) fun hsend he => by simp [← he, hl] at hsend
  · exact absurd hd (by simp)

theorem Sound.serve {serve : ServePhase} (hs : h.Sound hubHolds closes needed)
    (hserve : h.serve ≠ .returned) (hstored : closes = true → stored = true) :
    Sound hubHolds closes needed { h with serve := serve, stored := stored } where
  absent _ := hs.absent hserve
  offline side hheld := by
    simp [hs.absent hserve side, LoopState.held] at hheld
  short := hs.short
  hubFree := hs.hubFree
  exclusive := hs.exclusive
  draining := hs.draining
  stays hc := ⟨hstored hc, (hs.stays hc).2⟩
  receives := hs.receives

theorem Sound.start (hs : h.Sound hubHolds closes needed) : Sound hubHolds closes needed
    { h with serve := .returned, loop := fun _ => .running none [] } where
  absent hserve := absurd rfl hserve
  offline side hheld := by simp [LoopState.held] at hheld
  short := hs.short
  hubFree side hheld := absurd rfl hheld
  exclusive side _ hheld := absurd rfl hheld
  draining _ := .inr (.inr rfl)
  stays hc := ⟨(hs.stays hc).1, fun side hheld => by simp [LoopState.held] at hheld⟩
  receives _ side hheld := by simp [LoopState.held] at hheld

theorem Sound.offer {data : SessionData} (hs : h.Sound hubHolds closes needed)
    (hfree : ∀ side, (h.loop side).held = none) (ho : h.offer data = some h') :
    h'.Sound false closes needed := by
  obtain ⟨hloop, hstored, hserve, hclosing, hlen⟩ := offer_eq_some ho
  constructor
  · rw [hloop, hserve]
    exact hs.absent
  · rw [hloop, hstored]
    exact hs.offline
  · rcases hlen with hl | hl
    · exact hl.trans hs.short
    · exact hl
  · exact fun _ _ => rfl
  · rw [hloop]
    exact hs.exclusive
  · intro hp
    obtain hp | ⟨side, hside⟩ := pushing_iff.mp hp
    · exact absurd hp (by decide)
    · obtain ⟨data, hdata⟩ := pushing_held hside
      rw [hloop, hfree side] at hdata
      exact absurd hdata (by simp)
  · rw [hloop, hstored]
    exact hs.stays
  · rw [hloop]
    exact hs.receives

theorem Sound.block {data : SessionData} (hs : h.Sound hubHolds closes needed)
    (hfree : h.locked = false) (hdrains : h.drains data = true) (ho : h.offer data = none) :
    h.Sound true closes needed where
  absent := hs.absent
  offline := hs.offline
  short := hs.short
  hubFree side hheld := absurd (locked_eq_false_iff.mp hfree side) hheld
  exclusive := hs.exclusive
  draining _ := by
    right; right
    simpa [drains, ho] using hdrains
  stays := hs.stays
  receives := hs.receives

/-- A handler that is stored does not wait for `Standalone.Run` under its mutex. -/
theorem Sound.need {needed' : Bool} (hs : h.Sound hubHolds closes needed)
    (hn : needed' = true → needed = true ∨ h.stored = true) : h.Sound hubHolds closes needed' :=
  { hs with
    receives := by
      intro h' side hheld
      rcases hn h' with hneed | hstored
      · exact hs.receives hneed side hheld
      · exact absurd (hs.offline side hheld) (by simp [hstored]) }

theorem Sound.close (hs : h.Sound hubHolds closes needed) :
    Sound hubHolds closes needed { h with closing := true } where
  absent := hs.absent
  offline := hs.offline
  short := hs.short
  hubFree := hs.hubFree
  exclusive := hs.exclusive
  draining _ := .inl rfl
  stays := hs.stays
  receives := hs.receives

theorem Sound.remove (hs : h.Sound hubHolds false needed) :
    Sound hubHolds false needed { h with stored := false } where
  absent := hs.absent
  offline _ _ := rfl
  short := hs.short
  hubFree := hs.hubFree
  exclusive := hs.exclusive
  draining := hs.draining
  stays hc := absurd hc (by decide)
  receives := hs.receives

end HandlerRun
end MiniPush.Ws
