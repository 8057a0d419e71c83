import MiniPush.Ws.Opening
import MiniPush.Ws.SlowSession

/-! A producer that waits for room in a `dataChan` that nobody reads: such a wait never ends, and it is
`Hub.Run` that may be caught in it. -/
namespace MiniPush.Ws.HubLocks
open Foundation

variable {ι : Type} [DecidableEq ι] {s s' : HubState ι} {l : Label ι} {e : Effect ι} {g : Gor ι} {i : ι}
  {uid : ι → ℤ} {enableClientMsg : Bool}

/-- A goroutine with the mutex of `i` waits for room in `dataChan`, and `sendLoop` does not receive. -/
structure Wedged (s : HubState ι) (i : ι) (g : Gor ι) (v : SessionData) : Prop where
  waits : s.locks.held g = some (i, .push v)
  full : s.full i = true
  deaf : s.receives i = false

section Wedged
variable {v : SessionData}

theorem Wedged.gor_ne (hw : Wedged s i g v) (h : Steps s l e) : g ≠ e.gor := by
  rintro rfl
  have hwaits := hw.waits
  cases h with
  | push hheld _ hroom =>
    have hj := hheld.symm.trans hwaits
    obtain ⟨rfl, -⟩ := Prod.mk.inj (Option.some.inj hj)
    rw [hw.full] at hroom
    cases hroom
  | finish hop hheld _ =>
    obtain ⟨-, he⟩ := Prod.mk.inj (Option.some.inj (hheld.symm.trans hwaits))
    rcases hop with rfl | rfl <;> cases he
  | plain _ hheld _ _ _ _ | exit hheld _ | closeEach hheld _ | appendIgnored hheld _ _ _ | append hheld _ _ _
  | closeIgnored hheld _ _ | close hheld _ _ | closeFrame hheld _ | writing hheld _ | shutStop hheld _
  | shut hheld _ | del hheld _ | remove hheld _ | write hheld _ | wrote _ hheld _ | take hheld _ _
  | tick hheld _ | drained hheld _ _ =>
    have hj := hheld.symm.trans hwaits
    cases hj

theorem Wedged.send_step (hw : Wedged s i g v) (hs : Sound s) (h : Steps s l e) (hg : e.gor = .send i) :
    e = ⟨.send i, none, .finished, none, s.toData⟩ := by
  have hne := hw.gor_ne h
  have howner := s.locks.owner_of_held hw.waits
  have hdeaf := hw.deaf
  cases h with
  | plain hsend _ _ _ _ _ => exact absurd hg (hsend i)
  | closeEach _ _ => cases hg
  | @exit g₀ todo _ _ =>
    obtain rfl : g₀ = .send i := hg
    rfl
  | appendIgnored hheld hthread hfree _ | append hheld hthread hfree _ =>
    obtain rfl := (hs.placed_at hheld hthread).1 i hg
    rw [hfree] at howner
    cases howner
  | @closeIgnored g₀ j stop todo hheld hthread hfree | @close g₀ j stop todo hheld hthread hfree =>
    have hof : g₀ = if stop then .run else .send j := (hs.placed_at hheld hthread).1
    obtain rfl := eq_of_closes (hg.symm.trans hof)
    rw [hfree] at howner
    cases howner
  | push hheld hthread _ | closeFrame hheld hthread | writing hheld hthread | shutStop hheld hthread
  | shut hheld hthread | del hheld hthread | remove hheld hthread | finish _ hheld hthread =>
    obtain rfl := HeldStmt.OfGor.eq_of_send hg (hs.placed_at hheld hthread).1
    exact absurd (s.locks.eq_of_held hw.waits hheld) hne
  | @write j frame todo hheld hthread | @wrote j frame todo _ hheld hthread =>
    obtain rfl : j = i := Gor.send.inj hg
    rw [HubState.receives, hheld, hthread] at hdeaf
    cases hdeaf
  | @take j _ _ hheld hthread _ | @tick j hheld hthread =>
    obtain rfl : j = i := Gor.send.inj hg
    rw [HubState.receives, hheld, hthread] at hdeaf
    cases hdeaf
  | @drained j _ _ _ =>
    obtain rfl : j = i := Gor.send.inj hg
    rfl

theorem Wedged.send_live (hw : Wedged s i g v) (hs : Sound s) : s.thread (.send i) ≠ .absent := by
  intro habsent
  have hdeaf := hw.deaf
  rw [HubState.receives, habsent, hs.held_of_absent habsent] at hdeaf
  cases hdeaf

theorem Wedged.step (hw : Wedged s i g v) (hs : Sound s) (ho : Opens s)
    (h : s.effect uid enableClientMsg l = some e) (ha : Applied s e s') : Wedged s' i g v := by
  have hsteps := hs.steps h
  have hwaits : s'.locks.held g = some (i, .push v) :=
    (ha.held_of_ne (hw.gor_ne hsteps)).trans hw.waits
  by_cases hg : e.gor = .send i
  · obtain rfl := hw.send_step hs hsteps hg
    have hheld : s'.locks.held (.send i) = none := ha.held_self
    have hthread : s'.thread (.send i) = .finished := ha.thread_self
    refine ⟨hwaits, ?_, ?_⟩
    · rw [HubState.full, ha.data]
      exact hw.full
    · rw [HubState.receives, hheld, hthread]
      rfl
  · have hne : .send i ≠ e.gor := fun he => hg he.symm
    refine ⟨hwaits, ?_, ?_⟩
    · have hi := hsteps.handler i
      have howner := s.locks.owner_of_held hw.waits
      rw [HubState.full, ha.data]
      generalize e.data.handler i = hd at hi
      cases hi with
      | same => exact hw.full
      | close hfree =>
        rw [hfree] at howner
        cases howner
      | push hheld _ => exact absurd (s.locks.eq_of_held hw.waits hheld) (hw.gor_ne hsteps)
      | shut hheld => exact absurd (s.locks.eq_of_held hw.waits hheld) (hw.gor_ne hsteps)
      | take hgor _ => exact absurd hgor hg
    · rw [HubState.receives, ha.held_of_ne hne, ho.thread_send h ha hne (hw.send_live hs)]
      exact hw.deaf

end Wedged

/-- A goroutine that waits for room in the `dataChan` of a session whose `sendLoop` does not receive waits for
good: in every continuation it stays at its send, under the mutex of the session, and takes no step. -/
theorem wedged_for_good (uid : ι → ℤ) (enableClientMsg : Bool) {s : HubState ι}
    (h : (lockSystem uid enableClientMsg).Reachable s) {i : ι} {g : Gor ι} {v : SessionData}
    (hwaits : s.locks.held g = some (i, .push v)) (hfull : s.full i = true) (hdeaf : s.receives i = false)
    (ls : List (Label ι)) {t : HubState ι} (hrun : (lockSystem uid enableClientMsg).run s ls = some t) :
    t.locks.held g = some (i, .push v) ∧ t.receives i = false ∧
      ∀ l : Label ι, l.gor = g → (lockSystem uid enableClientMsg).step t l = none := by
  obtain ⟨⟨ht, -⟩, hw⟩ : (Sound t ∧ Opens t) ∧ Wedged t i g v := by
    refine System.run_invariant (I := fun s => (Sound s ∧ Opens s) ∧ Wedged s i g v) ?_
      ⟨sound_opens_of_reachable h, hwaits, hfull, hdeaf⟩ ls hrun
    rintro s l s' ⟨⟨hs, ho⟩, hw⟩ hstep
    obtain ⟨e, he, ha⟩ := Option.bind_eq_some_iff.mp hstep
    have ha' := applied_of_apply ha
    exact ⟨⟨hs.step (hs.steps he) ha', ho.step he ha'⟩, hw.step hs ho he ha'⟩
  refine ⟨hw.waits, hw.deaf, fun l hl => ?_⟩
  cases he : t.effect uid enableClientMsg l with
  | none => simp [lockSystem, he]
  | some e =>
    have hgor := (advances_of_effect he).gor_eq
    rw [hl] at hgor
    exact absurd hgor.symm (hw.gor_ne (ht.steps he))

/-- A ping fails while `Hub.Run` waits for room: however the run goes on, here with a call of `Kickoff`, the hub
hears no more of the leader. -/
theorem wedged_for_good_failed_ping :
    ∃ s t : HubState Unit, (lockSystem (fun _ => 7) true).Reachable s ∧
      s.locks.held .run = some ((), .push .msg) ∧ s.full () = true ∧ s.receives () = false ∧
      (lockSystem (fun _ => 7) true).run s [.kickoff 0 ()] = some t ∧
      ∀ l : Label Unit, l.gor = .run → (lockSystem (fun _ => 7) true).step t l = none := by
  have hrun : ((lockSystem (fun _ => 7) true).run .start (fillRun ++ headSeqRun ++ [.wrote () false])).map
      (fun s => (s.locks.held .run, s.full (), s.receives (),
        ((lockSystem (fun _ => 7) true).run s [.kickoff 0 ()]).isSome)) =
      some (some ((), .push .msg), true, false, true) := by
    decide +kernel
  obtain ⟨s, hs, hview⟩ := Option.map_eq_some_iff.mp hrun
  simp only [Prod.mk.injEq] at hview
  obtain ⟨hheld, hfull, hdeaf, hnext⟩ := hview
  obtain ⟨t, ht⟩ := Option.isSome_iff_exists.mp hnext
  have hreach : (lockSystem (fun _ => 7) true).Reachable s := System.Reachable.run (.init rfl) _ hs
  exact ⟨s, t, hreach, hheld, hfull, hdeaf, ht,
    (wedged_for_good _ true hreach hheld hfull hdeaf _ ht).2.2⟩

end MiniPush.Ws.HubLocks
