import MiniPush.Basic
import MiniPush.Foundation.Transition
import Mathlib.Data.List.Chain

/-! The heartbeat of a session. `sendLoop` writes a ping at the ticks of `pingTicker`, and only the pong
handler of `recvLoop` moves the read deadline. -/
namespace MiniPush.Ws.Heartbeat
open Foundation

def pingPeriod : ℤ := 20 * Time.second

def pongWait : ℤ := 25 * Time.second

/-- How late a session may be: `sendLoop` at its start, where it starts after `recvLoop` has set the first
deadline; the ping after its tick, for `sendLoop` may be writing, and `select` may take from the channel
first; and the pong handler after the ping, for the way to the peer and back and for a request that
`recvLoop` works on. -/
structure Pace where
  start : ℤ
  ping : ℤ
  pong : ℤ
  nonneg : 0 ≤ start ∧ 0 ≤ ping ∧ 0 ≤ pong

/-- The clock, the next time of the ticker, the tick in its channel, the pings that are not answered, each
with its tick, and the read deadline. -/
structure Beat where
  now : ℤ
  nextTick : ℤ
  tick : Option ℤ
  pings : List (ℤ × ℤ)
  deadline : ℤ

inductive Label
  | elapse (d : ℤ)
  | tick
  | ping
  | pong

/-- The ticker is on time, and drops a tick when the last one still is in the channel. -/
def Beat.next (s : Beat) : Label → Option Beat
  | .elapse d =>
    if 0 ≤ d ∧ s.now + d ≤ s.nextTick then some { s with now := s.now + d } else none
  | .tick =>
    if s.now = s.nextTick then
      some { s with nextTick := s.nextTick + pingPeriod, tick := s.tick.or (some s.now) }
    else none
  | .ping =>
    match s.tick with
    | some t => some { s with tick := none, pings := s.pings ++ [(t, s.now)] }
    | none => none
  | .pong =>
    match s.pings with
    | _ :: rest => some { s with pings := rest, deadline := s.now + pongWait }
    | [] => none

/-- The clock starts when `recvLoop` sets its first deadline. A negative `lag` is a `sendLoop` that has made its
ticker before that, by less than the period. -/
def heartbeatSystem (P : Pace) : System Beat Label where
  init s := ∃ lag, -pingPeriod ≤ lag ∧ lag ≤ P.start ∧ s = ⟨0, lag + pingPeriod, none, [], pongWait⟩
  step := Beat.next

/-- Nothing is later than the pace allows. -/
def Prompt (P : Pace) (s : Beat) : Label → Prop
  | .elapse d => (∀ t, s.tick = some t → s.now + d ≤ t + P.ping) ∧ ∀ p ∈ s.pings, s.now + d ≤ p.2 + P.pong
  | _ => True

/-- The ticks whose pongs are still to come, with the next one of the ticker. -/
def Beat.ticks (s : Beat) : List ℤ := s.pings.map Prod.fst ++ (s.tick.toList ++ [s.nextTick])

/-- No tick is dropped, and the deadline is far enough from the first tick that has no pong yet. -/
structure Beating (P : Pace) (s : Beat) : Prop where
  spaced : s.ticks.IsChain fun t u => u = t + pingPeriod
  past : (∀ t, s.tick = some t → t ≤ s.now ∧ s.now ≤ t + P.ping) ∧
    ∀ p ∈ s.pings, p.1 ≤ s.now ∧ p.2 ≤ p.1 + P.ping ∧ s.now ≤ p.2 + P.pong
  now_le : s.now ≤ s.nextTick
  far : ∀ t, s.ticks.head? = some t → t + (pongWait - pingPeriod) ≤ s.deadline + P.start

namespace Beating
variable {P : Pace} {s s' : Beat}

/-- The first tick that has no pong yet is not longer ago than its ping and the pong may take. -/
theorem recent (hi : Beating P s) : ∃ t, s.ticks.head? = some t ∧ s.now ≤ t + P.ping + P.pong := by
  obtain ⟨-, hping, hpong⟩ := P.nonneg
  obtain ⟨htick, hpings⟩ := hi.past
  have hnow := hi.now_le
  cases hp : s.pings with
  | cons p rest =>
    refine ⟨p.1, by simp [Beat.ticks, hp], ?_⟩
    have := hpings p (by simp [hp])
    omega
  | nil =>
    cases ht : s.tick with
    | some t =>
      refine ⟨t, by simp [Beat.ticks, hp, ht], ?_⟩
      have := htick t ht
      omega
    | none => exact ⟨s.nextTick, by simp [Beat.ticks, hp, ht], by omega⟩

theorem now_lt_deadline (hi : Beating P s) (hP : P.start + P.ping + P.pong < pongWait - pingPeriod) :
    s.now < s.deadline := by
  obtain ⟨t, ht, hnow⟩ := hi.recent
  have := hi.far t ht
  omega

/-- A tick is taken out of the channel before the next one comes. -/
theorem tick_none (hi : Beating P s) (hP : P.ping < pingPeriod) (hnow : s.now = s.nextTick) : s.tick = none := by
  cases ht : s.tick with
  | none => rfl
  | some t =>
    have hspaced := hi.spaced
    simp only [Beat.ticks, ht, Option.toList_some, List.cons_append, List.nil_append] at hspaced
    have hnext := (List.isChain_append_cons_cons.mp hspaced).2.1
    have := (hi.past.1 t ht).2
    omega

theorem step {l : Label} (hi : Beating P s) (hP : P.ping < pingPeriod) (hok : Prompt P s l)
    (h : s.next l = some s') : Beating P s' := by
  have hperiod : 0 < pingPeriod := by decide
  obtain ⟨htick, hpings⟩ := hi.past
  cases l with
  | elapse d =>
    simp only [Beat.next] at h
    split_ifs at h with hd
    obtain rfl := Option.some.inj h
    obtain ⟨hok, hok'⟩ := hok
    refine ⟨hi.spaced, ⟨fun t ht => ?_, fun p hp => ?_⟩, hd.2, hi.far⟩
    · have := htick t ht
      have := hok t ht
      dsimp only
      omega
    · have := hpings p hp
      have := hok' p hp
      dsimp only
      omega
  | tick =>
    simp only [Beat.next] at h
    split_ifs at h with hnow
    obtain rfl := Option.some.inj h
    have hnone := hi.tick_none hP hnow
    have hold : s.ticks = s.pings.map Prod.fst ++ [s.now] := by
      simp [Beat.ticks, hnone, hnow]
    have hnew : Beat.ticks { s with nextTick := s.nextTick + pingPeriod, tick := s.tick.or (some s.now) } =
        s.pings.map Prod.fst ++ [s.now, s.nextTick + pingPeriod] := by
      simp [Beat.ticks, hnone]
    refine ⟨?_, ⟨fun t ht => ?_, hpings⟩, ?_, fun t ht => ?_⟩
    · rw [hnew, List.isChain_append_cons_cons, ← hold, hnow]
      exact ⟨hi.spaced, rfl, .singleton _⟩
    · rw [hnone] at ht
      cases ht
      exact ⟨le_rfl, by linarith [P.nonneg.2.1]⟩
    · dsimp only
      omega
    · refine hi.far t ?_
      rw [hnew] at ht
      rw [hold]
      cases hp : s.pings with
      | nil => simpa [hp] using ht
      | cons p rest => simpa [hp] using ht
  | ping =>
    simp only [Beat.next] at h
    split at h
    · rename_i t ht
      obtain rfl := Option.some.inj h
      have hsame : Beat.ticks { s with tick := none, pings := s.pings ++ [(t, s.now)] } = s.ticks := by
        simp [Beat.ticks, ht]
      refine ⟨hsame ▸ hi.spaced, ⟨by simp, fun p hp => ?_⟩, hi.now_le, hsame ▸ hi.far⟩
      have hnow := htick t ht
      have := P.nonneg
      rcases List.mem_append.mp hp with hp | hp
      · exact hpings p hp
      · rw [List.mem_singleton.mp hp]
        dsimp only
        omega
    · cases h
  | pong =>
    simp only [Beat.next] at h
    split at h
    · rename_i p rest hp
      obtain rfl := Option.some.inj h
      have hspaced : (p.1 :: Beat.ticks { s with pings := rest, deadline := s.now + pongWait }).IsChain
          fun t u => u = t + pingPeriod := by
        simpa [Beat.ticks, hp] using hi.spaced
      have hpast := hpings p (by simp [hp])
      refine ⟨hspaced.tail, ⟨htick, fun q hq => hpings q (by simp [hp, hq])⟩, hi.now_le, fun t ht => ?_⟩
      obtain ⟨later, hlater⟩ := List.head?_eq_some_iff.mp ht
      rw [hlater] at hspaced
      have hnext := (List.isChain_cons_cons.mp hspaced).1
      have := P.nonneg
      dsimp only
      omega
    · cases h

end Beating

theorem beating_of_prompt {P : Pace} (hP : P.ping < pingPeriod) {s : Beat}
    (h : (heartbeatSystem P).ReachableVia (Prompt P) s) : Beating P s := by
  refine h.invariant (I := Beating P) ?_ fun s l s' hi hok ht => hi.step hP hok ht
  rintro s ⟨lag, hlag, hstart, rfl⟩
  have hperiod : 0 < pingPeriod := by decide
  refine ⟨.singleton _, ⟨by simp, by simp⟩, ?_, fun t ht => ?_⟩
  · dsimp only
    omega
  · obtain rfl : lag + pingPeriod = t := by simpa [Beat.ticks] using ht
    dsimp only
    omega

theorem wait_until {P : Pace} {s : Beat} (h : (heartbeatSystem P).ReachableVia (Prompt P) s) {t : ℤ}
    (hnow : s.now ≤ t) (hnext : t ≤ s.nextTick) (htick : ∀ u, s.tick = some u → t ≤ u + P.ping)
    (hpings : ∀ p ∈ s.pings, t ≤ p.2 + P.pong) :
    (heartbeatSystem P).ReachableVia (Prompt P) { s with now := t } := by
  refine h.step (l := .elapse (t - s.now)) ⟨fun u hu => ?_, fun p hp => ?_⟩ ?_
  · rw [add_sub_cancel]
    exact htick u hu
  · rw [add_sub_cancel]
    exact hpings p hp
  · simp only [heartbeatSystem, Beat.next, add_sub_cancel]
    rw [if_pos ⟨by omega, hnext⟩]

/-- A session at the limit of its pace comes to its first deadline. -/
theorem late_session {P : Pace} (hP : pongWait - pingPeriod ≤ P.start + P.ping + P.pong) :
    ∃ s, (heartbeatSystem P).ReachableVia (Prompt P) s ∧ s.deadline ≤ s.now := by
  obtain ⟨hstart, hping, hpong⟩ := P.nonneg
  have hperiod : 0 < pingPeriod := by decide
  have hwait : 0 < pongWait ∧ pongWait < 2 * pingPeriod := by decide
  have h0 : (heartbeatSystem P).ReachableVia (Prompt P) ⟨0, P.start + pingPeriod, none, [], pongWait⟩ :=
    .init ⟨P.start, by omega, le_rfl, rfl⟩
  rcases le_or_gt pongWait (P.start + pingPeriod) with hlate | hlate
  · -- `sendLoop` is too late for its first tick.
    exact ⟨_, wait_until h0 hwait.1.le hlate (by simp) (by simp), le_rfl⟩
  have h1 := wait_until h0 (t := P.start + pingPeriod) (by dsimp only; omega) le_rfl (by simp) (by simp)
  have h2 : (heartbeatSystem P).ReachableVia (Prompt P) ⟨P.start + pingPeriod,
      P.start + pingPeriod + pingPeriod, some (P.start + pingPeriod), [], pongWait⟩ := by
    exact h1.step (l := .tick) trivial (if_pos rfl)
  rcases le_or_gt pongWait (P.start + pingPeriod + P.ping) with hlate' | hlate'
  · -- The first ping is too late.
    refine ⟨_, wait_until h2 (t := pongWait) hlate.le ?_ ?_ (by simp), le_rfl⟩
    · dsimp only
      omega
    · intro u hu
      cases hu
      exact hlate'
  have h3 := wait_until h2 (t := P.start + pingPeriod + P.ping) (by dsimp only; omega) (by dsimp only; omega)
    (by simp) (by simp)
  have h4 : (heartbeatSystem P).ReachableVia (Prompt P) ⟨P.start + pingPeriod + P.ping,
      P.start + pingPeriod + pingPeriod, none, [(P.start + pingPeriod, P.start + pingPeriod + P.ping)],
      pongWait⟩ := by
    exact h3.step (l := .ping) trivial rfl
  -- The first pong is too late.
  refine ⟨_, wait_until h4 (t := pongWait) hlate'.le ?_ (by simp) ?_, le_rfl⟩
  · dsimp only
    omega
  · intro p hp
    rw [List.mem_singleton.mp hp]
    dsimp only
    omega

/-- A peer that is there is never taken for lost, in any run at a pace, exactly if what the session may be
late in all is less than the time between a tick and the end of the wait for the last pong. -/
theorem live_peer_kept_iff (P : Pace) :
    (∀ s, (heartbeatSystem P).ReachableVia (Prompt P) s → s.now < s.deadline) ↔
      P.start + P.ping + P.pong < pongWait - pingPeriod := by
  constructor
  · intro h
    by_contra hlate
    obtain ⟨s, hs, hover⟩ := late_session (not_lt.mp hlate)
    exact absurd (h s hs) (not_lt.mpr hover)
  · intro hP s hs
    obtain ⟨hstart, hping, hpong⟩ := P.nonneg
    have hwait : pongWait - pingPeriod ≤ pingPeriod := by decide
    exact (beating_of_prompt (by omega) hs).now_lt_deadline hP

end MiniPush.Ws.Heartbeat
