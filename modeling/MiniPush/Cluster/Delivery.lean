import MiniPush.Cluster.Broadcast

/-! Delivery of the storage's messages to the hubs. As long as no channel serves both roles in a
cluster with other followers, the copies of a message on the way to a hub are conserved. -/
namespace MiniPush.Cluster
open Foundation System

namespace Broadcast
variable {r : Roles}

def pending (s : Broadcast r) (hub : r.Node) (n : ℕ) : ℕ :=
  s.pushing.toList.countP fun p => p.1 = .headSeq n ∧ hub ∈ p.2

/-- Copies of a message on the way to a hub: on the leader's channel if that is not the hub's own,
with the push server, on the stream, with the client and on the hub's channel. -/
def inTransit (s : Broadcast r) (hub : r.Node) (n : ℕ) : ℕ :=
  (if hub = none then 0 else (s.sendMsgChan none).count (.headSeq n)) + s.pending hub n +
    (s.stream hub).count (.headSeq n) + (s.holding hub).toList.count (.headSeq n) +
    (s.sendMsgChan hub).count (.headSeq n)

def InFlight (s : Broadcast r) (n : ℕ) : Prop :=
  (∃ node, .headSeq n ∈ s.sendMsgChan node) ∨ (∃ hub, .headSeq n ∈ s.stream hub) ∨
    (∃ hub, s.holding hub = some (.headSeq n)) ∨
      ∃ left, s.pushing = some (.headSeq n, left) ∧ left ≠ ∅

def DeliveredOnce (s : Broadcast r) : Prop :=
  ∀ n < s.puts, ¬ s.InFlight n → ∀ hub ∈ r.hubs, (s.received hub).count (.headSeq n) = 1

/-- Each message put by the storage has one copy on the way to the hub or received by it. -/
def Conserved (s : Broadcast r) (hub : r.Node) : Prop :=
  ∀ n, s.inTransit hub n + (s.received hub).count (.headSeq n) = if n < s.puts then 1 else 0

theorem pending_eq_zero {s : Broadcast r} (hidle : ∀ p ∈ s.pushing, p.2 = ∅) (hub : r.Node) (n : ℕ) :
    s.pending hub n = 0 := by
  rw [pending, List.countP_eq_zero]
  intro p hp
  rw [Option.mem_toList] at hp
  simp [hidle p hp]

def copies (n : ℕ) (msg : LeaderMsg) : ℕ := if msg = .headSeq n then 1 else 0

private theorem count_concat (n : ℕ) (l : List LeaderMsg) (msg : LeaderMsg) :
    (l ++ [msg]).count (.headSeq n) = l.count (.headSeq n) + copies n msg := by
  simp [List.count_append, List.count_singleton, copies]

private theorem count_head (n : ℕ) (l : List LeaderMsg) (msg : LeaderMsg) :
    (msg :: l).count (.headSeq n) = l.count (.headSeq n) + copies n msg := by
  simp [List.count_cons, copies]

private theorem count_some (n : ℕ) (msg : LeaderMsg) :
    (some msg).toList.count (.headSeq n) = copies n msg := by
  simp [List.count_singleton, copies]

private theorem pending_some {s : Broadcast r} {msg : LeaderMsg} {left : Finset r.Node}
    (h : s.pushing = some (msg, left)) (hub : r.Node) (n : ℕ) :
    s.pending hub n = if hub ∈ left then copies n msg else 0 := by
  by_cases hl : hub ∈ left <;> simp [pending, h, hl, copies, List.countP_singleton]

/-- A step conserves the copies for a hub, unless the channel of the hub of the leader node is also
the source for other hubs. -/
theorem Conserved.step {s s' : Broadcast r} {l : BroadcastLabel r} {hub : r.Node}
    (hhub : hub ∈ r.hubs) (hsep : none ∉ r.hubs ∨ r.hubs = {none}) (h : s.Conserved hub)
    (hs : Step s l s') : s'.Conserved hub := by
  intro n
  have hn := h n
  have hsole : ∀ node ∈ r.hubs, node ≠ hub → node ≠ none := by
    rintro _ hnode hne rfl
    rcases hsep with hno | hall
    · exact hno hnode
    · rw [hall, Finset.mem_singleton] at hhub
      exact hne hhub.symm
  cases hs with
  | storagePut =>
    have hnew : copies n (.headSeq s.puts) = if s.puts = n then 1 else 0 := by simp [copies]
    by_cases h0 : hub = none
    · subst h0
      simp only [inTransit, pending, Function.update_self, count_concat, hnew, if_true] at hn ⊢
      split_ifs at hn ⊢ <;> omega
    · simp only [inTransit, pending, Function.update_self, Function.update_of_ne h0, count_concat,
        hnew, if_neg h0] at hn ⊢
      split_ifs at hn ⊢ <;> omega
  | @serverTake msg rest hidle hchan =>
    have hpend := pending_some (s := { s with
      sendMsgChan := Function.update s.sendMsgChan none rest
      pushing := some (msg, r.hubs) }) rfl hub n
    rw [if_pos hhub] at hpend
    rw [inTransit, pending_eq_zero hidle] at hn
    rw [inTransit, hpend]
    by_cases h0 : hub = none
    · subst h0
      simp only [hchan, count_head, Function.update_self, if_true] at hn ⊢
      omega
    · simp only [hchan, count_head, Function.update_self, Function.update_of_ne h0, if_neg h0] at hn ⊢
      omega
  | @serverSend hub' msg left hpush hleft =>
    have hpend := pending_some (s := { s with
      pushing := some (msg, left.erase hub')
      stream := Function.update s.stream hub' (s.stream hub' ++ [msg]) }) rfl hub n
    rw [inTransit, pending_some hpush] at hn
    rw [inTransit, hpend]
    by_cases he : hub = hub'
    · subst he
      simp only [hleft, Finset.notMem_erase, Function.update_self, count_concat, if_true,
        if_false] at hn ⊢
      omega
    · simpa only [Finset.mem_erase, he, ne_eq, not_false_eq_true, true_and,
        Function.update_of_ne he] using hn
  | @kickoff hub' sids =>
    have hnone : copies n (.kickoff sids) = 0 := by simp [copies]
    by_cases he : hub = hub'
    · subst he
      simpa only [inTransit, pending, Function.update_self, count_concat, hnone, add_zero] using hn
    · simpa only [inTransit, pending, Function.update_of_ne he] using hn
  | @clientRecv hub' msg rest hhold hstream =>
    by_cases he : hub = hub'
    · subst he
      simp only [inTransit, pending, Function.update_self, hstream, hhold, count_head, count_some,
        Option.toList_none, List.count_nil] at hn ⊢
      omega
    · simpa only [inTransit, pending, Function.update_of_ne he] using hn
  | @clientPut hub' msg hhold hhub' =>
    by_cases he : hub = hub'
    · subst he
      simp only [inTransit, pending, Function.update_self, hhold, count_concat, count_some,
        Option.toList_none, List.count_nil] at hn ⊢
      by_cases h0 : hub = none
      · simp only [h0, if_true] at hn ⊢
        omega
      · simp only [h0, if_false, Function.update_of_ne (Ne.symm h0)] at hn ⊢
        omega
    · have h0 := hsole hub' hhub' (Ne.symm he)
      simpa only [inTransit, pending, Function.update_of_ne he, Function.update_of_ne h0.symm]
        using hn
  | @hubTake hub' msg rest hhub' hchan =>
    by_cases he : hub = hub'
    · subst he
      by_cases h0 : hub = none
      · simp only [inTransit, pending, Function.update_self, h0, if_true] at hn hchan ⊢
        simp only [hchan, count_head, count_concat] at hn ⊢
        omega
      · simp only [inTransit, pending, Function.update_self, Function.update_of_ne (Ne.symm h0),
          hchan, count_head, count_concat, h0, if_false] at hn ⊢
        omega
    · have h0 := hsole hub' hhub' (Ne.symm he)
      simpa only [inTransit, pending, Function.update_of_ne he, Function.update_of_ne h0.symm]
        using hn

theorem conserved_of_reachable {s : Broadcast r} {hub : r.Node} (hhub : hub ∈ r.hubs)
    (hsep : none ∉ r.hubs ∨ r.hubs = {none}) (h : (broadcastSystem r).Reachable s) :
    s.Conserved hub := by
  refine h.invariant (I := fun s => s.Conserved hub) ?_ ?_
  · rintro _ rfl n
    simp [start, inTransit, pending]
  · intro s l s' hi hs
    exact hi.step hhub hsep (step_spec hs)

/-- A message without copies in flight has none on the way to any hub. -/
theorem inTransit_eq_zero {s : Broadcast r} {n : ℕ} (h : ¬ s.InFlight n) (hub : r.Node) :
    s.inTransit hub n = 0 := by
  simp only [InFlight, not_or, not_exists] at h
  obtain ⟨hchan, hstream, hhold, hpush⟩ := h
  have hpending : s.pending hub n = 0 := by
    rw [pending, List.countP_eq_zero]
    rintro ⟨msg, left⟩ hp
    rw [Option.mem_toList] at hp
    simp only [decide_eq_true_eq, not_and]
    rintro rfl hmem
    exact hpush left ⟨hp, Finset.ne_empty_of_mem hmem⟩
  have hheld : (s.holding hub).toList.count (.headSeq n) = 0 := by
    rw [List.count_eq_zero, Option.mem_toList]
    exact hhold hub
  rw [inTransit, hpending, List.count_eq_zero.mpr (hstream hub), hheld,
    List.count_eq_zero.mpr (hchan hub), List.count_eq_zero.mpr (hchan none)]
  simp

theorem deliveredOnce_of_separate {s : Broadcast r} (hsep : none ∉ r.hubs ∨ r.hubs = {none})
    (h : (broadcastSystem r).Reachable s) : s.DeliveredOnce := by
  intro n hn hflight hub hhub
  have hone := conserved_of_reachable hhub hsep h n
  rwa [inTransit_eq_zero hflight, zero_add, if_pos hn] at hone

/-- The state after the hub of the leader node took the first message of the storage before
`pushServer.run` did. -/
def taken (r : Roles) : Broadcast r :=
  { start r with
    sendMsgChan := Function.update (Function.update (fun _ => []) none [.headSeq 0]) none []
    received := Function.update (fun _ => []) none [.headSeq 0]
    puts := 1 }

theorem taken_reachable (hhub : none ∈ r.hubs) : (broadcastSystem r).Reachable (taken r) := by
  refine Reachable.run (.init rfl) [.storagePut, .hubTake none] ?_
  simp [System.run, System.runVia, broadcastSystem, step, start, taken, sendMsgChanCap, hhub]

theorem not_deliveredOnce_taken {hub : r.Node} (hhub : hub ∈ r.hubs) (hne : hub ≠ none) :
    ¬ (taken r).DeliveredOnce := by
  intro h
  have hflight : ¬ (taken r).InFlight 0 := by
    simp [InFlight, taken, start]
  have hone := h 0 (by simp [taken]) hflight hub hhub
  simp [taken, Function.update_of_ne hne] at hone

end Broadcast

/-- Every message of the storage is delivered once to every hub, whatever the interleaving, exactly
if the leader does not run as follower or there is no other follower. -/
theorem deliveredOnce_exactly_without_shared_channel (r : Roles) :
    (∀ s, (broadcastSystem r).Reachable s → s.DeliveredOnce) ↔
      r.leaderFollows = false ∨ r.followers = 0 := by
  constructor
  · intro hall
    by_contra hcond
    rw [not_or, Bool.not_eq_false] at hcond
    obtain ⟨hleader, hpos⟩ := hcond
    have hlead : none ∈ r.hubs := by simp [Roles.hubs, hleader]
    have hother : some ⟨0, Nat.pos_of_ne_zero hpos⟩ ∈ r.hubs := by simp [Roles.hubs]
    exact Broadcast.not_deliveredOnce_taken hother (by simp)
      (hall _ (Broadcast.taken_reachable hlead))
  · intro hcond s hs
    apply Broadcast.deliveredOnce_of_separate _ hs
    rcases hcond with hleader | hzero
    · left
      simp [Roles.hubs, hleader]
    · by_cases hleader : r.leaderFollows = true
      · right
        ext node
        cases node with
        | none => simp [Roles.hubs, hleader]
        | some i => exact absurd i.isLt (by omega)
      · left
        simp [Roles.hubs, hleader]

/-- A leader that also follows, with one other follower: the hub of the leader node takes the message,
and the other hub never gets it. -/
theorem shared_channel_loses_message :
    ∃ s, (broadcastSystem ⟨true, 1⟩).Reachable s ∧ s.puts = 1 ∧ ¬ s.InFlight 0 ∧
      s.received none = [.headSeq 0] ∧ s.received (some 0) = [] ∧ ¬ s.DeliveredOnce := by
  refine ⟨Broadcast.taken _, Broadcast.taken_reachable (by decide), rfl, ?_, rfl, rfl, ?_⟩
  · simp [Broadcast.InFlight, Broadcast.taken, Broadcast.start]
  · have hother : some 0 ∈ Roles.hubs ⟨true, 1⟩ := by decide
    exact Broadcast.not_deliveredOnce_taken hother (by simp)

end MiniPush.Cluster
