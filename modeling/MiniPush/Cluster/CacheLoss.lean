import MiniPush.Cluster.Cache

/-! When the flow-control cache loses a head sequence: exactly when a step of `check` deletes an
entry that has grown since it was copied, or copies over a larger value. -/
namespace MiniPush.Cluster
open Foundation

namespace Cache

def SentAtLeast (c : Cache) (uid seq : ℤ) : Prop :=
  ∃ out ∈ c.sent, ∃ w ∈ out.lookup uid, seq ≤ w

def Holds (c : Cache) (uid seq : ℤ) : Prop :=
  (∃ v ∈ c.kv.lookup uid, seq ≤ v.headSeq) ∨ (∃ w ∈ c.outSeq uid, seq ≤ w) ∨
    c.SentAtLeast uid seq

def NoneLost (c : Cache) : Prop :=
  ∀ p ∈ c.puts, c.Holds p.1 p.2

/-- The step drops no value: what it copies over or deletes is not above what it leaves. -/
def Keeps (c : Cache) : CacheLabel → Prop
  | .check (.visit uid true) =>
    ∀ v ∈ c.kv.lookup uid, ∀ w ∈ c.outSeq uid, w ≤ v.headSeq ∨ c.SentAtLeast uid w
  | .check .delete =>
    ∀ uid ∈ c.deleting, ∀ v ∈ c.kv.lookup uid, ∀ w ∈ c.outSeq uid,
      v.headSeq ≤ w ∨ c.SentAtLeast uid v.headSeq
  | _ => True

instance (c : Cache) (uid seq : ℤ) : Decidable (c.SentAtLeast uid seq) :=
  inferInstanceAs (Decidable (∃ out ∈ c.sent, ∃ w ∈ out.lookup uid, seq ≤ w))

instance (c : Cache) (uid seq : ℤ) : Decidable (c.Holds uid seq) :=
  inferInstanceAs (Decidable ((∃ v ∈ c.kv.lookup uid, seq ≤ v.headSeq) ∨
    (∃ w ∈ c.outSeq uid, seq ≤ w) ∨ c.SentAtLeast uid seq))

instance (c : Cache) : Decidable c.NoneLost :=
  inferInstanceAs (Decidable (∀ p ∈ c.puts, c.Holds p.1 p.2))

instance (c : Cache) : (l : CacheLabel) → Decidable (c.Keeps l)
  | .put _ _ => .isTrue trivial
  | .check .begin => .isTrue trivial
  | .check (.visit _ false) => .isTrue trivial
  | .check (.visit uid true) => inferInstanceAs (Decidable
      (∀ v ∈ c.kv.lookup uid, ∀ w ∈ c.outSeq uid, w ≤ v.headSeq ∨ c.SentAtLeast uid w))
  | .check .delete => inferInstanceAs (Decidable
      (∀ uid ∈ c.deleting, ∀ v ∈ c.kv.lookup uid, ∀ w ∈ c.outSeq uid,
        v.headSeq ≤ w ∨ c.SentAtLeast uid v.headSeq))
  | .check .send => .isTrue trivial
  | .check .finish => .isTrue trivial

/-- The values in the cache and in `out` were put, and the entry about to be deleted was copied. -/
structure Recorded (c : Cache) : Prop where
  cached : ∀ uid v, c.kv.lookup uid = some v → (uid, v.headSeq) ∈ c.puts
  copied : ∀ uid w, c.outSeq uid = some w → (uid, w) ∈ c.puts
  held : ∀ uid todo kept out, c.pc = .copied uid todo kept out → ∃ w, out.lookup uid = some w

theorem Holds.mono {c c' : Cache} {uid seq : ℤ} (h : c.Holds uid seq)
    (hkv : ∀ v, c.kv.lookup uid = some v → seq ≤ v.headSeq → c'.Holds uid seq)
    (hout : ∀ w, c.outSeq uid = some w → seq ≤ w → c'.Holds uid seq)
    (hsent : ∀ out ∈ c.sent, out ∈ c'.sent) : c'.Holds uid seq := by
  rcases h with ⟨v, hv, hle⟩ | ⟨w, hw, hle⟩ | ⟨out, hout', hrest⟩
  · exact hkv v hv hle
  · exact hout w hw hle
  · exact .inr (.inr ⟨out, hsent out hout', hrest⟩)

theorem Holds.of_out {c c' : Cache} {uid seq : ℤ} (h : c.Holds uid seq) (hkv : c'.kv = c.kv)
    (hsent : c'.sent = c.sent)
    (hout : ∀ w, c.outSeq uid = some w → seq ≤ w → c'.Holds uid seq) : c'.Holds uid seq := by
  apply h.mono _ hout
  · rw [hsent]
    exact fun out hout => hout
  · intro v hv hle
    exact .inl ⟨v, by rw [hkv]; exact hv, hle⟩

theorem putEntry_recorded {now uid seq : ℤ} {c c' : Cache} (hc : c.Recorded)
    (h : c.putEntry now uid seq = some c') : c'.Recorded := by
  obtain ⟨v, rfl, -, rfl⟩ := putEntry_cases h
  constructor
  · intro u x hx
    rw [GoMap.lookup_insert] at hx
    split_ifs at hx with hu
    · cases hx
      exact List.mem_append_right _ (by rw [hu]; exact List.mem_singleton_self _)
    · exact List.mem_append_left _ (hc.cached u x hx)
  · intro u w hw
    exact List.mem_append_left _ (hc.copied u w hw)
  · exact hc.held

theorem putEntry_noneLost {now uid seq : ℤ} {c c' : Cache} (hc : c.NoneLost)
    (h : c.putEntry now uid seq = some c') : c'.NoneLost := by
  obtain ⟨v, rfl, hlt, rfl⟩ := putEntry_cases h
  intro p hp
  rcases List.mem_append.mp hp with hp | hp
  · apply (hc p hp).mono
    · intro x hx hle
      refine .inl ?_
      simp only [GoMap.lookup_insert]
      split_ifs with hu
      · rw [hu] at hx
        have := hlt x hx
        exact ⟨v, rfl, by omega⟩
      · exact ⟨x, hx, hle⟩
    · intro w hw hle
      exact .inr (.inl ⟨w, hw, hle⟩)
    · exact fun out hout => hout
  · rw [List.mem_singleton] at hp
    subst hp
    exact .inl ⟨v, AList.lookup_insert _, le_refl _⟩

theorem put_recorded (now : ℤ) {c : Cache} (hc : c.Recorded) (data : GoMap ℤ ℤ) :
    (c.put now data).Recorded := by
  apply putLoop_induction (I := Recorded) _ _ hc
  · exact fun c uid seq c' hc h => putEntry_recorded hc h
  · exact fun c hc => ⟨hc.cached, hc.copied, hc.held⟩

theorem put_noneLost (now : ℤ) {c : Cache} (hc : c.NoneLost) (data : GoMap ℤ ℤ) :
    (c.put now data).NoneLost := by
  apply putLoop_induction (I := NoneLost) _ _ hc
  · exact fun c uid seq c' hc h => putEntry_noneLost hc h
  · exact fun c hc => hc

theorem checkStep_recorded {c c' : Cache} {l : CheckLabel} (hc : c.Recorded)
    (h : c.checkStep l = some c') : c'.Recorded := by
  rcases checkStep_cases h with ⟨-, hpc, rfl | rfl⟩ | ⟨uid, todo, kept, out, v, -, hpc, hv, rfl⟩ |
    ⟨uid, todo, kept, out, -, hpc, rfl⟩ | ⟨uid, todo, kept, out, -, hpc, rfl⟩ |
    ⟨kept, out, -, hpc, rfl⟩ | ⟨-, hpc, rfl⟩
  · exact hc
  · exact ⟨hc.cached, by simp [outSeq], by simp⟩
  · refine ⟨hc.cached, fun u w hw => ?_, fun u t k o hcopied => ?_⟩
    · have hw' : (out.insert uid v.headSeq).lookup u = some w := hw
      rw [GoMap.lookup_insert] at hw'
      split_ifs at hw' with hu
      · cases hw'
        rw [hu]
        exact hc.cached uid v hv
      · exact hc.copied u w (by rw [outSeq_loop hpc]; exact hw')
    · cases hcopied
      exact ⟨_, AList.lookup_insert _⟩
  · exact ⟨hc.cached, fun u w hw => hc.copied u w (by rw [outSeq_loop hpc]; exact hw), by simp⟩
  · refine ⟨fun u x hx => ?_, fun u w hw => hc.copied u w (by rw [outSeq_copied hpc]; exact hw),
      by simp⟩
    rw [GoMap.lookup_erase] at hx
    split_ifs at hx
    exact hc.cached u x hx
  · exact ⟨hc.cached, by simp [outSeq], by simp⟩
  · exact ⟨hc.cached, by simp [outSeq], by simp⟩

theorem checkStep_noneLost {c c' : Cache} {l : CheckLabel} (hr : c.Recorded) (hc : c.NoneLost)
    (hk : c.Keeps (.check l)) (h : c.checkStep l = some c') : c'.NoneLost := by
  intro p hp
  rcases checkStep_cases h with ⟨-, hpc, rfl | rfl⟩ | ⟨uid, todo, kept, out, v, rfl, hpc, hv, rfl⟩ |
    ⟨uid, todo, kept, out, -, hpc, rfl⟩ | ⟨uid, todo, kept, out, rfl, hpc, rfl⟩ |
    ⟨kept, out, -, hpc, rfl⟩ | ⟨-, hpc, rfl⟩
  · exact hc p hp
  · exact (hc p hp).of_out rfl rfl (by simp [outSeq, hpc])
  · refine (hc p hp).of_out rfl rfl fun w hw hle => ?_
    by_cases hu : p.1 = uid
    · rw [hu] at hw ⊢
      rcases hk v hv w hw with hwv | ⟨m, hm, x, hx, hwx⟩
      · exact .inl ⟨v, hv, by omega⟩
      · exact .inr (.inr ⟨m, hm, x, hx, by omega⟩)
    · refine .inr (.inl ⟨w, ?_, hle⟩)
      rw [outSeq_loop hpc] at hw
      exact (GoMap.lookup_insert out uid p.1 v.headSeq).trans (by rw [if_neg hu]; exact hw)
  · refine (hc p hp).of_out rfl rfl fun w hw hle => ?_
    rw [outSeq_loop hpc] at hw
    exact .inr (.inl ⟨w, hw, hle⟩)
  · apply (hc p hp).mono
    · intro v hv hle
      by_cases hu : p.1 = uid
      · obtain ⟨w, hw⟩ := hr.held uid todo kept out hpc
        rw [hu] at hv ⊢
        rcases hk uid (deleting_copied hpc) v hv w (by rw [outSeq_copied hpc]; exact hw) with hvw | ⟨m, hm, x, hx, hvx⟩
        · exact .inr (.inl ⟨w, hw, by omega⟩)
        · exact .inr (.inr ⟨m, hm, x, hx, by omega⟩)
      · refine .inl ⟨v, ?_, hle⟩
        exact (GoMap.lookup_erase c.kv uid p.1).trans (by rw [if_neg hu]; exact hv)
    · intro w hw hle
      rw [outSeq_copied hpc] at hw
      exact .inr (.inl ⟨w, hw, hle⟩)
    · exact fun m hm => hm
  · apply (hc p hp).mono
    · exact fun v hv hle => .inl ⟨v, hv, hle⟩
    · intro w hw hle
      rw [outSeq_loop hpc] at hw
      have hne : ¬out.entries = [] := by
        intro he
        have hempty : out = ∅ := AList.ext he
        simp [hempty] at hw
      refine .inr (.inr ⟨out, ?_, w, hw, hle⟩)
      simp [hne]
    · intro m hm
      dsimp only
      split_ifs
      · exact hm
      · exact List.mem_append_left _ hm
  · exact (hc p hp).of_out rfl rfl (by simp [outSeq, hpc])

theorem not_noneLost_of_not_keeps {c c' : Cache} {l : CheckLabel} (hr : c.Recorded)
    (hk : ¬c.Keeps (.check l)) (h : c.checkStep l = some c') : ¬c'.NoneLost := by
  intro hlost
  rcases checkStep_cases h with ⟨rfl, -⟩ | ⟨uid, todo, kept, out, v, rfl, hpc, hv, rfl⟩ |
    ⟨uid, todo, kept, out, rfl, -⟩ | ⟨uid, todo, kept, out, rfl, hpc, rfl⟩ | ⟨kept, out, rfl, -⟩ |
    ⟨rfl, -⟩
  · exact hk trivial
  · simp only [Keeps, not_forall, not_or, not_le] at hk
    obtain ⟨u, hu, w, hw, hlt, hsent⟩ := hk
    obtain rfl : v = u := Option.some.inj (hv.symm.trans hu)
    rcases hlost (uid, w) (hr.copied uid w hw) with ⟨x, hx, hle⟩ | ⟨x, hx, hle⟩ | hm
    · obtain rfl : v = x := Option.some.inj (hv.symm.trans hx)
      exact absurd hle (by simpa using hlt)
    · have hx' : v.headSeq = x := Option.some.inj ((AList.lookup_insert out).symm.trans hx)
      exact absurd hle (by rw [← hx']; simpa using hlt)
    · exact hsent hm
  · exact hk trivial
  · simp only [Keeps, deleting_copied hpc, not_forall, not_or, not_le] at hk
    obtain ⟨u, hu, v, hv, w, hw, hlt, hsent⟩ := hk
    obtain rfl : uid = u := Option.some.inj hu
    rcases hlost (uid, v.headSeq) (hr.cached uid v hv) with ⟨x, hx, hle⟩ | ⟨x, hx, hle⟩ | hm
    · have hnone : (c.kv.erase uid).lookup uid = none := AList.lookup_erase _ _
      exact absurd (hnone.symm.trans hx) (by simp)
    · rw [outSeq_copied hpc] at hw
      obtain rfl : w = x := Option.some.inj (hw.symm.trans hx)
      exact absurd hle (by simpa using hlt)
    · exact hsent hm
  · exact hk trivial
  · exact hk trivial

end Cache

/-- The cache with one `check` at a time, as `sendLoop` calls it. -/
def cacheSystem : System Cache CacheLabel where
  init c := c = newCache
  step := Cache.step

theorem cache_recorded {c : Cache} (h : cacheSystem.Reachable c) : c.Recorded := by
  refine System.Reachable.invariant ?_ ?_ h
  · intro c hc
    subst hc
    exact ⟨by simp [newCache], by simp [newCache, Cache.outSeq], by simp [newCache]⟩
  · intro c l c' hc hstep
    rcases Cache.step_cases hstep with ⟨now, data, -, rfl⟩ | ⟨l, -, hcheck⟩
    · exact Cache.put_recorded now hc data
    · exact Cache.checkStep_recorded hc hcheck

private theorem step_noneLost_iff {c c' : Cache} {l : CacheLabel} (hr : c.Recorded)
    (hn : c.NoneLost) (hstep : cacheSystem.step c l = some c') : c'.NoneLost ↔ c.Keeps l := by
  rcases Cache.step_cases hstep with ⟨now, data, rfl, rfl⟩ | ⟨l, rfl, hcheck⟩
  · exact ⟨fun _ => trivial, fun _ => Cache.put_noneLost now hn data⟩
  · constructor
    · intro hn'
      by_contra hk
      exact Cache.not_noneLost_of_not_keeps hr hk hcheck hn'
    · intro hk
      exact Cache.checkStep_noneLost hr hn hk hcheck

/-- A run loses no head sequence as long as each of its steps drops no value, and it does lose one
with the first step that does. -/
theorem noneLost_exactly_while_keeps (c : Cache) (h : cacheSystem.ReachableVia Cache.Keeps c) :
    c.NoneLost ∧ ∀ l c', cacheSystem.step c l = some c' → (c'.NoneLost ↔ c.Keeps l) := by
  refine System.ReachableVia.exactly (I := Cache.Recorded) ?_ ?_ ?_ h
  · intro c hc
    refine ⟨cache_recorded (.init hc), ?_⟩
    subst hc
    simp [newCache, Cache.NoneLost]
  · intro c l c' hr hstep
    rcases Cache.step_cases hstep with ⟨now, data, rfl, rfl⟩ | ⟨l, rfl, hcheck⟩
    · exact Cache.put_recorded now hr data
    · exact Cache.checkStep_recorded hr hcheck
  · intro c l c' hr hn hstep
    exact step_noneLost_iff hr hn hstep

/-- A head sequence is put, sent and put again; the new one is still cached. -/
def calmRun : List CacheLabel :=
  [.put 0 (AList.singleton 1 1), .check .begin, .check (.visit 1 true), .check .delete,
    .check .send, .check .finish, .put 0 (AList.singleton 1 2)]

theorem noneLost_calmRun : ∃ c, cacheSystem.run newCache calmRun = some c ∧
    c.puts = [(1, 1), (1, 2)] ∧ c.NoneLost :=
  ⟨_, rfl, rfl, (noneLost_exactly_while_keeps _
    (System.ReachableVia.runVia (p := fun c l => decide (c.Keeps l))
      (fun _ _ h => of_decide_eq_true h) (.init rfl) calmRun rfl)).1⟩

/-- Sequence 2 is put after `check` copied sequence 1 and before it deletes the entry. -/
def lostRun : List CacheLabel :=
  [.put 0 (AList.singleton 1 1), .check .begin, .check (.visit 1 true),
    .put 0 (AList.singleton 1 2), .check .delete, .check .send, .check .finish]

theorem lostRun_loses_head_seq : ∃ c, cacheSystem.run newCache lostRun = some c ∧
    cacheSystem.Reachable c ∧ (1, 2) ∈ c.puts ∧ c.kv.lookup 1 = none ∧ c.outSeq 1 = none ∧
    c.sent.map (fun out => out.lookup 1) = [some 1] ∧ ¬c.NoneLost :=
  ⟨_, rfl, System.Reachable.run (.init rfl) lostRun rfl, by decide, by decide, by decide,
    by decide, by decide⟩

end MiniPush.Cluster
