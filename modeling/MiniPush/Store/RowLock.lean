import MiniPush.Store.Concurrent

/-! The invariant of the row lock: at most one transaction is past its first locking statement, and
what it knows about the committed sequence stays true until it ends. -/
namespace MiniPush.Store
open Foundation

namespace SeqTxs
variable {m : ℕ} {uid : ℤ} {s : SeqTxs m} {t : Fin m}

/-- What a transaction knows by its next statement. `owns` says that it holds the row. -/
def Consistent (uid : ℤ) (db work : Database) (owns : Prop) : SeqTx → Prop
  | .running (.update seq) => owns ∧ Held db uid seq work
  | .running (.returned v) => owns ∧ db.headSeq uid < 2 ^ 31 ∧ v = int32 (db.headSeq uid + 1) ∧
      SeqAdvanced db uid work
  | .running _ => owns → work = db
  | .committed => ¬ owns
  | .aborted => ¬ owns

theorem Consistent.frame {db db' work work' : Database} {owns owns' : Prop} {tx : SeqTx}
    (h : Consistent uid db work owns tx) (hno : ¬ owns) (hno' : ¬ owns') :
    Consistent uid db' work' owns' tx := by
  cases tx with
  | running pc =>
    cases pc with
    | update seq => exact absurd h.1 hno
    | returned v => exact absurd h.1 hno
    | _ => exact fun ho => absurd ho hno'
  | committed => exact hno'
  | aborted => exact hno'

theorem exec_unlocked {pc pc' : IncPc} {db db' : Database}
    (h : pc.exec uid db = .ok (pc', db', false)) : db' = db := by
  cases pc with
  | selectForUpdate =>
    simp only [IncPc.exec] at h
    split at h <;> grind
  | insert =>
    simp only [IncPc.exec] at h
    split at h <;> grind
  | selectAgain =>
    simp only [IncPc.exec] at h
    split at h <;> grind
  | update seq =>
    simp only [IncPc.exec] at h
    split at h <;> grind
  | returned v => grind [IncPc.exec]

/-- A transaction that executes a statement is consistent afterwards. -/
theorem Consistent.exec {db work view db' : Database} {owns : Prop} {pc pc' : IncPc} {locked : Bool}
    (h : Consistent uid db work owns (.running pc)) (hret : ∀ v, pc ≠ .returned v)
    (hview : (owns → view = work) ∧ (¬ owns → view = db))
    (hexec : pc.exec uid view = .ok (pc', db', locked)) :
    (locked = true → Consistent uid db db' True (.running pc')) ∧
      (locked = false → Consistent uid db work owns (.running pc')) := by
  have hdb : (owns → work = db) → view = db := by
    intro hw
    by_cases ho : owns
    · rw [hview.1 ho, hw ho]
    · exact hview.2 ho
  cases pc with
  | selectForUpdate =>
    obtain rfl := hdb h
    simp only [IncPc.exec] at hexec
    split at hexec
    · rename_i seq db₁ hlock
      obtain ⟨rfl, rfl, rfl⟩ : _ ∧ _ ∧ _ := by simpa using hexec
      obtain ⟨rfl, -⟩ := lockSeq_ok hlock
      split_ifs
      · exact ⟨fun _ _ => rfl, by simp⟩
      · exact ⟨fun _ => ⟨trivial, held_of_lockSeq hlock⟩, by simp⟩
    · obtain ⟨rfl, rfl, rfl⟩ : _ ∧ _ ∧ _ := by simpa using hexec
      exact ⟨by simp, fun _ => h⟩
    · cases hexec
  | insert =>
    obtain rfl := hdb h
    simp only [IncPc.exec] at hexec
    split at hexec
    · rename_i u db₁ hins
      obtain ⟨rfl, rfl, rfl⟩ : _ ∧ _ ∧ _ := by simpa using hexec
      exact ⟨fun _ => ⟨trivial, held_of_insertSeq hins⟩, by simp⟩
    · split_ifs at hexec
      obtain ⟨rfl, rfl, rfl⟩ : _ ∧ _ ∧ _ := by simpa using hexec
      exact ⟨by simp, fun _ => h⟩
  | selectAgain =>
    obtain rfl := hdb h
    simp only [IncPc.exec] at hexec
    split at hexec
    · rename_i seq db₁ hlock
      obtain ⟨rfl, rfl, rfl⟩ : _ ∧ _ ∧ _ := by simpa using hexec
      exact ⟨fun _ => ⟨trivial, held_of_lockSeq hlock⟩, by simp⟩
    · cases hexec
  | update seq =>
    obtain ⟨howns, hheld⟩ := h
    obtain rfl := hview.1 howns
    simp only [IncPc.exec] at hexec
    split at hexec
    · rename_i u db₁ hinc
      obtain ⟨rfl, rfl, rfl⟩ : _ ∧ _ ∧ _ := by simpa using hexec
      obtain ⟨⟨-, hlt⟩, hhead, -⟩ := id hheld
      exact ⟨fun _ => ⟨trivial, by rw [hhead]; exact hlt, by rw [hhead],
        seqAdvanced_of_held hheld hinc⟩, by simp⟩
    · cases hexec
  | returned v => exact absurd rfl (hret v)

/-- Only the transaction with the row, or any while it is free, executes a statement that locks. -/
theorem Enabled.of_locked {pc pc' : IncPc} {db' : Database} (h : s.Enabled uid t pc)
    (hexec : pc.exec uid (s.view t) = .ok (pc', db', true)) : s.owner = none ∨ s.owner = some t := by
  rcases h with h | h | ⟨rfl, hfree⟩
  · exact .inl h
  · exact .inr h
  · by_cases ho : s.owner = some t
    · exact .inr ho
    · rw [view, if_neg ho] at hexec
      simp [IncPc.exec, lockSeq, hfree] at hexec

def committed (s : SeqTxs m) : Finset (Fin m) := Finset.univ.filter fun t => s.pc t = .committed

@[simp] theorem mem_committed {s : SeqTxs m} {t : Fin m} :
    t ∈ s.committed ↔ s.pc t = .committed := by
  simp [committed]

structure Inv (uid : ℤ) (s : SeqTxs m) : Prop where
  each : ∀ t, Consistent uid s.db s.work (s.owner = some t) (s.pc t)
  count : s.returned.length = s.committed.card

theorem committed_update (s : SeqTxs m) {tx tx' : SeqTx} (hpc : s.pc t = tx)
    (hne : tx ≠ .committed) (hne' : tx' ≠ .committed) (owner : Option (Fin m)) (work : Database) :
    committed { s with owner, work, pc := Function.update s.pc t tx' } = s.committed := by
  ext u
  by_cases hu : u = t
  · subst hu
    simp [hpc, hne, hne']
  · simp [Function.update_of_ne hu]

theorem committed_commit (s : SeqTxs m) (t : Fin m) (seq : ℤ) :
    (s.commit t seq).committed = insert t s.committed := by
  ext u
  by_cases hu : u = t
  · subst hu
    simp [commit]
  · simp [commit, hu]

theorem view_spec (s : SeqTxs m) (t : Fin m) :
    (s.owner = some t → s.view t = s.work) ∧ (s.owner ≠ some t → s.view t = s.db) :=
  ⟨fun h => if_pos h, fun h => if_neg h⟩

private theorem Inv.advance {pc pc' : IncPc} {db' : Database} {locked : Bool} (h : s.Inv uid)
    (hpc : s.pc t = .running pc) (hret : ∀ v, pc ≠ .returned v) (hen : s.Enabled uid t pc)
    (hexec : pc.exec uid (s.view t) = .ok (pc', db', locked)) :
    (s.advance t pc' db' locked).Inv uid := by
  have hmine := h.each t
  rw [hpc] at hmine
  obtain ⟨hlock, hfree⟩ := hmine.exec hret (s.view_spec t) hexec
  constructor
  · intro u
    cases locked with
    | true =>
      have howner := hen.of_locked hexec
      by_cases hu : u = t
      · subst hu
        simpa [SeqTxs.advance] using hlock rfl
      · have hno : s.owner ≠ some u := by
          rcases howner with ho | ho <;> rw [ho] <;> simp [Ne.symm hu]
        have hno' : some t ≠ some u := by simpa using Ne.symm hu
        simpa [SeqTxs.advance, Function.update_of_ne hu] using (h.each u).frame hno hno'
    | false =>
      by_cases hu : u = t
      · subst hu
        simpa [SeqTxs.advance] using hfree rfl
      · simpa [SeqTxs.advance, Function.update_of_ne hu] using h.each u
  · rw [SeqTxs.advance, s.committed_update hpc (by simp) (by simp)]
    exact h.count

private theorem Inv.rollback {pc : IncPc} (h : s.Inv uid) (hpc : s.pc t = .running pc) :
    (s.rollback t).Inv uid := by
  constructor
  · intro u
    by_cases hu : u = t
    · subst hu
      simp only [SeqTxs.rollback, Function.update_self, Consistent]
      split_ifs with ho
      · simp
      · exact ho
    · have hkeep : (if s.owner = some t then none else s.owner) = some u ↔ s.owner = some u := by
        split_ifs with ho
        · simp [ho, Ne.symm hu]
        · rfl
      simpa [SeqTxs.rollback, Function.update_of_ne hu, hkeep] using h.each u
  · rw [SeqTxs.rollback, s.committed_update hpc (by simp) (by simp)]
    exact h.count

private theorem Inv.commit {seq : ℤ} (h : s.Inv uid) (hpc : s.pc t = .running (.returned seq)) :
    (s.commit t seq).Inv uid := by
  have hmine := h.each t
  rw [hpc] at hmine
  obtain ⟨howner, -⟩ := hmine
  constructor
  · intro u
    by_cases hu : u = t
    · subst hu
      simp [SeqTxs.commit, howner, Consistent]
    · have hno : s.owner ≠ some u := by simpa [howner] using Ne.symm hu
      have hother : Consistent uid s.work s.work False (s.pc u) := (h.each u).frame hno id
      simpa [SeqTxs.commit, view, howner, Function.update_of_ne hu] using hother
  · have hnew : t ∉ s.committed := by simp [hpc]
    rw [committed_commit, Finset.card_insert_of_notMem hnew, ← h.count]
    simp [SeqTxs.commit]

theorem Inv.step {s' : SeqTxs m} {l : SeqLabel} (h : s.Inv uid) (hs : s.step uid t l = some s') :
    s'.Inv uid := by
  rcases step_cases hs with ⟨pc, pc', db', locked, hpc, hret, hen, hexec, rfl⟩ | ⟨pc, hpc, rfl⟩ |
    ⟨seq, hpc, rfl⟩
  · exact h.advance hpc hret hen hexec
  · exact h.rollback hpc
  · exact h.commit hpc

theorem inv_start (uid : ℤ) (m : ℕ) (db : Database) : (start m db).Inv uid := by
  constructor
  · intro t ho
    cases ho
  · simp [start, committed]

theorem inv_of_reachable {db : Database} (h : (incSeqSystem uid db m).Reachable s) : s.Inv uid :=
  h.invariant (fun _ hs => hs ▸ inv_start uid m db) fun _ _ _ hi hs => hi.step hs

end SeqTxs
end MiniPush.Store
