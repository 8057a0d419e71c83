import MiniPush.Cluster.CacheTrail
import MiniPush.Cluster.Storage
import MiniPush.Store.History

/-! The head sequences pushed by the storage. `put` compares an incoming sequence only with the entry
that is cached now; that it never meets an older one follows from the order in which the store
assigns sequences. -/
namespace MiniPush.Cluster
open Foundation Store

/-- The cache moves forward below the stored head sequences, and a result of `Save` that is not yet
put lies above everything in the cache. -/
structure PushInv (s : Storage) : Prop where
  forward : s.cache.Forward s.db.headSeq
  pending : ∀ i res, s.pc = .put i res → ∀ uid seq, res.lookup uid = some seq →
    s.cache.Above uid seq ∧ seq ≤ s.db.headSeq uid

theorem afterSave_error_ne_put {i j : ℕ} {e : Event} {decodedAt : ℤ} {err : SqlError}
    {res : GoMap ℤ ℤ} : afterSave i e decodedAt (.error err) ≠ .put j res := by
  simp only [afterSave]
  split_ifs <;> simp

theorem afterSave_eq_put {i j : ℕ} {e : Event} {decodedAt : ℤ} {r : Except SqlError (GoMap ℤ ℤ)}
    {res : GoMap ℤ ℤ} (h : afterSave i e decodedAt r = .put j res) :
    i = j ∧ r = .ok res ∧ res.entries ≠ [] := by
  cases r with
  | error err => exact absurd h afterSave_error_ne_put
  | ok m =>
    simp only [afterSave] at h
    split_ifs at h with hlen
    cases h
    exact ⟨rfl, rfl, List.ne_nil_of_length_pos hlen⟩

/-- `Save` never lowers a head sequence, and the sequences it returns are new and current. -/
theorem save_heads (env : TxEnv SqlError) (e : Event) (db : Database) (uid : ℤ) :
    db.headSeq uid ≤ (save env e db).2.headSeq uid ∧
      ∀ m seq, (save env e db).1 = .ok m → m.lookup uid = some seq →
        db.headSeq uid < seq ∧ seq ≤ (save env e db).2.headSeq uid := by
  rcases save_cases env e db with ⟨err, he⟩ | ⟨m, db', hs | hs, he⟩
  · rw [he]
    exact ⟨le_refl _, by simp⟩
  · obtain ⟨hnew, hmono⟩ := hs.heads uid
    rcases he with he | ⟨err, -, he⟩
    · rw [he]
      refine ⟨hmono, fun m' seq hm hseq => ?_⟩
      cases hm
      obtain ⟨rfl, hlt⟩ := hnew seq hseq
      exact ⟨hlt, le_refl _⟩
    · rw [he]
      exact ⟨hmono, by simp⟩
  · obtain rfl := hs.unchanged
    obtain rfl := hs.noSeqs
    rcases he with he | ⟨err, -, he⟩
    · rw [he]
      refine ⟨le_refl _, fun m' seq hm hseq => ?_⟩
      cases hm
      simp at hseq
    · rw [he]
      exact ⟨le_refl _, by simp⟩

theorem step_pushInv {cfg : StorageConfig} {s s' : Storage} {l : StorageLabel}
    (h : Storage.Step cfg s l s') (hi : PushInv s) : PushInv s' := by
  cases h with
  | fetchEvent _ _ _ => exact ⟨hi.forward, by simp⟩
  | fetchSkip hpc _ _ => exact ⟨hi.forward, by simp [hpc]⟩
  | fetchErr canceled _ => exact ⟨hi.forward, by cases canceled <;> simp⟩
  | @save env i e decodedAt _ =>
    refine ⟨hi.forward.mono fun uid => (save_heads env e s.db uid).1, fun j res hpc uid seq hseq => ?_⟩
    obtain ⟨-, hok, -⟩ := afterSave_eq_put hpc
    obtain ⟨hlt, hle⟩ := (save_heads env e s.db uid).2 res seq hok hseq
    exact ⟨hi.forward.above hlt, hle⟩
  | @put i res hpc =>
    have hf := Cache.put_forward hi.forward s.now (hi.pending i res hpc)
    exact ⟨hf, by simp [hf.alive]⟩
  | commit _ => exact ⟨hi.forward, by simp⟩
  | commitErr _ canceled _ => exact ⟨hi.forward, by cases canceled <;> simp⟩
  | stop => exact ⟨hi.forward, by simp⟩
  | crash => exact ⟨Cache.forward_newCache _, by simp⟩
  | reset => exact ⟨hi.forward, hi.pending⟩
  | tick _ => exact ⟨hi.forward, hi.pending⟩
  | deleteOutdated env _ =>
    have hhead := deleteOutdatedEvents_headSeq cfg.platform env s.now cfg.delEventsTtlDays s.db
    exact ⟨by rw [hhead]; exact hi.forward, by rw [hhead]; exact hi.pending⟩
  | setRead env uid seq =>
    have hhead := setRead_headSeq env uid seq s.db
    exact ⟨by rw [hhead]; exact hi.forward, by rw [hhead]; exact hi.pending⟩
  | check hc =>
    refine ⟨Cache.checkStep_forward hc hi.forward, fun i res hpc uid seq hseq => ?_⟩
    obtain ⟨habove, hle⟩ := hi.pending i res hpc uid seq hseq
    exact ⟨Cache.checkStep_above hc habove, hle⟩

theorem pushInv_of_reachable {cfg : StorageConfig} {s : Storage}
    (h : (storageSystem cfg).Reachable s) : PushInv s := by
  refine System.Reachable.invariant (I := PushInv) ?_ ?_ h
  · rintro s ⟨now, rfl⟩
    exact ⟨Cache.forward_newCache _, by simp [newStorage]⟩
  · intro s l s' hi hstep
    exact step_pushInv (Storage.step_spec hstep) hi

/-- In every run `put` does not panic, the sequences sent for a user increase, and none is above the
head sequence stored when it is sent. -/
theorem pushed_head_seqs_move_forward (cfg : StorageConfig) {s : Storage}
    (h : (storageSystem cfg).Reachable s) :
    s.cache.panicked = false ∧ (∀ uid, (s.cache.sentSeqs uid).Pairwise (· < ·)) ∧
      ∀ s', (storageSystem cfg).step s (.check .send) = some s' →
        ∀ uid, ∀ x ∈ s'.cache.sentSeqs uid, x ≤ s.db.headSeq uid := by
  have hi := pushInv_of_reachable h
  refine ⟨hi.forward.alive, fun uid => ?_, fun s' hs' uid x hx => ?_⟩
  · exact (hi.forward.increasing uid).sublist (List.sublist_append_left _ _)
  · have hi' := pushInv_of_reachable (h.step hs')
    have hdb : s'.db = s.db := by
      have hstep : Storage.Step cfg s (.check .send) s' := Storage.step_spec hs'
      cases hstep with
      | check _ => rfl
    rw [← hdb]
    exact hi'.forward.trail_le uid x (List.mem_append_left _ hx)

/-- Both messages are saved; user 2 is sent its head sequence after each of them. -/
def pushRun : List StorageLabel :=
  [.fetch, .save .calm, .put, .check .begin, .check (.visit 2 true), .commit, .check .delete,
    .check (.visit 1 false), .check .send, .check .finish, .fetch, .save .calm, .put, .check .begin,
    .check (.visit 1 false), .check (.visit 2 true), .check .delete, .check .send]

theorem pushed_head_seqs_pushRun :
    ∃ s, (storageSystem sampleConfig).run (newStorage 0) pushRun = some s ∧
      s.cache.sentSeqs 2 = [1, 2] ∧ (s.cache.sentSeqs 2).Pairwise (· < ·) := by
  have hrun : ((storageSystem sampleConfig).run (newStorage 0) pushRun).map
      (fun s => s.cache.sentSeqs 2) = some [1, 2] := by
    decide +kernel
  obtain ⟨s, hs, hsent⟩ := Option.map_eq_some_iff.mp hrun
  exact ⟨s, hs, hsent, (pushed_head_seqs_move_forward sampleConfig
    (System.Reachable.run (.init ⟨0, rfl⟩) pushRun hs)).2.1 2⟩

end MiniPush.Cluster
