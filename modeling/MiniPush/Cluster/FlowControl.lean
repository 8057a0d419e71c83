import MiniPush.Cluster.CacheTrail
import MiniPush.Cluster.Frequency
import MiniPush.Cluster.Storage
import MiniPush.Foundation.Spacing

/-! The flow control of the cache: what the test of `check` means for the times at which a user's head
sequences are pushed, in every run of the storage. -/
namespace MiniPush.Cluster
open Foundation

/-- What is recorded of the pushes: when the last check began, and the messages sent with their times. -/
structure Pushes where
  begun : ℤ
  pushed : List (ℤ × GoMap ℤ ℤ)

def Pushes.times (r : Pushes) (uid : ℤ) : List ℤ :=
  (r.pushed.filter fun p => (p.2.lookup uid).isSome).map Prod.fst

def notePush (s : Storage) : StorageLabel → Pushes → Pushes
  | .check .begin, r => { r with begun := s.now }
  | .check .send, r =>
    match s.cache.pc with
    | .loop _ _ out => if out.entries = [] then r else { r with pushed := r.pushed ++ [(s.now, out)] }
    | _ => r
  | _, r => r

def pushSystem (cfg : StorageConfig) : System (Storage × Pushes) StorageLabel :=
  (storageSystem cfg).record ⟨0, []⟩ notePush

/-- The clock does not go back, and `check` tests an entry as the code does. -/
def Timed (R : Rounding 53) (s : Storage) : StorageLabel → Prop
  | .tick now => s.now ≤ now
  | .check (.visit uid due) => ∀ v ∈ s.cache.kv.lookup uid, due = v.due R s.now
  | _ => True

theorem Storage.Step.cache_cases {cfg : StorageConfig} {s s' : Storage} {l : StorageLabel}
    (h : Storage.Step cfg s l s') :
    (s'.cache = s.cache ∧ s'.now = s.now ∧ ∀ r, notePush s l r = r) ∨
    (∃ now, l = .tick now ∧ s'.cache = s.cache ∧ s'.now = now) ∨
    (∃ res, l = .put ∧ s'.cache = s.cache.put s.now res ∧ s'.now = s.now) ∨
    (l = .crash ∧ s'.cache = newCache ∧ s'.now = s.now) ∨
    (∃ k, l = .check k ∧ s.cache.checkStep k = some s'.cache ∧ s'.now = s.now) := by
  cases h with
  | tick now => exact .inr (.inl ⟨now, rfl, rfl, rfl⟩)
  | @put i res _ => exact .inr (.inr (.inl ⟨res, rfl, rfl, rfl⟩))
  | crash => exact .inr (.inr (.inr (.inl ⟨rfl, rfl, rfl⟩)))
  | @check k cache hc => exact .inr (.inr (.inr (.inr ⟨k, rfl, hc, rfl⟩)))
  | _ => exact .inl ⟨rfl, rfl, fun _ => rfl⟩

/-- `put` leaves `check` where it is; an entry keeps the time at which it was cached. -/
theorem Cache.put_entries (now : ℤ) (c : Cache) (data : GoMap ℤ ℤ) :
    (c.put now data).pc = c.pc ∧ ∀ uid v, (c.put now data).kv.lookup uid = some v →
      (∃ u, c.kv.lookup uid = some u ∧ v.cacheTime = u.cacheTime ∧ u.counter ≤ v.counter) ∨
        v.cacheTime = now ∧ 1 ≤ v.counter := by
  refine Cache.putLoop_induction (I := fun c' => c'.pc = c.pc ∧ ∀ uid v, c'.kv.lookup uid = some v →
    (∃ u, c.kv.lookup uid = some u ∧ v.cacheTime = u.cacheTime ∧ u.counter ≤ v.counter) ∨
      v.cacheTime = now ∧ 1 ≤ v.counter) ?_ (fun _ h => h)
    ⟨rfl, fun uid v hv => .inl ⟨v, hv, rfl, le_refl _⟩⟩ data.entries
  rintro c₁ uid seq c₂ ⟨hpc, hkv⟩ he
  unfold Cache.putEntry at he
  cases hv : c₁.kv.lookup uid with
  | none =>
    rw [hv] at he
    obtain rfl := Option.some.inj he
    refine ⟨hpc, fun uid' v' hv' => ?_⟩
    rw [GoMap.lookup_insert] at hv'
    split_ifs at hv'
    · obtain rfl := Option.some.inj hv'
      exact .inr ⟨rfl, le_refl _⟩
    · exact hkv uid' v' hv'
  | some v =>
    rw [hv] at he
    dsimp only at he
    split_ifs at he
    obtain rfl := Option.some.inj he
    refine ⟨hpc, fun uid' v' hv' => ?_⟩
    rw [GoMap.lookup_insert] at hv'
    split_ifs at hv' with huid
    · obtain rfl := Option.some.inj hv'
      rcases hkv uid v hv with ⟨u, hu, htime, hcount⟩ | ⟨htime, hcount⟩
      · exact .inl ⟨u, huid ▸ hu, htime, by dsimp only; omega⟩
      · exact .inr ⟨htime, by dsimp only; omega⟩
    · exact hkv uid' v' hv'

def Cache.Dated (c : Cache) (now : ℤ) : Prop :=
  ∀ uid v, c.kv.lookup uid = some v → v.cacheTime ≤ now ∧ 1 ≤ v.counter

theorem Cache.dated_put {c : Cache} {now : ℤ} (h : c.Dated now) (data : GoMap ℤ ℤ) :
    (c.put now data).Dated now := by
  intro uid v hv
  rcases (c.put_entries now data).2 uid v hv with ⟨u, hu, htime, hcount⟩ | ⟨htime, hcount⟩
  · obtain ⟨hnow, hone⟩ := h uid u hu
    exact ⟨htime ▸ hnow, hone.trans hcount⟩
  · exact ⟨htime.le, hcount⟩

/-- After the first `n` pushes, of which those at `ts` have been sent, the entry cached at `a` is late
enough for one more. -/
def Paced (ts : List ℤ) (n : ℕ) (a : ℤ) : Prop :=
  ∀ (i k : ℕ) (t : ℤ), ts[i]? = some t → i + 2 + k = n → t + k * Time.second ≤ a

theorem Paced.mono {ts : List ℤ} {n : ℕ} {a b : ℤ} (h : Paced ts n a) (hab : a ≤ b) : Paced ts n b :=
  fun i k t ht hk => (h i k t ht hk).trans hab

theorem paced_of_spaced {ts : List ℤ} {a : ℤ} (h : Spaced Time.second ts) (hpast : ∀ t ∈ ts, t ≤ a) :
    Paced ts ts.length a := by
  intro i k t ht hk
  have hlast : ts[i + 1 + k]? = some ts[i + 1 + k] := List.getElem?_eq_getElem (by omega)
  exact (h i k t _ ht hlast).trans (hpast _ (List.mem_of_getElem? hlast))

/-- The number of pushes for a user, with the one that waits in `out`. -/
def pushCount (c : Cache) (r : Pushes) (uid : ℤ) : ℕ :=
  (r.times uid).length + if (c.outSeq uid).isSome then 1 else 0

/-- The pushes for a user are spaced, and what is cached for it keeps them so. -/
structure PaceInv (uid : ℤ) (c : Cache) (now : ℤ) (r : Pushes) : Prop where
  spaced : Spaced Time.second (r.times uid)
  past : ∀ t ∈ r.times uid, t ≤ now
  paced : Paced (r.times uid) (pushCount c r uid) now
  entry : ∀ v, c.kv.lookup uid = some v → c.deleting ≠ some uid →
    Paced (r.times uid) (pushCount c r uid) v.cacheTime

section Pace
variable {uid now : ℤ} {c c' : Cache} {r : Pushes}

theorem PaceInv.tick (h : PaceInv uid c now r) {now' : ℤ} (hle : now ≤ now') : PaceInv uid c now' r :=
  ⟨h.spaced, fun t ht => (h.past t ht).trans hle, h.paced.mono hle, h.entry⟩

theorem PaceInv.restart (h : PaceInv uid c now r) : PaceInv uid newCache now r := by
  refine ⟨h.spaced, h.past, paced_of_spaced h.spaced h.past, fun v hv => ?_⟩
  cases hv

theorem PaceInv.put (h : PaceInv uid c now r) (data : GoMap ℤ ℤ) : PaceInv uid (c.put now data) now r := by
  obtain ⟨hpc, hkv⟩ := c.put_entries now data
  have hout : (c.put now data).outSeq uid = c.outSeq uid := by simp only [Cache.outSeq, hpc]
  have hdel : (c.put now data).deleting = c.deleting := by simp only [Cache.deleting, hpc]
  have hcount : pushCount (c.put now data) r uid = pushCount c r uid := by simp only [pushCount, hout]
  refine ⟨h.spaced, h.past, hcount ▸ h.paced, fun v hv hne => ?_⟩
  rw [hcount]
  rcases hkv uid v hv with ⟨u, hu, htime, -⟩ | ⟨htime, -⟩
  · rw [htime]
    exact h.entry u hu (hdel ▸ hne)
  · rw [htime]
    exact h.paced

/-- Steps that neither take the user's entry nor send keep the pace. -/
theorem PaceInv.of_same (h : PaceInv uid c now r) (hout : c'.outSeq uid = c.outSeq uid)
    (hkv : ∀ v, c'.kv.lookup uid = some v → c'.deleting ≠ some uid →
      c.kv.lookup uid = some v ∧ c.deleting ≠ some uid) : PaceInv uid c' now r := by
  have hcount : pushCount c' r uid = pushCount c r uid := by simp only [pushCount, hout]
  refine ⟨h.spaced, h.past, hcount ▸ h.paced, fun v hv hne => ?_⟩
  obtain ⟨hv', hne'⟩ := hkv v hv hne
  exact hcount ▸ h.entry v hv' hne'

/-- An entry that is due was cached a second ago, so that the next push is a second later. -/
theorem PaceInv.take (h : PaceInv uid c now r) {todo kept todo' : List ℤ} {out : GoMap ℤ ℤ} {v : UserSeq}
    (hpc : c.pc = .loop todo kept out) (hv : c.kv.lookup uid = some v)
    (hlate : v.cacheTime + Time.second ≤ now) :
    PaceInv uid { c with pc := .copied uid todo' kept (out.insert uid v.headSeq) } now r := by
  have hdel : c.deleting ≠ some uid := by simp [Cache.deleting, hpc]
  refine ⟨h.spaced, h.past, ?_, fun _ _ hne => absurd rfl hne⟩
  have hcount : pushCount { c with pc := .copied uid todo' kept (out.insert uid v.headSeq) } r uid =
      (r.times uid).length + 1 := by
    simp [pushCount, Cache.outSeq]
  rw [hcount]
  by_cases hsome : (c.outSeq uid).isSome
  · have := h.paced
    rwa [pushCount, if_pos hsome] at this
  · have hentry := h.entry v hv hdel
    rw [pushCount, if_neg hsome, Nat.add_zero] at hentry
    intro i k t ht hk
    cases k with
    | zero => simpa using h.past t (List.mem_of_getElem? ht)
    | succ k =>
      have := hentry i k t ht (by omega)
      push_cast
      linarith [add_mul (k : ℤ) 1 Time.second]

theorem times_append (r : Pushes) (uid t : ℤ) (out : GoMap ℤ ℤ) :
    Pushes.times { r with pushed := r.pushed ++ [(t, out)] } uid =
      r.times uid ++ if (out.lookup uid).isSome then [t] else [] := by
  simp only [Pushes.times, List.filter_append, List.map_append]
  split_ifs with h <;> simp [h]

theorem PaceInv.send (h : PaceInv uid c now r) {todo kept : List ℤ} {out : GoMap ℤ ℤ}
    (hpc : c.pc = .loop todo kept out) {sent : List (GoMap ℤ ℤ)} :
    PaceInv uid { c with pc := .sent, sent } now
      (if out.entries = [] then r else { r with pushed := r.pushed ++ [(now, out)] }) := by
  have hdel : c.deleting ≠ some uid := by simp [Cache.deleting, hpc]
  have hempty : out.entries = [] → out.lookup uid = none := by
    intro he
    simp [AList.lookup, he]
  -- Without an entry for the user its record stays as it was.
  by_cases hsome : (out.lookup uid).isSome
  · have hne : out.entries ≠ [] := fun he => by simp [hempty he] at hsome
    have hcount : pushCount c r uid = (r.times uid).length + 1 := by
      rw [pushCount, Cache.outSeq_loop hpc, if_pos hsome]
    have htimes : Pushes.times { r with pushed := r.pushed ++ [(now, out)] } uid = r.times uid ++ [now] := by
      rw [times_append, if_pos hsome]
    have hcount' : pushCount { c with pc := .sent, sent }
        { r with pushed := r.pushed ++ [(now, out)] } uid = (r.times uid).length + 1 := by
      simp [pushCount, htimes, Cache.outSeq]
    have hkeep : ∀ a, Paced (r.times uid) ((r.times uid).length + 1) a →
        Paced (r.times uid ++ [now]) ((r.times uid).length + 1) a := by
      intro a ha i k t ht hk
      rw [List.getElem?_append_left (by omega)] at ht
      exact ha i k t ht hk
    rw [if_neg hne]
    refine ⟨?_, ?_, ?_, fun v hv _ => ?_⟩
    · rw [htimes]
      refine h.spaced.append fun i k t ht hk => ?_
      have := h.paced
      rw [hcount] at this
      exact this i k t ht (by omega)
    · rw [htimes]
      intro t ht
      rcases List.mem_append.mp ht with ht | ht
      · exact h.past t ht
      · exact (List.mem_singleton.mp ht).le
    · rw [hcount', htimes]
      exact hkeep now (hcount ▸ h.paced)
    · rw [hcount', htimes]
      exact hkeep _ (hcount ▸ h.entry v hv hdel)
  · have hnone : c.outSeq uid = none := by
      rw [Cache.outSeq_loop hpc]
      simpa using hsome
    have hsame : PaceInv uid { c with pc := .sent, sent } now r :=
      h.of_same hnone.symm fun v hv _ => ⟨hv, hdel⟩
    split_ifs with he
    · exact hsame
    · have htimes : Pushes.times { r with pushed := r.pushed ++ [(now, out)] } uid = r.times uid := by
        rw [times_append, if_neg hsome, List.append_nil]
      have hcount : pushCount { c with pc := .sent, sent }
          { r with pushed := r.pushed ++ [(now, out)] } uid = pushCount { c with pc := .sent, sent } r uid := by
        simp only [pushCount, htimes]
      exact ⟨htimes ▸ hsame.spaced, htimes ▸ hsame.past, by rw [htimes, hcount]; exact hsame.paced,
        by rw [htimes, hcount]; exact hsame.entry⟩

theorem PaceInv.check {R : Rounding 53} {s : Storage} {r : Pushes} (h : PaceInv uid s.cache s.now r)
    (hdated : s.cache.Dated s.now) {k : CheckLabel} (hok : Timed R s (.check k))
    (hk : s.cache.checkStep k = some c') : PaceInv uid c' s.now (notePush s (.check k) r) := by
  rcases Cache.checkStep_cases hk with ⟨rfl, hpc, rfl | rfl⟩ | ⟨u, todo, kept, out, v, rfl, hpc, hv, rfl⟩ |
    ⟨u, todo, kept, out, rfl, hpc, rfl⟩ | ⟨u, todo, kept, out, rfl, hpc, rfl⟩ | ⟨kept, out, rfl, hpc, rfl⟩ |
    ⟨rfl, hpc, rfl⟩
  · exact ⟨h.spaced, h.past, h.paced, h.entry⟩
  · have hsame : PaceInv uid { s.cache with sending := true, pc := .loop s.cache.kv.keys [] ∅ } s.now r :=
      h.of_same (by simp [Cache.outSeq, hpc]) fun v hv _ => ⟨hv, by simp [Cache.deleting, hpc]⟩
    exact ⟨hsame.spaced, hsame.past, hsame.paced, hsame.entry⟩
  · obtain ⟨hnow, hone⟩ := hdated u v hv
    have hlate : v.cacheTime + Time.second ≤ s.now := by
      have hdue : v.due R s.now = true := (hok v hv).symm
      rw [UserSeq.due_iff R hone hnow] at hdue
      unfold storeCacheTTL Time.second at hdue
      unfold Time.second
      omega
    by_cases hu : uid = u
    · subst hu
      exact h.take hpc hv hlate
    · refine h.of_same ?_ fun w hw _ => ⟨hw, by simp [Cache.deleting, hpc]⟩
      simp [Cache.outSeq, hpc, hu]
  · exact h.of_same (by simp [Cache.outSeq, hpc]) fun w hw _ => ⟨hw, by simp [Cache.deleting, hpc]⟩
  · refine h.of_same (by simp [Cache.outSeq, hpc]) fun w hw _ => ?_
    rw [GoMap.lookup_erase] at hw
    split_ifs at hw with hu
    refine ⟨hw, ?_⟩
    rw [Cache.deleting_copied hpc]
    simpa using Ne.symm hu
  · have hnote : notePush s (.check .send) r =
        if out.entries = [] then r else { r with pushed := r.pushed ++ [(s.now, out)] } := by
      simp only [notePush, hpc]
    rw [hnote]
    exact h.send hpc
  · exact h.of_same (by simp [Cache.outSeq, hpc]) fun w hw _ => ⟨hw, by simp [Cache.deleting, hpc]⟩

end Pace

/-- Of an entry that a check begun at `b` has left: it was not older than the time limit, and had more
events than seconds. -/
def UserSeq.Fresh (b : ℤ) (v : UserSeq) : Prop :=
  b ≤ v.cacheTime + storeCacheTTL ∧ b < v.cacheTime + v.counter * Time.second

def Cache.todo (c : Cache) : List ℤ :=
  match c.pc with
  | .loop todo _ _ => todo
  | .copied _ todo _ _ => todo
  | _ => []

/-- While a check runs, the entries it has passed by are fresh. -/
def DelayInv (c : Cache) (now : ℤ) (r : Pushes) : Prop :=
  c.pc = .idle ∨ r.begun ≤ now ∧ ∀ uid v, c.kv.lookup uid = some v → c.deleting ≠ some uid →
    uid ∈ c.todo ∨ v.Fresh r.begun

section Delay
variable {now : ℤ} {c c' : Cache} {r : Pushes}

theorem DelayInv.tick (h : DelayInv c now r) {now' : ℤ} (hle : now ≤ now') : DelayInv c now' r :=
  h.imp_right fun ⟨hb, hkv⟩ => ⟨hb.trans hle, hkv⟩

theorem DelayInv.put (h : DelayInv c now r) (data : GoMap ℤ ℤ) : DelayInv (c.put now data) now r := by
  obtain ⟨hpc, hkv⟩ := c.put_entries now data
  rcases h with hidle | ⟨hbegun, h⟩
  · exact .inl (hpc.trans hidle)
  · have htodo : (c.put now data).todo = c.todo := by simp only [Cache.todo, hpc]
    have hdel : (c.put now data).deleting = c.deleting := by simp only [Cache.deleting, hpc]
    refine .inr ⟨hbegun, fun uid v hv hne => ?_⟩
    rw [htodo]
    rcases hkv uid v hv with ⟨u, hu, htime, hcount⟩ | ⟨htime, hcount⟩
    · refine (h uid u hu (hdel ▸ hne)).imp_right fun hfresh => ?_
      unfold UserSeq.Fresh Time.second at hfresh ⊢
      rw [htime]
      omega
    · refine .inr ?_
      unfold UserSeq.Fresh storeCacheTTL Time.second
      rw [htime]
      omega

theorem DelayInv.check {R : Rounding 53} {s : Storage} (h : DelayInv s.cache s.now r)
    (hdated : s.cache.Dated s.now) {k : CheckLabel} (hok : Timed R s (.check k))
    (hk : s.cache.checkStep k = some c') : DelayInv c' s.now (notePush s (.check k) r) := by
  have hrun : s.cache.pc ≠ .idle → r.begun ≤ s.now ∧ ∀ uid v, s.cache.kv.lookup uid = some v →
      s.cache.deleting ≠ some uid → uid ∈ s.cache.todo ∨ v.Fresh r.begun := fun hne => h.resolve_left hne
  rcases Cache.checkStep_cases hk with ⟨rfl, hpc, rfl | rfl⟩ | ⟨u, todo, kept, out, v, rfl, hpc, hv, rfl⟩ |
    ⟨u, todo, kept, out, rfl, hpc, rfl⟩ | ⟨u, todo, kept, out, rfl, hpc, rfl⟩ | ⟨kept, out, rfl, hpc, rfl⟩ |
    ⟨rfl, hpc, rfl⟩
  · exact .inl hpc
  · refine .inr ⟨le_refl _, fun uid v hv _ => .inl ?_⟩
    exact AList.mem_keys.mpr (AList.lookup_isSome.mp (by rw [hv]; rfl))
  · obtain ⟨hbegun, hkv⟩ := hrun (by simp [hpc])
    refine .inr ⟨hbegun, fun uid w hw hne => ?_⟩
    have huid : uid ≠ u := fun he => hne (by simp [Cache.deleting, he])
    refine (hkv uid w hw (by simp [Cache.deleting, hpc])).imp_left fun hmem => ?_
    simp only [Cache.todo, hpc] at hmem ⊢
    exact (List.mem_erase_of_ne huid).mpr hmem
  · obtain ⟨hbegun, hkv⟩ := hrun (by simp [hpc])
    refine .inr ⟨hbegun, fun uid w hw hne => ?_⟩
    by_cases huid : uid = u
    · -- The entry was passed by, so the test failed after the check had begun.
      subst huid
      refine .inr ?_
      obtain ⟨hnow, hone⟩ := hdated uid w hw
      have hdue : w.due R s.now ≠ true := by
        rw [← hok w hw]
        simp
      rw [ne_eq, UserSeq.due_iff R hone hnow] at hdue
      unfold UserSeq.Fresh
      constructor
      · change r.begun ≤ _
        omega
      · change r.begun < _
        omega
    · refine (hkv uid w hw (by simp [Cache.deleting, hpc])).imp_left fun hmem => ?_
      simp only [Cache.todo, hpc] at hmem ⊢
      exact (List.mem_erase_of_ne huid).mpr hmem
  · obtain ⟨hbegun, hkv⟩ := hrun (by simp [hpc])
    refine .inr ⟨hbegun, fun uid w hw hne => ?_⟩
    rw [GoMap.lookup_erase] at hw
    split_ifs at hw with hu
    refine (hkv uid w hw ?_).imp_left fun hmem => ?_
    · rw [Cache.deleting_copied hpc]
      simpa using Ne.symm hu
    · simpa only [Cache.todo, hpc] using hmem
  · obtain ⟨hbegun, hkv⟩ := hrun (by simp [hpc])
    have hnote : (notePush s (.check .send) r).begun = r.begun := by
      simp only [notePush, hpc]
      split_ifs <;> rfl
    refine .inr ⟨hnote ▸ hbegun, fun uid w hw _ => .inr ?_⟩
    rw [hnote]
    refine (hkv uid w hw (by simp [Cache.deleting, hpc])).resolve_left ?_
    simp [Cache.todo, hpc]
  · exact .inl rfl

end Delay

structure FlowInv (s : Storage) (r : Pushes) : Prop where
  dated : s.cache.Dated s.now
  pace : ∀ uid, PaceInv uid s.cache s.now r
  delay : DelayInv s.cache s.now r

theorem Cache.dated_check {c c' : Cache} {now : ℤ} (h : c.Dated now) {k : CheckLabel}
    (hk : c.checkStep k = some c') : c'.Dated now :=
  fun uid v hv => h uid v (Cache.checkStep_kv hk hv)

theorem step_flowInv {cfg : StorageConfig} {R : Rounding 53} {s s' : Storage} {r : Pushes}
    {l : StorageLabel} (h : Storage.Step cfg s l s') (hok : Timed R s l) (hi : FlowInv s r) :
    FlowInv s' (notePush s l r) := by
  rcases h.cache_cases with ⟨hc, hnow, hr⟩ | ⟨now, rfl, hc, hnow⟩ | ⟨res, rfl, hc, hnow⟩ |
    ⟨rfl, hc, hnow⟩ | ⟨k, rfl, hc, hnow⟩
  · rw [hr]
    exact ⟨by rw [hc, hnow]; exact hi.dated, fun uid => by rw [hc, hnow]; exact hi.pace uid,
      by rw [hc, hnow]; exact hi.delay⟩
  · have hle : s.now ≤ now := hok
    refine ⟨?_, fun uid => ?_, ?_⟩ <;> rw [hc, hnow]
    · exact fun uid v hv => ⟨(hi.dated uid v hv).1.trans hle, (hi.dated uid v hv).2⟩
    · exact (hi.pace uid).tick hle
    · exact hi.delay.tick hle
  · refine ⟨?_, fun uid => ?_, ?_⟩ <;> rw [hc, hnow]
    · exact Cache.dated_put hi.dated res
    · exact (hi.pace uid).put res
    · exact hi.delay.put res
  · refine ⟨?_, fun uid => ?_, ?_⟩ <;> rw [hc, hnow]
    · intro uid v hv
      cases hv
    · exact (hi.pace uid).restart
    · exact .inl rfl
  · refine ⟨?_, fun uid => ?_, ?_⟩ <;> rw [hnow]
    · exact Cache.dated_check hi.dated hc
    · exact (hi.pace uid).check hi.dated hok hc
    · exact hi.delay.check hi.dated hok hc

theorem flowInv_of_reachable {cfg : StorageConfig} {R : Rounding 53} {s : Storage × Pushes}
    (h : (pushSystem cfg).ReachableVia (fun s l => Timed R s.1 l) s) : FlowInv s.1 s.2 := by
  refine h.invariant (I := fun s => FlowInv s.1 s.2) ?_ ?_
  · rintro ⟨_, _⟩ ⟨⟨now, rfl⟩, rfl⟩
    refine ⟨fun uid v hv => ?_, fun uid => ⟨.nil _, ?_, ?_, fun v hv => ?_⟩, .inl rfl⟩
    · cases hv
    · simp [Pushes.times]
    · intro i k t ht
      simp [Pushes.times] at ht
    · cases hv
  · rintro ⟨s, r⟩ l ⟨s', r'⟩ hi hok ht
    obtain ⟨hstep, rfl⟩ := System.record_step.mp ht
    exact step_flowInv (Storage.step_spec hstep) hok hi

/-- The condition on steps, with the test in whole numbers. -/
def timedTest (s : Storage) : StorageLabel → Bool
  | .tick now => s.now ≤ now
  | .check (.visit uid due) =>
    match s.cache.kv.lookup uid with
    | some v => 1 ≤ v.counter ∧ v.cacheTime ≤ s.now ∧ due = decide
        (v.counter * Time.second ≤ s.now - v.cacheTime ∨ storeCacheTTL < s.now - v.cacheTime)
    | none => true
  | _ => true

theorem timed_of_test (R : Rounding 53) {s : Storage} {l : StorageLabel} (h : timedTest s l = true) :
    Timed R s l := by
  cases l with
  | tick now =>
    have hle : s.now ≤ now := of_decide_eq_true h
    exact hle
  | check k =>
    cases k with
    | visit uid due =>
      intro v hv
      simp only [timedTest, Option.mem_def.mp hv, decide_eq_true_eq] at h
      obtain ⟨hone, hnow, rfl⟩ := h
      rw [Bool.eq_iff_iff, decide_eq_true_eq, UserSeq.due_iff R hone hnow]
    | _ => trivial
  | _ => trivial

/-- Within any time `b - a` a user's head sequences are pushed at most once a second, and twice more:
restarts included, and however long a push waits for its receiver. -/
theorem pushes_rate_limited (cfg : StorageConfig) (R : Rounding 53) {s : Storage × Pushes}
    (h : (pushSystem cfg).ReachableVia (fun s l => Timed R s.1 l) s) (uid : ℤ) {a b : ℤ} (hab : a ≤ b) :
    ((s.2.times uid).countP fun t => a ≤ t ∧ t ≤ b) * Time.second ≤ b - a + 2 * Time.second :=
  ((flowInv_of_reachable h).pace uid).spaced.window (by decide) hab

/-- User 2 is told of the first message after a second, and of the second message not half a second later,
but after another second. -/
def pacedRun : List StorageLabel :=
  [.fetch, .save .calm, .put, .tick (1 * Time.second), .check .begin, .check (.visit 2 true), .check .delete,
    .check (.visit 1 true), .check .delete, .check .send, .check .finish, .commit, .fetch, .save .calm, .put,
    .tick (1500 * Time.millisecond), .check .begin, .check (.visit 2 false), .check .send, .check .finish,
    .tick (2 * Time.second), .check .begin, .check (.visit 2 true), .check .delete, .check .send]

theorem pushes_rate_limited_pacedRun :
    ∃ s, (pushSystem sampleConfig).ReachableVia (fun s l => Timed binary64 s.1 l) s ∧
      s.2.times 2 = [1 * Time.second, 2 * Time.second] ∧
      ((s.2.times 2).countP fun t => 0 ≤ t ∧ t ≤ 2 * Time.second) * Time.second ≤
        2 * Time.second - 0 + 2 * Time.second := by
  have hrun : ((pushSystem sampleConfig).runVia (fun s l => timedTest s.1 l) (newStorage 0, ⟨0, []⟩)
      pacedRun).map (fun s => s.2.times 2) = some [1 * Time.second, 2 * Time.second] := by
    decide +kernel
  obtain ⟨s, hs, htimes⟩ := Option.map_eq_some_iff.mp hrun
  have hreach : (pushSystem sampleConfig).ReachableVia (fun s l => Timed binary64 s.1 l) s :=
    System.ReachableVia.runVia (fun s l => timed_of_test binary64) (.init ⟨⟨0, rfl⟩, rfl⟩) pacedRun hs
  exact ⟨s, hreach, htimes, pushes_rate_limited sampleConfig binary64 hreach 2 (by decide)⟩

/-- What a check begun at `b` leaves in the cache was cached at most five seconds before, and has had
more events than seconds since. -/
theorem checked_entries_fresh (cfg : StorageConfig) (R : Rounding 53) {s : Storage × Pushes}
    (h : (pushSystem cfg).ReachableVia (fun s l => Timed R s.1 l) s) (hsent : s.1.cache.pc = .sent)
    (uid : ℤ) (v : UserSeq) (hv : s.1.cache.kv.lookup uid = some v) :
    s.2.begun - v.cacheTime ≤ 5 * Time.second ∧
      s.2.begun - v.cacheTime < v.counter * Time.second := by
  obtain ⟨-, hkv⟩ := (flowInv_of_reachable h).delay.resolve_left (by simp [hsent])
  have hfresh := (hkv uid v hv (by simp [Cache.deleting, hsent])).resolve_left (by simp [Cache.todo, hsent])
  unfold UserSeq.Fresh storeCacheTTL at hfresh
  omega

/-- Half a second after the second message its entry is left in the cache. -/
theorem checked_entries_fresh_pacedRun :
    ∃ s, (pushSystem sampleConfig).ReachableVia (fun s l => Timed binary64 s.1 l) s ∧
      s.1.cache.pc = .sent ∧ s.1.cache.kv.lookup 2 = some ⟨2, 1, 1 * Time.second⟩ ∧
      s.2.begun - 1 * Time.second ≤ 5 * Time.second ∧ s.2.begun - 1 * Time.second < 1 * Time.second := by
  have hrun : ((pushSystem sampleConfig).runVia (fun s l => timedTest s.1 l) (newStorage 0, ⟨0, []⟩)
      (pacedRun.take 19)).map (fun s => ((s.1.cache.checkStep .finish).isSome, s.1.cache.kv.lookup 2)) =
        some (true, some ⟨2, 1, 1 * Time.second⟩) := by
    decide +kernel
  obtain ⟨s, hs, hstate⟩ := Option.map_eq_some_iff.mp hrun
  have hreach : (pushSystem sampleConfig).ReachableVia (fun s l => Timed binary64 s.1 l) s :=
    System.ReachableVia.runVia (fun s l => timed_of_test binary64) (.init ⟨⟨0, rfl⟩, rfl⟩) _ hs
  have hkv := (Prod.mk.inj hstate).2
  have hpc : s.1.cache.pc = .sent := by
    obtain ⟨c, hc⟩ := Option.isSome_iff_exists.mp (Prod.mk.inj hstate).1
    simp only [Cache.checkStep] at hc
    split at hc
    · rename_i hpc
      exact hpc
    · cases hc
  obtain ⟨hage, hfreq⟩ := checked_entries_fresh sampleConfig binary64 hreach hpc 2 _ hkv
  exact ⟨s, hreach, hpc, hkv, hage, hfreq⟩

end MiniPush.Cluster
