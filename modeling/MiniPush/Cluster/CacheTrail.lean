import MiniPush.Cluster.Cache

/-! The trail of a user through the cache: the sequences sent, the one in `out` and the one cached.
Steps of `check` only move along the trail or shorten it, whatever they interleave with. -/
namespace MiniPush.Cluster

namespace Cache

def sentSeqs (c : Cache) (uid : ℤ) : List ℤ := c.sent.filterMap fun out => out.lookup uid

/-- The sequence cached for a user, unless `check` is about to delete the entry. -/
def cachedSeq (c : Cache) (uid : ℤ) : Option ℤ :=
  if c.deleting = some uid then none else (c.kv.lookup uid).map UserSeq.headSeq

def trail (c : Cache) (uid : ℤ) : List ℤ :=
  c.sentSeqs uid ++ ((c.outSeq uid).toList ++ (c.cachedSeq uid).toList)

theorem checkStep_puts {c c' : Cache} {l : CheckLabel} (h : c.checkStep l = some c') :
    c'.puts = c.puts ∧ c'.panicked = c.panicked := by
  rcases checkStep_cases h with ⟨-, -, rfl | rfl⟩ | ⟨_, _, _, _, _, -, -, -, rfl⟩ |
    ⟨_, _, _, _, -, -, rfl⟩ | ⟨_, _, _, _, -, -, rfl⟩ | ⟨_, _, -, -, rfl⟩ | ⟨-, -, rfl⟩ <;>
  exact ⟨rfl, rfl⟩

theorem checkStep_kv {c c' : Cache} {l : CheckLabel} (h : c.checkStep l = some c') {uid : ℤ}
    {v : UserSeq} (hv : c'.kv.lookup uid = some v) : c.kv.lookup uid = some v := by
  rcases checkStep_cases h with ⟨-, -, rfl | rfl⟩ | ⟨_, _, _, _, _, -, -, -, rfl⟩ |
    ⟨_, _, _, _, -, -, rfl⟩ | ⟨u, _, _, _, -, -, rfl⟩ | ⟨_, _, -, -, rfl⟩ | ⟨-, -, rfl⟩
  · exact hv
  · exact hv
  · exact hv
  · exact hv
  · rw [GoMap.lookup_erase] at hv
    split_ifs at hv
    exact hv
  · exact hv
  · exact hv

theorem checkStep_trail {c c' : Cache} {l : CheckLabel} (h : c.checkStep l = some c') (uid : ℤ) :
    (c'.trail uid).Sublist (c.trail uid) := by
  rcases checkStep_cases h with ⟨-, hpc, rfl | rfl⟩ | ⟨u, todo, kept, out, v, -, hpc, hv, rfl⟩ |
    ⟨u, todo, kept, out, -, hpc, rfl⟩ | ⟨u, todo, kept, out, -, hpc, rfl⟩ |
    ⟨kept, out, -, hpc, rfl⟩ | ⟨-, hpc, rfl⟩
  · exact List.Sublist.refl _
  · simp [trail, sentSeqs, outSeq, cachedSeq, deleting, hpc]
  · refine List.Sublist.append (List.Sublist.refl _) ?_
    by_cases hu : uid = u
    · subst hu
      simp [outSeq, cachedSeq, deleting, hpc, hv]
    · have hne : ¬u = uid := fun he => hu he.symm
      simp [outSeq, cachedSeq, deleting, hpc, hne, hu]
  · simp [trail, sentSeqs, outSeq, cachedSeq, deleting, hpc]
  · refine List.Sublist.append (List.Sublist.refl _) ?_
    by_cases hu : uid = u
    · subst hu
      simp [outSeq, cachedSeq, deleting, hpc]
    · have hne : ¬u = uid := fun he => hu he.symm
      simp [outSeq, cachedSeq, deleting, hpc, hne, hu]
  · by_cases hempty : out.entries = []
    · have hout : out = ∅ := AList.ext hempty
      simp [trail, sentSeqs, outSeq, cachedSeq, deleting, hpc, hout]
    · cases hl : out.lookup uid <;>
      simp [trail, sentSeqs, outSeq, cachedSeq, deleting, hpc, hempty, hl]
  · simp [trail, sentSeqs, outSeq, cachedSeq, deleting, hpc]

structure Above (c : Cache) (uid seq : ℤ) : Prop where
  trail : ∀ x ∈ c.trail uid, x < seq
  cached : ∀ v, c.kv.lookup uid = some v → v.headSeq < seq

/-- The sequences of every user move forward: its trail increases and stays at or below the stored
head sequence. -/
structure Forward (c : Cache) (head : ℤ → ℤ) : Prop where
  alive : c.panicked = false
  increasing : ∀ uid, (c.trail uid).Pairwise (· < ·)
  trail_le : ∀ uid, ∀ x ∈ c.trail uid, x ≤ head uid
  cached_le : ∀ uid v, c.kv.lookup uid = some v → v.headSeq ≤ head uid
  puts_le : ∀ p ∈ c.puts, p.2 ≤ head p.1

theorem forward_newCache (head : ℤ → ℤ) : newCache.Forward head where
  alive := rfl
  increasing uid := by simp [trail, sentSeqs, outSeq, cachedSeq, newCache]
  trail_le uid := by simp [trail, sentSeqs, outSeq, cachedSeq, deleting, newCache]
  cached_le uid v := by simp [newCache]
  puts_le := by simp [newCache]

theorem Forward.mono {c : Cache} {head head' : ℤ → ℤ} (h : c.Forward head)
    (hle : ∀ uid, head uid ≤ head' uid) : c.Forward head' where
  alive := h.alive
  increasing := h.increasing
  trail_le uid x hx := (h.trail_le uid x hx).trans (hle uid)
  cached_le uid v hv := (h.cached_le uid v hv).trans (hle uid)
  puts_le p hp := (h.puts_le p hp).trans (hle p.1)

theorem Forward.above {c : Cache} {head : ℤ → ℤ} (h : c.Forward head) {uid seq : ℤ}
    (hlt : head uid < seq) : c.Above uid seq where
  trail x hx := lt_of_le_of_lt (h.trail_le uid x hx) hlt
  cached v hv := lt_of_le_of_lt (h.cached_le uid v hv) hlt

theorem checkStep_above {c c' : Cache} {l : CheckLabel} (h : c.checkStep l = some c') {uid seq : ℤ}
    (ha : c.Above uid seq) : c'.Above uid seq where
  trail x hx := ha.trail x ((checkStep_trail h uid).subset hx)
  cached v hv := ha.cached v (checkStep_kv h hv)

theorem checkStep_forward {c c' : Cache} {l : CheckLabel} (h : c.checkStep l = some c')
    {head : ℤ → ℤ} (hf : c.Forward head) : c'.Forward head where
  alive := (checkStep_puts h).2.trans hf.alive
  increasing uid := (hf.increasing uid).sublist (checkStep_trail h uid)
  trail_le uid x hx := hf.trail_le uid x ((checkStep_trail h uid).subset hx)
  cached_le uid v hv := hf.cached_le uid v (checkStep_kv h hv)
  puts_le p hp := hf.puts_le p (by rwa [(checkStep_puts h).1] at hp)

/-- An entry of `put` that is accepted comes behind the trail of its user. -/
theorem putEntry_trail {now uid seq : ℤ} {c c' : Cache} (h : c.putEntry now uid seq = some c') :
    (c'.trail uid).Sublist (c.trail uid ++ [seq]) ∧ ∀ u, u ≠ uid → c'.trail u = c.trail u := by
  obtain ⟨v, rfl, -, rfl⟩ := putEntry_cases h
  constructor
  · simp only [trail, List.append_assoc]
    refine List.Sublist.append (List.Sublist.refl _) (List.Sublist.append (List.Sublist.refl _) ?_)
    have hseq : ∀ o : Option ℤ, o = none ∨ o = some v.headSeq →
        o.toList.Sublist ((c.cachedSeq uid).toList ++ [v.headSeq]) := by
      rintro o (rfl | rfl)
      · exact List.nil_sublist _
      · exact List.sublist_append_right _ _
    apply hseq
    simp only [cachedSeq, GoMap.lookup_insert, if_true]
    split_ifs
    · exact .inl rfl
    · exact .inr rfl
  · intro u hu
    simp only [trail, sentSeqs, cachedSeq, GoMap.lookup_insert, if_neg hu]
    rfl

theorem putEntry_above {now uid seq u x : ℤ} {c c' : Cache}
    (h : c.putEntry now uid seq = some c') (hu : u ≠ uid) (ha : c.Above u x) : c'.Above u x := by
  have htrail := (putEntry_trail h).2 u hu
  obtain ⟨v, -, -, rfl⟩ := putEntry_cases h
  refine ⟨fun y hy => ha.trail y (by rwa [htrail] at hy), fun w hw => ha.cached w ?_⟩
  rwa [GoMap.lookup_insert, if_neg hu] at hw

/-- An entry above everything the cache knows of its user is accepted and keeps the order. -/
theorem putEntry_forward {c : Cache} {head : ℤ → ℤ} (hf : c.Forward head) (now : ℤ) {uid seq : ℤ}
    (ha : c.Above uid seq) (hle : seq ≤ head uid) :
    ∃ c', c.putEntry now uid seq = some c' ∧ c'.Forward head := by
  obtain ⟨c', h⟩ : ∃ c', c.putEntry now uid seq = some c' := by
    unfold putEntry
    cases hv : c.kv.lookup uid with
    | none => exact ⟨_, rfl⟩
    | some v => exact ⟨_, if_pos (ha.cached v hv)⟩
  refine ⟨c', h, ?_⟩
  obtain ⟨hself, hother⟩ := putEntry_trail h
  have hgrown : (c.trail uid ++ [seq]).Pairwise (· < ·) := by
    refine List.pairwise_append.mpr ⟨hf.increasing uid, List.pairwise_singleton _ _, ?_⟩
    intro x hx y hy
    rw [List.mem_singleton.mp hy]
    exact ha.trail x hx
  obtain ⟨v, rfl, -, rfl⟩ := putEntry_cases h
  refine ⟨hf.alive, fun u => ?_, fun u x hx => ?_, fun u w hw => ?_, fun p hp => ?_⟩
  · by_cases hu : u = uid
    · rw [hu]
      exact hgrown.sublist hself
    · rw [hother u hu]
      exact hf.increasing u
  · by_cases hu : u = uid
    · rw [hu] at hx ⊢
      rcases List.mem_append.mp (hself.subset hx) with hx | hx
      · exact hf.trail_le uid x hx
      · rw [List.mem_singleton.mp hx]
        exact hle
    · rw [hother u hu] at hx
      exact hf.trail_le u x hx
  · rw [GoMap.lookup_insert] at hw
    split_ifs at hw with hu
    · cases hw
      rw [hu]
      exact hle
    · exact hf.cached_le u w hw
  · rcases List.mem_append.mp hp with hp | hp
    · exact hf.puts_le p hp
    · rw [List.mem_singleton.mp hp]
      exact hle

/-- A `put` of sequences above everything the cache knows never panics. -/
theorem put_forward {c : Cache} {head : ℤ → ℤ} (hf : c.Forward head) (now : ℤ) {data : GoMap ℤ ℤ}
    (hdata : ∀ uid seq, data.lookup uid = some seq → c.Above uid seq ∧ seq ≤ head uid) :
    (c.put now data).Forward head := by
  have hloop : ∀ (entries : List (Sigma fun _ : ℤ => ℤ)) (c : Cache), c.Forward head →
      entries.NodupKeys → (∀ p ∈ entries, c.Above p.1 p.2 ∧ p.2 ≤ head p.1) →
      (c.putLoop now entries).Forward head := by
    intro entries
    induction entries with
    | nil => exact fun c hf _ _ => hf
    | cons p entries ih =>
      intro c hf hkeys hall
      obtain ⟨ha, hle⟩ := hall p List.mem_cons_self
      obtain ⟨c', hc', hf'⟩ := putEntry_forward hf now ha hle
      rw [putLoop, hc']
      refine ih c' hf' (List.nodupKeys_cons.mp hkeys).2 fun q hq => ?_
      have hne : q.1 ≠ p.1 := by
        intro he
        exact (List.nodupKeys_cons.mp hkeys).1 (he ▸ List.mem_keys_of_mem hq)
      obtain ⟨haq, hleq⟩ := hall q (List.mem_cons_of_mem _ hq)
      exact ⟨putEntry_above hc' hne haq, hleq⟩
  exact hloop data.entries c hf data.nodupKeys fun p hp => hdata p.1 p.2 (AList.mem_lookup_iff.mpr hp)

/-- A `put` that does not panic has recorded all its entries, and all it recorded before. -/
theorem mem_puts_put {c : Cache} {now : ℤ} {data : GoMap ℤ ℤ}
    (halive : (c.put now data).panicked = false) {p : ℤ × ℤ}
    (hp : p ∈ c.puts ∨ data.lookup p.1 = some p.2) : p ∈ (c.put now data).puts := by
  have hloop : ∀ (entries : List (Sigma fun _ : ℤ => ℤ)) (c : Cache),
      (c.putLoop now entries).panicked = false → p ∈ c.puts ∨ ⟨p.1, p.2⟩ ∈ entries →
      p ∈ (c.putLoop now entries).puts := by
    intro entries
    induction entries with
    | nil => exact fun c _ hp => hp.resolve_right (by simp)
    | cons q entries ih =>
      intro c halive hp
      rw [putLoop] at halive ⊢
      split at halive
      · rename_i c' hc'
        obtain ⟨v, hv, -, rfl⟩ := putEntry_cases hc'
        refine ih _ halive ?_
        rcases hp with hp | hp
        · exact .inl (List.mem_append_left _ hp)
        · rcases List.mem_cons.mp hp with rfl | hp
          · exact .inl (List.mem_append_right _ (List.mem_singleton_self _))
          · exact .inr hp
      · cases halive
  exact hloop data.entries c halive (hp.imp_right AList.mem_lookup_iff.mp)

end Cache
end MiniPush.Cluster
