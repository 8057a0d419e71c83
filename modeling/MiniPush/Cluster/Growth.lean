import MiniPush.Cluster.ExactlyOnce

/-! A partition to which messages are appended while the storage consumes it. What the storage has done over
the shorter partition it could have done over the longer one. -/
namespace MiniPush.Cluster
open Foundation Store

def Partition.nextOffset (P : Partition) : ℤ :=
  match P.messages.getLast? with
  | some msg => msg.offset + 1
  | none => 0

theorem Partition.lt_nextOffset (P : Partition) : ∀ msg ∈ P.messages, msg.offset < P.nextOffset := by
  intro msg hmsg
  have hne : P.messages ≠ [] := List.ne_nil_of_mem hmsg
  rw [Partition.nextOffset, List.getLast?_eq_some_getLast hne]
  have hgrow := P.offsets_grow
  rw [← List.dropLast_append_getLast hne, List.pairwise_append] at hgrow
  rw [← List.dropLast_append_getLast hne, List.mem_append, List.mem_singleton] at hmsg
  rcases hmsg with hinit | rfl
  · have := hgrow.2.2 msg hinit _ (List.mem_singleton_self _)
    dsimp only
    omega
  · exact lt_add_one _

def Partition.append (P : Partition) (time : ℤ) (value : Bytes) : Partition where
  messages := P.messages ++ [⟨P.nextOffset, time, value⟩]
  offsets_grow := by
    refine List.pairwise_append.mpr ⟨P.offsets_grow, List.pairwise_singleton _ _, fun msg hmsg msg' hmsg' => ?_⟩
    rw [List.mem_singleton.mp hmsg']
    exact P.lt_nextOffset msg hmsg

def Partition.extend (P : Partition) (time : ℤ) (values : List Bytes) : Partition :=
  values.foldl (fun P value => P.append time value) P

def StorageConfig.over (cfg : StorageConfig) (P : Partition) : StorageConfig := { cfg with partition := P }

variable {cfg : StorageConfig} {P P' : Partition}

theorem getElem?_grown {α : Type} {l l' : List α} (hgrown : l <+: l') {n : ℕ} {a : α}
    (h : l[n]? = some a) : l'[n]? = some a := by
  obtain ⟨rest, rfl⟩ := hgrown
  rw [List.getElem?_append_left (List.getElem?_eq_some_iff.mp h).1, h]

theorem Partition.extend_messages (P : Partition) (time : ℤ) (values : List Bytes) :
    ∃ added, (P.extend time values).messages = P.messages ++ added ∧ added.map KafkaMessage.value = values := by
  induction values generalizing P with
  | nil => exact ⟨[], (List.append_nil _).symm, rfl⟩
  | cons value values ih =>
    obtain ⟨added, hadded, hvalues⟩ := ih (P.append time value)
    refine ⟨⟨P.nextOffset, time, value⟩ :: added, ?_, by rw [List.map_cons, hvalues]⟩
    rw [Partition.extend, List.foldl_cons]
    exact hadded.trans (List.append_assoc _ _ _)

/-- The storage only looks at the message that it fetches. -/
theorem step_over (hgrown : P.messages <+: P'.messages) {s t : Storage} {l : StorageLabel}
    (h : s.step (cfg.over P) l = some t) : s.step (cfg.over P') l = some t := by
  cases l with
  | fetch =>
    simp only [Storage.step] at h ⊢
    split at h
    · rename_i msg hpc hmsg
      have hmsg' : (cfg.over P').partition.messages[s.pos]? = some msg := getElem?_grown hgrown hmsg
      have hdecode : (cfg.over P').decodeKafkaMsg s.now msg = (cfg.over P).decodeKafkaMsg s.now msg := rfl
      rw [hmsg', hpc]
      simpa only [hpc, hdecode] using h
    · cases h
  | _ => exact h

theorem reachableVia_over {ok : Storage → StorageLabel → Prop} (hgrown : P.messages <+: P'.messages)
    {s : Storage} (h : (storageSystem (cfg.over P)).ReachableVia ok s) :
    (storageSystem (cfg.over P')).ReachableVia ok s := by
  refine h.invariant (I := fun s => (storageSystem (cfg.over P')).ReachableVia ok s) ?_ ?_
  · intro s hs
    exact .init hs
  · intro s l t hs hok ht
    exact hs.step hok (step_over hgrown ht)

end MiniPush.Cluster
