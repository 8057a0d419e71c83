import Mathlib.Data.Int.Interval
import MiniPush.Store.ReadStates

/-!
What the blocks of a read-state response hold. Their bits are the states of the response, whatever
the cuts between them; on ascending sequence numbers the cuts are the gaps.
-/

namespace MiniPush.Store

open Foundation

def Block.bits (block : Block) : Option (List Bool) :=
  (Base64.decode? block.base64).map fun bytes => (byteArrayToBoolArray bytes).take block.len.toNat

section Blocks

theorem bits_blockOf {run : List (ℤ × Bool)} (hlen : run.length < 2 ^ 31) :
    (blockOf run).bits = some (run.map Prod.snd) := by
  have hint : int32 run.length = run.length := int32_of_range (by omega) (by omega)
  have hbits := take_byteArrayToBoolArray_boolSliceToBytes (run.map Prod.snd)
  rw [List.length_map] at hbits
  simp only [Block.bits, blockOf, Base64.decode?_encode, Option.map_some, hint, Int.toNat_natCast,
    hbits]

theorem bits_blocksOf {runs : List (List (ℤ × Bool))} (hlen : ∀ run ∈ runs, run.length < 2 ^ 31) :
    (runs.map blockOf).mapM Block.bits = some (runs.map fun run => run.map Prod.snd) := by
  induction runs with
  | nil => rfl
  | cons run runs ih =>
    rw [List.map_cons, List.mapM_cons, bits_blockOf (hlen run List.mem_cons_self),
      ih fun r hr => hlen r (List.mem_cons_of_mem _ hr)]
    rfl

theorem sum_len_blocksOf {runs : List (List (ℤ × Bool))} (hlen : ∀ run ∈ runs, run.length < 2 ^ 31) :
    ((runs.map blockOf).map Block.len).sum = runs.flatten.length := by
  induction runs with
  | nil => rfl
  | cons run runs ih =>
    have hrun := hlen run List.mem_cons_self
    have hint : (blockOf run).len = run.length := int32_of_range (by omega) (by omega)
    rw [List.map_cons, List.map_cons, List.sum_cons, hint,
      ih fun r hr => hlen r (List.mem_cons_of_mem _ hr), List.flatten_cons, List.length_append]
    push_cast
    rfl

theorem length_lt_of_mem_splitBy {states run : List (ℤ × Bool)} (hlen : states.length < 2 ^ 31)
    (hrun : run ∈ states.splitBy sameBlock) : run.length < 2 ^ 31 := by
  have hsub := List.sublist_flatten_of_mem hrun
  rw [List.flatten_splitBy] at hsub
  exact lt_of_le_of_lt hsub.length_le hlen

/-- The blocks of a response hold every state once, whatever the cuts between them. -/
theorem bits_makeGetReadStatesResp {states : List (ℤ × Bool)} (hpos : ∀ p ∈ states, 0 < p.1)
    (hlen : states.length < 2 ^ 31) :
    ∃ blocks bits,
      makeGetReadStatesResp (states.map Prod.fst) (states.map Prod.snd) = some blocks ∧
        blocks.mapM Block.bits = some bits ∧ bits.flatten = states.map Prod.snd ∧
        (blocks.map Block.len).sum = states.length := by
  have hzip : (states.map Prod.fst).zip (states.map Prod.snd) = states := by
    rw [List.zip_map', List.map_id']
  have hflat : (states.splitBy sameBlock).flatten = states := List.flatten_splitBy _ _
  have hruns : ∀ run ∈ states.splitBy sameBlock, run.length < 2 ^ 31 :=
    fun _ hrun => length_lt_of_mem_splitBy hlen hrun
  have hpos' : ∀ s ∈ states.map Prod.fst, 0 < s := by
    intro s hs
    obtain ⟨p, hp, rfl⟩ := List.mem_map.mp hs
    exact hpos p hp
  have hresp : makeGetReadStatesResp (states.map Prod.fst) (states.map Prod.snd) =
      some ((states.splitBy sameBlock).map blockOf) := by
    rw [makeGetReadStatesResp_eq (by simp) hpos', hzip]
  refine ⟨_, _, hresp, bits_blocksOf hruns, ?_, ?_⟩
  · rw [← List.map_flatten, hflat]
  · rw [sum_len_blocksOf hruns, hflat]

end Blocks

/-- There are fewer than `2 ^ 31` positive values of type `int32`. -/
theorem length_lt_of_nodup {seqs : List ℤ} (h : seqs.Nodup) (hrange : ∀ s ∈ seqs, 0 < s ∧ s < 2 ^ 31) :
    seqs.length < 2 ^ 31 := by
  have hsub : seqs.toFinset ⊆ Finset.Ioo 0 (2 ^ 31) := by
    intro s hs
    exact Finset.mem_Ioo.mpr (hrange s (List.mem_toFinset.mp hs))
  have hcard := Finset.card_le_card hsub
  rw [List.toFinset_card_of_nodup h, Int.card_Ioo] at hcard
  omega

/-- The maximal runs of consecutive sequence numbers, in order. -/
structure MaximalRuns (pairs : List (ℤ × Bool)) (runs : List (List (ℤ × Bool))) : Prop where
  cover : runs.flatten = pairs
  nonempty : [] ∉ runs
  consecutive : ∀ run ∈ runs, run.IsChain fun a b => b.1 = a.1 + 1
  maximal : runs.IsChain fun r r' => ∃ h h', (r'.head h').1 ≠ (r.getLast h).1 + 1

/-- A block holds a run: its first sequence number, its length and its states. -/
structure Block.Holds (run : List (ℤ × Bool)) (block : Block) : Prop where
  seq : ∃ h : run ≠ [], block.seq = (run.head h).1
  len : block.len = run.length
  packed : block.base64 = Base64.encode (boolSliceToBytes (run.map Prod.snd))
  bits : block.bits = some (run.map Prod.snd)

theorem MaximalRuns.unique {pairs : List (ℤ × Bool)} {runs runs' : List (List (ℤ × Bool))}
    (h : MaximalRuns pairs runs) (h' : MaximalRuns pairs runs') : runs = runs' := by
  have hsplit : ∀ rs, MaximalRuns pairs rs →
      pairs.splitBy (fun a b => decide (b.1 = a.1 + 1)) = rs := by
    intro rs hrs
    rw [← hrs.cover]
    refine List.splitBy_flatten hrs.nonempty ?_ ?_
    · intro run hrun
      simpa only [decide_eq_true_eq] using hrs.consecutive run hrun
    · simpa only [decide_eq_false_iff_not] using hrs.maximal
  rw [← hsplit runs h, ← hsplit runs' h']

theorem holds_blockOf {run : List (ℤ × Bool)} (hne : run ≠ []) (hlen : run.length < 2 ^ 31) :
    (blockOf run).Holds run where
  seq := by
    obtain ⟨a, tail, rfl⟩ := List.exists_cons_of_ne_nil hne
    exact ⟨hne, rfl⟩
  len := int32_of_range (by omega) (by omega)
  packed := rfl
  bits := bits_blockOf hlen

/-- On ascending sequence numbers neighbours share a block exactly if they are consecutive: only the
last one can be the greatest `int32`, and nothing is compared with what follows it. -/
theorem sameBlock_iff {a b : ℤ × Bool} (ha : 0 < a.1) (hab : a.1 < b.1) (hb : b.1 < 2 ^ 31) :
    sameBlock a b = true ↔ b.1 = a.1 + 1 := by
  rw [sameBlock, int32_of_range (by omega) (by omega), decide_eq_true_eq]
  omega

theorem maximalRuns_splitBy {pairs : List (ℤ × Bool)} (hrange : ∀ p ∈ pairs, 0 < p.1 ∧ p.1 < 2 ^ 31)
    (hasc : pairs.Pairwise fun a b => a.1 < b.1) : MaximalRuns pairs (pairs.splitBy sameBlock) where
  cover := List.flatten_splitBy _ _
  nonempty := List.nil_notMem_splitBy _ _
  consecutive run hrun := by
    have hsub := List.sublist_flatten_of_mem hrun
    rw [List.flatten_splitBy] at hsub
    have hchain := List.isChain_of_mem_splitBy hrun
    have hlt := (hasc.sublist hsub).isChain
    rw [List.isChain_iff_getElem] at hchain hlt ⊢
    intro i hi
    have hfirst := hrange _ (hsub.subset (List.getElem_mem (by omega : i < run.length)))
    have hnext := hrange _ (hsub.subset (List.getElem_mem hi))
    exact (sameBlock_iff hfirst.1 (hlt i hi) hnext.2).mp (hchain i hi)
  maximal := by
    have hmem : ∀ run ∈ pairs.splitBy sameBlock, ∀ p ∈ run, p ∈ pairs := by
      intro run hrun p hp
      rw [← List.flatten_splitBy sameBlock pairs]
      exact List.mem_flatten_of_mem hrun hp
    have hcut := List.isChain_getLast_head_splitBy sameBlock pairs
    rw [List.isChain_iff_getElem] at hcut ⊢
    intro i hi
    obtain ⟨h, h', hlast⟩ := hcut i hi
    refine ⟨h, h', fun heq => ?_⟩
    have hfirst := hrange _ (hmem _ (List.getElem_mem (by omega)) _ (List.getLast_mem h))
    have hnext := hrange _ (hmem _ (List.getElem_mem hi) _ (List.head_mem h'))
    rw [(sameBlock_iff hfirst.1 (by omega) hnext.2).mpr heq] at hlast
    cases hlast

/-- On ascending sequence numbers the blocks of the response are the maximal runs of consecutive
ones, in order. -/
theorem ascending_blocks {seqs : List ℤ} {states : List Bool} (hlen : seqs.length = states.length)
    (hrange : ∀ s ∈ seqs, 0 < s ∧ s < 2 ^ 31) (hasc : seqs.Pairwise (· < ·)) :
    ∃ runs blocks, MaximalRuns (seqs.zip states) runs ∧
      (∀ runs', MaximalRuns (seqs.zip states) runs' → runs' = runs) ∧
      makeGetReadStatesResp seqs states = some blocks ∧
      List.Forall₂ Block.Holds runs blocks ∧ (runs.map List.length).sum = seqs.length := by
  have hseqs : (seqs.zip states).map Prod.fst = seqs := List.map_fst_zip (by omega)
  have hpairs : ∀ p ∈ seqs.zip states, 0 < p.1 ∧ p.1 < 2 ^ 31 := by
    intro p hp
    refine hrange p.1 ?_
    rw [← hseqs]
    exact List.mem_map_of_mem hp
  have hpairsAsc : (seqs.zip states).Pairwise fun a b => a.1 < b.1 := by
    rw [← hseqs, List.pairwise_map] at hasc
    exact hasc
  have hruns := maximalRuns_splitBy hpairs hpairsAsc
  have hshort : (seqs.zip states).length < 2 ^ 31 := by
    have hnodup : seqs.Nodup := hasc.imp fun hlt => ne_of_lt hlt
    have hlt := length_lt_of_nodup hnodup hrange
    rwa [← List.length_map (f := Prod.fst), hseqs]
  refine ⟨_, _, hruns, fun runs' h => h.unique hruns,
    makeGetReadStatesResp_eq hlen fun s hs => (hrange s hs).1, ?_, ?_⟩
  · rw [List.forall₂_map_right_iff, List.forall₂_same]
    intro run hrun
    exact holds_blockOf (List.ne_nil_of_mem_splitBy hrun) (length_lt_of_mem_splitBy hshort hrun)
  · rw [← List.length_flatten, hruns.cover, List.length_zip]
    omega

/-- Two runs, the second of which ends at the greatest `int32`. -/
theorem ascending_blocks_two_runs : ∃ runs blocks,
    MaximalRuns [(2, true), (3, false), (2147483647, true)] runs ∧
      (∀ runs', MaximalRuns [(2, true), (3, false), (2147483647, true)] runs' → runs' = runs) ∧
      makeGetReadStatesResp [2, 3, 2147483647] [true, false, true] = some blocks ∧
      List.Forall₂ Block.Holds runs blocks ∧ (runs.map List.length).sum = 3 :=
  @ascending_blocks [2, 3, 2147483647] [true, false, true] rfl (by decide) (by decide)

end MiniPush.Store
