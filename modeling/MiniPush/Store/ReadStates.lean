import Mathlib.Data.List.SplitBy
import MiniPush.Foundation.Base64
import MiniPush.Store.Bitmap

/-!
The read-state response. The server cuts the sequence numbers of a user into blocks, one for each
maximal run of neighbours that share a block, and packs the states of each block.
-/

namespace MiniPush.Store

open Foundation

structure Block where
  seq : ℤ
  len : ℤ
  base64 : String
  deriving DecidableEq, Repr

/-- The first loop of `MakeGetReadStatesResp`: `i` is the index of the next sequence number and
`lastSeq` the one before it. -/
def blockAt (i : ℕ) (lastSeq : ℤ) : List ℤ → List ℕ
  | [] => []
  | seq :: rest =>
    if seq > int32 (lastSeq + 1) then i :: blockAt (i + 1) seq rest else blockAt (i + 1) seq rest

/-- The slice expression `xs[start:stop]`; `none` stands for the run-time panic. -/
def slice? {α : Type*} (xs : List α) (start stop : ℕ) : Option (List α) :=
  if start ≤ stop ∧ stop ≤ xs.length then some ((xs.take stop).drop start) else none

/-- The second loop of `MakeGetReadStatesResp`, over the block starts. A block ends where the next
one starts, the last one at the end of the states. -/
def makeBlocks (seqSlice : List ℤ) (readStates : List Bool) : List ℕ → Option (List Block)
  | [] => some []
  | start :: rest => do
    let boolSlice ← slice? readStates start (rest.headD readStates.length)
    let seq ← seqSlice[start]?
    let encoded := Base64.encode (boolSliceToBytes boolSlice)
    let blocks ← makeBlocks seqSlice readStates rest
    some (⟨seq, int32 boolSlice.length, encoded⟩ :: blocks)

/-- The blocks of the response; `none` stands for a run-time panic. -/
def makeGetReadStatesResp (seqSlice : List ℤ) (readStates : List Bool) : Option (List Block) :=
  if seqSlice.length = 0 ∨ readStates.length = 0 then some []
  else makeBlocks seqSlice readStates (blockAt 0 (-1) seqSlice)

/-- The second of two neighbours stays in the first one's block. -/
def sameBlock (a b : ℤ × Bool) : Bool :=
  decide (b.1 ≤ int32 (a.1 + 1))

/-- The block built for a run of sequence numbers with their states. -/
def blockOf (run : List (ℤ × Bool)) : Block where
  seq := (run.map Prod.fst).headD 0
  len := int32 run.length
  base64 := Base64.encode (boolSliceToBytes (run.map Prod.snd))

/-- Where the runs of a list start, if the first one starts at `i`. -/
def runStarts {α : Type*} (i : ℕ) : List (List α) → List ℕ
  | [] => []
  | run :: runs => i :: runStarts (i + run.length) runs

private theorem blockAt_run {run : List (ℤ × Bool)} {last : ℤ × Bool}
    (hrun : (last :: run).IsChain fun a b => sameBlock a b = true) (i : ℕ) (rest : List ℤ) :
    blockAt i last.1 (run.map Prod.fst ++ rest) =
      blockAt (i + run.length) ((last :: run).getLast (List.cons_ne_nil _ _)).1 rest := by
  induction run generalizing last i with
  | nil => simp
  | cons b run ih =>
    rw [List.isChain_cons_cons] at hrun
    have hsame : b.1 ≤ int32 (last.1 + 1) := of_decide_eq_true hrun.1
    rw [List.map_cons, List.cons_append, blockAt, if_neg (by omega), ih hrun.2]
    rw [List.length_cons, List.getLast_cons (List.cons_ne_nil b run)]
    congr 1
    omega

/-- The first loop finds the starts of the maximal runs of neighbours that share a block. -/
theorem blockAt_flatten (runs : List (List (ℤ × Bool))) (i : ℕ) (lastSeq : ℤ)
    (hne : [] ∉ runs) (hrun : ∀ run ∈ runs, run.IsChain fun a b => sameBlock a b = true)
    (hcut : runs.IsChain fun r r' => ∃ h h', sameBlock (r.getLast h) (r'.head h') = false)
    (hfirst : ∀ a ∈ runs.flatten.head?, a.1 > int32 (lastSeq + 1)) :
    blockAt i lastSeq (runs.flatten.map Prod.fst) = runStarts i runs := by
  induction runs generalizing i lastSeq with
  | nil => rfl
  | cons run runs ih =>
    obtain ⟨a, run, rfl⟩ : ∃ a tail, run = a :: tail := by
      cases run with
      | nil => exact absurd List.mem_cons_self hne
      | cons a tail => exact ⟨a, tail, rfl⟩
    have hstart : a.1 > int32 (lastSeq + 1) := hfirst a (by simp)
    have hchain := hrun (a :: run) List.mem_cons_self
    have hne' : [] ∉ runs := fun h => hne (List.mem_cons_of_mem _ h)
    rw [List.flatten_cons, List.map_append, List.map_cons, List.cons_append, blockAt,
      if_pos hstart, blockAt_run hchain, runStarts]
    have hlen : i + 1 + run.length = i + (a :: run).length := by
      rw [List.length_cons]
      omega
    rw [hlen, ih _ _ hne' (fun r hr => hrun r (List.mem_cons_of_mem _ hr)) hcut.tail]
    intro b hb
    rw [List.isChain_cons] at hcut
    obtain ⟨r, runs, rfl⟩ : ∃ r tail, runs = r :: tail := by
      cases runs with
      | nil => simp at hb
      | cons r tail => exact ⟨r, tail, rfl⟩
    obtain ⟨h, h', hlast⟩ := hcut.1 r rfl
    have hhead : r.head h' = b := by
      rw [List.flatten_cons, List.head?_append_of_ne_nil _ h', List.head?_eq_some_head h'] at hb
      exact Option.some.inj hb
    rw [hhead] at hlast
    have := of_decide_eq_false hlast
    omega

private theorem headD_runStarts {α : Type*} (i : ℕ) (runs : List (List α)) :
    (runStarts i runs).headD (i + runs.flatten.length) = i := by
  cases runs <;> simp [runStarts]

theorem makeBlocks_runStarts (runs : List (List (ℤ × Bool))) (before : List (ℤ × Bool))
    (hne : [] ∉ runs) :
    makeBlocks ((before ++ runs.flatten).map Prod.fst) ((before ++ runs.flatten).map Prod.snd)
      (runStarts before.length runs) = some (runs.map blockOf) := by
  induction runs generalizing before with
  | nil => rfl
  | cons run runs ih =>
    have hne' : [] ∉ runs := fun h => hne (List.mem_cons_of_mem _ h)
    have hrun : run ≠ [] := fun h => hne (h ▸ List.mem_cons_self)
    have hassoc : before ++ (run :: runs).flatten = before ++ run ++ runs.flatten := by
      rw [List.flatten_cons, List.append_assoc]
    have hstop : (runStarts (before.length + run.length) runs).headD
        ((before ++ (run :: runs).flatten).map Prod.snd).length = before.length + run.length := by
      have htotal : ((before ++ (run :: runs).flatten).map Prod.snd).length =
          before.length + run.length + runs.flatten.length := by
        rw [hassoc, List.length_map, List.length_append, List.length_append]
      rw [htotal, headD_runStarts]
    have hslice : slice? ((before ++ (run :: runs).flatten).map Prod.snd) before.length
        (before.length + run.length) = some (run.map Prod.snd) := by
      rw [slice?, if_pos (by simp only [List.length_map, List.length_append, List.flatten_cons]; omega),
        hassoc, ← List.map_take, ← List.map_drop, ← List.length_append, List.take_left, List.drop_left]
    have hseq : ((before ++ (run :: runs).flatten).map Prod.fst)[before.length]? =
        some ((run.map Prod.fst).headD 0) := by
      obtain ⟨a, tail, rfl⟩ := List.exists_cons_of_ne_nil hrun
      simp
    have hrest := ih (before ++ run) hne'
    rw [List.length_append, ← hassoc] at hrest
    rw [runStarts, makeBlocks, hstop, hslice, hseq, hrest]
    simp only [Option.bind_eq_bind, Option.bind_some, List.map_cons, blockOf, List.length_map]

/-- On positive sequence numbers the response has one block for each maximal run of neighbours that
share a block. -/
theorem makeGetReadStatesResp_eq {seqs : List ℤ} {states : List Bool}
    (hlen : seqs.length = states.length) (hpos : ∀ s ∈ seqs, 0 < s) :
    makeGetReadStatesResp seqs states =
      some (((seqs.zip states).splitBy sameBlock).map blockOf) := by
  have hseqs : (seqs.zip states).map Prod.fst = seqs := List.map_fst_zip (by omega)
  have hstates : (seqs.zip states).map Prod.snd = states := List.map_snd_zip (by omega)
  have hflat : ((seqs.zip states).splitBy sameBlock).flatten = seqs.zip states :=
    List.flatten_splitBy _ _
  rw [makeGetReadStatesResp]
  split_ifs with hempty
  · have hnil : seqs = [] := List.length_eq_zero_iff.mp (by omega)
    simp [hnil]
  · have hfirst : ∀ a ∈ ((seqs.zip states).splitBy sameBlock).flatten.head?,
        a.1 > int32 (-1 + 1) := by
      intro a ha
      rw [hflat] at ha
      have hmem : a.1 ∈ seqs := by
        rw [← hseqs]
        exact List.mem_map_of_mem (List.mem_of_mem_head? ha)
      exact hpos a.1 hmem
    have hstarts := blockAt_flatten ((seqs.zip states).splitBy sameBlock) 0 (-1)
      (List.nil_notMem_splitBy _ _) (fun _ => List.isChain_of_mem_splitBy)
      (List.isChain_getLast_head_splitBy _ _) hfirst
    have hblocks := makeBlocks_runStarts ((seqs.zip states).splitBy sameBlock) []
      (List.nil_notMem_splitBy _ _)
    rw [hflat, hseqs] at hstarts
    rw [List.nil_append, hflat, hseqs, hstates] at hblocks
    rw [hstarts]
    exact hblocks

theorem blockAt_ascending (i : ℕ) (lastSeq : ℤ) (seqs : List ℤ) :
    (blockAt i lastSeq seqs).Pairwise (· < ·) ∧
      ∀ j ∈ blockAt i lastSeq seqs, i ≤ j ∧ j < i + seqs.length := by
  induction seqs generalizing i lastSeq with
  | nil => simp [blockAt]
  | cons seq seqs ih =>
    obtain ⟨hsorted, hrange⟩ := ih (i + 1) seq
    have hrest : ∀ j ∈ blockAt (i + 1) seq seqs, i < j ∧ j < i + (seq :: seqs).length := by
      intro j hj
      have := hrange j hj
      rw [List.length_cons]
      omega
    rw [blockAt]
    split_ifs
    · refine ⟨List.pairwise_cons.mpr ⟨fun j hj => (hrest j hj).1, hsorted⟩, ?_⟩
      refine List.forall_mem_cons.mpr ⟨?_, fun j hj => ⟨(hrest j hj).1.le, (hrest j hj).2⟩⟩
      rw [List.length_cons]
      omega
    · exact ⟨hsorted, fun j hj => ⟨(hrest j hj).1.le, (hrest j hj).2⟩⟩

private theorem makeBlocks_isSome {seqs : List ℤ} {states : List Bool}
    (hlen : seqs.length = states.length) (starts : List ℕ) (hsorted : starts.Pairwise (· < ·))
    (hrange : ∀ i ∈ starts, i < states.length) : (makeBlocks seqs states starts).isSome := by
  induction starts with
  | nil => rfl
  | cons start rest ih =>
    obtain ⟨hfirst, hrest⟩ := List.pairwise_cons.mp hsorted
    obtain ⟨hstart, hrange'⟩ := List.forall_mem_cons.mp hrange
    have hstop : start ≤ rest.headD states.length ∧ rest.headD states.length ≤ states.length := by
      cases rest with
      | nil => exact ⟨hstart.le, le_refl _⟩
      | cons next rest =>
        exact ⟨(hfirst next List.mem_cons_self).le, (hrange' next List.mem_cons_self).le⟩
    obtain ⟨blocks, hblocks⟩ := Option.isSome_iff_exists.mp (ih hrest hrange')
    have hseq : start < seqs.length := by omega
    rw [makeBlocks, slice?, if_pos hstop, hblocks, List.getElem?_eq_getElem hseq]
    rfl

theorem makeGetReadStatesResp_isSome {seqs : List ℤ} {states : List Bool}
    (hlen : seqs.length = states.length) : (makeGetReadStatesResp seqs states).isSome := by
  unfold makeGetReadStatesResp
  split_ifs
  · rfl
  · obtain ⟨hsorted, hrange⟩ := blockAt_ascending 0 (-1) seqs
    refine makeBlocks_isSome hlen _ hsorted fun i hi => ?_
    have := hrange i hi
    omega

end MiniPush.Store
