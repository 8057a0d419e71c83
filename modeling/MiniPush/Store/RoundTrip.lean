import MiniPush.Store.Blocks

/-!
The client's reading of a read-state response. It unpacks each block and numbers the bits downwards
from the block's sequence number, so a block must hold consecutive numbers, the greatest first.
-/

namespace MiniPush.Store

open Foundation

/-- What the client reads off the bits of a block: bit `i` belongs to `startSeq - i`. -/
def numberDown (startSeq : ℤ) (decodedBools : List Bool) : List (ℤ × Bool) :=
  decodedBools.zipIdx.map fun p => (startSeq - p.2, p.1)

/-- The client's reading of one block; `none` if the text is not Base64. -/
def decodeBlock (block : Block) : Option (List (ℤ × Bool)) := do
  let bytes ← Base64.decode? block.base64
  some (numberDown block.seq ((byteArrayToBoolArray bytes).take block.len.toNat))

/-- The client's reading of a response: the states it gives to sequence numbers, in order. -/
def decodeResp (blocks : List Block) : Option (List (ℤ × Bool)) := do
  let decoded ← blocks.mapM decodeBlock
  some decoded.flatten

theorem numberDown_cons (startSeq : ℤ) (read : Bool) (rest : List Bool) :
    numberDown startSeq (read :: rest) = (startSeq, read) :: numberDown (startSeq - 1) rest := by
  simp only [numberDown, List.zipIdx_cons, List.map_cons, Nat.cast_zero, sub_zero, Nat.zero_add]
  rw [List.zipIdx_succ, List.map_map]
  congr 1
  apply List.map_congr_left
  intro p _
  simp only [Function.comp_apply, Prod.mk.injEq, and_true]
  omega

theorem decodeBlock_eq (block : Block) : decodeBlock block = block.bits.map (numberDown block.seq) := by
  rw [decodeBlock, Block.bits]
  cases Base64.decode? block.base64 <;> rfl

/-- The client reads off a block the states of its run, numbered downwards. -/
theorem decodeBlock_blockOf {run : List (ℤ × Bool)} (hlen : run.length < 2 ^ 31) :
    decodeBlock (blockOf run) =
      some (numberDown ((run.map Prod.fst).headD 0) (run.map Prod.snd)) := by
  rw [decodeBlock_eq, bits_blockOf hlen]
  rfl

theorem decodeResp_blockOf {runs : List (List (ℤ × Bool))} (hlen : ∀ run ∈ runs, run.length < 2 ^ 31) :
    decodeResp (runs.map blockOf) =
      some (runs.flatMap fun run => numberDown ((run.map Prod.fst).headD 0) (run.map Prod.snd)) := by
  have hall : (runs.map blockOf).mapM decodeBlock = some (runs.map fun run =>
      numberDown ((run.map Prod.fst).headD 0) (run.map Prod.snd)) := by
    induction runs with
    | nil => rfl
    | cons run runs ih =>
      rw [List.map_cons, List.mapM_cons, decodeBlock_blockOf (hlen run List.mem_cons_self),
        ih fun r hr => hlen r (List.mem_cons_of_mem _ hr)]
      rfl
  rw [decodeResp, hall, List.flatMap_def]
  rfl

/-- On consecutive descending sequence numbers the client's numbering is right. -/
theorem numberDown_of_consecutive {a : ℤ × Bool} {l : List (ℤ × Bool)}
    (h : (a :: l).IsChain fun a b => b.1 = a.1 - 1) :
    numberDown a.1 ((a :: l).map Prod.snd) = a :: l := by
  induction l generalizing a with
  | nil => simp [numberDown]
  | cons b l ih =>
    rw [List.isChain_cons_cons] at h
    rw [List.map_cons, numberDown_cons, ← h.1, ih h.2]

theorem mem_numberDown {startSeq : ℤ} {bools : List Bool} {p : ℤ × Bool}
    (h : p ∈ numberDown startSeq bools) : startSeq - bools.length < p.1 ∧ p.1 ≤ startSeq := by
  induction bools generalizing startSeq with
  | nil => simp [numberDown] at h
  | cons b bools ih =>
    rw [numberDown_cons, List.mem_cons] at h
    rw [List.length_cons]
    rcases h with rfl | h
    · exact ⟨by push_cast; omega, le_refl _⟩
    · have := ih h
      exact ⟨by push_cast; omega, by omega⟩

section Descending

variable {a : ℤ × Bool} {l : List (ℤ × Bool)}

/-- The last of `n` strictly descending numbers lies at least `n - 1` below the first. -/
theorem exists_le_of_descending (h : (a :: l).Pairwise fun x y => y.1 < x.1) :
    ∃ p ∈ a :: l, p.1 ≤ a.1 - l.length := by
  induction l generalizing a with
  | nil => exact ⟨a, List.mem_cons_self, by simp⟩
  | cons b l ih =>
    rw [List.pairwise_cons] at h
    obtain ⟨p, hp, hle⟩ := ih h.2
    have hb := h.1 b List.mem_cons_self
    refine ⟨p, List.mem_cons_of_mem _ hp, ?_⟩
    rw [List.length_cons]
    push_cast
    omega

/-- Strictly descending numbers that stay within their count of the first are consecutive. -/
theorem consecutive_of_descending (h : (a :: l).Pairwise fun x y => y.1 < x.1)
    (hge : ∀ p ∈ a :: l, a.1 - l.length ≤ p.1) : (a :: l).IsChain fun a b => b.1 = a.1 - 1 := by
  induction l generalizing a with
  | nil => exact List.isChain_singleton a
  | cons b l ih =>
    rw [List.pairwise_cons] at h
    have hb := h.1 b List.mem_cons_self
    simp only [List.length_cons] at hge
    push_cast at hge
    have hnext : b.1 = a.1 - 1 := by
      obtain ⟨p, hp, hle⟩ := exists_le_of_descending h.2
      have := hge p (List.mem_cons_of_mem _ hp)
      omega
    refine List.isChain_cons_cons.mpr ⟨hnext, ih h.2 fun p hp => ?_⟩
    have := hge p (List.mem_cons_of_mem _ hp)
    omega

/-- If the client's numbering loses none of the pairs, the sequence numbers are consecutive. -/
theorem consecutive_of_subset_numberDown (h : (a :: l).Pairwise fun x y => y.1 < x.1)
    (hsub : ∀ p ∈ a :: l, p ∈ numberDown a.1 ((a :: l).map Prod.snd)) :
    (a :: l).IsChain fun a b => b.1 = a.1 - 1 := by
  refine consecutive_of_descending h fun p hp => ?_
  have := mem_numberDown (hsub p hp)
  rw [List.length_map, List.length_cons] at this
  push_cast at this
  omega

theorem mem_numberDown_iff_consecutive (h : (a :: l).Pairwise fun x y => y.1 < x.1) :
    (∀ p, p ∈ numberDown a.1 ((a :: l).map Prod.snd) ↔ p ∈ a :: l) ↔
      (a :: l).IsChain fun a b => b.1 = a.1 - 1 := by
  constructor
  · intro hmem
    exact consecutive_of_subset_numberDown h fun p hp => (hmem p).mpr hp
  · intro hchain p
    rw [numberDown_of_consecutive hchain]

/-- Below the greatest `int32` the exception for it never applies. -/
theorem isChain_or_max_iff (h : (a :: l).Pairwise fun x y => y.1 < x.1) (hmax : a.1 < 2 ^ 31 - 1) :
    ((a :: l).IsChain fun a b => b.1 = a.1 - 1 ∨ a.1 = 2 ^ 31 - 1) ↔
      (a :: l).IsChain fun a b => b.1 = a.1 - 1 := by
  induction l generalizing a with
  | nil => simp
  | cons b l ih =>
    rw [List.pairwise_cons] at h
    have hb := h.1 b List.mem_cons_self
    rw [List.isChain_cons_cons, List.isChain_cons_cons, ih h.2 (by omega),
      or_iff_left (show ¬a.1 = 2 ^ 31 - 1 by omega)]

/-- Descending sequence numbers below the greatest `int32` stay in one block. -/
theorem splitBy_of_descending (h : (a :: l).Pairwise fun x y => y.1 < x.1)
    (hpos : ∀ p ∈ a :: l, 0 < p.1) (hmax : a.1 < 2 ^ 31 - 1) :
    (a :: l).splitBy sameBlock = [a :: l] := by
  apply List.splitBy_of_isChain (List.cons_ne_nil a l)
  induction l generalizing a with
  | nil => exact List.isChain_singleton a
  | cons b l ih =>
    rw [List.pairwise_cons] at h
    have hlt := h.1 b List.mem_cons_self
    have ha := hpos a List.mem_cons_self
    have hsame : sameBlock a b = true := by
      rw [sameBlock, int32_of_range (by omega) (by omega)]
      exact decide_eq_true (by omega)
    exact List.isChain_cons_cons.mpr
      ⟨hsame, ih h.2 (fun p hp => hpos p (List.mem_cons_of_mem _ hp)) (by omega)⟩

/-- After the greatest `int32` the increment wraps around and a new block begins. -/
theorem splitBy_of_max (hpos : ∀ p ∈ a :: l, 0 < p.1) (hmax : a.1 = 2 ^ 31 - 1) :
    (a :: l).splitBy sameBlock = [a] :: l.splitBy sameBlock := by
  have hcut : ∀ x ∈ [a].getLast?, ∀ y ∈ l.head?, sameBlock x y = false := by
    intro x hx y hy
    have hxa : a = x := by simpa using hx
    have hy0 := hpos y (List.mem_cons_of_mem _ (List.mem_of_mem_head? hy))
    have hwrap : int32 (x.1 + 1) = -2 ^ 31 := by
      rw [← hxa, hmax]
      decide
    rw [sameBlock, hwrap]
    exact decide_eq_false (by omega)
  rw [← List.singleton_append, List.splitBy_append hcut,
    List.splitBy_of_isChain (List.cons_ne_nil a []) (List.isChain_singleton a), List.singleton_append]

/-- What the client decodes from the response to a descending list. -/
theorem decode_of_descending (h : (a :: l).Pairwise fun x y => y.1 < x.1)
    (hrange : ∀ p ∈ a :: l, 0 < p.1 ∧ p.1 < 2 ^ 31) :
    decodeResp (((a :: l).splitBy sameBlock).map blockOf) =
      some (if a.1 = 2 ^ 31 - 1 then a :: numberDown ((l.map Prod.fst).headD 0) (l.map Prod.snd)
        else numberDown a.1 ((a :: l).map Prod.snd)) := by
  have hpos : ∀ p ∈ a :: l, 0 < p.1 := fun p hp => (hrange p hp).1
  have hshort : (a :: l).length < 2 ^ 31 := by
    have hnodup : ((a :: l).map Prod.fst).Nodup := List.pairwise_map.mpr (h.imp fun hlt => ne_of_gt hlt)
    have hlt := length_lt_of_nodup hnodup fun s hs => by
      obtain ⟨p, hp, rfl⟩ := List.mem_map.mp hs
      exact hrange p hp
    rwa [List.length_map] at hlt
  rw [decodeResp_blockOf fun _ hrun => length_lt_of_mem_splitBy hshort hrun]
  congr 1
  split_ifs with hmax
  · rw [splitBy_of_max hpos hmax, List.flatMap_cons]
    cases l with
    | nil => simp [numberDown]
    | cons b l =>
      rw [List.pairwise_cons] at h
      have hb : b.1 < 2 ^ 31 - 1 := by
        have := h.1 b List.mem_cons_self
        omega
      rw [splitBy_of_descending h.2 (fun p hp => hpos p (List.mem_cons_of_mem _ hp)) hb]
      simp [numberDown]
  · have ha := hrange a List.mem_cons_self
    rw [splitBy_of_descending h hpos (by omega), List.flatMap_singleton]
    rfl

end Descending

/-- Decoding the response gives exactly the pairs of a sequence number with its own state. -/
def RoundTrips (seqs : List ℤ) (states : List Bool) : Prop :=
  ∃ decoded, (makeGetReadStatesResp seqs states).bind decodeResp = some decoded ∧
    ∀ p, p ∈ decoded ↔ p ∈ seqs.zip states

/-- On a descending list the round trip holds exactly if there is no gap, except after the greatest
`int32`. -/
theorem roundTrips_iff_consecutive {seqs : List ℤ} {states : List Bool}
    (hlen : seqs.length = states.length) (hrange : ∀ s ∈ seqs, 0 < s ∧ s < 2 ^ 31)
    (hdesc : seqs.Pairwise (· > ·)) :
    RoundTrips seqs states ↔ seqs.IsChain fun a b => b = a - 1 ∨ a = 2 ^ 31 - 1 := by
  have hseqs : (seqs.zip states).map Prod.fst = seqs := List.map_fst_zip (by omega)
  rw [RoundTrips, makeGetReadStatesResp_eq hlen fun s hs => (hrange s hs).1, Option.bind_some]
  generalize seqs.zip states = pairs at hseqs
  subst hseqs
  rw [List.pairwise_map] at hdesc
  rw [List.isChain_map]
  cases pairs with
  | nil => simp [decodeResp]
  | cons a l =>
    have hpairs : ∀ p ∈ a :: l, 0 < p.1 ∧ p.1 < 2 ^ 31 :=
      fun p hp => hrange p.1 (List.mem_map_of_mem hp)
    rw [decode_of_descending hdesc hpairs]
    by_cases hmax : a.1 = 2 ^ 31 - 1
    · rw [if_pos hmax]
      cases l with
      | nil => simp [numberDown]
      | cons b l =>
        rw [List.pairwise_cons] at hdesc
        have hb := hdesc.1 b List.mem_cons_self
        rw [List.isChain_cons_cons, isChain_or_max_iff hdesc.2 (by omega),
          ← mem_numberDown_iff_consecutive hdesc.2]
        have hfresh : a ∉ b :: l := fun ha => absurd (hdesc.1 a ha) (lt_irrefl _)
        have hfresh' : a ∉ numberDown b.1 ((b :: l).map Prod.snd) := by
          intro ha
          have := mem_numberDown ha
          omega
        constructor
        · rintro ⟨decoded, hdecoded, hmem⟩
          cases hdecoded
          refine ⟨.inr hmax, fun p => ?_⟩
          have hp : p ∈ a :: numberDown b.1 ((b :: l).map Prod.snd) ↔ p ∈ a :: b :: l := hmem p
          rw [List.mem_cons, List.mem_cons] at hp
          by_cases hpa : p = a
          · subst hpa
            exact iff_of_false hfresh' hfresh
          · simpa only [hpa, false_or] using hp
        · rintro ⟨-, hmem⟩
          refine ⟨_, rfl, fun p => ?_⟩
          exact List.mem_cons.trans ((or_congr_right (hmem p)).trans List.mem_cons.symm)
    · have ha := hpairs a List.mem_cons_self
      rw [if_neg hmax, isChain_or_max_iff hdesc (by omega), ← mem_numberDown_iff_consecutive hdesc]
      constructor
      · rintro ⟨decoded, hdecoded, hmem⟩
        cases hdecoded
        exact hmem
      · intro hmem
        exact ⟨_, rfl, hmem⟩

/-- The events 5, 4 and 3: the numbers have no gap. -/
theorem roundTrips_five_four_three : RoundTrips [5, 4, 3] [true, false, true] :=
  (roundTrips_iff_consecutive rfl (by decide) (by decide)).mpr (by decide)

/-- The events 5 and 3, of which 3 is unread: the client gives the state of 3 to 4. -/
theorem decode_five_three :
    (makeGetReadStatesResp [5, 3] [true, false]).bind decodeResp =
      some [(5, true), (4, false)] ∧ ¬RoundTrips [5, 3] [true, false] := by
  have hdecode : (makeGetReadStatesResp [5, 3] [true, false]).bind decodeResp =
      some [(5, true), (4, false)] := by decide +kernel
  refine ⟨hdecode, ?_⟩
  rintro ⟨decoded, hdecoded, hmem⟩
  rw [hdecode] at hdecoded
  cases hdecoded
  exact absurd ((hmem (3, false)).mpr (by decide)) (by decide)

end MiniPush.Store
