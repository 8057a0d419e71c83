import MiniPush.Basic
import MiniPush.Foundation.Transition

/-! The flow-control cache of the storage. `put` runs under the mutex; `check` releases it before
it reads and deletes entries, so its steps interleave with `put`. -/
namespace MiniPush.Cluster
open Foundation

structure UserSeq where
  headSeq : ℤ
  counter : ℤ
  cacheTime : ℤ
  deriving DecidableEq

/-- Where `check` stands. `todo` are the keys the iteration must still reach, `kept` the ones it
passed by; `copied` lies between `out[uid] = v.headSeq` and `delete(c.kv, uid)`. -/
inductive CheckPc
  | idle
  | loop (todo kept : List ℤ) (out : GoMap ℤ ℤ)
  | copied (uid : ℤ) (todo kept : List ℤ) (out : GoMap ℤ ℤ)
  | sent

/-- `cache`, with the progress of `check`. The code does not have `puts` and `sent`: they record
the pairs given to `put` and the messages sent on `pushChan`. -/
structure Cache where
  kv : GoMap ℤ UserSeq
  sending : Bool
  pc : CheckPc
  panicked : Bool
  puts : List (ℤ × ℤ)
  sent : List (GoMap ℤ ℤ)

def newCache : Cache := ⟨∅, false, .idle, false, [], []⟩

namespace Cache

/-- One entry of `put`; `none` is the panic on a sequence that is not bigger. -/
def putEntry (now : ℤ) (c : Cache) (uid seq : ℤ) : Option Cache :=
  match c.kv.lookup uid with
  | some v =>
    if v.headSeq < seq then
      some { c with
        kv := c.kv.insert uid { v with headSeq := seq, counter := v.counter + 1 }
        puts := c.puts ++ [(uid, seq)] }
    else none
  | none => some { c with
      kv := c.kv.insert uid ⟨seq, 1, now⟩
      puts := c.puts ++ [(uid, seq)] }

def putLoop (now : ℤ) (c : Cache) : List (Sigma fun _ : ℤ => ℤ) → Cache
  | [] => c
  | p :: rest =>
    match c.putEntry now p.1 p.2 with
    | some c' => c'.putLoop now rest
    | none => { c with panicked := true }

def put (now : ℤ) (c : Cache) (data : GoMap ℤ ℤ) : Cache := c.putLoop now data.entries

end Cache

/-- Steps of `check`. `due` is the outcome of the frequency and age test. -/
inductive CheckLabel
  | begin
  | visit (uid : ℤ) (due : Bool)
  | delete
  | send
  | finish

inductive CacheLabel
  | put (now : ℤ) (data : GoMap ℤ ℤ)
  | check (l : CheckLabel)

namespace Cache

/-- One step of `check`. The iteration may reach any present key it has not passed by, and must
reach the keys it started with. -/
def checkStep (c : Cache) : CheckLabel → Option Cache
  | .begin =>
    match c.pc with
    | .idle =>
      some (if c.sending then c else { c with sending := true, pc := .loop c.kv.keys [] ∅ })
    | _ => none
  | .visit uid due =>
    match c.pc, c.kv.lookup uid with
    | .loop todo kept out, some v =>
      if uid ∈ kept then none
      else if due then
        some { c with pc := .copied uid (todo.erase uid) kept (out.insert uid v.headSeq) }
      else some { c with pc := .loop (todo.erase uid) (uid :: kept) out }
    | _, _ => none
  | .delete =>
    match c.pc with
    | .copied uid todo kept out =>
      some { c with kv := c.kv.erase uid, pc := .loop todo kept out }
    | _ => none
  | .send =>
    match c.pc with
    | .loop [] _ out =>
      some { c with pc := .sent, sent := if out.entries = [] then c.sent else c.sent ++ [out] }
    | _ => none
  | .finish =>
    match c.pc with
    | .sent => some { c with sending := false, pc := .idle }
    | _ => none

def step (c : Cache) (l : CacheLabel) : Option Cache :=
  if c.panicked then none
  else match l with
    | .put now data => some (c.put now data)
    | .check l => c.checkStep l

theorem checkStep_cases {c c' : Cache} {l : CheckLabel} (h : c.checkStep l = some c') :
    (l = .begin ∧ c.pc = .idle ∧
      (c' = c ∨ c' = { c with sending := true, pc := .loop c.kv.keys [] ∅ })) ∨
    (∃ uid todo kept out v, l = .visit uid true ∧ c.pc = .loop todo kept out ∧
      c.kv.lookup uid = some v ∧
      c' = { c with pc := .copied uid (todo.erase uid) kept (out.insert uid v.headSeq) }) ∨
    (∃ uid todo kept out, l = .visit uid false ∧ c.pc = .loop todo kept out ∧
      c' = { c with pc := .loop (todo.erase uid) (uid :: kept) out }) ∨
    (∃ uid todo kept out, l = .delete ∧ c.pc = .copied uid todo kept out ∧
      c' = { c with kv := c.kv.erase uid, pc := .loop todo kept out }) ∨
    (∃ kept out, l = .send ∧ c.pc = .loop [] kept out ∧
      c' = { c with
        pc := .sent, sent := if out.entries = [] then c.sent else c.sent ++ [out] }) ∨
    (l = .finish ∧ c.pc = .sent ∧ c' = { c with sending := false, pc := .idle }) := by
  cases l with
  | begin =>
    simp only [checkStep] at h
    split at h
    · rename_i hpc
      cases h
      refine .inl ⟨rfl, hpc, ?_⟩
      split
      · exact .inl rfl
      · exact .inr rfl
    · cases h
  | visit uid due =>
    simp only [checkStep] at h
    split at h
    · rename_i todo kept out v hpc hv
      split_ifs at h with hkept hdue
      · cases h
        exact .inr (.inl ⟨uid, todo, kept, out, v, by rw [hdue], hpc, hv, rfl⟩)
      · cases h
        have hfalse : due = false := by simpa using hdue
        exact .inr (.inr (.inl ⟨uid, todo, kept, out, by rw [hfalse], hpc, rfl⟩))
    · cases h
  | delete =>
    simp only [checkStep] at h
    split at h
    · rename_i uid todo kept out hpc
      cases h
      exact .inr (.inr (.inr (.inl ⟨uid, todo, kept, out, rfl, hpc, rfl⟩)))
    · cases h
  | send =>
    simp only [checkStep] at h
    split at h
    · rename_i kept out hpc
      cases h
      exact .inr (.inr (.inr (.inr (.inl ⟨kept, out, rfl, hpc, rfl⟩))))
    · cases h
  | finish =>
    simp only [checkStep] at h
    split at h
    · rename_i hpc
      cases h
      exact .inr (.inr (.inr (.inr (.inr ⟨rfl, hpc, rfl⟩))))
    · cases h

theorem step_cases {c c' : Cache} {l : CacheLabel} (h : c.step l = some c') :
    (∃ now data, l = .put now data ∧ c' = c.put now data) ∨
      ∃ l', l = .check l' ∧ c.checkStep l' = some c' := by
  unfold step at h
  split_ifs at h
  cases l with
  | put now data => exact .inl ⟨now, data, rfl, (Option.some.inj h).symm⟩
  | check l => exact .inr ⟨l, rfl, h⟩

def outSeq (c : Cache) (uid : ℤ) : Option ℤ :=
  match c.pc with
  | .loop _ _ out => out.lookup uid
  | .copied _ _ _ out => out.lookup uid
  | _ => none

/-- The user whose entry `check` has copied and not yet deleted. -/
def deleting (c : Cache) : Option ℤ :=
  match c.pc with
  | .copied uid _ _ _ => some uid
  | _ => none

theorem deleting_copied {c : Cache} {uid : ℤ} {todo kept : List ℤ} {out : GoMap ℤ ℤ}
    (h : c.pc = .copied uid todo kept out) : c.deleting = some uid := by
  simp only [deleting, h]

theorem putEntry_cases {now uid seq : ℤ} {c c' : Cache} (h : c.putEntry now uid seq = some c') :
    ∃ v, v.headSeq = seq ∧ (∀ u ∈ c.kv.lookup uid, u.headSeq < seq) ∧
      c' = { c with kv := c.kv.insert uid v, puts := c.puts ++ [(uid, seq)] } := by
  unfold putEntry at h
  cases hu : c.kv.lookup uid with
  | none =>
    rw [hu] at h
    cases h
    exact ⟨_, rfl, by simp, rfl⟩
  | some u =>
    rw [hu] at h
    simp only at h
    split_ifs at h with hlt
    cases h
    exact ⟨_, rfl, by simpa using hlt, rfl⟩

/-- The loop rule of `put`. -/
theorem putLoop_induction {I : Cache → Prop} {now : ℤ}
    (hentry : ∀ c uid seq c', I c → c.putEntry now uid seq = some c' → I c')
    (hpanic : ∀ c, I c → I { c with panicked := true })
    {c : Cache} (hc : I c) (entries : List (Sigma fun _ : ℤ => ℤ)) : I (c.putLoop now entries) := by
  induction entries generalizing c with
  | nil => exact hc
  | cons p entries ih =>
    rw [putLoop]
    split
    · rename_i c' he
      exact ih (hentry c p.1 p.2 c' hc he)
    · exact hpanic c hc

theorem outSeq_loop {c : Cache} {todo kept : List ℤ} {out : GoMap ℤ ℤ}
    (h : c.pc = .loop todo kept out) (uid : ℤ) : c.outSeq uid = out.lookup uid := by
  simp only [outSeq, h]

theorem outSeq_copied {c : Cache} {v : ℤ} {todo kept : List ℤ} {out : GoMap ℤ ℤ}
    (h : c.pc = .copied v todo kept out) (uid : ℤ) : c.outSeq uid = out.lookup uid := by
  simp only [outSeq, h]

end Cache
end MiniPush.Cluster
