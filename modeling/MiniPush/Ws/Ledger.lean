import MiniPush.Ws.Hub

/-! The sessions of a hub as the hub has them and as the leader will know them, and what each step of the
hub does to the two. -/
namespace MiniPush.Ws
open Foundation System Cluster

/-- Whether the leader has a session of the hub after a message, if `known` says whether it had it
before. -/
def afterMsg (sid : String) (known : Bool) (msg : FollowerMsg) : Bool :=
  match msg.sessionOnline with
  | some v => known || decide (sid = v.sid)
  | none =>
    if msg.sessionOffline ≠ "" then known && !decide (sid = msg.sessionOffline)
    else known || decide (sid ∈ msg.syncSessions.map Session.sid)

theorem afterMsg_offline {sid : String} (hsid : sid ≠ "") (k : String) (known : Bool) :
    afterMsg k known (sessionOffline sid) = (known && !decide (k = sid)) := if_pos hsid

theorem afterMsg_offline_ne {sid k : String} {known : Bool} (hne : k ≠ sid) (h : known = true) :
    afterMsg k known (sessionOffline sid) = true := by
  simp [afterMsg, sessionOffline, h, hne]

/-- What concerns the sessions of a hub: the handler store, the calls between two of their steps, the rest
of the copy that `Online` sends, and what the leader will know once it has processed the messages on the
way. -/
structure Ledger where
  hstore : HandlerStore
  used : List String
  serving : List Session
  opened : List String
  deleting : List String
  rest : List Session
  view : String → Bool

namespace Ledger
variable {b : Ledger} {sid : String} {sess : Session}

/-- `hstore.add` in `addHandler`. -/
def serve (b : Ledger) (sess : Session) : Ledger :=
  { b with hstore := b.hstore.add sess, used := sess.sid :: b.used, serving := sess :: b.serving }

def announce (b : Ledger) (sess : Session) : Ledger :=
  { b with
    serving := b.serving.erase sess
    opened := sess.sid :: b.opened
    view := fun k => afterMsg k (b.view k) (sessionOnline sess) }

/-- `hstore.del` in `delHandler`. -/
def delete (b : Ledger) (sid : String) : Ledger :=
  { b with hstore := b.hstore.erase sid, deleting := sid :: b.deleting }

def report (b : Ledger) (sid : String) : Ledger :=
  { b with
    deleting := b.deleting.erase sid
    view := fun k => afterMsg k (b.view k) (sessionOffline sid) }

/-- The copy of the sessions in `Online`. -/
def copy (b : Ledger) : Ledger := { b with rest := b.hstore.shallowCopySessions }

def send (b : Ledger) : Ledger :=
  { b with
    rest := b.rest.drop syncBatch
    view := fun k => afterMsg k (b.view k) (syncSessions (b.rest.take syncBatch)) }

/-- `hstore.del` in `Hub.Run`, of which the leader is not told. -/
def kick (b : Ledger) (sid : String) : Ledger := { b with hstore := b.hstore.erase sid }

/-- The handler store is what the leader will know, up to the calls between two of their steps. -/
structure Tracked (b : Ledger) : Prop where
  nonempty : "" ∉ b.used
  keyed : ∀ sid sess, b.hstore.lookup sid = some sess → sess.sid = sid
  stored_used : ∀ sid ∈ b.hstore, sid ∈ b.used
  opened_used : ∀ sid ∈ b.opened, sid ∈ b.used
  deleting_used : ∀ sid ∈ b.deleting, sid ∈ b.used
  rest_used : ∀ sess ∈ b.rest, sess.sid ∈ b.used
  serving_stored : ∀ sess ∈ b.serving, sess.sid ∈ b.hstore
  serving_nodup : (b.serving.map Session.sid).Nodup
  opened_served : ∀ sid ∈ b.opened, sid ∉ b.serving.map Session.sid
  deleting_gone : ∀ sid ∈ b.deleting, sid ∉ b.hstore
  known : ∀ sid, b.view sid = true → sid ∈ b.hstore ∨ sid ∈ b.deleting
  stored_known : ∀ sid ∈ b.hstore, b.view sid = true ∨ sid ∈ b.serving.map Session.sid

theorem mem_add {hs : HandlerStore} : sid ∈ hs.add sess ↔ sid = sess.sid ∨ sid ∈ hs := AList.mem_insert hs

theorem mem_erase {hs : HandlerStore} {k : String} : k ∈ hs.erase sid ↔ k ≠ sid ∧ k ∈ hs := AList.mem_erase

private theorem mem_sids_erase {l : List Session} (h : sid ∈ l.map Session.sid) (hne : sid ≠ sess.sid) :
    sid ∈ (l.erase sess).map Session.sid := by
  obtain ⟨a, ha, rfl⟩ := List.mem_map.mp h
  have hane : a ≠ sess := fun he => hne (congrArg Session.sid he)
  exact List.mem_map_of_mem ((List.mem_erase_of_ne hane).mpr ha)

private theorem sid_notMem_erase {l : List Session} (hl : (l.map Session.sid).Nodup) (h : sess ∈ l) :
    sess.sid ∉ (l.erase sess).map Session.sid := by
  have hperm := (List.perm_cons_erase h).map Session.sid
  rw [hperm.nodup_iff, List.map_cons, List.nodup_cons] at hl
  exact hl.1

theorem Tracked.serve (h : b.Tracked) (hne : sess.sid ≠ "") (hfresh : sess.sid ∉ b.used) :
    (b.serve sess).Tracked := by
  have hout : sess.sid ∉ b.hstore := fun hin => hfresh (h.stored_used _ hin)
  obtain ⟨hnonempty, hkeyed, hstored, hopened, hdeleting, hrest, hserving, hnodup, hserved, hgone, hknown,
    hview⟩ := h
  unfold Ledger.serve
  constructor
  case known =>
    intro sid hv
    exact (hknown sid hv).imp_left fun hin => mem_add.mpr (.inr hin)
  case stored_known =>
    intro sid hin
    rcases mem_add.mp hin with rfl | hin
    · exact .inr List.mem_cons_self
    · exact (hview sid hin).imp_right (List.mem_cons_of_mem _)
  all_goals grind [mem_add, HandlerStore.add, GoMap.lookup_insert]

theorem Tracked.announce (h : b.Tracked) (hsess : sess ∈ b.serving) : (b.announce sess).Tracked := by
  have hnot := sid_notMem_erase h.serving_nodup hsess
  obtain ⟨hnonempty, hkeyed, hstored, hopened, hdeleting, hrest, hserving, hnodup, hserved, hgone, hknown,
    hview⟩ := h
  unfold Ledger.announce
  constructor
  case known =>
    intro sid hv
    rcases Bool.or_eq_true_iff.mp hv with hv | hv
    · exact hknown sid hv
    · obtain rfl := of_decide_eq_true hv
      exact .inl (hserving sess hsess)
  case stored_known =>
    intro sid hin
    by_cases he : sid = sess.sid
    · exact .inl (Bool.or_eq_true_iff.mpr (.inr (decide_eq_true he)))
    · rcases hview sid hin with hv | hs
      · exact .inl (Bool.or_eq_true_iff.mpr (.inl hv))
      · exact .inr (mem_sids_erase hs he)
  all_goals grind

theorem Tracked.delete (h : b.Tracked) (hopen : sid ∈ b.opened) (hin : sid ∈ b.hstore) :
    (b.delete sid).Tracked := by
  obtain ⟨hnonempty, hkeyed, hstored, hopened, hdeleting, hrest, hserving, hnodup, hserved, hgone, hknown,
    hview⟩ := h
  unfold Ledger.delete
  constructor
  case known =>
    intro k hv
    by_cases he : k = sid
    · exact .inr (he ▸ List.mem_cons_self)
    · rcases hknown k hv with hin | hdel
      · exact .inl (mem_erase.mpr ⟨he, hin⟩)
      · exact .inr (List.mem_cons_of_mem _ hdel)
  case stored_known =>
    intro k hk
    exact hview k (mem_erase.mp hk).2
  all_goals grind [mem_erase, GoMap.lookup_erase]

theorem Tracked.report (h : b.Tracked) (hdel : sid ∈ b.deleting) : (b.report sid).Tracked := by
  have hsid : sid ≠ "" := fun he => h.nonempty (he ▸ h.deleting_used sid hdel)
  obtain ⟨hnonempty, hkeyed, hstored, hopened, hdeleting, hrest, hserving, hnodup, hserved, hgone, hknown,
    hview⟩ := h
  simp only [Ledger.report, afterMsg_offline hsid]
  constructor
  case known =>
    intro k hv
    rw [Bool.and_eq_true_iff, Bool.not_eq_true', decide_eq_false_iff_not] at hv
    exact (hknown k hv.1).imp_right (List.mem_erase_of_ne hv.2).mpr
  case stored_known =>
    intro k hk
    have hne : k ≠ sid := fun he => hgone sid hdel (he ▸ hk)
    refine (hview k hk).imp_left fun hv => ?_
    simp [hv, hne]
  all_goals grind

theorem Tracked.copy (h : b.Tracked) : b.copy.Tracked := by
  refine { h with rest_used := ?_ }
  intro sess hsess
  obtain ⟨sid, hlookup⟩ := Assoc.mem_values.mp hsess
  rw [h.keyed sid sess hlookup]
  exact h.stored_used sid (AList.lookup_isSome.mp (Option.isSome_of_eq_some hlookup))

theorem Tracked.send (h : b.Tracked)
    (hok : ∀ sess ∈ b.rest.take syncBatch, sess.sid ∈ b.hstore ∨ sess.sid ∈ b.deleting) :
    b.send.Tracked := by
  refine { h with rest_used := ?_, known := ?_, stored_known := ?_ }
  · intro sess hsess
    exact h.rest_used sess (List.mem_of_mem_drop hsess)
  · intro sid hv
    rcases Bool.or_eq_true_iff.mp hv with hv | hv
    · exact h.known sid hv
    · obtain ⟨sess, hsess, rfl⟩ := List.mem_map.mp (of_decide_eq_true hv)
      exact hok sess hsess
  · intro sid hin
    exact (h.stored_known sid hin).imp_left fun hv => Bool.or_eq_true_iff.mpr (.inl hv)

/-- The leader will keep a session that the hub has not, and nothing will tell it. -/
structure Ghost (b : Ledger) (sid : String) : Prop where
  used : sid ∈ b.used
  gone : sid ∉ b.hstore
  silent : sid ∉ b.deleting
  known : b.view sid = true ∨ sid ∈ b.serving.map Session.sid

theorem Tracked.ghost_kick (h : b.Tracked) (hin : sid ∈ b.hstore) : (b.kick sid).Ghost sid where
  used := h.stored_used sid hin
  gone hmem := (mem_erase.mp hmem).1 rfl
  silent hmem := h.deleting_gone sid hmem hin
  known := h.stored_known sid hin

theorem Tracked.ghost_send (h : b.Tracked) (hsess : sess ∈ b.rest.take syncBatch)
    (hgone : sess.sid ∉ b.hstore) (hsilent : sess.sid ∉ b.deleting) : b.send.Ghost sess.sid where
  used := h.rest_used sess (List.mem_of_mem_take hsess)
  gone := hgone
  silent := hsilent
  known := .inl (Bool.or_eq_true_iff.mpr (.inr (decide_eq_true (List.mem_map_of_mem hsess))))

namespace Ghost
variable {k : String}

theorem serve (h : b.Ghost sid) (hfresh : sess.sid ∉ b.used) : (b.serve sess).Ghost sid := by
  have hne : sid ≠ sess.sid := fun he => hfresh (he ▸ h.used)
  refine ⟨List.mem_cons_of_mem _ h.used, fun hin => ?_, h.silent,
    h.known.imp_right (List.mem_cons_of_mem _)⟩
  rcases mem_add.mp hin with he | hin
  · exact hne he
  · exact h.gone hin

theorem announce (h : b.Ghost sid) (sess : Session) : (b.announce sess).Ghost sid := by
  refine ⟨h.used, h.gone, h.silent, ?_⟩
  by_cases he : sid = sess.sid
  · exact .inl (Bool.or_eq_true_iff.mpr (.inr (decide_eq_true he)))
  · rcases h.known with hview | hserving
    · exact .inl (Bool.or_eq_true_iff.mpr (.inl hview))
    · exact .inr (mem_sids_erase hserving he)

theorem delete (h : b.Ghost sid) (hin : k ∈ b.hstore) : (b.delete k).Ghost sid := by
  have hne : sid ≠ k := fun he => h.gone (he ▸ hin)
  refine ⟨h.used, fun hmem => h.gone (mem_erase.mp hmem).2, fun hmem => ?_, h.known⟩
  rcases List.mem_cons.mp hmem with he | hmem
  · exact hne he
  · exact h.silent hmem

theorem report (h : b.Ghost sid) (hdel : k ∈ b.deleting) : (b.report k).Ghost sid := by
  have hne : sid ≠ k := fun he => h.silent (he ▸ hdel)
  refine ⟨h.used, h.gone, fun hmem => h.silent (List.mem_of_mem_erase hmem), ?_⟩
  exact h.known.imp_left (afterMsg_offline_ne hne)

theorem copy (h : b.Ghost sid) : b.copy.Ghost sid := ⟨h.used, h.gone, h.silent, h.known⟩

theorem send (h : b.Ghost sid) : b.send.Ghost sid := by
  refine ⟨h.used, h.gone, h.silent, h.known.imp_left fun hview => ?_⟩
  exact Bool.or_eq_true_iff.mpr (.inl hview)

theorem kick (h : b.Ghost sid) (k : String) : (b.kick k).Ghost sid :=
  ⟨h.used, fun hmem => h.gone (mem_erase.mp hmem).2, h.silent, h.known⟩

end Ghost
end Ledger

end MiniPush.Ws
