import MiniPush.Cluster.SessionStore

/-! What the operations of the session store do to the sessions stored. -/
namespace MiniPush.Cluster
open Foundation

namespace SessionStore
variable {s : SessionStore}

theorem mem_sessions {a : Session} : a ∈ s.sessions ↔ s.get? a.hubId a.sid = some a := by
  simp only [sessions, List.mem_flatMap, Assoc.mem_values]
  constructor
  · rintro ⟨v, ⟨hubId, hv⟩, sid, ha⟩
    obtain ⟨hhub, hsid⟩ := s.located hubId v hv sid a ha
    subst hhub hsid
    simpa [get?, hub, hv] using ha
  · intro ha
    cases hv : s.kv.lookup a.hubId with
    | none => simp [get?, hub, hv] at ha
    | some v => exact ⟨v, ⟨a.hubId, hv⟩, a.sid, by simpa [get?, hub, hv] using ha⟩

theorem eq_of_location {a b : Session} (ha : a ∈ s.sessions) (hb : b ∈ s.sessions)
    (hhub : a.hubId = b.hubId) (hsid : a.sid = b.sid) : a = b := by
  rw [mem_sessions] at ha hb
  rw [hhub, hsid, hb] at ha
  exact (Option.some.inj ha).symm

theorem get?_location {hubId sid : String} {a : Session} (h : s.get? hubId sid = some a) :
    a.hubId = hubId ∧ a.sid = sid :=
  s.hub_located hubId sid a h

theorem mem_sessions_of_get? {hubId sid : String} {a : Session} (h : s.get? hubId sid = some a) :
    a ∈ s.sessions := by
  obtain ⟨hhub, hsid⟩ := get?_location h
  rw [mem_sessions, hhub, hsid]
  exact h

private theorem values_nodup {v : HubSessions} {hubId : String} (h : v.Located hubId) :
    (Assoc.values v).Nodup := by
  refine List.Nodup.map_on ?_ (List.NodupKeys.nodup v.nodupKeys)
  rintro ⟨k, a⟩ ha ⟨l, b⟩ hb he
  obtain rfl : a = b := he
  have hk := (h k a (AList.mem_lookup_iff.mpr ha)).2
  have hl := (h l a (AList.mem_lookup_iff.mpr hb)).2
  rw [hk] at hl
  rw [hl]

theorem sessions_nodup (s : SessionStore) : s.sessions.Nodup := by
  rw [sessions, Assoc.values, List.flatMap_map, List.nodup_flatMap]
  constructor
  · rintro ⟨hubId, v⟩ hv
    exact values_nodup (s.located hubId v (AList.mem_lookup_iff.mpr hv))
  · have hkeys : s.kv.entries.Pairwise fun e e' => e.1 ≠ e'.1 :=
      List.pairwise_map.mp s.kv.keys_nodup
    refine hkeys.imp_of_mem fun {e e'} he he' hne a ha ha' => hne ?_
    obtain ⟨sid, hsid⟩ := Assoc.mem_values.mp ha
    obtain ⟨sid', hsid'⟩ := Assoc.mem_values.mp ha'
    have hhub := (s.located e.1 e.2 (AList.mem_lookup_iff.mpr he) sid a hsid).1
    have hhub' := (s.located e'.1 e'.2 (AList.mem_lookup_iff.mpr he') sid' a hsid').1
    exact hhub.symm.trans hhub'

theorem hub_setHub (s : SessionStore) (hubId h : String) (v : HubSessions) (hv : v.Located hubId) :
    (s.setHub hubId v hv).hub h = if h = hubId then v else s.hub h := by
  rw [hub, setHub, GoMap.lookup_insert]
  split_ifs
  · rfl
  · rfl

theorem get?_add (s : SessionStore) (hubId h sid : String) (sess : Session) :
    (s.add hubId sess).get? h sid =
      if h = hubId ∧ sid = sess.sid then some { sess with hubId } else s.get? h sid := by
  rw [get?, add, hub_setHub]
  by_cases hh : h = hubId
  · subst hh
    simp only [if_true, HubSessions.put, GoMap.lookup_insert, true_and, get?]
  · simp only [hh, if_false, false_and, get?]

theorem mem_add {hubId : String} {sess a : Session} (h : a ∈ (s.add hubId sess).sessions) :
    a = { sess with hubId } ∨ a ∈ s.sessions := by
  rw [mem_sessions, get?_add] at h
  split_ifs at h
  · exact .inl (Option.some.inj h).symm
  · exact .inr (mem_sessions.mpr h)

theorem mem_addMany {hubId : String} {slice : List Session} {a : Session}
    (h : a ∈ (s.addMany hubId slice).sessions) :
    (∃ sess ∈ slice, a = { sess with hubId }) ∨ a ∈ s.sessions := by
  rw [mem_sessions, get?, addMany, hub_setHub] at h
  split_ifs at h with hh
  · rcases HubSessions.lookup_putMany h with hnew | hold
    · exact .inl hnew
    · exact .inr (mem_sessions_of_get? hold)
  · exact .inr (mem_sessions.mpr h)

theorem get?_del (s : SessionStore) (hubId sid h k : String) :
    (s.del hubId sid).get? h k = if h = hubId ∧ k = sid then none else s.get? h k := by
  unfold del
  split
  · rename_i v hv
    rw [get?, hub_setHub]
    by_cases hh : h = hubId
    · subst hh
      simp only [if_true, GoMap.lookup_erase, true_and, get?, hub, hv, Option.getD_some]
    · simp only [hh, if_false, false_and, get?]
  · rename_i hv
    split_ifs with hk
    · obtain ⟨rfl, rfl⟩ := hk
      simp [get?, hub, hv]
    · rfl

theorem mem_del {hubId sid : String} {a : Session} (h : a ∈ (s.del hubId sid).sessions) :
    a ∈ s.sessions := by
  rw [mem_sessions, get?_del] at h
  split_ifs at h
  exact mem_sessions.mpr h

theorem get?_clean (s : SessionStore) (live : List String) (now : ℤ) (hubId sid : String) :
    (s.clean live now).get? hubId sid =
      if hubId ∈ live then (s.get? hubId sid).filter fun a => !outdated now a else none := by
  simp only [get?, hub, clean, Assoc.lookup_mapValues, Assoc.lookup_filter]
  cases hv : s.kv.lookup hubId with
  | none => simp
  | some v =>
    by_cases hl : hubId ∈ live
    · rw [Option.filter_some_pos (by simpa using hl), if_pos hl]
      exact Assoc.lookup_filter (fun _ sess => !outdated now sess) v sid
    · rw [Option.filter_some_neg (by simpa using hl), if_neg hl]
      rfl

/-- `gc` deletes the sessions of hubs that are not live and the outdated ones. -/
theorem mem_clean {live : List String} {now : ℤ} {a : Session} :
    a ∈ (s.clean live now).sessions ↔
      a ∈ s.sessions ∧ a.hubId ∈ live ∧ outdated now a = false := by
  rw [mem_sessions, mem_sessions, get?_clean]
  split_ifs with hl
  · simp [hl, Option.filter_eq_some_iff]
  · simp [hl]

theorem isSome_get? {hubId sid : String} :
    (s.get? hubId sid).isSome ↔ ∃ a ∈ s.sessions, a.hubId = hubId ∧ a.sid = sid := by
  constructor
  · intro h
    obtain ⟨a, ha⟩ := Option.isSome_iff_exists.mp h
    exact ⟨a, mem_sessions_of_get? ha, get?_location ha⟩
  · rintro ⟨a, ha, rfl, rfl⟩
    rw [mem_sessions.mp ha]
    rfl

theorem get?_of_map {s' : SessionStore} {f : Session → Session}
    (hs : s'.sessions = s.sessions.map f) (hhub : ∀ a, (f a).hubId = a.hubId)
    (hsid : ∀ a, (f a).sid = a.sid) (hubId sid : String) :
    s'.get? hubId sid = (s.get? hubId sid).map f := by
  cases ha : s.get? hubId sid with
  | some a =>
    obtain ⟨rfl, rfl⟩ := get?_location ha
    have hmem : f a ∈ s'.sessions := by
      rw [hs]
      exact List.mem_map_of_mem (mem_sessions.mpr ha)
    rw [mem_sessions, hhub, hsid] at hmem
    exact hmem
  | none =>
    cases hb : s'.get? hubId sid with
    | none => rfl
    | some b =>
      obtain ⟨hbhub, hbsid⟩ := get?_location hb
      have hmem := mem_sessions_of_get? hb
      rw [hs] at hmem
      obtain ⟨a, hold, rfl⟩ := List.mem_map.mp hmem
      rw [mem_sessions, ← hhub a, ← hsid a, hbhub, hbsid, ha] at hold
      cases hold

theorem get?_addMany_of_notMem (s : SessionStore) {hubId h sid : String} {slice : List Session}
    (hne : h = hubId → sid ∉ slice.map Session.sid) :
    (s.addMany hubId slice).get? h sid = s.get? h sid := by
  rw [get?, addMany, hub_setHub]
  split_ifs with hh
  · subst hh
    exact HubSessions.lookup_putMany_of_notMem h (s.hub h) (hne rfl)
  · rfl

theorem isSome_get?_addMany (s : SessionStore) (hubId sid : String) (slice : List Session) :
    ((s.addMany hubId slice).get? hubId sid).isSome =
      ((s.get? hubId sid).isSome || decide (sid ∈ slice.map Session.sid)) := by
  rw [get?, addMany, hub_setHub, if_pos rfl, get?]
  exact HubSessions.isSome_lookup_putMany hubId (s.hub hubId) slice sid

theorem sessions_setKickoffTime (s : SessionStore) (hubId : String) (sids : List String) (now : ℤ) :
    (s.setKickoffTime hubId sids now).sessions = s.sessions.map fun a =>
      if a.hubId = hubId ∧ a.sid ∈ sids then { a with kickoffTime := now } else a := by
  rw [sessions, setKickoffTime, Assoc.values_mapValues, List.flatMap_map, sessions, List.map_flatMap]
  simp only [Assoc.values_mapValues]

end SessionStore
end MiniPush.Cluster
