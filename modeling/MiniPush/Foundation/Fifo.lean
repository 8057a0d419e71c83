import Mathlib.Data.List.Infix

/-! Items on their way through a channel: the order in which they come out, when the channel may be closed
under its senders and the receiver may leave. -/
namespace Foundation

/-- The items `due`, in order: `done` have come out, `queue` is in the channel, `pending` is still to be
sent. A closed channel drops what is sent to it; what a receiver that has left was to take stays behind. -/
def Flow {α : Type*} (due pending queue done : List α) (closed left : Prop) : Prop :=
  ∃ rest, due = done ++ rest ∧
    (left ∨ ∃ lost, rest = queue ++ (lost ++ pending) ∧ (lost = [] ∨ closed))

namespace Flow
variable {α : Type*} {due pending queue done items : List α} {closed closed' left left' : Prop}

theorem start : Flow ([] : List α) [] [] [] closed left := ⟨[], rfl, .inr ⟨[], rfl, .inl rfl⟩⟩

theorem isPrefix (h : Flow due pending queue done closed left) : done <+: due := by
  obtain ⟨rest, hdue, -⟩ := h
  exact ⟨rest, hdue.symm⟩

/-- Nothing is lost while the channel is open and the receiver is there. -/
theorem complete (h : Flow due pending queue done closed left) (hopen : ¬closed) (hhere : ¬left) :
    due = done ++ (queue ++ pending) := by
  obtain ⟨rest, hdue, hrest⟩ := h
  obtain ⟨lost, rfl, hlost⟩ := hrest.resolve_left hhere
  obtain rfl := hlost.resolve_right hopen
  exact hdue

theorem mono (h : Flow due pending queue done closed left) (hclosed : closed → closed')
    (hleft : left → left') : Flow due pending queue done closed' left' := by
  obtain ⟨rest, hdue, hrest⟩ := h
  refine ⟨rest, hdue, hrest.imp hleft ?_⟩
  rintro ⟨lost, hlost, hclose⟩
  exact ⟨lost, hlost, hclose.imp_right hclosed⟩

theorem produce (h : Flow due pending queue done closed left) (items : List α) :
    Flow (due ++ items) (pending ++ items) queue done closed left := by
  obtain ⟨rest, rfl, hrest⟩ := h
  refine ⟨rest ++ items, List.append_assoc .., hrest.imp_right ?_⟩
  rintro ⟨lost, rfl, hlost⟩
  exact ⟨lost, by simp only [List.append_assoc], hlost⟩

theorem put (h : Flow due (items ++ pending) queue done closed left) (hopen : ¬closed) :
    Flow due pending (queue ++ items) done closed left := by
  obtain ⟨rest, hdue, hrest⟩ := h
  refine ⟨rest, hdue, hrest.imp_right ?_⟩
  rintro ⟨lost, rfl, hlost⟩
  obtain rfl := hlost.resolve_right hopen
  exact ⟨[], by simp only [List.nil_append, List.append_assoc], .inl rfl⟩

theorem drop (h : Flow due (items ++ pending) queue done closed left) (hclosed : closed) :
    Flow due pending queue done closed left := by
  obtain ⟨rest, hdue, hrest⟩ := h
  refine ⟨rest, hdue, hrest.imp_right ?_⟩
  rintro ⟨lost, rfl, -⟩
  exact ⟨lost ++ items, by simp only [List.append_assoc], .inr hclosed⟩

theorem take (h : Flow due pending (items ++ queue) done closed left) (hhere : ¬left) :
    Flow due pending queue (done ++ items) closed left := by
  obtain ⟨rest, rfl, hrest⟩ := h
  obtain ⟨lost, rfl, hlost⟩ := hrest.resolve_left hhere
  exact ⟨queue ++ (lost ++ pending), by simp only [List.append_assoc], .inr ⟨lost, rfl, hlost⟩⟩

/-- The receiver leaves, with or without an item in hand. -/
theorem leave (h : Flow due pending queue done closed left) (hleft : left') (pending' queue' : List α) :
    Flow due pending' queue' done closed' left' := by
  obtain ⟨rest, hdue, -⟩ := h
  exact ⟨rest, hdue, .inl hleft⟩

end Flow
end Foundation
