import Mathlib.Data.List.Basic

/-!
Texts put together from parts with a separator between them, and how far the parts can
be read back.
-/

namespace SeparatedText

variable {α : Type} {separator : α} {first second left right : List α}

/-- Two texts of two parts are the same when the parts are, or when the longer head
continues the shorter one by a leading piece of its tail. -/
theorem parts_eq_iff :
    first ++ separator :: left = second ++ separator :: right ↔
      (first = second ∧ left = right) ∨
      (∃ piece, second = first ++ separator :: piece ∧ left = piece ++ separator :: right) ∨
      ∃ piece, first = second ++ separator :: piece ∧ right = piece ++ separator :: left := by
  rw [List.append_eq_append_iff]
  constructor
  · rintro (⟨piece, rfl, same⟩ | ⟨piece, rfl, same⟩)
    · cases piece with
      | nil =>
          rw [List.nil_append, List.cons.injEq] at same
          exact Or.inl ⟨(List.append_nil _).symm, same.2⟩
      | cons head rest =>
          rw [List.cons_append, List.cons.injEq] at same
          obtain ⟨rfl, rfl⟩ := same
          exact Or.inr (Or.inl ⟨rest, rfl, rfl⟩)
    · cases piece with
      | nil =>
          rw [List.nil_append, List.cons.injEq] at same
          exact Or.inl ⟨List.append_nil _, same.2.symm⟩
      | cons head rest =>
          rw [List.cons_append, List.cons.injEq] at same
          obtain ⟨rfl, rfl⟩ := same
          exact Or.inr (Or.inr ⟨rest, rfl, rfl⟩)
  · rintro (⟨rfl, rfl⟩ | ⟨piece, rfl, rfl⟩ | ⟨piece, rfl, rfl⟩)
    · exact Or.inl ⟨[], by simp⟩
    · exact Or.inl ⟨separator :: piece, by simp⟩
    · exact Or.inr ⟨separator :: piece, by simp⟩

theorem parts_of_plain_heads (plainFirst : separator ∉ first) (plainSecond : separator ∉ second)
    (same : first ++ separator :: left = second ++ separator :: right) :
    first = second ∧ left = right := by
  rcases parts_eq_iff.mp same with equal | ⟨piece, rfl, _⟩ | ⟨piece, rfl, _⟩
  · exact equal
  · simp at plainSecond
  · simp at plainFirst

theorem parts_of_plain_tails (plainLeft : separator ∉ left) (plainRight : separator ∉ right)
    (same : first ++ separator :: left = second ++ separator :: right) :
    first = second ∧ left = right := by
  rcases parts_eq_iff.mp same with equal | ⟨piece, _, rfl⟩ | ⟨piece, _, rfl⟩
  · exact equal
  · simp at plainLeft
  · simp at plainRight

end SeparatedText
