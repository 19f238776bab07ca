import Mathlib.Data.List.Infix

/-! Where a marker can begin in a list put together from parts. -/
namespace Marker

variable {α : Type*} {mark xs ys rest : List α} {x : α}

/-- No marker begins in `xs` when `rest` follows. -/
def Clear (mark xs rest : List α) : Prop :=
  ∀ before x after, xs = before ++ x :: after → ¬ mark <+: x :: after ++ rest

theorem clear_of_not_mem (h : x ∉ xs) : Clear (x :: mark) xs rest := by
  rintro before y after rfl ⟨tail, htail⟩
  obtain ⟨rfl, -⟩ := List.cons.inj htail
  exact h (by simp)

theorem Clear.append (h : Clear mark xs (ys ++ rest)) (k : Clear mark ys rest) :
    Clear mark (xs ++ ys) rest := by
  intro before x after heq
  rcases List.append_eq_append_iff.mp heq with ⟨cs, rfl, hys⟩ | ⟨cs, rfl, htail⟩
  · exact k cs x after hys
  · cases cs with
    | nil => exact k [] x after htail.symm
    | cons c cs =>
      obtain ⟨rfl, rfl⟩ := List.cons.inj htail
      have hclear := h before x cs rfl
      rwa [← List.append_assoc] at hclear

/-- A tail that begins with the marker begins after the part that is clear of it. -/
theorem Clear.suffix (h : Clear mark xs rest) (hs : ys <:+ xs ++ rest) (hm : mark <+: ys) :
    ys <:+ rest := by
  obtain ⟨before, heq⟩ := hs
  rcases List.append_eq_append_iff.mp heq with ⟨cs, rfl, rfl⟩ | ⟨cs, rfl, rfl⟩
  · cases cs with
    | nil => exact List.suffix_refl _
    | cons c cs => exact absurd hm (h before c cs rfl)
  · exact List.suffix_append _ _

end Marker
