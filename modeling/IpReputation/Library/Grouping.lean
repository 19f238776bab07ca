import Mathlib.Data.List.Basic

/-! Lists cut into groups, counted from the end, with a separator between the groups. -/
namespace Grouping

variable {α : Type*} {k : Nat} {sep x : α} {xs before after : List α}

/-- The separator, when whole groups follow. -/
def lead (k : Nat) (sep : α) (xs : List α) : List α :=
  if xs ≠ [] ∧ k ∣ xs.length then [sep] else []

/-- The elements in groups of `k`, the first group as long as the length makes it. -/
def separated (k : Nat) (sep : α) : List α → List α
  | [] => []
  | x :: xs => x :: (lead k sep xs ++ separated k sep xs)

theorem head?_separated : (separated k sep xs).head? = xs.head? := by
  cases xs <;> rfl

/-- The first element has no separator before it. -/
theorem separated_head (h : sep ∉ xs) (hcut : separated k sep xs = x :: after) : x ≠ sep := by
  cases xs with
  | nil => cases hcut
  | cons y ys =>
    obtain ⟨rfl, -⟩ := List.cons.inj hcut
    exact fun heq => h (heq ▸ List.mem_cons_self)

/-- A separator has an element after it. -/
theorem separated_after (h : sep ∉ xs) (hcut : separated k sep xs = before ++ sep :: after) :
    ∃ x rest, after = x :: rest ∧ x ≠ sep := by
  induction xs generalizing before with
  | nil => simp [separated] at hcut
  | cons y ys ih =>
    have hys : sep ∉ ys := fun hmem => h (List.mem_cons_of_mem y hmem)
    cases before with
    | nil => exact absurd rfl (separated_head h hcut)
    | cons z before =>
      rw [separated, List.cons_append] at hcut
      obtain ⟨rfl, htail⟩ := List.cons.inj hcut
      by_cases hwhole : ys ≠ [] ∧ k ∣ ys.length
      · rw [lead, if_pos hwhole, List.singleton_append] at htail
        cases before with
        | nil =>
          obtain ⟨-, hrest⟩ := List.cons.inj htail
          obtain ⟨x, xs, rfl⟩ := List.exists_cons_of_ne_nil hwhole.1
          exact ⟨x, _, hrest.symm, fun heq => hys (heq ▸ List.mem_cons_self)⟩
        | cons w before =>
          obtain ⟨-, hrest⟩ := List.cons.inj htail
          exact ih hys hrest
      · rw [lead, if_neg hwhole, List.nil_append] at htail
        exact ih hys htail

variable [DecidableEq α]

/-- Without the separators the elements are as they were. -/
theorem filter_separated (h : sep ∉ xs) : (separated k sep xs).filter (· ≠ sep) = xs := by
  induction xs with
  | nil => rfl
  | cons x xs ih =>
    have hx : x ≠ sep := fun heq => h (heq ▸ List.mem_cons_self)
    have hxs := ih fun hmem => h (List.mem_cons_of_mem x hmem)
    have hlead : (lead k sep xs).filter (· ≠ sep) = [] := by
      unfold lead
      split <;> simp
    rw [separated, List.filter_cons_of_pos (by simpa using hx), List.filter_append, hlead, hxs,
      List.nil_append]

/-- A separator stands before an element exactly when it is not the first and whole groups are
left from it on. -/
theorem separated_before (h : sep ∉ xs) (hx : x ≠ sep)
    (hcut : separated k sep xs = before ++ x :: after) : before.getLast? = some sep ↔
      before ≠ [] ∧ k ∣ ((x :: after).filter (· ≠ sep)).length := by
  induction xs generalizing before with
  | nil => simp [separated] at hcut
  | cons y ys ih =>
    have hy : y ≠ sep := fun heq => h (heq ▸ List.mem_cons_self)
    have hys : sep ∉ ys := fun hmem => h (List.mem_cons_of_mem y hmem)
    cases before with
    | nil => simp
    | cons z before =>
      rw [separated, List.cons_append] at hcut
      obtain ⟨rfl, htail⟩ := List.cons.inj hcut
      rw [and_iff_right (List.cons_ne_nil y before)]
      by_cases hwhole : ys ≠ [] ∧ k ∣ ys.length
      · rw [lead, if_pos hwhole, List.singleton_append] at htail
        cases before with
        | nil =>
          obtain ⟨heq, -⟩ := List.cons.inj htail
          exact absurd heq.symm hx
        | cons w before =>
          rw [List.cons_append] at htail
          obtain ⟨rfl, hrest⟩ := List.cons.inj htail
          cases before with
          | nil =>
            rw [List.nil_append] at hrest
            rw [← hrest, filter_separated hys]
            exact iff_of_true rfl hwhole.2
          | cons v before =>
            rw [List.getLast?_cons_cons, List.getLast?_cons_cons, ih hys hrest]
            exact and_iff_right (List.cons_ne_nil v before)
      · rw [lead, if_neg hwhole, List.nil_append] at htail
        cases before with
        | nil =>
          rw [List.nil_append] at htail
          have hne : ys ≠ [] := by
            rintro rfl
            cases htail
          rw [← htail, filter_separated hys]
          refine iff_of_false ?_ fun hdvd => hwhole ⟨hne, hdvd⟩
          simpa using hy
        | cons w before =>
          rw [List.getLast?_cons_cons, ih hys htail]
          exact and_iff_right (List.cons_ne_nil w before)

end Grouping
