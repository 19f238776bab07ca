import Mathlib.Data.List.Nodup
import Mathlib.Algebra.BigOperators.Group.List.Basic
import Mathlib.Algebra.GroupWithZero.Nat

/-! Families of monotone counters, one for each label seen. -/

/-- The counters created so far; a label has at most one. -/
structure CounterVec (L : Type*) where
  counters : List (L × Nat)
  nodup : (counters.map Prod.fst).Nodup

namespace CounterVec

variable {L : Type*} {c : CounterVec L} {l l' : L}

def empty : CounterVec L := ⟨[], List.nodup_nil⟩

/-- The sum over all labels. -/
def total (c : CounterVec L) : Nat := (c.counters.map Prod.snd).sum

variable [DecidableEq L]

/-- The counter of a label, `0` before its first increment. -/
def get (c : CounterVec L) (l : L) : Nat := (c.counters.lookup l).getD 0

theorem lookup_cons_eq_ite (k : L) (n : Nat) (cs : List (L × Nat)) :
    ((k, n) :: cs).lookup l = if l = k then some n else cs.lookup l := by
  by_cases h : l = k
  · simp [h]
  · simp [List.lookup_cons, beq_false_of_ne h, h]

/-- Adds one to the counter of `l`, creating it when it is not there. -/
def bump (l : L) : List (L × Nat) → List (L × Nat)
  | [] => [(l, 1)]
  | (k, n) :: rest => if k = l then (k, n + 1) :: rest else (k, n) :: bump l rest

theorem bump_labels (l : L) (cs : List (L × Nat)) :
    (bump l cs).map Prod.fst =
      if l ∈ cs.map Prod.fst then cs.map Prod.fst else cs.map Prod.fst ++ [l] := by
  induction cs with
  | nil => rfl
  | cons x cs ih =>
    obtain ⟨k, n⟩ := x
    by_cases hk : k = l
    · simp [bump, hk]
    · rw [bump, if_neg hk, List.map_cons, ih]
      by_cases hm : l ∈ cs.map Prod.fst
      · simp only [hm, if_true, List.map_cons, List.mem_cons, or_true]
      · have hl : l ∉ List.map Prod.fst ((k, n) :: cs) := by
          simp only [List.map_cons, List.mem_cons, not_or]
          exact ⟨Ne.symm hk, hm⟩
        rw [if_neg hm, if_neg hl]
        rfl

/-- `inc`. -/
def inc (l : L) (c : CounterVec L) : CounterVec L where
  counters := bump l c.counters
  nodup := by
    rw [bump_labels]
    split
    · exact c.nodup
    · rename_i h
      exact List.nodup_append.mpr ⟨c.nodup, List.nodup_singleton l, by
        intro a ha b hb hab
        obtain rfl := List.mem_singleton.mp hb
        exact h (hab ▸ ha)⟩

@[simp] theorem total_inc : (c.inc l).total = c.total + 1 := by
  have key : ∀ cs : List (L × Nat),
      ((bump l cs).map Prod.snd).sum = (cs.map Prod.snd).sum + 1 := by
    intro cs
    induction cs with
    | nil => rfl
    | cons x cs ih =>
      obtain ⟨k, n⟩ := x
      by_cases hk : k = l
      · simp [bump, hk]
        omega
      · simp only [bump, hk, if_false, List.map_cons, List.sum_cons, ih]
        omega
  exact key c.counters

@[simp] theorem get_inc : (c.inc l).get l' = c.get l' + if l' = l then 1 else 0 := by
  have key : ∀ cs : List (L × Nat),
      ((bump l cs).lookup l').getD 0 = (cs.lookup l').getD 0 + if l' = l then 1 else 0 := by
    intro cs
    induction cs with
    | nil => by_cases hl : l' = l <;> simp [bump, lookup_cons_eq_ite, hl]
    | cons x cs ih =>
      obtain ⟨k, n⟩ := x
      by_cases hk : k = l
      · subst hk
        by_cases hl : l' = k <;> simp [bump, lookup_cons_eq_ite, hl]
      · by_cases hl : l' = k
        · subst hl
          simp [bump, hk]
        · simpa [bump, hk, lookup_cons_eq_ite, hl] using ih
  exact key c.counters

end CounterVec
