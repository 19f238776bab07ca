import Mathlib.Algebra.GroupWithZero.Nat
import Mathlib.Logic.Relation

/-! Labelled transition systems and the rules that carry a step fact over whole runs. -/
namespace Transition

/-- Initial states and labelled steps. -/
structure System (σ α : Type*) where
  initial : σ → Prop
  step : σ → α → σ → Prop

variable {σ α : Type*} {S : System σ α} {s t u : σ} {a : α} {as bs : List α}

/-- A finite run together with the labels it performs. -/
inductive System.Run (S : System σ α) : σ → List α → σ → Prop
  | refl {s : σ} : Run S s [] s
  | head {s t u : σ} {a : α} {as : List α} :
      S.step s a t → Run S t as u → Run S s (a :: as) u

/-- States that some run reaches from an initial state. -/
def System.Reachable (S : System σ α) (s : σ) : Prop :=
  ∃ s₀ as, S.initial s₀ ∧ S.Run s₀ as s

/-- Every step keeps the predicate. -/
def System.Stable (S : System σ α) (I : σ → Prop) : Prop :=
  ∀ ⦃s a t⦄, S.step s a t → I s → I t

theorem System.Run.append (h : S.Run s as t) (k : S.Run t bs u) : S.Run s (as ++ bs) u := by
  induction h with
  | refl => exact k
  | head hs _ ih => exact .head hs (ih k)

theorem System.Run.tail (h : S.Run s as t) (k : S.step t a u) : S.Run s (as ++ [a]) u :=
  h.append (.head k .refl)

theorem System.Run.single (h : S.step s a t) : S.Run s [a] t := .head h .refl

theorem System.Reachable.initial (h : S.initial s) : S.Reachable s := ⟨s, [], h, .refl⟩

theorem System.Reachable.run (h : S.Reachable s) (k : S.Run s as t) : S.Reachable t := by
  obtain ⟨s₀, bs, hi, hr⟩ := h
  exact ⟨s₀, bs ++ as, hi, hr.append k⟩

theorem System.Reachable.step (h : S.Reachable s) (k : S.step s a t) : S.Reachable t :=
  h.run (.single k)

theorem System.Stable.run {I : σ → Prop} (hI : S.Stable I) (h : S.Run s as t) (hs : I s) : I t := by
  induction h with
  | refl => exact hs
  | head hst _ ih => exact ih (hI hst hs)

/-- An inductive invariant holds of every reachable state. -/
theorem System.Stable.reachable {I : σ → Prop} (hI : S.Stable I)
    (h₀ : ∀ s, S.initial s → I s) (h : S.Reachable s) : I s := by
  obtain ⟨s₀, as, hi, hr⟩ := h
  exact hI.run hr (h₀ s₀ hi)

/-- A measure that each step raises by at most its cost, below the invariant, is raised by a run by
at most the sum of the costs. -/
theorem System.Run.charge {I : σ → Prop} {f : σ → Nat} {cost : α → Nat} (hI : S.Stable I)
    (hf : ∀ ⦃s a t⦄, S.step s a t → I s → f t ≤ f s + cost a) (h : S.Run s as t) (hs : I s) :
    f t ≤ f s + (as.map cost).sum := by
  induction h with
  | refl => exact Nat.le_add_right _ _
  | head hst _ ih =>
    have hfirst := hf hst hs
    have hrest := ih (hI hst hs)
    rw [List.map_cons, List.sum_cons]
    omega

/-- The runs whose every step meets a condition. -/
def System.restrict (S : System σ α) (ok : σ → α → σ → Prop) : System σ α where
  initial := S.initial
  step s a t := S.step s a t ∧ ok s a t

/-- One party of a pool moves: what holds of it and of all the old ones holds of the new pool. -/
theorem forall_mem_replace {τ : Type*} {P : τ → Prop} {before after : List τ} {x y : τ}
    (hy : P y) (h : ∀ z ∈ before ++ x :: after, P z) : ∀ z ∈ before ++ y :: after, P z := by
  intro z hz
  rcases List.mem_append.mp hz with hz | hz
  · exact h z (List.mem_append_left _ hz)
  · rcases List.mem_cons.mp hz with rfl | hz
    · exact hy
    · exact h z (List.mem_append_right _ (List.mem_cons_of_mem _ hz))

/-- The same of what holds of each party in its place. -/
theorem forall_getElem?_replace {τ : Type*} {P : Nat → τ → Prop} {before after : List τ} {x y : τ}
    (hy : P before.length x → P before.length y)
    (h : ∀ i z, (before ++ x :: after)[i]? = some z → P i z) :
    ∀ i z, (before ++ y :: after)[i]? = some z → P i z := by
  intro i z hz
  rcases Nat.lt_trichotomy i before.length with hlt | rfl | hgt
  · rw [List.getElem?_append_left hlt] at hz
    exact h i z (by rwa [List.getElem?_append_left hlt])
  · obtain rfl : y = z := by simpa using hz
    exact hy (h _ x (by simp))
  · obtain ⟨k, rfl⟩ := Nat.exists_eq_add_of_lt hgt
    apply h
    rw [List.getElem?_append_right (by omega)] at hz ⊢
    rw [show before.length + k + 1 - before.length = k + 1 by omega] at hz ⊢
    exact hz

end Transition
