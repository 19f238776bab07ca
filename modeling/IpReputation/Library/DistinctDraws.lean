import Mathlib.Data.Finset.Card
import Mathlib.Data.List.Nodup
import Mathlib.Logic.Function.Iterate

/-! Drawing from a source until enough different values have come up. -/
namespace DistinctDraws

variable {α σ : Type*} [DecidableEq α] {next : σ → α × σ} {count fuel : Nat} {seen xs : List α}
  {s s' : σ} {T : Finset α} {x : α}

/-- The source after `k` draws. -/
def after (next : σ → α × σ) (k : Nat) (s : σ) : σ := (fun s => (next s).2)^[k] s

/-- Draws, at most `fuel` times, until `count` values are there; a repeated one is dropped. -/
def collect (next : σ → α × σ) (count : Nat) :
    (fuel : Nat) → List α → σ → Option (List α × σ)
  | 0, seen, s => if seen.length < count then none else some (seen, s)
  | fuel + 1, seen, s =>
    if seen.length < count then
      if (next s).1 ∈ seen then collect next count fuel seen (next s).2
      else collect next count fuel (seen ++ [(next s).1]) (next s).2
    else some (seen, s)

/-- The values before and after are different ones, `count` of them at the end. -/
theorem collect_spec (h : collect next count fuel seen s = some (xs, s'))
    (hnodup : seen.Nodup) (hle : seen.length ≤ count) : xs.Nodup ∧ xs.length = count := by
  induction fuel generalizing seen s with
  | zero =>
    simp only [collect] at h
    split at h
    · cases h
    · cases h
      exact ⟨hnodup, by omega⟩
  | succ fuel ih =>
    simp only [collect] at h
    split at h
    · rename_i hlt
      split at h
      · exact ih h hnodup hle
      · rename_i hnew
        have hnodup' : (seen ++ [(next s).1]).Nodup :=
          List.nodup_append.mpr ⟨hnodup, List.nodup_singleton _, by
            rintro a ha b hb rfl
            exact hnew (List.mem_singleton.mp hb ▸ ha)⟩
        apply ih h hnodup'
        rw [List.length_append, List.length_singleton]
        exact hlt
    · cases h
      exact ⟨hnodup, by omega⟩

/-- Every collected value is one of the drawn ones. -/
theorem collect_mem (h : collect next count fuel seen s = some (xs, s')) {p : α → Prop}
    (hnext : ∀ s, p (next s).1) (hseen : ∀ x ∈ seen, p x) : ∀ x ∈ xs, p x := by
  induction fuel generalizing seen s with
  | zero =>
    simp only [collect] at h
    split at h <;> cases h
    exact hseen
  | succ fuel ih =>
    simp only [collect] at h
    split at h
    · split at h
      · exact ih h hseen
      · apply ih h
        intro x hx
        rcases List.mem_append.mp hx with hx | hx
        · exact hseen x hx
        · exact List.mem_singleton.mp hx ▸ hnext s
    · cases h
      exact hseen

/-- Values that come up within `fuel` draws suffice when there are `count` of them. -/
theorem collect_isSome (hcard : count ≤ T.card)
    (hcover : ∀ x ∈ T, x ∈ seen ∨ ∃ k < fuel, (next (after next k s)).1 = x) :
    (collect next count fuel seen s).isSome := by
  induction fuel generalizing seen s with
  | zero =>
    have hsub : T ⊆ seen.toFinset := by
      intro x hx
      obtain hx | ⟨k, hk, -⟩ := hcover x hx
      · exact List.mem_toFinset.mpr hx
      · omega
    have hlen : count ≤ seen.length :=
      (hcard.trans (Finset.card_le_card hsub)).trans (List.toFinset_card_le seen)
    simp only [collect, if_neg (Nat.not_lt.mpr hlen), Option.isSome_some]
  | succ fuel ih =>
    -- A value that comes up later comes up one draw earlier in the rest.
    have hrest : ∀ seen', seen ⊆ seen' → (next s).1 ∈ seen' →
        ∀ x ∈ T, x ∈ seen' ∨ ∃ k < fuel, (next (after next k (next s).2)).1 = x := by
      intro seen' hsub hfirst x hx
      obtain hx | ⟨k, hk, rfl⟩ := hcover x hx
      · exact .inl (hsub hx)
      · cases k with
        | zero => exact .inl hfirst
        | succ k => exact .inr ⟨k, by omega, rfl⟩
    simp only [collect]
    split
    · split
      · rename_i hold
        exact ih (hrest seen (List.Subset.refl seen) hold)
      · apply ih (hrest _ (List.subset_append_left seen _) _)
        exact List.mem_append_right _ (List.mem_singleton.mpr rfl)
    · rfl

/-- No more different values can be collected than there are. -/
theorem le_card_of_collect (h : collect next count fuel [] s = some (xs, s'))
    (hnext : ∀ s, (next s).1 ∈ T) : count ≤ T.card := by
  obtain ⟨hnodup, hlen⟩ := collect_spec h List.nodup_nil (Nat.zero_le count)
  have hmem := collect_mem h hnext (by simp)
  rw [← hlen, ← List.toFinset_card_of_nodup hnodup]
  apply Finset.card_le_card
  intro x hx
  exact hmem x (List.mem_toFinset.mp hx)

end DistinctDraws
