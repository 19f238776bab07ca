import Mathlib.Data.List.Forall2

/-! Maps whose updates act on whole regions of keys, read one key at a time. -/
namespace RegionMap

variable {K R V M : Type*} {covers : R → K → Bool} {merge : V → V → V} {k : K}

/-- Accumulates one more value at a key. -/
def absorb (merge : V → V → V) (new : V) (existing : Option V) : Option V :=
  some (match existing with
    | some old => merge old new
    | none => new)

/-- What a key holds after the given values arrived there in order. -/
def merged (merge : V → V → V) (vs : List V) : Option V :=
  vs.foldl (fun held v => absorb merge v held) none

/-- A family of reads obeys one region update. -/
def Updates (covers : R → K → Bool) (merge : V → V → V) (m m' : K → Option V) (x : R × V) : Prop :=
  ∀ k, m' k = if covers x.1 k then absorb merge x.2 (m k) else m k

/-- A sequence of region updates. -/
inductive Sequence (covers : R → K → Bool) (merge : V → V → V) :
    (K → Option V) → List (R × V) → (K → Option V) → Prop
  | nil {m : K → Option V} : Sequence covers merge m [] m
  | cons {m m₁ m₂ : K → Option V} {x : R × V} {xs : List (R × V)} :
      Updates covers merge m m₁ x → Sequence covers merge m₁ xs m₂ →
      Sequence covers merge m (x :: xs) m₂

theorem Sequence.append {m m₁ m₂ : K → Option V} {xs ys : List (R × V)}
    (h : Sequence covers merge m xs m₁) (k : Sequence covers merge m₁ ys m₂) :
    Sequence covers merge m (xs ++ ys) m₂ := by
  induction h with
  | nil => exact k
  | cons hx _ ih => exact .cons hx (ih k)

/-- A fallible loop whose every iteration is a sequence of updates is one sequence. -/
theorem Sequence.foldlM {E W X : Type*} {view : W → K → Option V} {updates : X → List (R × V)}
    {body : W → X → Except E W}
    (hbody : ∀ w x w', body w x = .ok w' → Sequence covers merge (view w) (updates x) (view w'))
    {xs : List X} {w w' : W} (h : xs.foldlM body w = .ok w') :
    Sequence covers merge (view w) (xs.flatMap updates) (view w') := by
  induction xs generalizing w with
  | nil =>
    cases h
    exact .nil
  | cons x xs ih =>
    rw [List.foldlM_cons] at h
    cases hx : body w x with
    | error e => simp [hx, bind, Except.bind] at h
    | ok w₁ =>
      simp only [hx, bind, Except.bind] at h
      rw [List.flatMap_cons]
      exact (hbody w x w₁ hx).append (ih h)

/-- A key sees exactly the updates whose region covers it, in their order. -/
theorem Sequence.apply {m m' : K → Option V} {xs : List (R × V)}
    (h : Sequence covers merge m xs m') (k : K) :
    m' k = (xs.filter (covers ·.1 k)).foldl (fun held x => absorb merge x.2 held) (m k) := by
  induction h with
  | nil => rfl
  | @cons m m₁ m₂ x xs hx _ ih =>
    rw [ih, hx k]
    by_cases hc : covers x.1 k = true <;> simp [hc]

/-- From the empty map a key holds the merge of the values covering it. -/
theorem Sequence.apply_empty {m' : K → Option V} {xs : List (R × V)}
    (h : Sequence covers merge (fun _ => none) xs m') (k : K) :
    m' k = merged merge ((xs.filter (covers ·.1 k)).map (·.2)) := by
  rw [h.apply, merged, List.foldl_map]

theorem merged_nil : merged merge ([] : List V) = none := rfl

theorem merged_cons (v : V) (vs : List V) :
    merged merge (v :: vs) = some (vs.foldl merge v) := by
  have key : ∀ (vs : List V) (v : V),
      vs.foldl (fun held v => absorb merge v held) (some v) = some (vs.foldl merge v) := by
    intro vs
    induction vs with
    | nil => intro _; rfl
    | cons w ws ih => intro v; exact ih (merge v w)
  exact key vs v

theorem merged_eq_none_iff {vs : List V} : merged merge vs = none ↔ vs = [] := by
  cases vs with
  | nil => simp [merged_nil]
  | cons v vs => simp [merged_cons]

/-- Values that represent elements of a monoid-like `M`, when merging represents its append. -/
theorem foldl_merge_rel {rel : V → M → Prop} {op : M → M → M}
    (hop : ∀ {v w a b}, rel v a → rel w b → rel (merge v w) (op a b))
    {vs : List V} {as : List M} (h : List.Forall₂ rel vs as) {v : V} {a : M} (hv : rel v a) :
    rel (vs.foldl merge v) (as.foldl op a) := by
  induction h generalizing v a with
  | nil => exact hv
  | cons hw _ ih => exact ih (hop hv hw)

end RegionMap
