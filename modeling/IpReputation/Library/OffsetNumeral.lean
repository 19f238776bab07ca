import Mathlib.Data.Nat.Digits.Defs

/-! Numerals whose digits, all but the last, carry the base as an offset: a number has just one. -/
namespace OffsetNumeral

variable {b n k : Nat} {ds : List Nat}

/-- A digit below the base ends the numeral; those before it are between the base and its double. -/
inductive Numeral (b : Nat) : List Nat → Prop
  | last {d : Nat} : d < b → Numeral b [d]
  | more {d : Nat} {ds : List Nat} : b ≤ d → d < 2 * b → Numeral b ds → Numeral b (d :: ds)

/-- The numeral of `n`, its lowest digit first. -/
def encode (b n : Nat) : List Nat :=
  if 0 < b ∧ b ≤ n then (b + n % b) :: encode b ((n - b) / b) else [n]
termination_by n
decreasing_by
  have hle := Nat.div_le_self (n - b) b
  omega

theorem numeral_cons {d : Nat} :
    Numeral b (d :: ds) ↔ d < b ∧ ds = [] ∨ b ≤ d ∧ d < 2 * b ∧ Numeral b ds := by
  constructor
  · rintro (hlast | ⟨hlow, hhigh, hrest⟩)
    · exact .inl ⟨hlast, rfl⟩
    · exact .inr ⟨hlow, hhigh, hrest⟩
  · rintro (⟨hlast, rfl⟩ | ⟨hlow, hhigh, hrest⟩)
    · exact .last hlast
    · exact .more hlow hhigh hrest

theorem encode_of_lt (h : n < b) : encode b n = [n] := by
  rw [encode, if_neg (by omega)]

theorem encode_of_le (hb : 0 < b) (h : b ≤ n) :
    encode b n = (b + n % b) :: encode b ((n - b) / b) := by
  rw [encode, if_pos ⟨hb, h⟩]

theorem numeral_encode (hb : 0 < b) (n : Nat) : Numeral b (encode b n) := by
  induction n using encode.induct b with
  | case1 n h ih =>
    rw [encode_of_le h.1 h.2]
    have hmod := Nat.mod_lt n hb
    exact .more (by omega) (by omega) ih
  | case2 n h =>
    have hlt : n < b := by omega
    rw [encode_of_lt hlt]
    exact .last hlt

/-- The numeral of `n` denotes `n`. -/
theorem ofDigits_encode (b n : Nat) : Nat.ofDigits b (encode b n) = n := by
  induction n using encode.induct b with
  | case1 n h ih =>
    have hdiv := Nat.div_eq_sub_div h.1 h.2
    have hsplit := Nat.mod_add_div n b
    rw [hdiv, Nat.mul_succ] at hsplit
    rw [encode_of_le h.1 h.2, Nat.ofDigits_cons, ih]
    omega
  | case2 n h => rw [encode, if_neg h, Nat.ofDigits_singleton]

/-- Every numeral is that of the number it denotes. -/
theorem encode_ofDigits (h : Numeral b ds) : encode b (Nat.ofDigits b ds) = ds := by
  induction h with
  | last hd => rw [Nat.ofDigits_singleton, encode_of_lt hd]
  | @more d ds hlow hhigh _ ih =>
    have hb : 0 < b := by omega
    have hmod : (d + b * Nat.ofDigits b ds) % b = d - b := by
      rw [Nat.add_mul_mod_self_left, Nat.mod_eq_sub_mod hlow, Nat.mod_eq_of_lt (by omega)]
    have hdiv : (d + b * Nat.ofDigits b ds - b) / b = Nat.ofDigits b ds := by
      rw [Nat.sub_add_comm hlow, Nat.add_mul_div_left _ _ hb, Nat.div_eq_of_lt (by omega),
        Nat.zero_add]
    rw [Nat.ofDigits_cons, encode_of_le hb (by omega), hmod, hdiv, ih]
    congr 1
    omega

/-- Digits that others follow carry the offset. -/
theorem Numeral.continues {before after : List Nat} {d : Nat}
    (h : Numeral b (before ++ d :: after)) (hne : after ≠ []) : b ≤ d := by
  induction before with
  | nil =>
    obtain ⟨-, hafter⟩ | ⟨hlow, -⟩ := numeral_cons.mp h
    · exact absurd hafter hne
    · exact hlow
  | cons e before ih =>
    obtain ⟨-, hnil⟩ | ⟨-, -, hrest⟩ := numeral_cons.mp h
    · simp at hnil
    · exact ih hrest

/-- A number below a power of the base has no more digits than the power. -/
theorem Numeral.length_le (h : Numeral b ds) (hlt : Nat.ofDigits b ds < b ^ (k + 1)) :
    ds.length ≤ k + 1 := by
  induction h generalizing k with
  | last hd => simp
  | @more d ds hlow hhigh _ ih =>
    rw [Nat.ofDigits_cons, Nat.pow_succ'] at hlt
    cases k with
    | zero =>
      rw [Nat.pow_zero, Nat.mul_one] at hlt
      omega
    | succ k =>
      have hmul : b * Nat.ofDigits b ds < b * b ^ (k + 1) := by omega
      have hle := ih (Nat.lt_of_mul_lt_mul_left hmul)
      rw [List.length_cons]
      omega

/-- What the digits of a numeral without its last one may add up to. -/
theorem ofDigits_add_three_le (hb : 2 ≤ b) (h : ∀ d ∈ ds, d < 2 * b) :
    Nat.ofDigits b ds + 3 ≤ 3 * b ^ ds.length := by
  induction ds with
  | nil => simp
  | cons d ds ih =>
    have hd := h d List.mem_cons_self
    have htail := ih fun e he => h e (List.mem_cons_of_mem d he)
    have hmul := Nat.mul_le_mul_left b htail
    rw [Nat.ofDigits_cons, List.length_cons, Nat.pow_succ', Nat.mul_left_comm]
    rw [Nat.mul_add] at hmul
    omega

end OffsetNumeral
