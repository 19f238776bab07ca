import Mathlib.Data.List.Perm.Subperm

/-! Sets of small indices kept as the bits of one word. -/
namespace BitMask

variable {w i j n : Nat} {m : BitVec w} {is : List Nat}

/-- The indices below `n`, when `n` is at most the width. -/
def full (w n : Nat) : BitVec w := if n = w then BitVec.allOnes w else (1#w <<< n) - 1#w

/-- The mask without one of its indices. -/
def clear (m : BitVec w) (i : Nat) : BitVec w := m &&& ~~~(1#w <<< i)

/-- An index is in the mask when the word under its bit is not zero. -/
theorem and_bit_ne_zero_iff : m &&& (1#w <<< i) ≠ 0#w ↔ m.getLsbD i = true := by
  rw [← BitVec.twoPow_eq, BitVec.and_twoPow]
  cases hbit : m.getLsbD i with
  | false => simp
  | true =>
    have hi : i < w := BitVec.lt_of_getLsbD hbit
    simp [← BitVec.toNat_inj, BitVec.toNat_twoPow_of_lt hi]

/-- Clearing an index keeps the others. -/
theorem getLsbD_clear : (clear m i).getLsbD j = true ↔ m.getLsbD j = true ∧ j ≠ i := by
  rw [clear, ← BitVec.twoPow_eq]
  by_cases hj : j < w
  · simp [hj]
  · simp [BitVec.getLsbD_of_ge _ _ (Nat.not_lt.mp hj)]

/-- The word of the first `n` indices has these bits and no others. -/
theorem getLsbD_full (hn : n ≤ w) : (full w n).getLsbD i = true ↔ i < n := by
  by_cases heq : n = w
  · simp [full, heq]
  · have hlt : n < w := Nat.lt_of_le_of_ne hn heq
    have hbit : (1#w <<< n).toNat = 2 ^ n := by
      rw [← BitVec.twoPow_eq, BitVec.toNat_twoPow_of_lt hlt]
    have hone : (1#w).toNat = 1 := BitVec.toNat_one (by omega)
    have hle : 1#w ≤ 1#w <<< n := by
      rw [BitVec.le_def, hbit, hone]
      exact Nat.two_pow_pos n
    have hnat : (full w n).toNat = 2 ^ n - 1 := by
      rw [full, if_neg heq, BitVec.toNat_sub_of_le hle, hbit, hone]
    rw [BitVec.getLsbD, hnat, Nat.testBit_two_pow_sub_one, decide_eq_true_iff]

/-- Indices that can be taken out of the mask one after the other. -/
def Claims (m : BitVec w) (is : List Nat) : Prop :=
  is.Nodup ∧ ∀ i ∈ is, m.getLsbD i = true

theorem claims_nil : Claims m [] := ⟨.nil, by simp⟩

/-- Taking the first index leaves the others to be taken from the mask without it. -/
theorem claims_cons : Claims m (i :: is) ↔ m.getLsbD i = true ∧ Claims (clear m i) is := by
  constructor
  · rintro ⟨hnodup, hset⟩
    obtain ⟨hnot, hrest⟩ := List.nodup_cons.mp hnodup
    refine ⟨hset i (List.mem_cons_self ..), hrest, ?_⟩
    intro j hj
    exact getLsbD_clear.mpr ⟨hset j (List.mem_cons_of_mem i hj), fun heq => hnot (heq ▸ hj)⟩
  · rintro ⟨hi, hrest, hset⟩
    have hnot : i ∉ is := fun hmem => (getLsbD_clear.mp (hset i hmem)).2 rfl
    refine ⟨List.nodup_cons.mpr ⟨hnot, hrest⟩, ?_⟩
    intro j hj
    rcases List.mem_cons.mp hj with rfl | hj
    · exact hi
    · exact (getLsbD_clear.mp (hset j hj)).1

/-- `n` indices empty the mask of the first `n` exactly when they are these, in some order. -/
theorem claims_full_iff_perm (hn : n ≤ w) (hlength : is.length = n) :
    Claims (full w n) is ↔ is.Perm (List.range n) := by
  constructor
  · rintro ⟨hnodup, hset⟩
    have hsub : is ⊆ List.range n := by
      intro i hi
      exact List.mem_range.mpr ((getLsbD_full hn).mp (hset i hi))
    exact (hnodup.subperm hsub).perm_of_length_le (by simp [hlength])
  · intro hperm
    refine ⟨hperm.nodup_iff.mpr List.nodup_range, ?_⟩
    intro i hi
    exact (getLsbD_full hn).mpr (List.mem_range.mp (hperm.mem_iff.mp hi))

end BitMask
