import Mathlib.Algebra.GroupWithZero.Nat
import Mathlib.Data.Fintype.EquivFin

/-! Bijective mixing of machine words, and a counter whose mixed values come around evenly. -/
namespace WordMixing

variable {w : Nat} {c d s z : BitVec w} {f : BitVec w → BitVec w} {k n : Nat}

/-- One round of shifting a word onto itself. -/
def xorShift (k : Nat) (z : BitVec w) : BitVec w := z ^^^ (z >>> k)

theorem eq_zero_of_eq_shift (hk : 0 < k) (h : z = z >>> k) : z = 0#w := by
  apply BitVec.eq_of_toNat_eq
  have hsame : z.toNat = z.toNat / 2 ^ k := by
    conv_lhs => rw [h]
    rw [BitVec.toNat_ushiftRight, Nat.shiftRight_eq_div_pow]
  have hpow : 1 < 2 ^ k := Nat.one_lt_two_pow (Nat.pos_iff_ne_zero.mp hk)
  by_contra hne
  have hlt := Nat.div_lt_self (Nat.pos_of_ne_zero hne) hpow
  omega

theorem xorShift_injective (hk : 0 < k) :
    Function.Injective (xorShift k : BitVec w → BitVec w) := by
  intro a b h
  have hself : a ^^^ b = (a ^^^ b) >>> k := by
    rw [BitVec.ushiftRight_xor_distrib]
    simp only [xorShift] at h
    have hshift : a >>> k = a ^^^ (b ^^^ b >>> k) := by
      rw [← h, ← BitVec.xor_assoc, BitVec.xor_self, BitVec.zero_xor]
    rw [hshift, BitVec.xor_assoc, BitVec.xor_assoc, BitVec.xor_self, BitVec.xor_zero]
  exact BitVec.xor_eq_zero_iff.mp (eq_zero_of_eq_shift hk hself)

/-- Multiplication by an invertible word. -/
theorem mul_injective (h : c * d = 1#w) : Function.Injective (· * c) := by
  intro a b hab
  have hback : ∀ x : BitVec w, x * c * d = x := by
    intro x
    rw [BitVec.mul_assoc, h, BitVec.mul_one]
  rw [← hback a, ← hback b]
  exact congrArg (· * d) hab

instance finite_word : Finite (BitVec w) :=
  .of_injective (fun x : BitVec w => (⟨x.toNat, x.isLt⟩ : Fin (2 ^ w))) (by
    intro a b h
    exact BitVec.eq_of_toNat_eq (Fin.mk.inj h))

/-- A counter with an invertible increment is at each word once in a period. -/
theorem existsUnique_step (h : c * d = 1#w) (s z : BitVec w) :
    ∃! k, k < 2 ^ w ∧ s + BitVec.ofNat w k * c = z := by
  refine ⟨((z - s) * d).toNat, ⟨((z - s) * d).isLt, ?_⟩, ?_⟩
  · have hdc : d * c = 1#w := (BitVec.mul_comm d c).trans h
    rw [BitVec.ofNat_toNat, BitVec.setWidth_eq, BitVec.mul_assoc, hdc, BitVec.mul_one,
      BitVec.add_comm, BitVec.sub_add_cancel]
  · rintro k ⟨hk, rfl⟩
    rw [BitVec.add_comm s, BitVec.add_sub_cancel, BitVec.mul_assoc, h, BitVec.mul_one,
      BitVec.toNat_ofNat, Nat.mod_eq_of_lt hk]

/-- So is what an injective mix makes of the counter. -/
theorem existsUnique_visit (hf : Function.Injective f) (h : c * d = 1#w) (s z : BitVec w) :
    ∃! k, k < 2 ^ w ∧ f (s + BitVec.ofNat w k * c) = z := by
  obtain ⟨y, rfl⟩ := Finite.surjective_of_injective hf z
  obtain ⟨k, ⟨hlt, hk⟩, hunique⟩ := existsUnique_step h s y
  refine ⟨k, ⟨hlt, congrArg f hk⟩, ?_⟩
  rintro j ⟨hj, hsame⟩
  exact hunique j ⟨hj, hf hsame⟩

end WordMixing
