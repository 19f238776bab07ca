import IpReputation.VarintRounds

/-! What `put_varint` writes `get_varint` reads back, and what else it reads. -/
namespace IpReputation.Client

variable {checks : Bool} {bytes rest buf : List UInt8} {first : UInt8} {pos : Nat} {n v : UInt64}
  {result : Option UInt64 × Nat}

/-- The bytes between two positions. -/
def consumed (buf : List UInt8) (pos pos' : Nat) : List UInt8 := (buf.drop pos).take (pos' - pos)

/-- The position after an integer, and whether it was read to its end. -/
theorem getVarint_shape (h : getVarint checks buf pos = .ok result) :
    result.2 = pos + (varintBytes (buf.drop pos)).length ∧
      result.1.isSome = varintEnds (buf.drop pos) := by
  rcases getVarint_cases buf pos with
    ⟨hdrop, hread⟩ | ⟨first, rest, hdrop, ⟨hshort, hread⟩ | ⟨hlong, hread⟩⟩
  · rw [hread] at h
    obtain rfl := Except.ok.inj h
    rw [hdrop]
    exact ⟨rfl, rfl⟩
  · rw [hread] at h
    obtain rfl := Except.ok.inj h
    simp [hdrop, varintBytes, varintEnds, hshort]
  · rw [hread] at h
    obtain ⟨hpos, hsome⟩ := getGroups_shape h
    rw [hdrop, varintBytes, if_neg hlong, varintEnds, List.length_cons, hpos, hsome]
    exact ⟨by omega, by simp [hlong]⟩

theorem consumed_eq (h : getVarint checks buf pos = .ok result) :
    consumed buf pos result.2 = varintBytes (buf.drop pos) := by
  rw [consumed, (getVarint_shape h).1, Nat.add_sub_cancel_left]
  exact (List.prefix_iff_eq_take.mp (varintBytes_isPrefix _)).symm

/-- Without an overflow every build reads the same. -/
theorem getVarint_of_fits (h : ∀ r ∈ varintRounds (buf.drop pos), r.Fits) :
    ∃ result, ∀ checks, getVarint checks buf pos = .ok result := by
  obtain ⟨result, hread⟩ : ∃ result, getVarint false buf pos = .ok result := by
    cases hread : getVarint false buf pos with
    | error p => exact absurd (getVarint_panic hread).1 Bool.false_ne_true
    | ok result => exact ⟨result, rfl⟩
  refine ⟨result, fun checks => hread ▸ ?_⟩
  rcases getVarint_cases buf pos with
    ⟨-, hcase⟩ | ⟨first, rest, hdrop, ⟨-, hcase⟩ | ⟨hlong, hcase⟩⟩
  · rw [hcase, hcase]
  · rw [hcase, hcase]
  · rw [hdrop, varintRounds, if_neg hlong] at h
    rw [hcase, hcase]
    exact getGroups_of_fits h

/-- The first byte of a longer integer fills the value up to the first shift. -/
theorem first_filled (h : ¬ first < 240) : 2 ^ 4 ≤ first.toUInt64.toNat := by
  have hfirst : 240 ≤ first.toNat := Nat.not_lt.mp h
  rw [UInt8.toNat_toUInt64]
  omega

/-- An integer below `2 ^ 64` is read without an overflow and without losing a bit. -/
theorem varintRounds_exact (h : denoted (varintBytes bytes) < 2 ^ 64) :
    ∀ r ∈ varintRounds bytes, r.Fits ∧ r.Lossless := by
  cases bytes with
  | nil => simp [varintRounds]
  | cons first rest =>
    by_cases hshort : first < 240
    · simp [varintRounds, hshort]
    · rw [varintBytes, if_neg hshort] at h
      rw [varintRounds, if_neg hshort]
      exact (rounds_exact (first_filled hshort) h).1

/-- The number read is the one the bytes denote. -/
theorem getVarint_value {pos' : Nat} (h : getVarint checks buf pos = .ok (some v, pos'))
    (hlt : denoted (varintBytes (buf.drop pos)) < 2 ^ 64) :
    v.toNat = denoted (varintBytes (buf.drop pos)) := by
  rcases getVarint_cases buf pos with
    ⟨-, hread⟩ | ⟨first, rest, hdrop, ⟨hshort, hread⟩ | ⟨hlong, hread⟩⟩
  · rw [hread] at h
    cases h
  · rw [hread] at h
    obtain ⟨hv, -⟩ := Prod.mk.inj (Except.ok.inj h)
    rw [hdrop, varintBytes, if_pos hshort, ← Option.some.inj hv, UInt8.toNat_toUInt64]
    rfl
  · rw [hread] at h
    rw [hdrop, varintBytes, if_neg hlong] at hlt ⊢
    rw [getGroups_value h, (rounds_exact (first_filled hlong) hlt).2, UInt8.toNat_toUInt64]
    rfl

/-- What is read of a number below `2 ^ 64` are the bytes that `put_varint` writes for it. -/
theorem getVarint_canonical {pos' : Nat} (h : getVarint checks buf pos = .ok (some v, pos'))
    (hlt : denoted (varintBytes (buf.drop pos)) < 2 ^ 64) :
    varintBytes (buf.drop pos) = putVarint v ∧ buf.drop pos = putVarint v ++ buf.drop pos' := by
  obtain ⟨hpos, hsome⟩ := getVarint_shape h
  have hbytes := (varint_varintBytes hsome.symm).eq_putVarint (getVarint_value h hlt).symm
  obtain ⟨rest, hrest⟩ := varintBytes_isPrefix (buf.drop pos)
  have htail : (varintBytes (buf.drop pos) ++ rest).drop (varintBytes (buf.drop pos)).length =
      rest := List.drop_left ..
  rw [hrest, List.drop_drop, ← hpos] at htail
  exact ⟨hbytes, by rw [htail, ← hbytes, hrest]⟩

/-- An integer that ends and denotes a number below `2 ^ 64` is read, whatever follows it. -/
theorem getVarint_reads (hends : varintEnds (buf.drop pos) = true)
    (hlt : denoted (varintBytes (buf.drop pos)) < 2 ^ 64) :
    ∃ v, varintBytes (buf.drop pos) = putVarint v ∧
      ∀ checks, getVarint checks buf pos = .ok (some v, pos + (putVarint v).length) := by
  have hfits : ∀ r ∈ varintRounds (buf.drop pos), r.Fits := fun r hr =>
    (varintRounds_exact hlt r hr).1
  obtain ⟨⟨value, pos'⟩, hread⟩ := getVarint_of_fits hfits
  obtain ⟨hpos, hsome⟩ := getVarint_shape (hread false)
  rw [hends] at hsome
  obtain ⟨v, rfl⟩ := Option.isSome_iff_exists.mp hsome
  obtain ⟨hbytes, -⟩ := getVarint_canonical (hread false) hlt
  refine ⟨v, hbytes, fun checks => ?_⟩
  rw [hread checks, ← hbytes, ← hpos]

/-- What was written stands out from what follows it. -/
theorem varintBytes_written (n : UInt64) (rest : List UInt8) :
    varintBytes (putVarint n ++ rest) = putVarint n ∧ varintEnds (putVarint n ++ rest) = true ∧
      denoted (varintBytes (putVarint n ++ rest)) < 2 ^ 64 := by
  obtain ⟨hbytes, hends⟩ := (varint_putVarint n).varintBytes_append rest
  refine ⟨hbytes, hends, ?_⟩
  rw [hbytes, denoted_putVarint]
  exact n.toNat_lt

/-- What was written between any bytes is read back, up to the end of it. -/
theorem getVarint_putVarint (checks : Bool) (n : UInt64) (before rest : List UInt8) :
    getVarint checks (before ++ putVarint n ++ rest) before.length =
      .ok (some n, (before ++ putVarint n).length) := by
  have hdrop : (before ++ putVarint n ++ rest).drop before.length = putVarint n ++ rest := by
    rw [List.append_assoc, List.drop_left]
  obtain ⟨hbytes, hends, hlt⟩ := varintBytes_written n rest
  obtain ⟨v, hv, hread⟩ := getVarint_reads (hdrop ▸ hends) (hdrop ▸ hlt)
  rw [hdrop, hbytes] at hv
  obtain rfl := putVarint_injective hv
  rw [hread checks, List.length_append]

theorem putVarint_length (n : UInt64) : (putVarint n).length ≤ 10 :=
  (varint_putVarint n).length_le (denoted_putVarint n ▸ n.toNat_lt)

/-- A number written between any bytes is read back exactly, and by its encoding alone. -/
structure RoundTrips (n : UInt64) (before rest : List UInt8) : Prop where
  reads : ∀ checks, getVarint checks (before ++ putVarint n ++ rest) before.length =
    .ok (some n, (before ++ putVarint n).length)
  exact : ∀ r ∈ varintRounds ((before ++ putVarint n ++ rest).drop before.length),
    r.Fits ∧ r.Lossless
  length : (putVarint n).length ≤ 10
  injective : ∀ m, putVarint m = putVarint n → m = n

/-- Every number survives the round trip. -/
theorem roundTrips (n : UInt64) (before rest : List UInt8) : RoundTrips n before rest := by
  refine ⟨fun checks => getVarint_putVarint checks n before rest, ?_, putVarint_length n,
    fun m h => putVarint_injective h⟩
  rw [List.append_assoc, List.drop_left]
  exact varintRounds_exact (varintBytes_written n rest).2.2

end IpReputation.Client
