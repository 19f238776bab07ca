import IpReputation.VarintNumerals

/-! The rounds of the loop that reads an integer: what overflows, and what is read when nothing
does. -/
namespace IpReputation.Client

/-- A round of the loop of `get_varint`: the byte read, and the value and the shift before it. -/
structure Round where
  byte : UInt8
  value : UInt64
  shift : Nat

namespace Round

/-- What the round adds. -/
def group (r : Round) : UInt64 := r.byte.toUInt64 <<< UInt64.ofNat r.shift

def sum (r : Round) : UInt64 := r.value + r.group

/-- The shift is below the width, and the addition does not overflow. -/
def Fits (r : Round) : Prop := r.shift < 64 ∧ r.value.toNat + r.group.toNat < 2 ^ 64

/-- No bit of the byte is shifted out. -/
def Lossless (r : Round) : Prop := r.byte.toNat * 2 ^ r.shift < 2 ^ 64

variable {r : Round} {byte : UInt8} {value : UInt64} {shift : Nat}

theorem group_toNat (h : r.shift < 64) : r.group.toNat = r.byte.toNat * 2 ^ r.shift % 2 ^ 64 := by
  have hshift : (UInt64.ofNat r.shift).toNat = r.shift :=
    UInt64.toNat_ofNat_of_lt' (by rw [UInt64.size]; omega)
  rw [group, UInt64.toNat_shiftLeft, hshift, Nat.mod_eq_of_lt h, UInt8.toNat_toUInt64,
    Nat.shiftLeft_eq]

/-- A sum below `2 ^ 64` is computed exactly. -/
theorem exact (h : shift < 64) (hsum : value.toNat + byte.toNat * 2 ^ shift < 2 ^ 64) :
    (⟨byte, value, shift⟩ : Round).Fits ∧ (⟨byte, value, shift⟩ : Round).Lossless ∧
      (⟨byte, value, shift⟩ : Round).sum.toNat = value.toNat + byte.toNat * 2 ^ shift := by
  have hlossless : byte.toNat * 2 ^ shift < 2 ^ 64 := by omega
  have hgroup : (⟨byte, value, shift⟩ : Round).group.toNat = byte.toNat * 2 ^ shift := by
    rw [group_toNat h, Nat.mod_eq_of_lt hlossless]
  refine ⟨⟨h, by rw [hgroup]; exact hsum⟩, hlossless, ?_⟩
  rw [sum, UInt64.toNat_add, hgroup, Nat.mod_eq_of_lt hsum]

end Round

/-- The rounds of the loop over the bytes after the first, as an unchecked build runs them. -/
def rounds : List UInt8 → UInt64 → Nat → List Round
  | [], _, _ => []
  | byte :: rest, value, shift =>
    let round : Round := ⟨byte, value, shift⟩
    round :: if byte < 128 then [] else rounds rest round.sum (shift + 7)

/-- The value after a round for each of the bytes. -/
def after : List UInt8 → UInt64 → Nat → UInt64
  | [], value, _ => value
  | byte :: rest, value, shift => after rest (⟨byte, value, shift⟩ : Round).sum (shift + 7)

/-- The rounds that read the integer that comes first. -/
def varintRounds : List UInt8 → List Round
  | [] => []
  | first :: rest => if first < 240 then [] else rounds rest first.toUInt64 4

variable {checks : Bool} {bytes rest front back buf : List UInt8} {byte : UInt8} {value : UInt64}
  {shift pos : Nat} {result : Option UInt64 × Nat}

/-- A round that fits, or is not checked, adds its group. -/
theorem getGroups_round (h : checks = false ∨ (⟨byte, value, shift⟩ : Round).Fits) :
    getGroups checks (byte :: rest) value shift pos =
      if byte < 128 then .ok (some (⟨byte, value, shift⟩ : Round).sum, pos + 1)
      else getGroups checks rest (⟨byte, value, shift⟩ : Round).sum (shift + 7) (pos + 1) := by
  have hshl : shl checks .varint byte.toUInt64 shift =
      .ok (⟨byte, value, shift⟩ : Round).group := by
    rw [shl, if_neg]
    · rfl
    · rintro ⟨hchecks, hwide⟩
      rcases h with hfree | hfits
      · rw [hchecks] at hfree
        cases hfree
      · exact absurd hfits.1 (Nat.not_lt.mpr hwide)
  have hadd : add checks .varint value (⟨byte, value, shift⟩ : Round).group =
      .ok (⟨byte, value, shift⟩ : Round).sum := by
    rw [add, if_neg]
    · rfl
    · rintro ⟨hchecks, hover⟩
      rcases h with hfree | hfits
      · rw [hchecks] at hfree
        cases hfree
      · exact absurd hfits.2 (Nat.not_lt.mpr hover)
  simp only [getGroups, hshl, hadd, bind, Except.bind]

/-- A round that does not fit panics where it is checked. -/
theorem getGroups_overflow (h : ¬ (⟨byte, value, shift⟩ : Round).Fits) :
    getGroups true (byte :: rest) value shift pos = .error .varint := by
  by_cases hshift : shift < 64
  · have hover : 2 ^ 64 ≤ value.toNat + (⟨byte, value, shift⟩ : Round).group.toNat :=
      Nat.not_lt.mp fun hlt => h ⟨hshift, hlt⟩
    have hshl : shl true .varint byte.toUInt64 shift =
        .ok (⟨byte, value, shift⟩ : Round).group := by
      rw [shl, if_neg (by omega)]
      rfl
    have hadd : add true .varint value (⟨byte, value, shift⟩ : Round).group = .error .varint := by
      rw [add, if_pos ⟨rfl, hover⟩]
    simp only [getGroups, hshl, hadd, bind, Except.bind]
  · have hshl : shl true .varint byte.toUInt64 shift = .error .varint := by
      rw [shl, if_pos ⟨rfl, Nat.not_lt.mp hshift⟩]
    simp only [getGroups, hshl, bind, Except.bind]

theorem forall_rounds_cons {P : Round → Prop} :
    (∀ r ∈ rounds (byte :: rest) value shift, P r) ↔ P ⟨byte, value, shift⟩ ∧
      (¬ byte < 128 → ∀ r ∈ rounds rest (⟨byte, value, shift⟩ : Round).sum (shift + 7), P r) := by
  by_cases hlast : byte < 128 <;> simp [rounds, hlast]

/-- Rounds that fit are the same in every build. -/
theorem getGroups_of_fits (h : ∀ r ∈ rounds rest value shift, r.Fits) :
    getGroups checks rest value shift pos = getGroups false rest value shift pos := by
  induction rest generalizing value shift pos with
  | nil => rfl
  | cons byte rest ih =>
    obtain ⟨hfits, hrest⟩ := forall_rounds_cons.mp h
    rw [getGroups_round (.inr hfits), getGroups_round (.inl rfl)]
    split
    · rfl
    · rename_i hmore
      exact ih (hrest hmore)

/-- A checked build that does not panic has run rounds that fit. -/
theorem fits_of_getGroups (h : getGroups true rest value shift pos = .ok result) :
    ∀ r ∈ rounds rest value shift, r.Fits := by
  induction rest generalizing value shift pos with
  | nil => simp [rounds]
  | cons byte rest ih =>
    by_cases hfits : (⟨byte, value, shift⟩ : Round).Fits
    · refine forall_rounds_cons.mpr ⟨hfits, ?_⟩
      intro hmore
      rw [getGroups_round (.inr hfits), if_neg hmore] at h
      exact ih h
    · rw [getGroups_overflow hfits] at h
      cases h

/-- What was read, and whether there was an end to it, shows in the bytes alone. -/
theorem getGroups_shape (h : getGroups checks rest value shift pos = .ok result) :
    result.2 = pos + (groupBytes rest).length ∧ result.1.isSome = rest.any (· < 128) := by
  induction rest generalizing value shift pos with
  | nil =>
    obtain rfl := Except.ok.inj h
    exact ⟨rfl, rfl⟩
  | cons byte rest ih =>
    rcases getGroups_cons checks byte rest value shift pos with
      ⟨-, hpanic⟩ | ⟨group, sum, -, -, hnext⟩
    · rw [hpanic] at h
      cases h
    · rw [hnext] at h
      by_cases hlast : byte < 128
      · rw [if_pos hlast] at h
        obtain rfl := Except.ok.inj h
        simp [groupBytes, hlast]
      · rw [if_neg hlast] at h
        obtain ⟨hpos, hsome⟩ := ih h
        refine ⟨?_, by simp [hsome, hlast]⟩
        rw [hpos, groupBytes, if_neg hlast, List.length_cons]
        omega

/-- What is read is the sum of the rounds. -/
theorem getGroups_value {v : UInt64} {pos' : Nat}
    (h : getGroups checks rest value shift pos = .ok (some v, pos')) :
    v = after (groupBytes rest) value shift := by
  induction rest generalizing value shift pos with
  | nil => cases h
  | cons byte rest ih =>
    have hround : getGroups checks (byte :: rest) value shift pos =
        if byte < 128 then .ok (some (⟨byte, value, shift⟩ : Round).sum, pos + 1)
        else getGroups checks rest (⟨byte, value, shift⟩ : Round).sum (shift + 7) (pos + 1) := by
      cases checks with
      | false => exact getGroups_round (.inl rfl)
      | true => exact getGroups_round (.inr (fits_of_getGroups h _ (List.mem_cons_self ..)))
    rw [hround] at h
    by_cases hlast : byte < 128
    · rw [if_pos hlast] at h
      obtain ⟨hv, -⟩ := Prod.mk.inj (Except.ok.inj h)
      rw [groupBytes, if_pos hlast, after, after, Option.some.inj hv]
    · rw [if_neg hlast] at h
      rw [groupBytes, if_neg hlast, after]
      exact ih h

/-- Bytes that all continue the integer leave the rounds after them to the bytes that follow. -/
theorem rounds_append (hopen : front.any (· < 128) = false) :
    rounds (front ++ back) value shift = rounds front value shift ++
      rounds back (after front value shift) (shift + 7 * front.length) := by
  induction front generalizing value shift with
  | nil => rfl
  | cons byte front ih =>
    simp only [List.any_cons, Bool.or_eq_false_iff, decide_eq_false_iff_not] at hopen
    have hshift : shift + 7 * (byte :: front).length = shift + 7 + 7 * front.length := by
      rw [List.length_cons]
      omega
    rw [List.cons_append, rounds, rounds, if_neg hopen.1, if_neg hopen.1, ih hopen.2, hshift, after]
    rfl

/-- While the total stays below `2 ^ 64`, every round is exact: the shift stays below the width
because the groups before it have already filled the value up to it. -/
theorem rounds_exact (hlow : 2 ^ shift ≤ value.toNat)
    (htotal : value.toNat + 2 ^ shift * groupsDenote (groupBytes rest) < 2 ^ 64) :
    (∀ r ∈ rounds rest value shift, r.Fits ∧ r.Lossless) ∧
      (after (groupBytes rest) value shift).toNat =
        value.toNat + 2 ^ shift * groupsDenote (groupBytes rest) := by
  induction rest generalizing value shift with
  | nil => exact ⟨by simp [rounds], rfl⟩
  | cons byte rest ih =>
    have hwide : 2 ^ shift < 2 ^ 64 := by omega
    have hshift : shift < 64 := (Nat.pow_lt_pow_iff_right (by decide)).mp hwide
    by_cases hlast : byte < 128
    · have hbytes : groupBytes (byte :: rest) = [byte] := by rw [groupBytes, if_pos hlast]
      have hdenote : groupsDenote [byte] = byte.toNat := Nat.ofDigits_singleton
      rw [hbytes, hdenote, Nat.mul_comm] at htotal ⊢
      obtain ⟨hfits, hlossless, hsum⟩ := Round.exact hshift htotal
      exact ⟨forall_rounds_cons.mpr ⟨⟨hfits, hlossless⟩, fun hmore => absurd hlast hmore⟩, hsum⟩
    · have hhigh : 128 ≤ byte.toNat := Nat.not_lt.mp hlast
      have hbytes : groupBytes (byte :: rest) = byte :: groupBytes rest := by
        rw [groupBytes, if_neg hlast]
      have hdenote : groupsDenote (byte :: groupBytes rest) =
          byte.toNat + 128 * groupsDenote (groupBytes rest) := Nat.ofDigits_cons
      have hpow : 2 ^ (shift + 7) = 2 ^ shift * 128 := Nat.pow_add 2 shift 7
      have hbyte : 2 ^ shift * 128 ≤ 2 ^ shift * byte.toNat := Nat.mul_le_mul_left _ hhigh
      rw [hbytes, hdenote, Nat.mul_add, ← Nat.mul_assoc, ← hpow, ← Nat.add_assoc,
        Nat.mul_comm _ byte.toNat] at htotal ⊢
      have hround : value.toNat + byte.toNat * 2 ^ shift < 2 ^ 64 := by omega
      obtain ⟨hfits, hlossless, hsum⟩ := Round.exact hshift hround
      have hfilled : 2 ^ (shift + 7) ≤ (⟨byte, value, shift⟩ : Round).sum.toNat := by
        rw [hsum, hpow, Nat.mul_comm byte.toNat]
        omega
      rw [← hsum] at htotal ⊢
      obtain ⟨hrest, hafter⟩ := ih hfilled htotal
      exact ⟨forall_rounds_cons.mpr ⟨⟨hfits, hlossless⟩, fun _ => hrest⟩, hafter⟩

end IpReputation.Client
