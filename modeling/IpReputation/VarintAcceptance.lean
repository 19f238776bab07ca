import IpReputation.VarintRoundTrip

/-! What `get_varint` makes of bytes that nobody wrote as an integer. -/
namespace IpReputation.Client

open OffsetNumeral

variable {bytes rest front : List UInt8} {first byte : UInt8} {value : UInt64}

/-- Eight groups after the first byte leave room in the value. -/
theorem denoted_lt (first : UInt8) (hlength : front.length ≤ 8) :
    denoted (first :: front) < 2 ^ 62 := by
  have hdigits : ∀ d ∈ front.map UInt8.toNat, d < 2 * 128 := by
    intro d hd
    obtain ⟨u, -, rfl⟩ := List.mem_map.mp hd
    exact u.toNat_lt
  have hsum := ofDigits_add_three_le (by decide) hdigits
  rw [List.length_map] at hsum
  have hpow : 128 ^ front.length ≤ 128 ^ 8 := Nat.pow_le_pow_right (by decide) hlength
  have hfirst := first.toNat_lt
  have hgroups : groupsDenote front + 3 ≤ 3 * 128 ^ front.length := hsum
  rw [denoted]
  omega

/-- The tenth byte may shift all but its low four bits out, and overflow with these. -/
theorem fits_last_iff : (⟨byte, value, 60⟩ : Round).Fits ↔
    value.toNat + 2 ^ 60 * (byte.toNat % 16) < 2 ^ 64 := by
  have hshift : (⟨byte, value, 60⟩ : Round).shift < 64 := by
    change 60 < 64
    decide
  have hgroup : (⟨byte, value, 60⟩ : Round).group.toNat = 2 ^ 60 * (byte.toNat % 16) := by
    rw [Round.group_toNat hshift, Nat.mul_comm]
    exact Nat.mul_mod_mul_left (2 ^ 60) byte.toNat 16
  rw [Round.Fits, hgroup]
  exact and_iff_right hshift

/-- Where the bytes end before the integer does, only the tenth one can overflow, and there is no
room for an eleventh. -/
theorem fits_open_iff (hopen : rest.any (· < 128) = false) (hfirst : ¬ first < 240) :
    (∀ r ∈ rounds rest first.toUInt64 4, r.Fits) ↔ rest.length ≤ 9 ∧
      denoted (first :: rest.take 8) + 2 ^ 60 * ((rest.getD 8 0).toNat % 16) < 2 ^ 64 := by
  obtain ⟨front, back, rfl, hfront⟩ : ∃ front back, rest = front ++ back ∧ front = rest.take 8 :=
    ⟨_, _, (List.take_append_drop 8 rest).symm, rfl⟩
  have hlength : front.length ≤ 8 := by
    rw [hfront]
    exact List.length_take_le ..
  rw [List.any_append, Bool.or_eq_false_iff] at hopen
  have hlt := denoted_lt first hlength
  have hbytes := groupBytes_of_open hopen.1
  obtain ⟨hfits, hafter⟩ : (∀ r ∈ rounds front first.toUInt64 4, r.Fits ∧ r.Lossless) ∧
      (after front first.toUInt64 4).toNat = denoted (first :: front) := by
    have htotal : first.toUInt64.toNat + 2 ^ 4 * groupsDenote (groupBytes front) < 2 ^ 64 := by
      rw [hbytes]
      exact Nat.lt_trans hlt (by decide)
    have hexact := rounds_exact (first_filled hfirst) htotal
    rwa [hbytes] at hexact
  have hfront' : ∀ r ∈ rounds front first.toUInt64 4, r.Fits := fun r hr => (hfits r hr).1
  rw [rounds_append hopen.1, List.forall_mem_append, ← hfront, ← hafter, List.length_append]
  cases back with
  | nil =>
    have hnone : ((front ++ []).getD 8 0).toNat = 0 := by
      simp [List.getD_eq_getElem?_getD, List.getElem?_eq_none hlength]
    rw [hnone]
    refine iff_of_true ⟨hfront', by simp [rounds]⟩ ⟨?_, ?_⟩
    · exact Nat.le_succ_of_le hlength
    · exact UInt64.toNat_lt _
  | cons byte back =>
    have hfull : front.length = 8 := by
      have hmin := congrArg List.length hfront
      rw [List.length_take, List.length_append, List.length_cons] at hmin
      omega
    have htenth : (front ++ byte :: back).getD 8 0 = byte := by
      simp [List.getD_eq_getElem?_getD, hfull]
    rw [htenth, hfull, forall_rounds_cons, fits_last_iff, and_iff_right hfront']
    cases back with
    | nil => simp [rounds]
    | cons byte' back =>
      rw [List.any_cons, Bool.or_eq_false_iff, decide_eq_false_iff_not] at hopen
      refine iff_of_false ?_ ?_
      · rintro ⟨-, hmore⟩
        have hshift : 60 + 7 < 64 := (forall_rounds_cons.mp (hmore hopen.2.1)).1.1
        exact absurd hshift (by decide)
      · rintro ⟨hlong, -⟩
        rw [List.length_cons, List.length_cons] at hlong
        omega

/-- Reading at a position returns `None`, or a number together with exactly the bytes that
`put_varint` writes for it, and nothing overflows. -/
structure ReadsCanonical (buf : List UInt8) (pos : Nat) : Prop where
  returns : ∀ checks, ∃ value pos', getVarint checks buf pos = .ok (value, pos') ∧
    ∀ v, value = some v →
      consumed buf pos pos' = putVarint v ∧ denoted (consumed buf pos pos') < 2 ^ 64
  fits : ∀ r ∈ varintRounds (buf.drop pos), r.Fits

/-- The integer that comes first denotes a number below `2 ^ 64`. Where the bytes end before it
does there are at most ten, and the low four bits of the tenth keep the sum below `2 ^ 64`. -/
def InRange (bytes : List UInt8) : Prop :=
  if varintEnds bytes = true then denoted (varintBytes bytes) < 2 ^ 64
  else bytes.length ≤ 10 ∧
    denoted (bytes.take 9) + 2 ^ 60 * ((bytes.getD 9 0).toNat % 16) < 2 ^ 64

/-- The rounds over bytes that end before the integer does. -/
theorem varintRounds_open_iff (h : varintEnds bytes = false) :
    (∀ r ∈ varintRounds bytes, r.Fits) ↔ bytes.length ≤ 10 ∧
      denoted (bytes.take 9) + 2 ^ 60 * ((bytes.getD 9 0).toNat % 16) < 2 ^ 64 := by
  cases bytes with
  | nil => exact iff_of_true (by simp [varintRounds]) ⟨by decide, by decide⟩
  | cons first rest =>
    rw [varintEnds, Bool.or_eq_false_iff, decide_eq_false_iff_not] at h
    rw [varintRounds, if_neg h.1, fits_open_iff h.2 h.1, List.length_cons, Nat.succ_le_succ_iff]
    rfl

/-- `get_varint` reads canonically exactly where the bytes denote a number in range. -/
theorem readsCanonical_iff (buf : List UInt8) (pos : Nat) :
    ReadsCanonical buf pos ↔ InRange (buf.drop pos) := by
  unfold InRange
  split
  · rename_i hends
    constructor
    · intro h
      obtain ⟨value, pos', hread, haccepted⟩ := h.returns false
      have hsome := (getVarint_shape hread).2
      rw [hends] at hsome
      obtain ⟨v, rfl⟩ := Option.isSome_iff_exists.mp hsome
      have hlt := (haccepted v rfl).2
      rwa [consumed_eq hread] at hlt
    · intro hlt
      obtain ⟨v, hbytes, hread⟩ := getVarint_reads hends hlt
      refine ⟨fun checks => ⟨some v, _, hread checks, ?_⟩, fun r hr =>
        (varintRounds_exact hlt r hr).1⟩
      rintro w hw
      obtain rfl := Option.some.inj hw
      rw [consumed_eq (hread checks)]
      exact ⟨hbytes, hlt⟩
  · rename_i hends
    rw [Bool.not_eq_true] at hends
    rw [← varintRounds_open_iff hends]
    constructor
    · exact ReadsCanonical.fits
    · intro hfits
      obtain ⟨⟨value, pos'⟩, hread⟩ := getVarint_of_fits hfits
      refine ⟨fun checks => ⟨value, pos', hread checks, ?_⟩, hfits⟩
      rintro v rfl
      have hsome := (getVarint_shape (hread checks)).2
      rw [hends] at hsome
      cases hsome

/-- Ten bytes whose last one is shifted out of the value. -/
def overlong : List UInt8 := 0xF0 :: List.replicate 8 0x80 ++ [0x10]

/-- They denote more than 64 bits, and are accepted. -/
theorem not_readsCanonical_overlong : ¬ ReadsCanonical overlong 0 := by
  intro h
  obtain ⟨value, pos', hread, haccepted⟩ := h.returns false
  have hsome : value.isSome = true := (getVarint_shape hread).2
  obtain ⟨v, rfl⟩ := Option.isSome_iff_exists.mp hsome
  have hlt := (haccepted v rfl).2
  rw [consumed_eq hread] at hlt
  exact absurd hlt (by decide)

end IpReputation.Client
