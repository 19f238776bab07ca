import IpReputation.Library.OffsetNumeral
import IpReputation.Varint

/-! The numbers that variable-length integers denote, of any size: one sequence of bytes each. -/
namespace IpReputation.Client

open OffsetNumeral

variable {n : UInt64} {bytes bytes' rest : List UInt8} {first : UInt8}

/-- The groups of an integer: up to the first byte without a continuation bit, or all bytes. -/
def groupBytes : List UInt8 → List UInt8
  | [] => []
  | byte :: rest => if byte < 128 then [byte] else byte :: groupBytes rest

/-- The bytes of the integer that comes first, or all bytes. -/
def varintBytes : List UInt8 → List UInt8
  | [] => []
  | first :: rest => if first < 240 then [first] else first :: groupBytes rest

/-- The integer that comes first ends before the bytes do. -/
def varintEnds : List UInt8 → Bool
  | [] => false
  | first :: rest => first < 240 || rest.any (· < 128)

/-- The number that groups of seven bits denote, the continuation bits counted in. -/
def groupsDenote (groups : List UInt8) : Nat := Nat.ofDigits 128 (groups.map UInt8.toNat)

/-- The number that the bytes of an integer denote. -/
def denoted : List UInt8 → Nat
  | [] => 0
  | first :: groups => first.toNat + 16 * groupsDenote groups

/-- The bytes of one integer, from the first to the last. -/
inductive Varint : List UInt8 → Prop
  | short {first : UInt8} : first < 240 → Varint [first]
  | long {first : UInt8} {groups : List UInt8} :
      240 ≤ first → Numeral 128 (groups.map UInt8.toNat) → Varint (first :: groups)

theorem toNat_or_continuation (u : UInt8) : (u ||| 0x80).toNat = 128 + u.toNat % 128 := by
  have hall : ∀ i : Fin 256, i.val ||| 0x80 = 128 + i.val % 128 := by decide +kernel
  exact hall ⟨u.toNat, u.toNat_lt⟩

theorem toNat_or_first (u : UInt8) : (u ||| 0xF0).toNat = 240 + u.toNat % 16 := by
  have hall : ∀ i : Fin 256, i.val ||| 0xF0 = 240 + i.val % 16 := by decide +kernel
  exact hall ⟨u.toNat, u.toNat_lt⟩

/-- The loop of `put_varint` writes the offset numeral to the base 128. -/
theorem putGroups_eq (n : UInt64) : (putGroups n).map UInt8.toNat = encode 128 n.toNat := by
  induction n using putGroups.induct with
  | case1 n h ih =>
    have hle : 128 ≤ n.toNat := h
    have hbyte : (n.toUInt8 ||| 0x80).toNat = 128 + n.toNat % 128 := by
      rw [toNat_or_continuation, UInt64.toNat_toUInt8]
      omega
    have hnext : ((n - 128) >>> 7).toNat = (n.toNat - 128) / 128 := by
      have hsub : (n - 128).toNat = n.toNat - 128 := UInt64.toNat_sub_of_le _ _ h
      simp [hsub, Nat.shiftRight_eq_div_pow]
    rw [putGroups, if_pos h, List.map_cons, ih, hbyte, hnext, encode_of_le (by decide) hle]
  | case2 n h =>
    have hlt : n.toNat < 128 := Nat.not_le.mp h
    have hbyte : n.toUInt8.toNat = n.toNat := by
      rw [UInt64.toNat_toUInt8]
      omega
    rw [putGroups, if_neg h, encode_of_lt hlt, List.map_singleton, hbyte]

/-- From 240 on, four bits go into the first byte and the others into groups of seven. -/
theorem putVarint_long (h : ¬ n < 240) : ∃ first groups, putVarint n = first :: groups ∧
    first.toNat = 240 + n.toNat % 16 ∧
    groups.map UInt8.toNat = encode 128 ((n.toNat - 240) / 16) := by
  have hle : 240 ≤ n := UInt64.not_lt.mp h
  refine ⟨n.toUInt8 ||| 0xF0, putGroups ((n - 240) >>> 4), by rw [putVarint, if_neg h], ?_, ?_⟩
  · rw [toNat_or_first, UInt64.toNat_toUInt8]
    omega
  · have hsub : (n - 240).toNat = n.toNat - 240 := UInt64.toNat_sub_of_le _ _ hle
    have hnext : ((n - 240) >>> 4).toNat = (n.toNat - 240) / 16 := by
      simp [hsub, Nat.shiftRight_eq_div_pow]
    rw [putGroups_eq, hnext]

/-- `put_varint` writes the bytes of one integer. -/
theorem varint_putVarint (n : UInt64) : Varint (putVarint n) := by
  by_cases h : n < 240
  · have hlt : n.toNat < 240 := h
    rw [putVarint, if_pos h]
    refine .short ?_
    rw [UInt8.lt_iff_toNat_lt, UInt64.toNat_toUInt8]
    change n.toNat % 2 ^ 8 < 240
    omega
  · obtain ⟨first, groups, hput, hfirst, hgroups⟩ := putVarint_long h
    rw [hput]
    refine .long ?_ (hgroups ▸ numeral_encode (by decide) _)
    rw [UInt8.le_iff_toNat_le, hfirst]
    exact Nat.le_add_right 240 _

/-- What `put_varint` writes denotes the number written. -/
theorem denoted_putVarint (n : UInt64) : denoted (putVarint n) = n.toNat := by
  by_cases h : n < 240
  · have hlt : n.toNat < 240 := h
    have hbyte : n.toUInt8.toNat = n.toNat := by
      rw [UInt64.toNat_toUInt8]
      omega
    rw [putVarint, if_pos h, denoted, hbyte]
    rfl
  · have hle : 240 ≤ n.toNat := Nat.not_lt.mp h
    obtain ⟨first, groups, hput, hfirst, hgroups⟩ := putVarint_long h
    rw [hput, denoted, groupsDenote, hgroups, ofDigits_encode, hfirst]
    omega

theorem putVarint_injective : Function.Injective putVarint := by
  intro n m h
  rw [← UInt64.toNat_inj, ← denoted_putVarint n, h, denoted_putVarint]

/-- No two sequences of bytes denote the same number. -/
theorem Varint.unique (h : Varint bytes) (h' : Varint bytes')
    (heq : denoted bytes = denoted bytes') : bytes = bytes' := by
  cases h with
  | @short first hfirst =>
    cases h' with
    | @short first' hfirst' =>
      have hsame : first.toNat = first'.toNat := heq
      rw [UInt8.toNat_inj.mp hsame]
    | @long first' groups' hfirst' hgroups' =>
      have hlow : first.toNat < 240 := hfirst
      have hhigh : 240 ≤ first'.toNat := hfirst'
      have hsame : first.toNat = first'.toNat + 16 * groupsDenote groups' := heq
      omega
  | @long first groups hfirst hgroups =>
    have hhigh : 240 ≤ first.toNat := hfirst
    have hbyte := first.toNat_lt
    cases h' with
    | @short first' hfirst' =>
      have hlow : first'.toNat < 240 := hfirst'
      have hsame : first.toNat + 16 * groupsDenote groups = first'.toNat := heq
      omega
    | @long first' groups' hfirst' hgroups' =>
      have hhigh' : 240 ≤ first'.toNat := hfirst'
      have hbyte' := first'.toNat_lt
      have hsame : first.toNat + 16 * groupsDenote groups =
        first'.toNat + 16 * groupsDenote groups' := heq
      have hheads : first.toNat = first'.toNat := by omega
      have htails : groupsDenote groups = groupsDenote groups' := by omega
      have hdigits : groups.map UInt8.toNat = groups'.map UInt8.toNat := by
        rw [← encode_ofDigits hgroups, ← encode_ofDigits hgroups']
        exact congrArg (encode 128) htails
      rw [UInt8.toNat_inj.mp hheads,
        List.map_injective_iff.mpr (fun _ _ => UInt8.toNat_inj.mp) hdigits]

/-- The bytes of a number below `2 ^ 64` are those that `put_varint` writes for it. -/
theorem Varint.eq_putVarint (h : Varint bytes) (hn : denoted bytes = n.toNat) :
    bytes = putVarint n :=
  h.unique (varint_putVarint n) (hn.trans (denoted_putVarint n).symm)

/-- Ten bytes are enough for 64 bits. -/
theorem Varint.length_le (h : Varint bytes) (hlt : denoted bytes < 2 ^ 64) : bytes.length ≤ 10 := by
  cases h with
  | short hfirst => simp
  | @long first groups hfirst hgroups =>
    have hdenoted : first.toNat + 16 * groupsDenote groups < 2 ^ 64 := hlt
    have hgroup : Nat.ofDigits 128 (groups.map UInt8.toNat) < 128 ^ (8 + 1) := by
      change groupsDenote groups < 128 ^ (8 + 1)
      omega
    have hlength := hgroups.length_le hgroup
    rw [List.length_map] at hlength
    rw [List.length_cons]
    omega

theorem numeral_groupBytes (h : rest.any (· < 128) = true) :
    Numeral 128 ((groupBytes rest).map UInt8.toNat) := by
  induction rest with
  | nil => cases h
  | cons byte rest ih =>
    have hbyte := byte.toNat_lt
    by_cases hlast : byte < 128
    · rw [groupBytes, if_pos hlast]
      exact .last hlast
    · have hrest : rest.any (· < 128) = true := by simpa [hlast] using h
      have hhigh : 128 ≤ byte.toNat := Nat.not_lt.mp hlast
      rw [groupBytes, if_neg hlast, List.map_cons]
      exact .more hhigh (by omega) (ih hrest)

/-- An integer that ends is read to its end. -/
theorem varint_varintBytes (h : varintEnds bytes = true) : Varint (varintBytes bytes) := by
  cases bytes with
  | nil => cases h
  | cons first rest =>
    by_cases hshort : first < 240
    · rw [varintBytes, if_pos hshort]
      exact .short hshort
    · have hrest : rest.any (· < 128) = true := by simpa [varintEnds, hshort] using h
      rw [varintBytes, if_neg hshort]
      exact .long (UInt8.not_lt.mp hshort) (numeral_groupBytes hrest)

theorem groupBytes_append {groups : List UInt8} (h : Numeral 128 (groups.map UInt8.toNat))
    (rest : List UInt8) : groupBytes (groups ++ rest) = groups ∧
      (groups ++ rest).any (· < 128) = true := by
  induction groups with
  | nil => cases h
  | cons byte groups ih =>
    rw [List.cons_append]
    rcases numeral_cons.mp h with ⟨hlast, hnil⟩ | ⟨hlow, -, hgroups⟩
    · have hlast' : byte < 128 := hlast
      obtain rfl := List.map_eq_nil_iff.mp hnil
      simp [groupBytes, hlast']
    · have hnot : ¬ byte < 128 := Nat.not_lt.mpr hlow
      obtain ⟨hbytes, hends⟩ := ih hgroups
      rw [groupBytes, if_neg hnot, hbytes, List.any_cons, hends, Bool.or_true]
      exact ⟨rfl, rfl⟩

/-- What follows an integer is not read. -/
theorem Varint.varintBytes_append (h : Varint bytes) (rest : List UInt8) :
    varintBytes (bytes ++ rest) = bytes ∧ varintEnds (bytes ++ rest) = true := by
  cases h with
  | short hfirst => simp [varintBytes, varintEnds, hfirst]
  | @long first groups hfirst hgroups =>
    have hnot : ¬ first < 240 := UInt8.not_lt.mpr hfirst
    obtain ⟨hbytes, hends⟩ := groupBytes_append hgroups rest
    rw [List.cons_append, varintBytes, if_neg hnot, hbytes, varintEnds, hends, Bool.or_true]
    exact ⟨rfl, rfl⟩

theorem groupBytes_isPrefix (rest : List UInt8) : groupBytes rest <+: rest := by
  induction rest with
  | nil => exact List.prefix_rfl
  | cons byte rest ih =>
    by_cases hlast : byte < 128
    · rw [groupBytes, if_pos hlast]
      exact ⟨rest, rfl⟩
    · rw [groupBytes, if_neg hlast]
      exact (List.prefix_cons_inj byte).mpr ih

theorem varintBytes_isPrefix (bytes : List UInt8) : varintBytes bytes <+: bytes := by
  cases bytes with
  | nil => exact List.prefix_rfl
  | cons first rest =>
    by_cases hshort : first < 240
    · rw [varintBytes, if_pos hshort]
      exact ⟨rest, rfl⟩
    · rw [varintBytes, if_neg hshort]
      exact (List.prefix_cons_inj first).mpr (groupBytes_isPrefix rest)

/-- Without a last group, all bytes are taken. -/
theorem groupBytes_of_open (h : rest.any (· < 128) = false) : groupBytes rest = rest := by
  induction rest with
  | nil => rfl
  | cons byte rest ih =>
    simp only [List.any_cons, Bool.or_eq_false_iff, decide_eq_false_iff_not] at h
    rw [groupBytes, if_neg h.1, ih h.2]

end IpReputation.Client
