import IpReputation.Library.Grouping
import Mathlib.Data.UInt

/-! `display.rs`: counts with their digits grouped by three. -/
namespace IpReputation

open Grouping

/-- Integer with thousands separated by spaces. -/
@[ext]
structure HumanCount where
  value : UInt64

/-- How `HumanCount::fmt` ends when it does not return `Ok`. -/
inductive FmtStop
  /-- `start` goes below 0. -/
  | underflow
  /-- `fmt::Error` of the writer. -/
  | error
  deriving DecidableEq

/-- `write_char` of whatever is written to, `none` being `fmt::Error`. -/
abbrev WriteChar (σ : Type) := σ → Char → Option σ

namespace HumanCount

/-- `b'0' + (value % 10) as u8`. -/
def digit (value : UInt64) : UInt8 := 48 + (value % 10).toUInt8

/-- The loop that fills the buffer from its end: the buffer and `start` after it. -/
def fillDigits (digits : Vector UInt8 20) :
    (start : Nat) → start ≤ 20 → UInt64 → Option (Vector UInt8 20 × Nat)
  | 0, _, _ => none
  | start + 1, h, value =>
    let digits := digits.set start (digit value) h
    if value / 10 = 0 then some (digits, start)
    else fillDigits digits start (Nat.le_of_succ_le h) (value / 10)

variable {σ : Type}

/-- The space before the digit at `index`, when groups of three are left from it on. -/
def writeSpace (write : WriteChar σ) (count index : Nat) (f : σ) : Option σ :=
  if 0 < index ∧ (count - index) % 3 = 0 then write f ' ' else some f

/-- The loop that writes the digits from `index` on, of `count` in all. -/
def writeDigits (write : WriteChar σ) (count : Nat) : List UInt8 → Nat → σ → Option σ
  | [], _, f => some f
  | digit :: rest, index, f => do
    let f ← writeSpace write count index f
    let f ← write f (Char.ofNat digit.toNat)
    writeDigits write count rest (index + 1) f

/-- `u64::MAX` has 20 digits. -/
def fmt (write : WriteChar σ) (count : HumanCount) (f : σ) : Except FmtStop σ :=
  match fillDigits (.replicate 20 0) 20 (Nat.le_refl 20) count.value with
  | none => .error .underflow
  | some (digits, start) =>
    let digits := digits.toList.drop start
    match writeDigits write digits.length digits 0 f with
    | none => .error .error
    | some f => .ok f

/-- `to_string`, as a list of characters. -/
def toChars (count : HumanCount) : Except FmtStop (List Char) :=
  count.fmt (fun out c => some (out ++ [c])) []

example : toChars ⟨1234567⟩ = .ok ['1', ' ', '2', '3', '4', ' ', '5', '6', '7'] := by decide

variable {write : WriteChar σ} {value : UInt64} {ds : List UInt8} {index : Nat} {f : σ}

/-- The characters of digits. -/
def chars (ds : List UInt8) : List Char := ds.map fun d => Char.ofNat d.toNat

theorem char_digit (value : UInt64) :
    Char.ofNat (digit value).toNat = (value.toNat % 10).digitChar := by
  have hlt : value.toNat % 10 < 10 := Nat.mod_lt _ (by decide)
  have hdigit : (digit value).toNat = 48 + value.toNat % 10 := by
    have hmod : (value % 10).toNat = value.toNat % 10 := UInt64.toNat_mod ..
    simp only [digit, UInt8.toNat_add, UInt64.toNat_toUInt8, hmod]
    change (48 + _) % 2 ^ 8 = _
    omega
  have hall : ∀ d < 10, Char.ofNat (48 + d) = d.digitChar := by decide
  rw [hdigit]
  exact hall _ hlt

/-- A digit goes in front of those that are there. -/
theorem chars_set (digits : Vector UInt8 20) {start : Nat} (h : start < 20) (value : UInt64) :
    chars ((digits.set start (digit value) h).toList.drop start) =
      (value.toNat % 10).digitChar :: chars (digits.toList.drop (start + 1)) := by
  have hlength : start < (digits.toList.set start (digit value)).length := by
    rw [List.length_set, Vector.length_toList]
    exact h
  rw [Vector.toList_set, List.drop_eq_getElem_cons hlength, List.getElem_set_self,
    List.drop_set_of_lt (Nat.lt_succ_self start), chars, List.map_cons, char_digit]
  rfl

/-- With room for all digits, the loop fills in the decimal numeral. -/
theorem fillDigits_eq (digits : Vector UInt8 20) {start : Nat} (h : start ≤ 20)
    (hroom : (Nat.toDigits 10 value.toNat).length ≤ start) :
    ∃ digits' start', fillDigits digits start h value = some (digits', start') ∧
      chars (digits'.toList.drop start') =
        Nat.toDigits 10 value.toNat ++ chars (digits.toList.drop start) := by
  induction start generalizing digits value with
  | zero =>
    have hpos := Nat.length_toDigits_pos (b := 10) (n := value.toNat)
    omega
  | succ start ih =>
    have hset := chars_set digits h value
    have hdiv : (value / 10).toNat = value.toNat / 10 := UInt64.toNat_div ..
    by_cases hlast : value / 10 = 0
    · have hlt : value.toNat < 10 := by
        rw [hlast] at hdiv
        change 0 = _ at hdiv
        omega
      refine ⟨_, _, by rw [fillDigits, if_pos hlast], ?_⟩
      rw [hset, Nat.toDigits_of_lt_base hlt, Nat.mod_eq_of_lt hlt]
      rfl
    · have hle : 10 ≤ value.toNat := by
        by_contra hlt
        apply hlast
        rw [← UInt64.toNat_inj, hdiv, Nat.div_eq_of_lt (Nat.not_le.mp hlt)]
        rfl
      have hsplit := Nat.toDigits_of_base_le (b := 10) (by decide) hle
      rw [hsplit, List.length_append, List.length_singleton] at hroom
      have hroom' : (Nat.toDigits 10 (value / 10).toNat).length ≤ start := by
        rw [hdiv]
        omega
      obtain ⟨digits', start', hfill, hchars⟩ := ih (digits.set start (digit value) h)
        (Nat.le_of_succ_le h) hroom'
      refine ⟨digits', start', by rw [fillDigits, if_neg hlast]; exact hfill, ?_⟩
      rw [hchars, hset, hsplit, hdiv]
      simp

/-- Twenty digits are enough for 64 bits. -/
theorem fillDigits_ok (value : UInt64) : ∃ digits start,
    fillDigits (.replicate 20 0) 20 (Nat.le_refl 20) value = some (digits, start) ∧
      chars (digits.toList.drop start) = Nat.toDigits 10 value.toNat := by
  have hlt := value.toNat_lt
  have hroom : (Nat.toDigits 10 value.toNat).length ≤ 20 :=
    (Nat.length_toDigits_le_iff (by decide) (by decide)).mpr (by omega)
  obtain ⟨digits, start, hfill, hchars⟩ :=
    fillDigits_eq (.replicate 20 0) (Nat.le_refl 20) hroom
  refine ⟨digits, start, hfill, hchars.trans ?_⟩
  simp [chars]

/-- A space is written where it separates groups. -/
theorem writeSpace_eq (write : WriteChar σ) (ds : List UInt8) (hds : ds ≠ []) (index : Nat)
    (f : σ) : writeSpace write (index + ds.length) index f =
      (if 0 < index then lead 3 ' ' (chars ds) else []).foldlM write f := by
  have hlength : (chars ds).length = index + ds.length - index := by
    rw [chars, List.length_map, Nat.add_sub_cancel_left]
  have hchars : chars ds ≠ [] := fun hnil => hds (List.map_eq_nil_iff.mp hnil)
  unfold writeSpace
  by_cases hfirst : 0 < index
  · rw [if_pos hfirst]
    by_cases hwhole : (index + ds.length - index) % 3 = 0
    · have hdvd : 3 ∣ (chars ds).length := hlength ▸ Nat.dvd_of_mod_eq_zero hwhole
      rw [if_pos ⟨hfirst, hwhole⟩, lead, if_pos ⟨hchars, hdvd⟩]
      simp
    · have hnot : ¬ 3 ∣ (chars ds).length := fun hdvd =>
        hwhole (hlength ▸ Nat.mod_eq_zero_of_dvd hdvd)
      rw [if_neg fun h => hwhole h.2, lead, if_neg fun h => hnot h.2]
      rfl
  · rw [if_neg hfirst, if_neg fun h => hfirst h.1]
    rfl

/-- The loop that writes goes through the grouped digits. -/
theorem writeDigits_eq (write : WriteChar σ) (ds : List UInt8) (index : Nat) (f : σ) :
    writeDigits write (index + ds.length) ds index f =
      ((if 0 < index then lead 3 ' ' (chars ds) else []) ++
        separated 3 ' ' (chars ds)).foldlM write f := by
  induction ds generalizing index f with
  | nil => simp [writeDigits, chars, lead, separated]
  | cons d ds ih =>
    have hcount : index + (d :: ds).length = index + 1 + ds.length := by
      rw [List.length_cons]
      omega
    have hchars : separated 3 ' ' (chars (d :: ds)) =
        Char.ofNat d.toNat :: (lead 3 ' ' (chars ds) ++ separated 3 ' ' (chars ds)) := rfl
    rw [writeDigits, List.foldlM_append, writeSpace_eq write _ (List.cons_ne_nil d ds), hchars]
    apply bind_congr
    intro f₁
    rw [List.foldlM_cons]
    apply bind_congr
    intro f₂
    rw [hcount, ih, if_pos (Nat.succ_pos index)]

/-- What is written is the grouped decimal numeral, whatever it is written to. -/
theorem fmt_eq (write : WriteChar σ) (count : HumanCount) (f : σ) :
    count.fmt write f =
      match (separated 3 ' ' (Nat.toDigits 10 count.value.toNat)).foldlM write f with
      | none => .error .error
      | some f => .ok f := by
  obtain ⟨digits, start, hfill, hchars⟩ := fillDigits_ok count.value
  have hwrite := writeDigits_eq write (digits.toList.drop start) 0 f
  rw [Nat.zero_add, hchars, if_neg (Nat.lt_irrefl 0), List.nil_append] at hwrite
  simp only [fmt, hfill, hwrite]

theorem toChars_eq (count : HumanCount) :
    count.toChars = .ok (separated 3 ' ' (Nat.toDigits 10 count.value.toNat)) := by
  have happend : ∀ cs out : List Char,
      cs.foldlM (fun out c => some (out ++ [c])) out = some (out ++ cs) := by
    intro cs
    induction cs with
    | nil => simp
    | cons c cs ih => simp [ih]
  rw [toChars, fmt_eq, happend, List.nil_append]

theorem space_notMem_toDigits (n : Nat) : ' ' ∉ Nat.toDigits 10 n := by
  intro hmem
  have hdigit := Nat.isDigit_of_mem_toDigits (by decide) (by decide) hmem
  cases hdigit

/-- Only the numeral of `0` starts with a zero. -/
theorem head?_toDigits {n : Nat} (h : (Nat.toDigits 10 n).head? = some '0') : n = 0 := by
  induction n using Nat.strong_induction_on with
  | _ n ih =>
    by_cases hlt : n < 10
    · have hall : ∀ d < 10, d.digitChar = '0' → d = 0 := by decide
      rw [Nat.toDigits_of_lt_base hlt] at h
      exact hall n hlt (Option.some.inj h)
    · have hle := Nat.not_lt.mp hlt
      have hdiv := Nat.div_lt_self (by omega : 0 < n) (by decide : 1 < 10)
      rw [Nat.toDigits_of_base_le (by decide) hle,
        List.head?_append_of_ne_nil _ Nat.toDigits_ne_nil] at h
      have hzero := ih (n / 10) hdiv h
      omega

/-- What a count looks like: its decimal numeral, with a space before a digit that is not the
first exactly when groups of three digits are left from it on. -/
structure Displays (count : HumanCount) (out : List Char) : Prop where
  writes : ∀ (σ : Type) (write : WriteChar σ) (f : σ), count.fmt write f =
    match out.foldlM write f with
    | none => .error .error
    | some f => .ok f
  numeral : out.filter (· ≠ ' ') = Nat.toDigits 10 count.value.toNat
  leading : out.head? = some '0' → count.value = 0
  space_iff : ∀ before d after, out = before ++ d :: after → d ≠ ' ' →
    (before.getLast? = some ' ' ↔
      before.filter (· ≠ ' ') ≠ [] ∧ 3 ∣ ((d :: after).filter (· ≠ ' ')).length)
  space_before : ∀ before after, out = before ++ ' ' :: after →
    ∃ d rest, after = d :: rest ∧ d ≠ ' '
  distinct : ∀ other : HumanCount, other.toChars = .ok out → other = count

/-- Every count is displayed so, and no two alike. -/
theorem displays (count : HumanCount) : ∃ out, count.toChars = .ok out ∧ Displays count out := by
  have hspace := space_notMem_toDigits count.value.toNat
  refine ⟨_, toChars_eq count, fun σ write f => fmt_eq write count f, filter_separated hspace,
    ?_, ?_, ?_, ?_⟩
  · intro h
    rw [head?_separated] at h
    exact UInt64.toNat_inj.mp (head?_toDigits h)
  · intro before d after hcut hd
    rw [separated_before hspace hd hcut]
    refine and_congr_left fun _ => ?_
    cases before with
    | nil => simp
    | cons first before =>
      have hfirst := separated_head hspace hcut
      simp [hfirst]
  · intro before after hcut
    exact separated_after hspace hcut
  · intro other h
    rw [toChars_eq] at h
    have hsame := congrArg (List.filter (· ≠ ' ')) (Except.ok.inj h)
    rw [filter_separated (space_notMem_toDigits _), filter_separated hspace] at hsame
    have hnat := congrArg (fun digits => Nat.ofDigitChars 10 digits 0) hsame
    simp only [Nat.ofDigitChars_ten_toDigits] at hnat
    exact HumanCount.ext (UInt64.toNat_inj.mp hnat)

end HumanCount

end IpReputation
