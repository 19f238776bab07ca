import IpReputation.Net
import Mathlib.Data.List.Basic

/-! `std::net`: the textual form of IP addresses. -/
namespace IpReputation

variable {α : Type} {cs rest : List Char} {n : Nat} {a : Ipv4Addr}

/-- `char::to_digit`. -/
def toDigit (radix : Nat) (c : Char) : Option Nat :=
  let n := c.toNat
  let digit :=
    if 0x30 ≤ n && n ≤ 0x39 then some (n - 0x30)
    else if 0x61 ≤ n && n ≤ 0x7A then some (n - 0x61 + 10)
    else if 0x41 ≤ n && n ≤ 0x5A then some (n - 0x41 + 10)
    else none
  digit.filter fun d => d < radix

/-- The loop of `Parser::read_number`: how many digits, their value, and what follows. -/
def readDigits (radix maxDigits : Nat) :
    (count result : Nat) → List Char → Option (Nat × Nat × List Char)
  | count, result, [] => some (count, result, [])
  | count, result, c :: cs =>
    match toDigit radix c with
    | none => some (count, result, c :: cs)
    | some digit =>
      if maxDigits < count + 1 then none
      else readDigits radix maxDigits (count + 1) (result * radix + digit) cs

/-- `Parser::read_number`, into a type of `bound` values. -/
def readNumber (radix maxDigits bound : Nat) (allowZeroPrefix : Bool) (cs : List Char) :
    Option (Nat × List Char) :=
  match readDigits radix maxDigits 0 0 cs with
  | none => none
  | some (count, result, rest) =>
    if count = 0 then none
    else if !allowZeroPrefix && cs.head? == some '0' && 1 < count then none
    else if bound ≤ result then none
    else some (result, rest)

/-- `Parser::read_separator`. -/
def readSeparator (sep : Char) (index : Nat) (inner : List Char → Option (α × List Char))
    (cs : List Char) : Option (α × List Char) :=
  if index = 0 then inner cs
  else
    match cs with
    | [] => none
    | c :: rest => if c = sep then inner rest else none

/-- The octets from `index` on; no octal numbers. -/
def readOctets : (index left : Nat) → List Char → Option (List Nat × List Char)
  | _, 0, cs => some ([], cs)
  | index, left + 1, cs =>
    match readSeparator '.' index (readNumber 10 3 256 false) cs with
    | none => none
    | some (octet, cs) =>
      match readOctets (index + 1) left cs with
      | none => none
      | some (octets, cs) => some (octet :: octets, cs)

/-- `Parser::read_ipv4_addr`. -/
def readIpv4Addr (cs : List Char) : Option (Ipv4Addr × List Char) :=
  (readOctets 0 4 cs).map fun (octets, rest) =>
    (BitVec.ofNat 32 (octets.foldl (fun acc octet => acc * 256 + octet) 0), rest)

/-- `read_groups` of `Parser::read_ipv6_addr`: the groups from `index` on, whether the last two
are an embedded IPv4 address, and what follows. -/
def readGroups : (index left : Nat) → List Char → List Nat × Bool × List Char
  | _, 0, cs => ([], false, cs)
  | index, left + 1, cs =>
    let ipv4 := if 0 < left then readSeparator ':' index readIpv4Addr cs else none
    match ipv4 with
    | some (addr, rest) => ([addr.toNat / 65536, addr.toNat % 65536], true, rest)
    | none =>
      match readSeparator ':' index (readNumber 16 4 65536 true) cs with
      | none => ([], false, cs)
      | some (group, rest) =>
        let (groups, ipv4, rest) := readGroups (index + 1) left rest
        (group :: groups, ipv4, rest)

def ofGroups (groups : List Nat) : Ipv6Addr :=
  BitVec.ofNat 128 (groups.foldl (fun acc group => acc * 65536 + group) 0)

/-- `Parser::read_ipv6_addr`. -/
def readIpv6Addr (cs : List Char) : Option (Ipv6Addr × List Char) :=
  let (head, headIpv4, rest) := readGroups 0 8 cs
  if head.length = 8 then some (ofGroups head, rest)
  else if headIpv4 then none
  else
    match rest with
    | ':' :: ':' :: rest =>
      let (tail, _, rest) := readGroups 0 (8 - (head.length + 1)) rest
      let zeros := List.replicate (8 - head.length - tail.length) 0
      some (ofGroups (head ++ zeros ++ tail), rest)
    | _ => none

/-- `Parser::read_ip_addr`. -/
def readIpAddr (cs : List Char) : Option (IpAddr × List Char) :=
  match readIpv4Addr cs with
  | some (addr, rest) => some (.v4 addr, rest)
  | none => (readIpv6Addr cs).map fun (addr, rest) => (.v6 addr, rest)

/-- `str::parse::<IpAddr>`: the whole text has to be read. -/
def parseIpAddr (text : String) : Option IpAddr :=
  match readIpAddr text.toList with
  | some (addr, []) => some addr
  | _ => none

/-- `Display` of a `u8`. -/
def decimal (n : Nat) : List Char := Nat.toDigits 10 n

/-- `Ipv4Addr::octets`. -/
def octets (a : Ipv4Addr) : List Nat :=
  [a.toNat / 0x1000000, a.toNat / 0x10000 % 256, a.toNat / 0x100 % 256, a.toNat % 256]

/-- The octets from `index` on, each but the first behind a dot. -/
def dottedFrom : (index : Nat) → List Nat → List Char
  | _, [] => []
  | 0, octet :: rest => decimal octet ++ dottedFrom 1 rest
  | index + 1, octet :: rest => '.' :: decimal octet ++ dottedFrom (index + 2) rest

/-- `Display` of an `Ipv4Addr`. -/
def dotted (a : Ipv4Addr) : String := String.ofList (dottedFrom 0 (octets a))

/-- `Ipv4Addr::to_ipv6_mapped`. -/
def toIpv6Mapped (a : Ipv4Addr) : Ipv6Addr := 0xFFFF#96 ++ a

/-- `Display` of an IPv4-mapped address. -/
def dottedMapped (a : Ipv4Addr) : String := "::ffff:" ++ dotted a

/-- What follows a number must not go on with a digit. -/
def EndsDigits (radix : Nat) (rest : List Char) : Prop :=
  ∀ c cs, rest = c :: cs → toDigit radix c = none

theorem readDigits_ends {radix m count result : Nat} (h : EndsDigits radix rest) :
    readDigits radix m count result rest = some (count, result, rest) := by
  cases rest with
  | nil => rfl
  | cons c cs => simp only [readDigits, h c cs rfl]

theorem readDigits_digit {radix m count result d : Nat} {c : Char}
    (hc : toDigit radix c = some d) (hm : count < m) :
    readDigits radix m count result (c :: cs) =
      readDigits radix m (count + 1) (result * radix + d) cs := by
  simp only [readDigits, hc]
  rw [if_neg (by omega)]

theorem readNumber_of_digits {radix m bound count result : Nat} {allowZeroPrefix : Bool}
    (hdigits : readDigits radix m 0 0 cs = some (count, result, rest)) (hcount : count ≠ 0)
    (hzero : allowZeroPrefix = true ∨ cs.head? ≠ some '0' ∨ count ≤ 1) (hbound : result < bound) :
    readNumber radix m bound allowZeroPrefix cs = some (result, rest) := by
  have hpadded : (!allowZeroPrefix && cs.head? == some '0' && decide (1 < count)) = false := by
    rcases hzero with rfl | h | h
    · rfl
    · simp [h]
    · simp [Nat.not_lt.mpr h]
  simp only [readNumber, hdigits, hcount, hpadded, Nat.not_le.mpr hbound, if_false,
    Bool.false_eq_true]

theorem toDigit_digitChar {d : Nat} (h : d < 10) : toDigit 10 d.digitChar = some d := by
  have hall : ∀ d : Fin 10, toDigit 10 (Nat.digitChar d) = some d.val := by decide
  exact hall ⟨d, h⟩

theorem decimal_cases (h : n < 256) : decimal n = [n.digitChar] ∧ n < 10 ∨
    decimal n = [(n / 10).digitChar, (n % 10).digitChar] ∧ 10 ≤ n ∧ n < 100 ∨
    decimal n = [(n / 100).digitChar, (n / 10 % 10).digitChar, (n % 10).digitChar] ∧ 100 ≤ n := by
  unfold decimal
  by_cases h10 : n < 10
  · exact .inl ⟨Nat.toDigits_of_lt_base h10, h10⟩
  · right
    rw [Nat.toDigits_of_base_le (by decide) (by omega)]
    by_cases h100 : n < 100
    · left
      rw [Nat.toDigits_of_lt_base (by omega)]
      exact ⟨rfl, by omega, h100⟩
    · right
      rw [Nat.toDigits_of_base_le (by decide) (by omega), Nat.toDigits_of_lt_base (by omega),
        Nat.div_div_eq_div_mul]
      exact ⟨rfl, by omega⟩

/-- Reading back a written octet. -/
theorem readNumber_decimal (h : n < 256) (hrest : EndsDigits 10 rest) :
    readNumber 10 3 256 false (decimal n ++ rest) = some (n, rest) := by
  rcases decimal_cases h with ⟨hd, hn⟩ | ⟨hd, hlow, hn⟩ | ⟨hd, hn⟩
  · have hdigits : readDigits 10 3 0 0 (decimal n ++ rest) = some (1, n, rest) := by
      rw [hd, List.singleton_append, readDigits_digit (toDigit_digitChar hn) (by decide),
        readDigits_ends hrest]
      congr 3
      omega
    exact readNumber_of_digits hdigits (by decide) (.inr (.inr (by decide))) h
  · have hdigits : readDigits 10 3 0 0 (decimal n ++ rest) = some (2, n, rest) := by
      rw [hd, List.cons_append, List.singleton_append,
        readDigits_digit (toDigit_digitChar (by omega)) (by decide),
        readDigits_digit (toDigit_digitChar (by omega)) (by decide), readDigits_ends hrest]
      congr 3
      omega
    have hhead : (decimal n ++ rest).head? ≠ some '0' := by
      simp [hd]
      omega
    exact readNumber_of_digits hdigits (by decide) (.inr (.inl hhead)) h
  · have hdigits : readDigits 10 3 0 0 (decimal n ++ rest) = some (3, n, rest) := by
      rw [hd, List.cons_append, List.cons_append, List.singleton_append,
        readDigits_digit (toDigit_digitChar (by omega)) (by decide),
        readDigits_digit (toDigit_digitChar (by omega)) (by decide),
        readDigits_digit (toDigit_digitChar (by omega)) (by decide), readDigits_ends hrest]
      congr 3
      omega
    have hhead : (decimal n ++ rest).head? ≠ some '0' := by
      simp [hd]
      omega
    exact readNumber_of_digits hdigits (by decide) (.inr (.inl hhead)) h

theorem ends_dot : EndsDigits 10 ('.' :: cs) := by
  intro c ds h
  obtain ⟨rfl, -⟩ := List.cons.inj h
  rfl

/-- Reading back written octets, from any position. -/
theorem readOctets_dottedFrom {os : List Nat} (index : Nat) (hos : ∀ o ∈ os, o < 256)
    (hrest : EndsDigits 10 rest) : readOctets index os.length (dottedFrom index os ++ rest) =
      some (os, rest) := by
  induction os generalizing index with
  | nil => cases index <;> rfl
  | cons o os ih =>
    have htail : EndsDigits 10 (dottedFrom (index + 1) os ++ rest) := by
      cases os with
      | nil => exact hrest
      | cons o' os => exact ends_dot
    have hread : readSeparator '.' index (readNumber 10 3 256 false)
        (dottedFrom index (o :: os) ++ rest) =
          some (o, dottedFrom (index + 1) os ++ rest) := by
      have hnumber := readNumber_decimal (hos o List.mem_cons_self) htail
      cases index with
      | zero => simpa [readSeparator, dottedFrom] using hnumber
      | succ index => simpa [readSeparator, dottedFrom] using hnumber
    rw [List.length_cons, readOctets, hread]
    simp only [ih (index + 1) fun o' ho' => hos o' (List.mem_cons_of_mem _ ho')]

theorem octets_lt : ∀ o ∈ octets a, o < 256 := by
  have := a.isLt
  intro o ho
  simp only [octets, List.mem_cons, List.not_mem_nil, or_false] at ho
  omega

/-- Four octets are the address again. -/
theorem foldl_octets (a : Ipv4Addr) :
    (octets a).foldl (fun acc octet => acc * 256 + octet) 0 = a.toNat := by
  simp only [octets, List.foldl_cons, List.foldl_nil]
  omega

/-- Reading back a written IPv4 address. -/
theorem readIpv4Addr_dotted (hrest : EndsDigits 10 rest) :
    readIpv4Addr (dottedFrom 0 (octets a) ++ rest) = some (a, rest) := by
  have hread : readOctets 0 4 (dottedFrom 0 (octets a) ++ rest) = some (octets a, rest) :=
    readOctets_dottedFrom 0 octets_lt hrest
  simp [readIpv4Addr, hread, foldl_octets]

theorem ends_nil {radix : Nat} : EndsDigits radix [] := by
  intro c cs h
  cases h

/-- The dotted form of an address parses to it. -/
theorem parseIpAddr_dotted (a : Ipv4Addr) : parseIpAddr (dotted a) = some (.v4 a) := by
  have hread := readIpv4Addr_dotted (a := a) ends_nil
  rw [List.append_nil] at hread
  simp [parseIpAddr, dotted, readIpAddr, hread]

theorem readNumber_ffff : readNumber 16 4 65536 true ('f' :: 'f' :: 'f' :: 'f' :: ':' :: cs) =
    some (65535, ':' :: cs) := by
  have hf : toDigit 16 'f' = some 15 := by decide
  have hcolon : EndsDigits 16 (':' :: cs) := by
    intro c ds h
    obtain ⟨rfl, -⟩ := List.cons.inj h
    rfl
  have hdigits : readDigits 16 4 0 0 ('f' :: 'f' :: 'f' :: 'f' :: ':' :: cs) =
      some (4, 65535, ':' :: cs) := by
    rw [readDigits_digit hf (by decide), readDigits_digit hf (by decide),
      readDigits_digit hf (by decide), readDigits_digit hf (by decide), readDigits_ends hcolon]
  exact readNumber_of_digits hdigits (by decide) (.inl rfl) (by decide)

/-- Neither an octet nor an IPv4 address starts like this. -/
theorem readIpv4Addr_none {c : Char} (h : toDigit 10 c = none) : readIpv4Addr (c :: cs) = none := by
  simp [readIpv4Addr, readOctets, readSeparator, readNumber, readDigits, h]

theorem toIpv6Mapped_toNat (a : Ipv4Addr) :
    (toIpv6Mapped a).toNat = 0xFFFF * 0x100000000 + a.toNat := by
  have happend := BitVec.toNat_append 0xFFFF#96 a
  rw [← Nat.shiftLeft_add_eq_or_of_lt a.isLt, Nat.shiftLeft_eq] at happend
  exact happend

/-- The mapped form of an address parses to the mapped address. -/
theorem parseIpAddr_dottedMapped (a : Ipv4Addr) :
    parseIpAddr (dottedMapped a) = some (.v6 (toIpv6Mapped a)) := by
  have hread := readIpv4Addr_dotted (a := a) ends_nil
  rw [List.append_nil] at hread
  have htext : (dottedMapped a).toList = ':' :: ':' :: 'f' :: 'f' :: 'f' :: 'f' :: ':' ::
      dottedFrom 0 (octets a) := by
    simp [dottedMapped, dotted]
  have hcolon : toDigit 10 ':' = none := by decide
  have hcolon16 : toDigit 16 ':' = none := by decide
  have hhead : readGroups 0 8 (dottedMapped a).toList = ([], false, (dottedMapped a).toList) := by
    rw [htext]
    simp [readGroups, readSeparator, readIpv4Addr_none hcolon, readNumber, readDigits, hcolon16]
  have htail : readGroups 0 7 ('f' :: 'f' :: 'f' :: 'f' :: ':' :: dottedFrom 0 (octets a)) =
      ([65535, a.toNat / 65536, a.toNat % 65536], true, []) := by
    have hf : toDigit 10 'f' = none := by decide
    simp [readGroups, readSeparator, readIpv4Addr_none hf, readNumber_ffff, hread]
  have hvalue : ofGroups ([] ++ List.replicate 5 0 ++
      [65535, a.toNat / 65536, a.toNat % 65536]) = toIpv6Mapped a := by
    have hlt := a.isLt
    apply BitVec.eq_of_toNat_eq
    rw [toIpv6Mapped_toNat]
    simp [ofGroups]
    omega
  have hv6 : readIpv6Addr (dottedMapped a).toList = some (toIpv6Mapped a, []) := by
    rw [← hvalue]
    simp only [readIpv6Addr, hhead]
    rw [htext]
    simp only [List.length_nil, htail]
    rfl
  have hv4 : readIpv4Addr (dottedMapped a).toList = none := by
    rw [htext]
    exact readIpv4Addr_none hcolon
  simp [parseIpAddr, readIpAddr, hv4, hv6]

example : parseIpAddr "10.1.2.3" = some (.v4 0x0A010203#32) := by decide

example : parseIpAddr "::ffff:10.1.2.3" = some (.v6 0xFFFF0A010203#128) := by decide

example : dotted 0x0A010203#32 = "10.1.2.3" := by decide

example : parseIpAddr "010.1.2.3" = none := by decide

end IpReputation
