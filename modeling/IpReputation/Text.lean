import Mathlib.Data.List.Basic
import Mathlib.Data.List.TakeWhile

/-! The `str` functions the program uses, on the characters of a string. -/
namespace IpReputation

/-- `char::is_whitespace`: the Unicode `White_Space` property. -/
def isWhitespace (c : Char) : Bool :=
  let n := c.toNat
  (0x9 ≤ n && n ≤ 0xD) || n == 0x20 || n == 0x85 || n == 0xA0 || n == 0x1680 ||
    (0x2000 ≤ n && n ≤ 0x200A) || n == 0x2028 || n == 0x2029 || n == 0x202F ||
    n == 0x205F || n == 0x3000

/-- `str::trim_end`. -/
def trimEnd (s : String) : String :=
  String.ofList ((s.toList.reverse.dropWhile isWhitespace).reverse)

/-- `str::trim_start`. -/
def trimStart (s : String) : String :=
  String.ofList (s.toList.dropWhile isWhitespace)

/-- `str::trim`. -/
def trim (s : String) : String := trimEnd (trimStart s)

/-- `str::strip_prefix` for a one-character pattern. -/
def stripPrefix (c : Char) (s : String) : Option String :=
  match s.toList with
  | [] => none
  | d :: ds => if d = c then some (String.ofList ds) else none

/-- `str::split_once` for a one-character delimiter. -/
def splitOnce (c : Char) (s : String) : Option (String × String) :=
  if c ∈ s.toList then
    some (String.ofList (s.toList.takeWhile (· ≠ c)),
      String.ofList ((s.toList.dropWhile (· ≠ c)).tail))
  else none

/-- `str::split` for a one-character delimiter: empty pieces are kept. -/
def splitChars (c : Char) : List Char → List (List Char)
  | [] => [[]]
  | d :: ds =>
    if d = c then [] :: splitChars c ds
    else
      match splitChars c ds with
      | [] => [[d]]
      | piece :: pieces => (d :: piece) :: pieces

def split (c : Char) (s : String) : List String :=
  (splitChars c s.toList).map String.ofList

/-- What stands between the commas: pieces are trimmed, empty ones left out. -/
def commaItems (s : String) : List String := ((split ',' s).map trim).filter (· ≠ "")

/-- `str::ends_with`. -/
def endsWith (suffix s : String) : Bool := suffix.toList.isSuffixOf s.toList

/-- The line before a `\n`, without the `\r` that may precede it; `acc` holds it reversed. -/
def endLine (acc : List Char) : String :=
  match acc with
  | '\r' :: rest => String.ofList rest.reverse
  | _ => String.ofList acc.reverse

def linesFrom (acc : List Char) : List Char → List String
  | [] => if acc = [] then [] else [String.ofList acc.reverse]
  | '\n' :: cs => endLine acc :: linesFrom [] cs
  | c :: cs => linesFrom (c :: acc) cs

/-- `str::lines`: a last line needs no terminator, and a `\r` only goes with its `\n`. -/
def lines (s : String) : List String := linesFrom [] s.toList

variable {c : Char} {s t before after : String}

theorem stripPrefix_eq_some_iff : stripPrefix c s = some t ↔ s.toList = c :: t.toList := by
  unfold stripPrefix
  cases hs : s.toList with
  | nil => simp
  | cons d ds =>
    by_cases hd : d = c
    · simp [hd, String.ext_iff]
    · simp [hd]

theorem stripPrefix_eq_none_iff : stripPrefix c s = none ↔ s.toList.head? ≠ some c := by
  unfold stripPrefix
  cases hs : s.toList with
  | nil => simp
  | cons d ds => by_cases hd : d = c <;> simp [hd]

/-- `split_once` cuts at the first delimiter. -/
theorem splitOnce_eq_some_iff : splitOnce c s = some (before, after) ↔
    s.toList = before.toList ++ c :: after.toList ∧ c ∉ before.toList := by
  have hcut : s.toList = s.toList.takeWhile (· ≠ c) ++ s.toList.dropWhile (· ≠ c) :=
    List.takeWhile_append_dropWhile.symm
  unfold splitOnce
  by_cases hc : c ∈ s.toList
  · have hne : s.toList.dropWhile (· ≠ c) ≠ [] := by
      intro hn
      have := List.dropWhile_eq_nil_iff.mp hn c hc
      simp at this
    have hhead : (s.toList.dropWhile (· ≠ c)).head hne = c := by
      simpa using List.head_dropWhile_not (· ≠ c) hne
    have hcons := List.cons_head_tail hne
    rw [hhead] at hcons
    simp only [hc, if_true, Option.some.injEq, Prod.mk.injEq]
    constructor
    · rintro ⟨rfl, rfl⟩
      simp only [String.toList_ofList]
      exact ⟨hcut.trans (by rw [hcons]), fun h => by simpa using List.mem_takeWhile_imp h⟩
    · rintro ⟨hs, hb⟩
      have hall : ∀ d ∈ before.toList, (decide (d ≠ c)) = true := by
        intro d hd
        simp only [ne_eq, decide_eq_true_eq]
        rintro rfl
        exact hb hd
      rw [hs, List.takeWhile_append_of_pos hall, List.dropWhile_append_of_pos hall]
      simp
  · simp only [hc, if_false, reduceCtorEq, false_iff, not_and]
    intro hs _
    exact hc (hs ▸ List.mem_append_right _ List.mem_cons_self)

example : lines "a\r\n\nb\r" = ["a", "", "b\r"] := by decide

end IpReputation
