import IpReputation.DropSets
import IpReputation.IpText
import IpReputation.ParseReference

/-! `fixture.rs`: the text of a synthetic list file, and that `parse` reads it back. -/
namespace IpReputation

namespace Fixture

/-- The line of one network. -/
def networkText (network : Ipv4Net) : String :=
  if network.prefixLen = 32 then dotted network.addr
  else dotted network.addr ++ "/" ++ String.ofList (decimal network.prefixLen)

/-- The lines of `random_networks`, each with its `\n`. -/
def entriesText (networks : List Ipv4Net) : String :=
  networks.foldl (fun text network => text ++ (networkText network ++ "\n")) ""

/-- The lines above the networks. -/
def headerLines (fileName category : String) : List String :=
  ["# Maintainer      : spoa-bench", "# Maintainer URL  : https://example.invalid",
    "# List source URL : https://example.invalid/" ++ fileName,
    "# Source File Date: Thu Sep 10 23:59:49 UTC 2026", "#",
    "# Category        : " ++ category, "#"]

/-- Lines in front of a text. -/
def withLines (ls : List String) (rest : String) : String :=
  ls.foldr (fun l rest => l ++ "\n" ++ rest) rest

/-- `content` of `synthetic_database`. -/
def content (fileName category entries : String) : String :=
  withLines (headerLines fileName category) entries

end Fixture

/-- What `std`, `ipnet` and `chrono` make of the texts the fixture writes. -/
structure Parsers.Reads (P : Parsers) : Prop where
  addr : ∀ a, P.addr (dotted a) = some a
  cidr : ∀ network : Ipv4Net, P.cidr (dotted network.addr ++ "/" ++
    String.ofList (decimal network.prefixLen)) = some network
  date : P.sourceFileDate "Thu Sep 10 23:59:49 UTC 2026" = some "2026-09-10T23:59:49+00:00"

/-- On one line, without blanks around it. -/
structure Tidy (s : String) : Prop where
  trimmed : trim s = s
  line : '\n' ∉ s.toList

variable {P : Parsers} {fileName category v l : String} {ls : List String} {network : Ipv4Net}
  {networks : List Ipv4Net} {st : ParseState} {key : HeaderKey} {cs ds : List Char} {c : Char}
  {a : Ipv4Addr} {index n : Nat}

/-- `lines` ends a line at the first `\n`. -/
theorem linesFrom_line (hcs : '\n' ∉ cs) (acc ds : List Char) :
    linesFrom acc (cs ++ '\n' :: ds) = endLine (cs.reverse ++ acc) :: linesFrom [] ds := by
  induction cs generalizing acc with
  | nil => rfl
  | cons c cs ih =>
    have hc : c ≠ '\n' := fun heq => hcs (heq ▸ List.mem_cons_self)
    have hstep : linesFrom acc (c :: cs ++ '\n' :: ds) =
        linesFrom (c :: acc) (cs ++ '\n' :: ds) := by
      rw [List.cons_append, linesFrom]
      exact hc
    rw [hstep, ih fun h => hcs (List.mem_cons_of_mem c h)]
    simp

/-- Written with a `\n` behind it, the text is a line that is read as it is. -/
structure Unbroken (l : String) : Prop where
  line : '\n' ∉ l.toList
  last : l.toList.getLast? ≠ some '\r'

theorem lines_line (h : Unbroken l) (rest : String) :
    lines (l ++ "\n" ++ rest) = l :: lines rest := by
  have hend : endLine l.toList.reverse = l := by
    unfold endLine
    split
    · rename_i cs hcs
      exact absurd (by rw [← List.head?_reverse, hcs]; rfl) h.last
    · simp
  have htext : (l ++ "\n" ++ rest).toList = l.toList ++ '\n' :: rest.toList := by simp
  rw [lines, htext, linesFrom_line h.line, List.append_nil, hend]
  rfl

theorem lines_withLines (h : ∀ l ∈ ls, Unbroken l) (rest : String) :
    lines (Fixture.withLines ls rest) = ls ++ lines rest := by
  induction ls with
  | nil => rfl
  | cons l ls ih =>
    have hrest : lines (Fixture.withLines ls rest) = ls ++ lines rest :=
      ih fun l' hl' => h l' (List.mem_cons_of_mem l hl')
    exact (lines_line (h l List.mem_cons_self) _).trans (congrArg (l :: ·) hrest)

/-- Text with a character that is no blank is trimmed on both sides of it. -/
theorem rdropWhile_append_cons (hc : isWhitespace c = false) (cs ds : List Char) :
    (cs ++ c :: ds).rdropWhile isWhitespace = cs ++ c :: ds.rdropWhile isWhitespace := by
  induction ds using List.reverseRecOn with
  | nil =>
    have hneg : ¬ isWhitespace c = true := by simp [hc]
    exact List.rdropWhile_concat_neg _ _ _ hneg
  | append_singleton ds d ih =>
    by_cases hd : isWhitespace d = true
    · rw [← List.cons_append, ← List.append_assoc, List.rdropWhile_concat_pos _ _ _ hd, ih,
        List.rdropWhile_concat_pos _ _ _ hd]
    · rw [List.rdropWhile_concat_neg _ _ _ hd, ← List.cons_append, ← List.append_assoc,
        List.rdropWhile_concat_neg _ _ _ hd]

/-- Trimming leaves a text alone exactly when neither end is a blank. -/
theorem trim_eq_self_iff : trim v = v ↔
    v.toList.dropWhile isWhitespace = v.toList ∧ v.toList.rdropWhile isWhitespace = v.toList := by
  rw [← String.toList_inj, toList_trim]
  constructor
  · intro h
    have hsuffix := List.dropWhile_suffix isWhitespace (l := v.toList)
    have hprefix := List.rdropWhile_prefix isWhitespace (v.toList.dropWhile isWhitespace)
    rw [h] at hprefix
    have hstart := hsuffix.eq_of_length_le hprefix.length_le
    rw [hstart] at h
    exact ⟨hstart, h⟩
  · rintro ⟨hstart, hend⟩
    rw [hstart, hend]

/-- A header line as the fixture pads it. -/
theorem classify_header {padded : String}
    (hstart : padded.toList.head?.all (!isWhitespace ·) = true)
    (hne : padded ≠ "") (hcolon : ':' ∉ padded.toList) (hkey : trimEnd padded = key.display)
    (hv : trim v = v) : classify ("# " ++ padded ++ ": " ++ v) = .header key v := by
  obtain ⟨hvstart, hvend⟩ := trim_eq_self_iff.mp hv
  obtain ⟨p, ps, hp⟩ : ∃ p ps, padded.toList = p :: ps := by
    cases hp : padded.toList with
    | nil => exact absurd (String.toList_injective hp) hne
    | cons p ps => exact ⟨p, ps, rfl⟩
  have hpwhite : isWhitespace p = false := by simpa [hp] using hstart
  have hcolonwhite : isWhitespace ':' = false := by decide
  rw [classify_eq_header_iff]
  refine ⟨" " ++ padded ++ ": " ++ v, padded, String.ofList ((' ' :: v.toList).rdropWhile
    isWhitespace), by simp, ?_, hcolon, hkey, ?_⟩
  · have hleft : (" " ++ padded ++ ": " ++ v).toList.dropWhile isWhitespace =
        padded.toList ++ ':' :: ' ' :: v.toList := by
      have hspace : isWhitespace ' ' = true := by decide
      simp [hp, hspace, hpwhite]
    rw [toList_trim, hleft, rdropWhile_append_cons hcolonwhite, String.toList_ofList]
  · apply String.toList_injective
    rw [toList_trim, String.toList_ofList]
    have hspace : isWhitespace ' ' = true := by decide
    cases hlist : v.toList with
    | nil => decide
    | cons c cs =>
      rw [hlist] at hvstart hvend
      have hkept : (' ' :: c :: cs).rdropWhile isWhitespace = ' ' :: c :: cs := by
        rw [List.rdropWhile_eq_self_iff] at hvend ⊢
        intro hne
        exact hvend (List.cons_ne_nil c cs)
      rw [hkept, List.dropWhile_cons_of_pos hspace, hvstart, hvend]

/-- A digit, a dot or a slash. -/
def IsNetworkChar (c : Char) : Prop := 0x2E ≤ c.toNat ∧ c.toNat ≤ 0x39

theorem IsNetworkChar.not_white (h : IsNetworkChar c) : isWhitespace c = false := by
  obtain ⟨hlow, hhigh⟩ := h
  simp only [isWhitespace, Bool.or_eq_false_iff, Bool.and_eq_false_iff, decide_eq_false_iff_not,
    beq_eq_false_iff_ne]
  omega

theorem decimal_chars (n : Nat) : ∀ c ∈ decimal n, IsNetworkChar c ∧ c ≠ '/' := by
  intro c hc
  have hdigit : c.isDigit = true := Nat.isDigit_of_mem_toDigits (by decide) (by decide) hc
  obtain ⟨hlow, hhigh⟩ := Char.isDigit_iff_toNat.mp hdigit
  refine ⟨⟨le_trans (by decide) hlow, le_trans hhigh (by decide)⟩, ?_⟩
  rintro rfl
  exact absurd hlow (by decide)

theorem dottedFrom_chars (index : Nat) (os : List Nat) :
    ∀ c ∈ dottedFrom index os, IsNetworkChar c ∧ c ≠ '/' := by
  induction os generalizing index with
  | nil => cases index <;> simp [dottedFrom]
  | cons o os ih =>
    intro c hc
    cases index with
    | zero =>
      rcases List.mem_append.mp hc with hc | hc
      · exact decimal_chars o c hc
      · exact ih 1 c hc
    | succ index =>
      rcases List.mem_cons.mp hc with rfl | hc
      · exact ⟨⟨by decide, by decide⟩, by decide⟩
      · rcases List.mem_append.mp hc with hc | hc
        · exact decimal_chars o c hc
        · exact ih (index + 2) c hc

theorem networkText_chars (network : Ipv4Net) :
    ∀ c ∈ (Fixture.networkText network).toList, IsNetworkChar c := by
  intro c hc
  unfold Fixture.networkText at hc
  split at hc
  · exact (dottedFrom_chars 0 _ c (by simpa [dotted] using hc)).1
  · simp only [String.toList_append, List.mem_append, dotted, String.toList_ofList] at hc
    obtain (hc | hc) | hc := hc
    · exact (dottedFrom_chars 0 _ c hc).1
    · obtain rfl : c = '/' := by simpa using hc
      exact ⟨by decide, by decide⟩
    · exact (decimal_chars _ c hc).1

theorem dotted_ne_empty (a : Ipv4Addr) : dotted a ≠ "" := by
  intro h
  have hnil : dottedFrom 0 (octets a) = [] := by
    simpa [dotted] using congrArg String.toList h
  have hdecimal : decimal (a.toNat / 0x1000000) = [] := (List.append_eq_nil_iff.mp hnil).1
  exact Nat.toDigits_ne_nil hdecimal

theorem networkText_ne_empty (network : Ipv4Net) : Fixture.networkText network ≠ "" := by
  intro h
  unfold Fixture.networkText at h
  split at h
  · exact dotted_ne_empty _ h
  · simp at h

theorem networkText_tidy (network : Ipv4Net) : Tidy (Fixture.networkText network) := by
  have hwhite : ∀ c ∈ (Fixture.networkText network).toList, ¬ isWhitespace c = true := by
    intro c hc
    simp [(networkText_chars network c hc).not_white]
  constructor
  · rw [trim_eq_self_iff, List.dropWhile_eq_self_iff, List.rdropWhile_eq_self_iff]
    exact ⟨fun hne => hwhite _ (List.getElem_mem hne), fun hne => hwhite _ (List.getLast_mem hne)⟩
  · intro hline
    exact hwhite _ hline (by decide)

theorem classify_networkText (network : Ipv4Net) :
    classify (Fixture.networkText network) = .entry (Fixture.networkText network) := by
  rw [classify_eq_entry_iff]
  refine ⟨?_, (networkText_tidy network).trimmed, networkText_ne_empty network⟩
  intro hhash
  obtain ⟨hlow, -⟩ := networkText_chars network '#' (List.mem_of_head? hhash)
  exact absurd hlow (by decide)

/-- Reading back a written network. -/
theorem parseNetwork_networkText (hP : P.Reads) (network : Ipv4Net) :
    parseNetwork P (Fixture.networkText network) = some network := by
  unfold Fixture.networkText
  split
  · rename_i hlen
    have hslash : '/' ∉ (dotted network.addr).toList := by
      intro h
      rw [dotted, String.toList_ofList] at h
      exact (dottedFrom_chars 0 _ '/' h).2 rfl
    obtain ⟨addr, prefixLen, hle⟩ := network
    obtain rfl : prefixLen = 32 := hlen
    rw [parseNetwork, if_neg hslash, hP.addr]
    rfl
  · rw [parseNetwork, if_pos (by simp), hP.cidr]

theorem Tidy.unbroken (h : Tidy v) : Unbroken v := by
  refine ⟨h.line, ?_⟩
  intro hlast
  obtain ⟨-, hend⟩ := trim_eq_self_iff.mp h.trimmed
  rw [List.rdropWhile_eq_self_iff] at hend
  have hne : v.toList ≠ [] := List.ne_nil_of_mem (List.mem_of_getLast? hlast)
  have hcr : v.toList.getLast hne = '\r' := by
    rw [List.getLast?_eq_some_getLast hne] at hlast
    exact Option.some.inj hlast
  exact hend hne (by rw [hcr]; decide)

theorem Unbroken.append {pre : String} (hpre : Unbroken pre) (h : Tidy v) :
    Unbroken (pre ++ v) := by
  constructor
  · rw [String.toList_append, List.mem_append, not_or]
    exact ⟨hpre.line, h.line⟩
  · rw [String.toList_append, List.getLast?_append]
    intro hlast
    rcases Option.or_eq_some_iff.mp hlast with hlast | ⟨-, hlast⟩
    · exact h.unbroken.last hlast
    · exact hpre.last hlast

theorem headerLines_unbroken (hname : Tidy fileName) (hcategory : Tidy category) :
    ∀ l ∈ Fixture.headerLines fileName category, Unbroken l := by
  intro l hl
  simp only [Fixture.headerLines, List.mem_cons, List.not_mem_nil, or_false] at hl
  obtain rfl | rfl | rfl | rfl | rfl | rfl | rfl := hl
  · exact ⟨by decide, by decide⟩
  · exact ⟨by decide, by decide⟩
  · exact Unbroken.append ⟨by decide, by decide⟩ hname
  · exact ⟨by decide, by decide⟩
  · exact ⟨by decide, by decide⟩
  · exact Unbroken.append ⟨by decide, by decide⟩ hcategory
  · exact ⟨by decide, by decide⟩

theorem entriesText_eq (networks : List Ipv4Net) :
    Fixture.entriesText networks = Fixture.withLines (networks.map Fixture.networkText) "" := by
  have hfold : ∀ text, networks.foldl (fun text network =>
      text ++ (Fixture.networkText network ++ "\n")) text =
        text ++ Fixture.withLines (networks.map Fixture.networkText) "" := by
    induction networks with
    | nil => simp [Fixture.withLines]
    | cons network networks ih =>
      intro text
      rw [List.foldl_cons, ih, String.append_assoc]
      rfl
  rw [Fixture.entriesText, hfold, String.empty_append]

theorem lines_content (hname : Tidy fileName) (hcategory : Tidy category)
    (networks : List Ipv4Net) :
    lines (Fixture.content fileName category (Fixture.entriesText networks)) =
      Fixture.headerLines fileName category ++ networks.map Fixture.networkText := by
  have hentries : ∀ l ∈ networks.map Fixture.networkText, Unbroken l := by
    intro l hl
    obtain ⟨network, -, rfl⟩ := List.mem_map.mp hl
    exact (networkText_tidy network).unbroken
  rw [Fixture.content, lines_withLines (headerLines_unbroken hname hcategory), entriesText_eq,
    lines_withLines hentries]
  simp [lines, linesFrom]

theorem updateHeader_nil (h : st.networks = []) (key : HeaderKey) (v : String) :
    updateHeader key v st = { st with metadata := key.setSlot v st.metadata } := by
  by_cases hv : key.slot st.metadata = v
  · subst hv
    simp [updateHeader]
  · simp [updateHeader, hv, h]

/-- The headers of a synthetic list. -/
def syntheticMetadata (fileName category : String) : Metadata where
  sourceFileDateRfc3339 := "2026-09-10T23:59:49+00:00"
  listSourceUrl := "https://example.invalid/" ++ fileName
  maintainerUrl := "https://example.invalid"
  maintainer := "spoa-bench"
  category := category

theorem parseLines_networks (hP : P.Reads) (index : Nat) (networks : List Ipv4Net)
    (st : ParseState) :
    parseLines P fileName index (networks.map Fixture.networkText) st =
      .ok { st with networks := st.networks ++ networks } := by
  induction networks generalizing index st with
  | nil => simp [parseLines]
  | cons network networks ih =>
    rw [List.map_cons, parseLines, parseLine_of_entry (classify_networkText network),
      parseNetwork_networkText hP]
    simp only [Option.elim_some]
    rw [ih]
    simp

theorem parseLines_ignored (h : classify l = .ignored) :
    parseLines P fileName index (l :: ls) st = parseLines P fileName (index + 1) ls st := by
  rw [parseLines, parseLine_of_ignored h]

theorem parseLines_header {raw : String} (h : classify l = .header key raw)
    (hvalue : key.value P raw = some v) (hnil : st.networks = []) :
    parseLines P fileName index (l :: ls) st =
      parseLines P fileName (index + 1) ls { st with metadata := key.setSlot v st.metadata } := by
  rw [parseLines, parseLine_of_header h, hvalue]
  simp only [Option.elim_some, updateHeader_nil hnil]

theorem Tidy.append {pre : String} (hpre : Tidy pre) (h : Tidy v) : Tidy (pre ++ v) := by
  obtain ⟨hstart, hend⟩ := trim_eq_self_iff.mp h.trimmed
  obtain ⟨hprestart, hpreend⟩ := trim_eq_self_iff.mp hpre.trimmed
  constructor
  · rw [trim_eq_self_iff, String.toList_append]
    constructor
    · cases hlist : pre.toList with
      | nil => exact hstart
      | cons p ps =>
        rw [hlist, List.dropWhile_eq_self_iff] at hprestart
        exact List.dropWhile_cons_of_neg (hprestart (Nat.succ_pos _))
    · obtain hlist | ⟨cs, c, hlist⟩ := List.eq_nil_or_concat v.toList
      · rw [hlist, List.append_nil]
        exact hpreend
      · rw [List.concat_eq_append] at hlist
        rw [hlist, List.rdropWhile_eq_self_iff] at hend
        rw [hlist, ← List.append_assoc]
        apply List.rdropWhile_concat_neg
        simpa using hend (by simp)
  · rw [String.toList_append, List.mem_append, not_or]
    exact ⟨hpre.line, h.line⟩

theorem classify_listSourceUrl (hname : Tidy fileName) :
    classify ("# List source URL : https://example.invalid/" ++ fileName) =
      .header .listSourceUrl ("https://example.invalid/" ++ fileName) := by
  have htidy : Tidy ("https://example.invalid/" ++ fileName) :=
    Tidy.append ⟨by decide, by decide⟩ hname
  have hline : classify ("# " ++ "List source URL " ++ ": " ++
      ("https://example.invalid/" ++ fileName)) =
        .header .listSourceUrl ("https://example.invalid/" ++ fileName) :=
    classify_header (by decide) (by decide) (by decide) (by decide) htidy.trimmed
  have hcut : "# List source URL : https://example.invalid/" =
      "# " ++ "List source URL " ++ ": " ++ "https://example.invalid/" := by decide
  rwa [← String.append_assoc, ← hcut] at hline

theorem classify_category (hcategory : Tidy category) :
    classify ("# Category        : " ++ category) = .header .category category := by
  have hline : classify ("# " ++ "Category        " ++ ": " ++ category) =
      .header .category category :=
    classify_header (by decide) (by decide) (by decide) (by decide) hcategory.trimmed
  have hcut : "# Category        : " = "# " ++ "Category        " ++ ": " := by decide
  rwa [← hcut] at hline

theorem parseLines_headerLines (hP : P.Reads) (hname : Tidy fileName) (hcategory : Tidy category) :
    parseLines P fileName 0 (Fixture.headerLines fileName category ++ ls) {} =
      parseLines P fileName 7 ls { metadata := syntheticMetadata fileName category } := by
  have hmaintainer : classify "# Maintainer      : spoa-bench" =
      .header .maintainer "spoa-bench" := by decide
  have hurl : classify "# Maintainer URL  : https://example.invalid" =
      .header .maintainerUrl "https://example.invalid" := by decide
  have hdate : classify "# Source File Date: Thu Sep 10 23:59:49 UTC 2026" =
      .header .sourceFileDate "Thu Sep 10 23:59:49 UTC 2026" := by decide
  have hhash : classify "#" = .ignored := by decide
  simp only [Fixture.headerLines, List.cons_append, List.nil_append]
  rw [parseLines_header hmaintainer rfl rfl, parseLines_header hurl rfl rfl,
    parseLines_header (classify_listSourceUrl hname) rfl rfl,
    parseLines_header hdate hP.date rfl, parseLines_ignored hhash,
    parseLines_header (classify_category hcategory) rfl rfl, parseLines_ignored hhash]
  rfl

/-- A synthetic list reads back as one section with its networks in order, or as no section when
there are none. -/
theorem parse_content (hP : P.Reads) (hname : Tidy fileName) (hcategory : Tidy category)
    (networks : List Ipv4Net) :
    parse P fileName (Fixture.content fileName category (Fixture.entriesText networks)) =
      .ok ⟨fileName, if networks = [] then [] else
        [⟨syntheticMetadata fileName category, networks⟩]⟩ := by
  rw [parse, lines_content hname hcategory, parseLines_headerLines hP hname hcategory,
    parseLines_networks hP]
  by_cases hnil : networks = [] <;> simp [ParseState.finish, hnil]

theorem ends_slash : EndsDigits 10 ('/' :: cs) := by
  intro c ds h
  obtain ⟨rfl, -⟩ := List.cons.inj h
  rfl

namespace Reference

/-- Addresses are read as `std` reads them, and networks as `ipnet` does, but for octets with
leading zeros, which it takes as well; dates as far as they are known. -/
def textParsers : Parsers where
  addr s :=
    match readIpv4Addr s.toList with
    | some (a, []) => some a
    | _ => none
  cidr s :=
    match readIpv4Addr s.toList with
    | some (a, '/' :: rest) =>
      match readNumber 10 2 33 true rest with
      | some (n, []) => if h : n ≤ 32 then some ⟨a, n, h⟩ else none
      | _ => none
    | _ => none
  sourceFileDate := sourceFileDate

theorem readNumber_prefixLen (h : n ≤ 32) : readNumber 10 2 33 true (decimal n) = some (n, []) := by
  have hall : ∀ n : Fin 33, readNumber 10 2 33 true (decimal n) = some (n.val, []) := by decide
  exact hall ⟨n, by omega⟩

theorem textParsers_reads : textParsers.Reads where
  addr a := by
    have hread := readIpv4Addr_dotted (a := a) ends_nil
    rw [List.append_nil] at hread
    simp [textParsers, dotted, hread]
  cidr network := by
    have hends : EndsDigits 10 ('/' :: decimal network.prefixLen) := ends_slash
    have hread := readIpv4Addr_dotted (a := network.addr) hends
    have htext : (dotted network.addr ++ "/" ++ String.ofList (decimal network.prefixLen)).toList =
        dottedFrom 0 (octets network.addr) ++ '/' :: decimal network.prefixLen := by
      simp [dotted]
    simp only [textParsers, htext, hread, readNumber_prefixLen network.prefixLen_le,
      dif_pos network.prefixLen_le]
  date := by decide

end Reference

theorem parse_content_two : parse Reference.textParsers "two.netset"
    (Fixture.content "two.netset" "abuse" (Fixture.entriesText
      [.ofAddr 0x01020304#32, ⟨0x0A000000#32, 8, by decide⟩])) =
        .ok ⟨"two.netset", [⟨syntheticMetadata "two.netset" "abuse",
          [.ofAddr 0x01020304#32, ⟨0x0A000000#32, 8, by decide⟩]⟩]⟩ :=
  parse_content Reference.textParsers_reads ⟨by decide, by decide⟩ ⟨by decide, by decide⟩
    [.ofAddr 0x01020304#32, ⟨0x0A000000#32, 8, by decide⟩]

end IpReputation
