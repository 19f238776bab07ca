import IpReputation.Verdict
import Mathlib.Data.List.DropRight
import Mathlib.Data.Finset.Dedup

/-! `cli.rs`: the drop sets the agent makes of its options. -/
namespace IpReputation

variable {β : Type} [ByteString β]

/-- The options `run` reads. -/
structure Cli where
  spoaListenAdressMetricsPrometheus : String
  mmdbPath : Path
  spoaListenAdress : String
  dropByCategory : List String
  dropByFileNames : List String
  fireholRepoPath : Path
  fireholRepoUrl : String
  fireholIgnoreCountry : Bool
  fireholUpdateCronJob : String
  fireholRepoBranch : String

/-- `clap` with `value_delimiter = ','`: an option that is absent has no value. -/
def delimited (given : Option String) : List String :=
  match given with
  | none => []
  | some s => split ',' s

/-- `cli` with these values given for `DROP_BY_CATEGORY` and `DROP_BY_FILE_NAMES`. -/
def Cli.withDrops (cli : Cli) (categories fileNames : Option String) : Cli :=
  { cli with dropByCategory := delimited categories, dropByFileNames := delimited fileNames }

/-- The filter `run` builds. -/
def Cli.filter (cli : Cli) : IpFilter := ⟨cli.dropByCategory.toFinset, cli.dropByFileNames.toFinset⟩

/-- The names an operator wrote. -/
def items (given : Option String) : Finset String :=
  match given with
  | none => ∅
  | some s => (commaItems s).toFinset

/-- No piece of the value is empty or has blanks around it. -/
def Clean (given : Option String) : Prop :=
  ∀ piece ∈ delimited given, piece ≠ "" ∧ trim piece = piece

/-- The option is absent or the empty string. -/
def Unset (given : Option String) : Prop := given = none ∨ given = some ""

/-- Dropping is driven only by names the operator wrote. -/
structure DropsOnlyWritten (M : MmdbWriter β) (G : Geoip2 β) (cli : Cli)
    (categories fileNames : Option String) : Prop where
  dropCategories : (cli.withDrops categories fileNames).filter.dropCategories = items categories
  dropFileNames : (cli.withDrops categories fileNames).filter.dropFileNames = items fileNames
  /-- A list without a category drops an address only by its name. -/
  uncategorised : ∀ ipsets served a m, ServesBuilt M G ipsets served →
    (∀ o ∈ covering ipsets a, o.metadata.category = "" ∧ o.fileName ∉ items fileNames) →
    ((cli.withDrops categories fileNames).filter.shouldDrop served.snapshot (.v4 a) m).1 = false
  nothing : Unset categories → Unset fileNames → ∀ ipsets served ip m,
    ServesBuilt M G ipsets served →
    ((cli.withDrops categories fileNames).filter.shouldDrop served.snapshot ip m).1 = false

variable {M : MmdbWriter β} {G : Geoip2 β} {s : String}
  {categories fileNames given : Option String}

theorem toList_trim (s : String) : (trim s).toList =
    (s.toList.dropWhile isWhitespace).rdropWhile isWhitespace := by
  simp [trim, trimEnd, trimStart, List.rdropWhile]

/-- Cutting the end of a list does not uncover a blank at its start. -/
theorem dropWhile_rdropWhile {l : List Char} (h : l.dropWhile isWhitespace = l) :
    (l.rdropWhile isWhitespace).dropWhile isWhitespace = l.rdropWhile isWhitespace := by
  obtain ⟨rest, hrest⟩ := List.rdropWhile_prefix isWhitespace l
  cases hr : l.rdropWhile isWhitespace with
  | nil => rfl
  | cons c cs =>
    rw [hr] at hrest
    rw [← hrest, List.cons_append] at h
    have hc : ¬ isWhitespace c = true := by
      intro hc
      rw [List.dropWhile_cons_of_pos hc] at h
      have hle := List.length_dropWhile_le isWhitespace (cs ++ rest)
      have hlen := congrArg List.length hrest
      rw [h] at hle
      simp only [List.length_append, List.length_cons] at hle hlen
      omega
    exact List.dropWhile_cons_of_neg hc

@[simp] theorem trim_trim (s : String) : trim (trim s) = trim s := by
  apply String.toList_injective
  have hstart := List.dropWhile_idempotent isWhitespace s.toList
  rw [toList_trim, toList_trim, dropWhile_rdropWhile hstart, List.rdropWhile_idempotent]

theorem mem_items :
    s ∈ items given ↔ s ≠ "" ∧ ∃ piece ∈ delimited given, trim piece = s := by
  cases given with
  | none => simp [items, delimited]
  | some given => simp [items, delimited, commaItems, and_comm]

/-- The pieces are the items exactly when no piece needs cleaning. -/
theorem toFinset_delimited_eq_items :
    (delimited given).toFinset = items given ↔ Clean given := by
  constructor
  · intro h piece hpiece
    have hitem : piece ∈ items given := h ▸ List.mem_toFinset.mpr hpiece
    obtain ⟨hne, q, -, rfl⟩ := mem_items.mp hitem
    exact ⟨hne, trim_trim q⟩
  · intro h
    ext s
    rw [List.mem_toFinset, mem_items]
    constructor
    · intro hs
      exact ⟨(h s hs).1, s, hs, (h s hs).2⟩
    · rintro ⟨-, piece, hpiece, rfl⟩
      rwa [(h piece hpiece).2]

theorem empty_notMem_items : "" ∉ items given := by
  simp [mem_items]

theorem items_of_unset (h : Unset given) : items given = ∅ := by
  rcases h with rfl | rfl <;> rfl

/-- A filter with the written names drops an address only through a list that bears one. -/
theorem shouldDrop_items {ipsets : List Ipset}
    {served : Served G} {ip : IpAddr} {m : Metrics} (hM : M.Lawful) (hG : G.Reads M)
    (hs : ServesBuilt M G ipsets served)
    (h : ∀ a, ip = .v4 a → ∀ o ∈ covering ipsets a,
      o.metadata.category ∉ items categories ∧ o.fileName ∉ items fileNames) :
    ((⟨items categories, items fileNames⟩ : IpFilter).shouldDrop served.snapshot ip m).1 =
      false := by
  rw [← Bool.not_eq_true, hs.shouldDrop hM hG]
  rintro ⟨a, rfl, o, ho, hdrop⟩
  exact hdrop.elim (h a rfl o ho).1 (h a rfl o ho).2

/-- Only the written names drop anything exactly when neither option has a piece that is empty
or has blanks around it. -/
theorem dropsOnlyWritten_iff {cli : Cli} (hM : M.Lawful)
    (hG : G.Reads M) :
    DropsOnlyWritten M G cli categories fileNames ↔ Clean categories ∧ Clean fileNames := by
  constructor
  · intro h
    exact ⟨toFinset_delimited_eq_items.mp h.dropCategories,
      toFinset_delimited_eq_items.mp h.dropFileNames⟩
  · rintro ⟨hc, hf⟩
    have hfilter : (cli.withDrops categories fileNames).filter =
        ⟨items categories, items fileNames⟩ := by
      simp only [Cli.filter, Cli.withDrops, toFinset_delimited_eq_items.mpr hc,
        toFinset_delimited_eq_items.mpr hf]
    refine ⟨by rw [hfilter], by rw [hfilter], ?_, ?_⟩
    · intro ipsets served a m hs hcover
      rw [hfilter]
      apply shouldDrop_items hM hG hs
      rintro b hb o ho
      obtain rfl := IpAddr.v4.inj hb
      obtain ⟨hcategory, hname⟩ := hcover o ho
      exact ⟨hcategory ▸ empty_notMem_items, hname⟩
    · intro hcu hfu ipsets served ip m hs
      rw [hfilter]
      apply shouldDrop_items hM hG hs
      intro a _ o _
      simp [items_of_unset hcu, items_of_unset hfu]

/-- Defaults of `Cli`, before the drop options. -/
def exampleCli : Cli where
  spoaListenAdressMetricsPrometheus := "0.0.0.0:8405"
  mmdbPath := [.normal (osString "firehol.mmdb")]
  spoaListenAdress := "0.0.0.0:9000"
  dropByCategory := []
  dropByFileNames := []
  fireholRepoPath := [.normal (osString "firehol-blocklist-ipsets")]
  fireholRepoUrl := "https://github.com/firehol/blocklist-ipsets.git"
  fireholIgnoreCountry := true
  fireholUpdateCronJob := "@hourly"
  fireholRepoBranch := "master"

theorem dropsOnlyWritten_example :
    DropsOnlyWritten Reference.mmdbWriter Reference.geoip2 exampleCli (some "abuse,spam") none :=
  (dropsOnlyWritten_iff Reference.mmdbWriter_lawful Reference.geoip2_reads).mpr
    ⟨by unfold Clean; decide, by unfold Clean; decide⟩

/-- One list without any header. -/
def bareIpset : Ipset := ⟨"bare.ipset", [⟨{}, [.ofAddr 0x01020304#32]⟩]⟩

def bareDisk : Disk Reference.Bytes :=
  (writeMmdb Reference.mmdbWriter {} 7 [bareIpset] 0 fireholMmdb ⟨fun _ => none, []⟩).2

def bareServed : Served Reference.geoip2 :=
  (Mmdb.load (fun _ => "firehol.mmdb") {} fireholMmdb bareDisk.fs {}).2

/-- With both options empty `1.2.3.4` of the bare list is dropped: the empty string is among the
drop categories, and it is the category stored for the list. -/
theorem not_dropsOnlyWritten_empty :
    ¬ DropsOnlyWritten Reference.mmdbWriter Reference.geoip2 exampleCli (some "") (some "") := by
  intro h
  have hserved : ServesBuilt Reference.mmdbWriter Reference.geoip2 [bareIpset] bareServed :=
    ⟨{}, 7, 0, fireholMmdb, ⟨fun _ => none, []⟩, 1, bareDisk, fun _ => "firehol.mmdb", {}, {},
      rfl, rfl⟩
  have hpass := h.nothing (.inr rfl) (.inr rfl) [bareIpset] bareServed (.v4 0x01020304#32) {}
    hserved
  exact absurd hpass (by decide)

end IpReputation
