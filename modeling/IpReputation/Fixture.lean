import IpReputation.Library.DistinctDraws
import IpReputation.ListText
import IpReputation.Startup
import IpReputation.Workload

/-! `fixture.rs`: the synthetic database of the benchmark, and the agent started on it. -/
namespace IpReputation.Fixture

variable {β : Type} {G : Geoip2 β}

def DEFAULT_CATEGORIES : String := "unroutable,abuse"

/-- The dropped categories, with the value of `BENCH_CATEGORIES`. -/
def categories (given : Option String) : List String :=
  commaItems (given.getD DEFAULT_CATEGORIES)

/-- `u32::MAX << (32 - prefix)`, which the bench profile shifts modulo the width. -/
def networkMask (prefixLen : Nat) : Ipv4Addr := BitVec.allOnes 32 <<< ((32 - prefixLen) % 32)

/-- `(rng.next_u64() as u32) & mask`. -/
def nextAddress (prefixLen : Nat) (rng : SplitMix64) : Ipv4Addr × SplitMix64 :=
  (rng.nextU64.1.setWidth 32 &&& networkMask prefixLen, rng.nextU64.2)

/-- The loop of `random_networks`, for `draws` rounds; `seen` is in the order of insertion. -/
def drawNetworks (count prefixLen : Nat) (hle : prefixLen ≤ 32) :
    (draws : Nat) → List Ipv4Addr → String → SplitMix64 →
      Option (List Ipv4Addr × String × SplitMix64)
  | 0, seen, text, rng => if seen.length < count then none else some (seen, text, rng)
  | draws + 1, seen, text, rng =>
    if seen.length < count then
      let (address, rng) := nextAddress prefixLen rng
      if address ∈ seen then drawNetworks count prefixLen hle draws seen text rng
      else
        drawNetworks count prefixLen hle draws (seen ++ [address])
          (text ++ (networkText ⟨address, prefixLen, hle⟩ ++ "\n")) rng
    else some (seen, text, rng)

/-- `random_networks`; `none` when the loop still runs after `draws` rounds. -/
def randomNetworks (draws count prefixLen : Nat) (hle : prefixLen ≤ 32) (rng : SplitMix64) :
    Option (String × SplitMix64) :=
  (drawNetworks count prefixLen hle draws [] "" rng).map fun r => (r.2.1, r.2.2)

def UNROUTABLE : String :=
  "0.0.0.0/8\n10.0.0.0/8\n100.64.0.0/10\n127.0.0.0/8\n169.254.0.0/16\n172.16.0.0/12\n" ++
    "192.0.0.0/24\n192.0.2.0/24\n192.168.0.0/16\n198.18.0.0/15\n198.51.100.0/24\n" ++
    "203.0.113.0/24\n224.0.0.0/4\n240.0.0.0/4\n"

/-! The prefix lengths of the drawn networks. -/

theorem hosts_le : 32 ≤ 32 := Nat.le_refl 32

theorem nets_le : 24 ≤ 32 := by omega

theorem wide_le : 20 ≤ 32 := by omega

/-- File name, category and entries of the four lists. -/
def lists (draws : Nat) : Option (List (String × String × String)) :=
  match randomNetworks draws 100000 32 hosts_le (SplitMix64.new 0x5EEDF1EE#64) with
  | none => none
  | some (hosts, rng) =>
    match randomNetworks draws 20000 24 nets_le rng with
    | none => none
    | some (nets, rng) =>
      match randomNetworks draws 20000 20 wide_le rng with
      | none => none
      | some (wide, _) => some [
          ("synthetic_unroutable.netset", "unroutable", UNROUTABLE),
          ("synthetic_abuse.ipset", "abuse", hosts),
          ("synthetic_abuse_nets.netset", "abuse", nets),
          ("synthetic_attacks.netset", "attacks", wide)]

inductive Panic
  | notAFile (p : Path)
  | tempDir
  | ipset (e : ParseError)
  | writeMmdb (e : BuildError)
  | absolutePath
  | load (p : Path) (e : LoadError)
  | runtime
  | listener
  | watcher (e : StartError)
  deriving DecidableEq

/-- The list file with its content; one that does not parse panics. -/
def parseList (P : Parsers) (list : String × String × String) : Except Panic Ipset :=
  (parse P list.1 (content list.1 list.2.1 list.2.2)).mapError .ipset

/-- `UNIX_EPOCH + Duration::from_secs(1_700_000_000)`. -/
def BUILD_EPOCH : SystemTime := 1700000000 * nanos

/-- What a start of the fixture meets, besides the agent's own surroundings. -/
structure Env (G : Geoip2 β) extends StartEnv G where
  benchMmdb : Option Path := none
  benchCategories : Option String := none
  /-- The process's own directory under `std::env::temp_dir()`. -/
  tempDir : Path
  createsTempDir : Bool := true
  writeFaults : WriteFaults β := {}
  now : SystemTime
  createsRuntime : Bool := true

/-- Where the database in use comes from. -/
inductive Database
  | benchMmdb
  | workingDirectory
  | synthetic (networks : Nat)
  deriving DecidableEq

/-- `Path::is_file` of a path that may be relative. -/
def Env.isFileAt (env : Env G) (path : Path) (fs : FileSystem β) : Bool :=
  match absolute env.currentDir path with
  | none => false
  | some path => env.isFile path fs

def LOCAL : Path := [.normal (osString "firehol.mmdb")]

variable [ByteString β]

/-- Builds the database at `path` and returns how many networks it has. -/
def syntheticDatabase (draws : Nat) (P : Parsers) (M : MmdbWriter β) (env : Env G) (path : Path)
    (fs : FileSystem β) : Option (Except Panic Nat × FileSystem β) :=
  match lists draws with
  | none => none
  | some lists =>
    match lists.mapM (parseList P) with
    | .error e => some (.error e, fs)
    | .ok ipsets =>
      let networks := (ipsets.map Ipset.networkCount).sum
      match IpReputation.writeMmdb M env.writeFaults env.now ipsets BUILD_EPOCH path ⟨fs, []⟩ with
      | (.error e, d) => some (.error (.writeMmdb e), d.fs)
      | (.ok _, d) => some (.ok networks, d.fs)

/-- The path and the kind of the database. -/
def locateOrBuildDatabase (draws : Nat) (P : Parsers) (M : MmdbWriter β) (env : Env G)
    (fs : FileSystem β) : Option (Except Panic (Path × Database) × FileSystem β) :=
  match env.benchMmdb with
  | some path =>
    if env.isFileAt path fs then some (.ok (path, .benchMmdb), fs)
    else some (.error (.notAFile path), fs)
  | none =>
    if env.isFileAt LOCAL fs then some (.ok (LOCAL, .workingDirectory), fs)
    else if !env.createsTempDir then some (.error .tempDir, fs)
    else
      let path := env.tempDir ++ [.normal (osString "synthetic.mmdb")]
      match absolute env.currentDir path with
      | none => some (.error .tempDir, fs)
      | some target =>
        match syntheticDatabase draws P M env target fs with
        | none => none
        | some (.error e, fs) => some (.error e, fs)
        | some (.ok networks, fs) => some (.ok (path, .synthetic networks), fs)

/-- The running agent. -/
structure Agent (G : Geoip2 β) where
  served : Served G
  mmdbPath : Path
  database : Database
  categories : List String

/-- `Fixture::filter`, which is the filter of the agent as well. -/
def Agent.filter (agent : Agent G) : IpFilter := ⟨agent.categories.toFinset, ∅⟩

/-- `Fixture::start`; `none` when no draw so far completes the synthetic lists. -/
def start (draws : Nat) (P : Parsers) (M : MmdbWriter β) (env : Env G) (fs : FileSystem β) :
    Option (Except Panic (Agent G) × FileSystem β) :=
  match locateOrBuildDatabase draws P M env fs with
  | none => none
  | some (.error e, fs) => some (.error e, fs)
  | some (.ok (path, database), fs) =>
    match absolute env.currentDir path with
    | none => some (.error .absolutePath, fs)
    | some mmdbPath =>
      match Mmdb.load env.lossy env.loadFaults mmdbPath fs ({} : Served G) with
      | (.error e, _) => some (.error (.load mmdbPath e), fs)
      | (.ok (), served) =>
        if !env.createsRuntime then some (.error .runtime, fs)
        else if !env.binds "127.0.0.1:0" then some (.error .listener, fs)
        else
          match MmdbWatcher.start env.toStartEnv mmdbPath with
          | .error e => some (.error (.watcher e), fs)
          | .ok () =>
            some (.ok ⟨served, mmdbPath, database, Fixture.categories env.benchCategories⟩, fs)

/-- What `random_networks` has drawn. -/
structure Drawn (count prefixLen : Nat) (addresses : List Ipv4Addr) : Prop where
  distinct : addresses.Nodup
  length : addresses.length = count
  masked : ∀ a ∈ addresses, a &&& networkMask prefixLen = a

/-- The networks of one prefix length. -/
def networks (prefixLen : Nat) (hle : prefixLen ≤ 32) (addresses : List Ipv4Addr) :
    List Ipv4Net := addresses.map (⟨·, prefixLen, hle⟩)

section Draws

omit [ByteString β]

variable {count n draws : Nat} {hle : n ≤ 32} {rng rng' : SplitMix64} {a : Ipv4Addr}
  {addresses : List Ipv4Addr} {text : String}

/-- The addresses without a bit below the prefix. -/
def masked (n : Nat) : Finset Ipv4Addr :=
  (Finset.range (2 ^ n)).image fun m => BitVec.ofNat 32 m <<< (32 - n)

theorem networkMask_of_pos (hpos : 0 < n) : networkMask n = BitVec.allOnes 32 <<< (32 - n) := by
  rw [networkMask, Nat.mod_eq_of_lt (by omega)]

theorem and_networkMask (hpos : 0 < n) (a : Ipv4Addr) :
    a &&& networkMask n = (a >>> (32 - n)) <<< (32 - n) := by
  apply BitVec.eq_of_getLsbD_eq
  intro i hi
  simp only [networkMask_of_pos hpos, BitVec.getLsbD_and, BitVec.getLsbD_shiftLeft,
    BitVec.getLsbD_allOnes, BitVec.getLsbD_ushiftRight]
  by_cases hlow : i < 32 - n
  · simp [hlow]
  · have hback : 32 - n + (i - (32 - n)) = i := by omega
    have hlt : i - (32 - n) < 32 := by omega
    simp [hlow, hback, hlt, hi]

theorem mem_masked (hpos : 0 < n) (hle : n ≤ 32) : a ∈ masked n ↔ a &&& networkMask n = a := by
  simp only [masked, Finset.mem_image, Finset.mem_range]
  constructor
  · rintro ⟨m, -, rfl⟩
    rw [networkMask_of_pos hpos, ← BitVec.shiftLeft_and_distrib, BitVec.and_allOnes]
  · intro h
    refine ⟨(a >>> (32 - n)).toNat, ?_, ?_⟩
    · rw [BitVec.toNat_ushiftRight, Nat.shiftRight_eq_div_pow]
      apply Nat.div_lt_of_lt_mul
      rw [← Nat.pow_add, Nat.sub_add_cancel hle]
      exact a.isLt
    · rw [BitVec.ofNat_toNat, BitVec.setWidth_eq, ← and_networkMask hpos, h]

theorem card_masked (hle : n ≤ 32) : (masked n).card = 2 ^ n := by
  have hvalue : ∀ m < 2 ^ n, (BitVec.ofNat 32 m <<< (32 - n)).toNat = m * 2 ^ (32 - n) := by
    intro m hm
    have hword : 2 ^ n * 2 ^ (32 - n) = 2 ^ 32 := by rw [← Nat.pow_add, Nat.add_sub_cancel' hle]
    have hlt : m * 2 ^ (32 - n) < 2 ^ 32 :=
      hword ▸ Nat.mul_lt_mul_of_pos_right hm (Nat.two_pow_pos _)
    have hm32 : m < 2 ^ 32 := hm.trans_le (Nat.pow_le_pow_right (by decide) hle)
    rw [BitVec.toNat_shiftLeft, BitVec.toNat_ofNat, Nat.mod_eq_of_lt hm32, Nat.shiftLeft_eq,
      Nat.mod_eq_of_lt hlt]
  rw [masked, Finset.card_image_of_injOn, Finset.card_range]
  intro m hm k hk hsame
  have hvalues := congrArg BitVec.toNat hsame
  simp only [Finset.coe_range, Set.mem_Iio] at hm hk
  rw [hvalue m hm, hvalue k hk] at hvalues
  exact Nat.eq_of_mul_eq_mul_right (Nat.two_pow_pos _) hvalues

/-- Each masked address comes up within a period of the generator. -/
theorem exists_draw (hpos : 0 < n) (hle : n ≤ 32) (ha : a ∈ masked n) (rng : SplitMix64) :
    ∃ k < 2 ^ 64, (nextAddress n (DistinctDraws.after (nextAddress n) k rng)).1 = a := by
  obtain ⟨k, ⟨hk, hword⟩, -⟩ := WordMixing.existsUnique_visit SplitMix64.mix_injective
    SplitMix64.golden_invertible (rng.state + SplitMix64.golden) (a.setWidth 64)
  refine ⟨k, hk, ?_⟩
  rw [← SplitMix64.nextU64_skip] at hword
  show (SplitMix64.skip k rng).nextU64.1.setWidth 32 &&& networkMask n = a
  rw [hword, BitVec.setWidth_setWidth_of_le a (by decide), BitVec.setWidth_eq]
  exact (mem_masked hpos hle).mp ha

theorem nextAddress_mem (hpos : 0 < n) (hle : n ≤ 32) (rng : SplitMix64) :
    (nextAddress n rng).1 ∈ masked n := by
  rw [mem_masked hpos hle, nextAddress, BitVec.and_assoc, BitVec.and_self]

theorem entriesText_concat (xs : List Ipv4Net) (x : Ipv4Net) :
    entriesText (xs ++ [x]) = entriesText xs ++ (networkText x ++ "\n") := by
  rw [entriesText, List.foldl_concat]
  rfl

/-- The text of the loop is that of the addresses seen. -/
theorem drawNetworks_eq (count : Nat) (hle : n ≤ 32) (draws : Nat) (seen : List Ipv4Addr)
    (rng : SplitMix64) :
    drawNetworks count n hle draws seen (entriesText (networks n hle seen)) rng =
      (DistinctDraws.collect (nextAddress n) count draws seen rng).map fun r =>
        (r.1, entriesText (networks n hle r.1), r.2) := by
  induction draws generalizing seen rng with
  | zero =>
    rw [drawNetworks, DistinctDraws.collect]
    split <;> rfl
  | succ draws ih =>
    rw [drawNetworks, DistinctDraws.collect]
    split
    · have htext : entriesText (networks n hle (seen ++ [(nextAddress n rng).1])) =
          entriesText (networks n hle seen) ++
            (networkText ⟨(nextAddress n rng).1, n, hle⟩ ++ "\n") := by
        rw [networks, List.map_append]
        exact entriesText_concat _ _
      dsimp only
      split
      · exact ih seen _
      · rw [← htext]
        exact ih _ _
    · rfl

theorem randomNetworks_eq (draws count : Nat) (rng : SplitMix64) :
    randomNetworks draws count n hle rng =
      (DistinctDraws.collect (nextAddress n) count draws [] rng).map fun r =>
        (entriesText (networks n hle r.1), r.2) := by
  have hdraw := drawNetworks_eq count hle draws [] rng
  rw [randomNetworks]
  rw [show entriesText (networks n hle []) = "" from rfl] at hdraw
  rw [hdraw, Option.map_map]
  rfl

theorem drawn_of_randomNetworks (hpos : 0 < n)
    (h : randomNetworks draws count n hle rng = some (text, rng')) :
    ∃ addresses, Drawn count n addresses ∧ text = entriesText (networks n hle addresses) := by
  rw [randomNetworks_eq, Option.map_eq_some_iff] at h
  obtain ⟨⟨addresses, last⟩, hcollect, hr⟩ := h
  obtain ⟨rfl, -⟩ := Prod.mk.inj hr
  obtain ⟨hnodup, hlen⟩ := DistinctDraws.collect_spec hcollect List.nodup_nil (Nat.zero_le count)
  have hmem := DistinctDraws.collect_mem hcollect (nextAddress_mem hpos hle) (by simp)
  exact ⟨addresses, ⟨hnodup, hlen, fun a ha => (mem_masked hpos hle).mp (hmem a ha)⟩, rfl⟩

/-- A period of the generator suffices for any number of networks that exist. -/
theorem randomNetworks_isSome (hpos : 0 < n) (hcount : count ≤ 2 ^ n)
    (hdraws : 2 ^ 64 ≤ draws) (rng : SplitMix64) :
    (randomNetworks draws count n hle rng).isSome := by
  rw [randomNetworks_eq, Option.isSome_map]
  apply DistinctDraws.collect_isSome (T := masked n)
  · rw [card_masked hle]
    exact hcount
  · intro a ha
    obtain ⟨k, hk, hdraw⟩ := exists_draw hpos hle ha rng
    exact .inr ⟨k, by omega, hdraw⟩

/-- The loop ends exactly when so many networks exist, and then with that many different ones. -/
theorem randomNetworks_ends_iff (count : Nat) (hpos : 0 < n) (hle : n ≤ 32) (rng : SplitMix64) :
    ((∃ draws, (randomNetworks draws count n hle rng).isSome) ↔ count ≤ 2 ^ n) ∧
      ∀ draws text rng', randomNetworks draws count n hle rng = some (text, rng') →
        ∃ addresses, Drawn count n addresses ∧ text = entriesText (networks n hle addresses) := by
  refine ⟨⟨?_, fun hcount => ⟨2 ^ 64, randomNetworks_isSome hpos hcount (Nat.le_refl _) rng⟩⟩,
    fun draws text rng' h => drawn_of_randomNetworks hpos h⟩
  rintro ⟨draws, hsome⟩
  rw [randomNetworks_eq, Option.isSome_map] at hsome
  obtain ⟨⟨addresses, rng'⟩, hcollect⟩ := Option.isSome_iff_exists.mp hsome
  rw [← card_masked hle]
  exact DistinctDraws.le_card_of_collect hcollect (nextAddress_mem hpos hle)

/-- The `/24` networks of the category `abuse`. -/
theorem randomNetworks_ends_iff_nets :
    ((∃ draws, (randomNetworks draws 20000 24 nets_le (SplitMix64.new 1#64)).isSome) ↔
      20000 ≤ 2 ^ 24) ∧
      ∀ draws text rng', randomNetworks draws 20000 24 nets_le (SplitMix64.new 1#64) =
        some (text, rng') → ∃ addresses, Drawn 20000 24 addresses ∧
          text = entriesText (networks 24 nets_le addresses) :=
  randomNetworks_ends_iff 20000 (by omega) nets_le (SplitMix64.new 1#64)

end Draws

/-- A list before it is written. -/
structure SyntheticList where
  fileName : String
  category : String
  networks : List Ipv4Net

/-- A range that is written out. -/
def range (addr : Ipv4Addr) (prefixLen : Fin 33) : Ipv4Net := ⟨addr, prefixLen, prefixLen.is_le⟩

/-- The ranges of `UNROUTABLE`. -/
def unroutable : List Ipv4Net := [range 0x00000000#32 8, range 0x0A000000#32 8,
  range 0x64400000#32 10, range 0x7F000000#32 8, range 0xA9FE0000#32 16, range 0xAC100000#32 12,
  range 0xC0000000#32 24, range 0xC0000200#32 24, range 0xC0A80000#32 16, range 0xC6120000#32 15,
  range 0xC6336400#32 24, range 0xCB007100#32 24, range 0xE0000000#32 4, range 0xF0000000#32 4]

def synthetic (hosts nets wide : List Ipv4Addr) : List SyntheticList := [
  ⟨"synthetic_unroutable.netset", "unroutable", unroutable⟩,
  ⟨"synthetic_abuse.ipset", "abuse", networks 32 hosts_le hosts⟩,
  ⟨"synthetic_abuse_nets.netset", "abuse", networks 24 nets_le nets⟩,
  ⟨"synthetic_attacks.netset", "attacks", networks 20 wide_le wide⟩]

/-- The networks have no address in common. -/
def Apart (x y : Ipv4Net) : Prop :=
  x.addr >>> (32 - min x.prefixLen y.prefixLen) ≠ y.addr >>> (32 - min x.prefixLen y.prefixLen)

instance (x y : Ipv4Net) : Decidable (Apart x y) := inferInstanceAs (Decidable (_ ≠ _))

theorem UNROUTABLE_eq : UNROUTABLE = entriesText unroutable := by decide +kernel

/-- What `parse` makes of a written list. -/
def SyntheticList.ipset (l : SyntheticList) : Ipset :=
  ⟨l.fileName, if l.networks = [] then [] else
    [⟨syntheticMetadata l.fileName l.category, l.networks⟩]⟩

def SyntheticList.texts (l : SyntheticList) : String × String × String :=
  (l.fileName, l.category, entriesText l.networks)

section Lists

omit [ByteString β]

variable {P : Parsers} {draws : Nat} {hosts nets wide : List Ipv4Addr} {ls : List SyntheticList}
  {texts : List (String × String × String)} {a : Ipv4Addr} {l : SyntheticList}

theorem lists_isSome (hdraws : 2 ^ 64 ≤ draws) : (lists draws).isSome := by
  have hsome : ∀ count n (hle : n ≤ 32) rng, 0 < n → count ≤ 2 ^ n →
      ∃ r, randomNetworks draws count n hle rng = some r :=
    fun _ _ _ rng hpos hcount =>
      Option.isSome_iff_exists.mp (randomNetworks_isSome hpos hcount hdraws rng)
  obtain ⟨⟨hosts, rng⟩, hhosts⟩ := hsome 100000 32 hosts_le (SplitMix64.new 0x5EEDF1EE#64)
    (by omega) (by omega)
  obtain ⟨⟨nets, rng'⟩, hnets⟩ := hsome 20000 24 nets_le rng (by omega) (by omega)
  obtain ⟨⟨wide, last⟩, hwide⟩ := hsome 20000 20 wide_le rng' (by omega) (by omega)
  rw [lists, hhosts]
  dsimp only
  rw [hnets]
  dsimp only
  rw [hwide]
  rfl

theorem lists_eq (h : lists draws = some texts) : ∃ hosts nets wide, Drawn 100000 32 hosts ∧
    Drawn 20000 24 nets ∧ Drawn 20000 20 wide ∧
      texts = (synthetic hosts nets wide).map SyntheticList.texts := by
  simp only [lists] at h
  split at h
  · cases h
  · rename_i hhosts
    split at h
    · cases h
    · rename_i hnets
      split at h
      · cases h
      · rename_i hwide
        obtain ⟨hosts, hdrawnHosts, rfl⟩ := drawn_of_randomNetworks (by omega) hhosts
        obtain ⟨nets, hdrawnNets, rfl⟩ := drawn_of_randomNetworks (by omega) hnets
        obtain ⟨wide, hdrawnWide, rfl⟩ := drawn_of_randomNetworks (by omega) hwide
        refine ⟨hosts, nets, wide, hdrawnHosts, hdrawnNets, hdrawnWide, ?_⟩
        rw [← Option.some.inj h, UNROUTABLE_eq]
        rfl

theorem parseList_texts (hP : P.Reads) (hname : Tidy l.fileName) (hcategory : Tidy l.category) :
    parseList P l.texts = .ok l.ipset := by
  have hparse := parse_content hP hname hcategory l.networks
  rw [parseList, SyntheticList.texts]
  dsimp only
  rw [hparse]
  rfl

theorem mapM_texts (hP : P.Reads) (htidy : ∀ l ∈ ls, Tidy l.fileName ∧ Tidy l.category) :
    (ls.map SyntheticList.texts).mapM (parseList P) = .ok (ls.map SyntheticList.ipset) := by
  induction ls with
  | nil => rfl
  | cons l ls ih =>
    obtain ⟨hname, hcategory⟩ := htidy l List.mem_cons_self
    have hrest := ih fun l' hl' => htidy l' (List.mem_cons_of_mem l hl')
    rw [List.map_cons, List.mapM_cons, parseList_texts hP hname hcategory, hrest]
    rfl

theorem synthetic_tidy : ∀ l ∈ synthetic hosts nets wide, Tidy l.fileName ∧ Tidy l.category := by
  intro l hl
  simp only [synthetic, List.mem_cons, List.not_mem_nil, or_false] at hl
  obtain rfl | rfl | rfl | rfl := hl <;>
    (refine ⟨⟨?_, ?_⟩, ⟨?_, ?_⟩⟩ <;> dsimp only <;> decide)

theorem SyntheticList.networkCount (l : SyntheticList) :
    l.ipset.networkCount = l.networks.length := by
  by_cases hnil : l.networks = [] <;> simp [SyntheticList.ipset, Ipset.networkCount, hnil]

/-- The number of networks that the benchmark prints. -/
theorem networkCount_synthetic (hhosts : Drawn 100000 32 hosts) (hnets : Drawn 20000 24 nets)
    (hwide : Drawn 20000 20 wide) :
    (((synthetic hosts nets wide).map SyntheticList.ipset).map Ipset.networkCount).sum =
      140014 := by
  rw [List.map_map]
  simp only [synthetic, List.map_cons, List.map_nil, Function.comp_apply,
    SyntheticList.networkCount, networks, List.length_map, hhosts.length, hnets.length,
    hwide.length]
  rfl

theorem mem_occurrences_ipset {o : Occurrence} : o ∈ l.ipset.occurrences ↔
    o.fileName = l.fileName ∧ o.metadata = syntheticMetadata l.fileName l.category ∧
      o.network ∈ l.networks := by
  rw [mem_ipset_occurrences]
  by_cases hnil : l.networks = []
  · simp [SyntheticList.ipset, Ipset.entries, hnil]
  · simp [SyntheticList.ipset, Ipset.entries, sectionEntries, hnil, and_comm, eq_comm]

/-- The categories of the lists that cover an address. -/
theorem exists_covering_category {categories : Finset String} :
    (∃ o ∈ covering (ls.map SyntheticList.ipset) a,
      o.metadata.category ∈ categories ∨ o.fileName ∈ (∅ : Finset String)) ↔
    ∃ l ∈ ls, l.category ∈ categories ∧ ∃ network ∈ l.networks, network.contains a = true := by
  simp only [covering, occurrences, List.mem_filter, List.mem_flatMap, List.mem_map,
    Finset.notMem_empty, or_false]
  constructor
  · rintro ⟨o, ⟨⟨_, ⟨l, hl, rfl⟩, ho⟩, hcontains⟩, hcategory⟩
    obtain ⟨-, hmetadata, hnetwork⟩ := mem_occurrences_ipset.mp ho
    rw [hmetadata] at hcategory
    exact ⟨l, hl, hcategory, o.network, hnetwork, hcontains⟩
  · rintro ⟨l, hl, hcategory, network, hnetwork, hcontains⟩
    exact ⟨⟨l.fileName, syntheticMetadata l.fileName l.category, network⟩,
      ⟨⟨_, ⟨l, hl, rfl⟩, mem_occurrences_ipset.mpr ⟨rfl, rfl, hnetwork⟩⟩, hcontains⟩, hcategory⟩

/-- A shorter prefix of an address is one of its longer prefixes. -/
theorem shift_of_contains {x : Ipv4Net} {m : Nat} (h : x.contains a = true)
    (hm : m ≤ x.prefixLen) : a >>> (32 - m) = x.addr >>> (32 - m) := by
  have hprefix : a >>> (32 - x.prefixLen) = x.addr >>> (32 - x.prefixLen) := beq_iff_eq.mp h
  have hle := x.prefixLen_le
  have hsum : 32 - m = (32 - x.prefixLen) + (x.prefixLen - m) := by omega
  rw [hsum, BitVec.shiftRight_add, BitVec.shiftRight_add, hprefix]

theorem Apart.not_contains {x y : Ipv4Net} (h : Apart x y) (hx : x.contains a = true) :
    ¬ y.contains a = true := by
  intro hy
  apply h
  rw [← shift_of_contains hx (Nat.min_le_left _ _), ← shift_of_contains hy (Nat.min_le_right _ _)]

/-- Of networks that are pairwise apart at most one contains an address. -/
theorem length_contains_le_one {ns : List Ipv4Net} (h : ns.Pairwise Apart) :
    (ns.filter (·.contains a)).length ≤ 1 := by
  have hfiltered := h.filter (·.contains a)
  match hns : ns.filter (·.contains a) with
  | [] | [_] => simp [hns]
  | x :: y :: rest =>
    rw [hns] at hfiltered
    have hx : x ∈ ns.filter (·.contains a) := by simp [hns]
    have hy : y ∈ ns.filter (·.contains a) := by simp [hns]
    have hapart : Apart x y := List.rel_of_pairwise_cons hfiltered List.mem_cons_self
    exact absurd (List.mem_filter.mp hy).2 (hapart.not_contains (List.mem_filter.mp hx).2)

theorem Drawn.pairwise_apart {count n : Nat} (hle : n ≤ 32) (hpos : 0 < n)
    (h : Drawn count n hosts) : (networks n hle hosts).Pairwise Apart := by
  rw [networks, List.pairwise_map]
  refine List.Pairwise.imp_of_mem ?_ h.distinct
  intro a b ha hb hne hsame
  apply hne
  rw [Nat.min_self] at hsame
  rw [← h.masked a ha, ← h.masked b hb, and_networkMask hpos, and_networkMask hpos, hsame]

theorem unroutable_apart : unroutable.Pairwise Apart := by decide

theorem covering_map_ipset_length (ls : List SyntheticList) (a : Ipv4Addr) :
    (covering (ls.map SyntheticList.ipset) a).length =
      (ls.map fun l => (l.networks.filter (·.contains a)).length).sum := by
  induction ls with
  | nil => rfl
  | cons l ls ih =>
    have hl : (l.ipset.occurrences.filter fun o => o.network.contains a).length =
        (l.networks.filter (·.contains a)).length := by
      by_cases hnil : l.networks = []
      · simp [SyntheticList.ipset, Ipset.occurrences, hnil]
      · simp [SyntheticList.ipset, Ipset.occurrences, Section.occurrences, hnil,
          List.filter_map, Function.comp_def]
    simp only [covering, occurrences, List.map_cons, List.flatMap_cons, List.filter_append,
      List.length_append, List.sum_cons] at ih ⊢
    rw [hl, ih]

/-- No address is in more than one network of each list. -/
theorem covering_synthetic_le (hhosts : Drawn 100000 32 hosts) (hnets : Drawn 20000 24 nets)
    (hwide : Drawn 20000 20 wide) (a : Ipv4Addr) :
    (covering ((synthetic hosts nets wide).map SyntheticList.ipset) a).length ≤ 4 := by
  have h₀ := length_contains_le_one (a := a) unroutable_apart
  have h₁ := length_contains_le_one (a := a) (hhosts.pairwise_apart hosts_le (by omega))
  have h₂ := length_contains_le_one (a := a) (hnets.pairwise_apart nets_le (by omega))
  have h₃ := length_contains_le_one (a := a) (hwide.pairwise_apart wide_le (by omega))
  rw [covering_map_ipset_length]
  simp only [synthetic, List.map_cons, List.map_nil, List.sum_cons, List.sum_nil]
  omega

end Lists

section Start

variable {P : Parsers} {M : MmdbWriter β} {env : Env G} {draws : Nat} {fs fs' : FileSystem β}
  {path : Path} {agent : Agent G} {database : Database} {n : Nat} {e : Panic}

/-- The database is neither given nor found, so that it has to be made. -/
structure Missing (env : Env G) (fs : FileSystem β) : Prop where
  benchMmdb : env.benchMmdb = none
  workingDirectory : env.isFileAt LOCAL fs = false

theorem syntheticDatabase_cases (env : Env G) {texts : List (String × String × String)}
    {ipsets : List Ipset}
    (htexts : lists draws = some texts) (hparse : texts.mapM (parseList P) = .ok ipsets)
    (path : Path) (fs : FileSystem β) :
    (∃ e d, syntheticDatabase draws P M env path fs = some (.error (.writeMmdb e), d)) ∨
      ∃ size d, IpReputation.writeMmdb M env.writeFaults env.now ipsets BUILD_EPOCH path ⟨fs, []⟩ =
          (.ok size, d) ∧
        syntheticDatabase draws P M env path fs =
          some (.ok (ipsets.map Ipset.networkCount).sum, d.fs) := by
  simp only [syntheticDatabase, htexts, hparse]
  split
  · exact .inl ⟨_, _, rfl⟩
  · rename_i size d hwrite
    exact .inr ⟨size, d, hwrite, rfl⟩

/-- The database that is made is that of the drawn lists; none of them fails to parse. -/
theorem syntheticDatabase_drawn (env : Env G) (hP : P.Reads) (hdraws : 2 ^ 64 ≤ draws) (path : Path)
    (fs : FileSystem β) : ∃ hosts nets wide, Drawn 100000 32 hosts ∧ Drawn 20000 24 nets ∧
      Drawn 20000 20 wide ∧
      ((∃ e d, syntheticDatabase draws P M env path fs = some (.error (.writeMmdb e), d)) ∨
        ∃ size d, IpReputation.writeMmdb M env.writeFaults env.now
            ((synthetic hosts nets wide).map SyntheticList.ipset) BUILD_EPOCH path ⟨fs, []⟩ =
              (.ok size, d) ∧
          syntheticDatabase draws P M env path fs = some (.ok 140014, d.fs)) := by
  obtain ⟨texts, htexts⟩ := Option.isSome_iff_exists.mp (lists_isSome hdraws)
  obtain ⟨hosts, nets, wide, hhosts, hnets, hwide, rfl⟩ := lists_eq htexts
  have hcases := syntheticDatabase_cases (M := M) env htexts (mapM_texts hP synthetic_tidy) path fs
  rw [networkCount_synthetic hhosts hnets hwide] at hcases
  exact ⟨hosts, nets, wide, hhosts, hnets, hwide, hcases⟩

/-- Without a database the fixture makes one of its own or fails to write it. -/
theorem locate_cases (hP : P.Reads) (hdraws : 2 ^ 64 ≤ draws) (hmissing : Missing env fs) :
    (∃ e fs', locateOrBuildDatabase draws P M env fs = some (.error e, fs') ∧
      ∀ e', e ≠ .ipset e') ∨
    ∃ path target hosts nets wide size d, absolute env.currentDir path = some target ∧
      Drawn 100000 32 hosts ∧ Drawn 20000 24 nets ∧ Drawn 20000 20 wide ∧
      IpReputation.writeMmdb M env.writeFaults env.now
        ((synthetic hosts nets wide).map SyntheticList.ipset) BUILD_EPOCH target ⟨fs, []⟩ =
          (.ok size, d) ∧
      locateOrBuildDatabase draws P M env fs = some (.ok (path, .synthetic 140014), d.fs) := by
  simp only [locateOrBuildDatabase, hmissing.benchMmdb, hmissing.workingDirectory,
    Bool.false_eq_true, if_false]
  split
  · exact .inl ⟨_, _, rfl, by simp⟩
  · split
    · exact .inl ⟨_, _, rfl, by simp⟩
    · rename_i target htarget
      obtain ⟨hosts, nets, wide, hhosts, hnets, hwide, ⟨e, d, hmade⟩ | ⟨size, d, hwrite, hmade⟩⟩ :=
        syntheticDatabase_drawn (M := M) env hP hdraws target fs
      · rw [hmade]
        exact .inl ⟨_, _, rfl, by simp⟩
      · rw [hmade]
        exact .inr ⟨_, target, hosts, nets, wide, size, d, htarget, hhosts, hnets, hwide, hwrite,
          rfl⟩

/-- On a database the start gets a filter for it or panics, but not over a list. -/
theorem start_cases {target : Path}
    (hlocate : locateOrBuildDatabase draws P M env fs = some (.ok (path, database), fs'))
    (htarget : absolute env.currentDir path = some target) :
    (∃ e, start draws P M env fs = some (.error e, fs') ∧ ∀ e', e ≠ .ipset e') ∨
    ∃ served : Served G, Mmdb.load env.lossy env.loadFaults target fs' {} = (.ok (), served) ∧
      start draws P M env fs =
        some (.ok ⟨served, target, database, Fixture.categories env.benchCategories⟩, fs') := by
  simp only [start, hlocate, htarget]
  split
  · exact .inl ⟨_, rfl, by simp⟩
  · rename_i served hload
    split
    · exact .inl ⟨_, rfl, by simp⟩
    · split
      · exact .inl ⟨_, rfl, by simp⟩
      · split
        · exact .inl ⟨_, rfl, by simp⟩
        · exact .inr ⟨served, hload, rfl⟩

/-- The started agent blocks by the synthetic lists of the chosen categories alone. -/
structure Agent.BlocksSynthetic (agent : Agent G) (given : Option String)
    (hosts nets wide : List Ipv4Addr) : Prop where
  drawnHosts : Drawn 100000 32 hosts
  drawnNets : Drawn 20000 24 nets
  drawnWide : Drawn 20000 20 wide
  database : agent.database = .synthetic 140014
  categories : agent.categories = Fixture.categories given
  verdict : ∀ ip m, (agent.filter.shouldDrop agent.served.snapshot ip m).1 = true ↔
    ∃ a, ip = .v4 a ∧ ∃ l ∈ synthetic hosts nets wide, l.category ∈ Fixture.categories given ∧
      ∃ network ∈ l.networks, network.contains a = true

/-- Without a database at hand the start does not hang over the lists and none of them makes it
panic, and the agent blocks what the lists of its categories contain. -/
theorem start_synthetic (hM : M.Lawful) (hG : G.ReadsUpTo M 4) (hP : P.Reads)
    (hdraws : 2 ^ 64 ≤ draws) (hmissing : Missing env fs) :
    ∃ result fs', start draws P M env fs = some (result, fs') ∧
      (∀ e, result ≠ .error (.ipset e)) ∧
      ∀ agent, result = .ok agent → ∃ hosts nets wide,
        agent.BlocksSynthetic env.benchCategories hosts nets wide := by
  obtain ⟨e, fs', hlocate, he⟩ | ⟨path, target, hosts, nets, wide, size, d, htarget, hhosts, hnets,
    hwide, hwrite, hlocate⟩ := locate_cases (M := M) hP hdraws hmissing
  · refine ⟨.error e, fs', by simp only [start, hlocate], ?_, by simp⟩
    intro e' heq
    exact he e' (Except.error.inj heq)
  · obtain ⟨e, hstart, he⟩ | ⟨served, hload, hstart⟩ := start_cases hlocate htarget
    · refine ⟨.error e, d.fs, hstart, ?_, by simp⟩
      intro e' heq
      exact he e' (Except.error.inj heq)
    · refine ⟨_, d.fs, hstart, by simp, ?_⟩
      rintro agent hagent
      obtain rfl := Except.ok.inj hagent
      have hserved : ServesBuilt M G ((synthetic hosts nets wide).map SyntheticList.ipset) served :=
        ⟨_, _, _, _, _, _, _, _, _, _, hwrite, hload⟩
      refine ⟨hosts, nets, wide, hhosts, hnets, hwide, rfl, rfl, ?_⟩
      intro ip m
      rw [hserved.shouldDrop_upTo hM hG fun a _ => covering_synthetic_le hhosts hnets hwide a]
      simp only [Agent.filter, exists_covering_category]
      simp only [List.mem_toFinset]

open Reference in
/-- Nothing is on disk, and two categories are chosen. -/
def freshEnv : Env geoip2 where
  benchCategories := some "attacks, abuse"
  currentDir := some dataDir
  lossy _ := ""
  update := runEnv (bareCommit 1 1000) 2000
  tempDir := [.rootDir, .normal (osString "tmp"), .normal (osString "spoa-bench-1")]
  now := 2000 * nanos

open Reference in
theorem start_synthetic_fresh : ∃ result fs',
    start (2 ^ 64) textParsers mmdbWriter freshEnv (fun _ => none) = some (result, fs') ∧
      (∀ e, result ≠ .error (.ipset e)) ∧
      ∀ agent, result = .ok agent → ∃ hosts nets wide,
        agent.BlocksSynthetic (some "attacks, abuse") hosts nets wide :=
  start_synthetic mmdbWriter_lawful (geoip2_reads 4) textParsers_reads (Nat.le_refl _) ⟨rfl, rfl⟩

end Start

end IpReputation.Fixture
