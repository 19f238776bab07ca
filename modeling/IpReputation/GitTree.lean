import IpReputation.Path
import IpReputation.Text

/-! Git trees, and the walk of `firehol/mod.rs` that lists their blocklist files. -/
namespace IpReputation

/-- An entry name: git allows no empty name, no `/`, and neither `.` nor `..`. -/
structure EntryName where
  name : String
  nonempty : name ≠ ""
  no_slash : '/' ∉ name.toList
  no_dot : name ≠ "." ∧ name ≠ ".."
  deriving DecidableEq

/-- An entry of a git tree, by its object's type; no name stands for one that is not UTF-8. -/
inductive TreeEntry
  | tree (name : Option EntryName) (entries : List TreeEntry)
  | blob (name : Option EntryName) (content : List UInt8)
  | other (name : Option EntryName)

def COUNTRY_DIR_SUFFIX : String := "_country"

def isIpsetFile (name : String) : Bool := endsWith ".ipset" name || endsWith ".netset" name

/-- `PathBuf::push` of a single name. -/
def Path.push (p : Path) (name : EntryName) : Path := p ++ [.normal (osString name.name)]

/-- `PathBuf::pop`. -/
def Path.pop (p : Path) : Path := p.dropLast

inductive CollectError
  | nonUtf8Name
  | readTree (name : EntryName)
  deriving DecidableEq

/-- The two buffers the walk works on. -/
structure Walk where
  prefixPath : Path
  files : List Path
  deriving DecidableEq

mutual

/-- The body of the loop of `collect_recursive`; `unreadable` are the subtrees, by their path,
that the object database fails to give. -/
def collectEntry (ignoreCountry : Bool) (unreadable : Path → Bool) :
    TreeEntry → Walk → Except CollectError Unit × Walk
  | .tree none _, w | .blob none _, w | .other none, w => (.error .nonUtf8Name, w)
  | .tree (some name) entries, w =>
    if ignoreCountry && endsWith COUNTRY_DIR_SUFFIX name.name then (.ok (), w)
    else if unreadable (w.prefixPath.push name) then (.error (.readTree name), w)
    else
      let pushed : Walk := { w with prefixPath := w.prefixPath.push name }
      let (result, walked) := collectRecursive ignoreCountry unreadable entries pushed
      (result, { walked with prefixPath := walked.prefixPath.pop })
  | .blob (some name) _, w =>
    if isIpsetFile name.name then
      (.ok (), { w with files := w.files ++ [w.prefixPath.push name] })
    else (.ok (), w)
  | .other (some _), w => (.ok (), w)

def collectRecursive (ignoreCountry : Bool) (unreadable : Path → Bool) :
    List TreeEntry → Walk → Except CollectError Unit × Walk
  | [], w => (.ok (), w)
  | entry :: rest, w =>
    match collectEntry ignoreCountry unreadable entry w with
    | (.error e, w) => (.error e, w)
    | (.ok (), w) => collectRecursive ignoreCountry unreadable rest w

end

/-- Lists the `.ipset` and `.netset` blobs of a tree, relative to the repository root. -/
def collectIpsetFiles (ignoreCountry : Bool) (unreadable : Path → Bool)
    (tree : List TreeEntry) : Except CollectError (List Path) :=
  match collectRecursive ignoreCountry unreadable tree ⟨[], []⟩ with
  | (.error e, _) => .error e
  | (.ok (), w) => .ok w.files

mutual

/-- The blobs of an entry of the directory `dir`, by path. -/
def entryBlobs (dir : Path) : TreeEntry → List (Path × List UInt8)
  | .tree (some name) entries => treeBlobs (dir.push name) entries
  | .blob (some name) content => [(dir.push name, content)]
  | .tree none _ | .blob none _ | .other _ => []

def treeBlobs (dir : Path) : List TreeEntry → List (Path × List UInt8)
  | [] => []
  | entry :: rest => entryBlobs dir entry ++ treeBlobs dir rest

end

/-- The content a commit's tree gives to a path. -/
def contentAt (tree : List TreeEntry) (p : Path) : Option (List UInt8) :=
  (treeBlobs [] tree).lookup p

variable (ignoreCountry : Bool) (unreadable : Path → Bool) {p : Path}

mutual

/-- The walk leaves the prefix as it was, also when it fails. -/
theorem collectEntry_prefixPath (entry : TreeEntry) (w : Walk) :
    (collectEntry ignoreCountry unreadable entry w).2.prefixPath = w.prefixPath := by
  cases entry with
  | tree name entries =>
    cases name with
    | none => rfl
    | some name =>
      rw [collectEntry]
      split
      · rfl
      · split
        · rfl
        · simp [collectRecursive_prefixPath entries, Path.push, Path.pop]
  | blob name content =>
    cases name with
    | none => rfl
    | some name =>
      rw [collectEntry]
      split <;> rfl
  | other name => cases name <;> rfl

theorem collectRecursive_prefixPath (entries : List TreeEntry) (w : Walk) :
    (collectRecursive ignoreCountry unreadable entries w).2.prefixPath = w.prefixPath := by
  cases entries with
  | nil => rfl
  | cons entry rest =>
    have hentry := collectEntry_prefixPath entry w
    rw [collectRecursive]
    rcases hr : collectEntry ignoreCountry unreadable entry w with ⟨e | u, w₁⟩
    · rw [hr] at hentry
      exact hentry
    · rw [hr] at hentry
      exact (collectRecursive_prefixPath rest w₁).trans hentry

end

mutual

/-- What the walk adds are paths of blobs of the tree. -/
theorem collectEntry_mem (entry : TreeEntry) (w : Walk)
    (h : p ∈ (collectEntry ignoreCountry unreadable entry w).2.files) :
    p ∈ w.files ∨ p ∈ (entryBlobs w.prefixPath entry).map Prod.fst := by
  cases entry with
  | tree name entries =>
    cases name with
    | none => exact .inl h
    | some name =>
      rw [collectEntry] at h
      split at h
      · exact .inl h
      · split at h
        · exact .inl h
        · exact collectRecursive_mem entries _ h
  | blob name content =>
    cases name with
    | none => exact .inl h
    | some name =>
      rw [collectEntry] at h
      split at h
      · rcases List.mem_append.mp h with h | h
        · exact .inl h
        · exact .inr (by simpa [entryBlobs] using h)
      · exact .inl h
  | other name => cases name <;> exact .inl h

theorem collectRecursive_mem (entries : List TreeEntry) (w : Walk)
    (h : p ∈ (collectRecursive ignoreCountry unreadable entries w).2.files) :
    p ∈ w.files ∨ p ∈ (treeBlobs w.prefixPath entries).map Prod.fst := by
  cases entries with
  | nil => exact .inl h
  | cons entry rest =>
    have hpath := collectEntry_prefixPath ignoreCountry unreadable entry w
    have hentry := collectEntry_mem entry w
    rw [collectRecursive] at h
    rw [treeBlobs, List.map_append, List.mem_append]
    rcases hr : collectEntry ignoreCountry unreadable entry w with ⟨e | u, w₁⟩
    · rw [hr] at hentry h
      exact (hentry h).imp_right .inl
    · rw [hr] at hentry hpath h
      rcases collectRecursive_mem rest w₁ h with h | h
      · exact (hentry h).imp_right .inl
      · rw [hpath] at h
        exact .inr (.inr h)

end

mutual

/-- A walk that succeeds has not met an unreadable tree. -/
theorem collectEntry_readable (entry : TreeEntry) (w : Walk)
    (h : (collectEntry ignoreCountry unreadable entry w).1 = .ok ()) :
    collectEntry ignoreCountry (fun _ => false) entry w =
      collectEntry ignoreCountry unreadable entry w := by
  cases entry with
  | tree name entries =>
    cases name with
    | none => rfl
    | some name =>
      rw [collectEntry] at h
      rw [collectEntry, collectEntry]
      split
      · rfl
      · rename_i hskip
        rw [if_neg hskip] at h
        split at h
        · cases h
        · rename_i hread
          have hwalk := collectRecursive_readable entries
            { w with prefixPath := w.prefixPath.push name } h
          simp only [hwalk, if_neg hread, Bool.false_eq_true, if_false]
  | blob name content => cases name <;> rfl
  | other name => cases name <;> rfl

theorem collectRecursive_readable (entries : List TreeEntry) (w : Walk)
    (h : (collectRecursive ignoreCountry unreadable entries w).1 = .ok ()) :
    collectRecursive ignoreCountry (fun _ => false) entries w =
      collectRecursive ignoreCountry unreadable entries w := by
  cases entries with
  | nil => rfl
  | cons entry rest =>
    have hentry := collectEntry_readable entry w
    rw [collectRecursive] at h
    rw [collectRecursive, collectRecursive]
    rcases hr : collectEntry ignoreCountry unreadable entry w with ⟨e | u, w₁⟩
    · rw [hr] at h
      cases h
    · rw [hr] at h hentry
      rw [hentry rfl]
      exact collectRecursive_readable rest w₁ h

end

variable {ignoreCountry : Bool} {unreadable : Path → Bool}

theorem collectIpsetFiles_readable {tree : List TreeEntry} {files : List Path}
    (h : collectIpsetFiles ignoreCountry unreadable tree = .ok files) :
    collectIpsetFiles ignoreCountry (fun _ => false) tree = .ok files := by
  simp only [collectIpsetFiles] at h ⊢
  rcases hr : collectRecursive ignoreCountry unreadable tree ⟨[], []⟩ with ⟨e | u, w⟩
  · simp [hr] at h
  · rw [collectRecursive_readable ignoreCountry unreadable tree ⟨[], []⟩ (by rw [hr])]
    exact h

/-- Every collected file has a content in the tree. -/
theorem contentAt_of_collected {tree : List TreeEntry} {files : List Path}
    (h : collectIpsetFiles ignoreCountry unreadable tree = .ok files) (hp : p ∈ files) :
    ∃ content, contentAt tree p = some content := by
  simp only [collectIpsetFiles] at h
  rcases hr : collectRecursive ignoreCountry unreadable tree ⟨[], []⟩ with ⟨e | u, w⟩
  · simp [hr] at h
  · simp only [hr, Except.ok.injEq] at h
    subst h
    have hmem := collectRecursive_mem ignoreCountry unreadable tree ⟨[], []⟩ (by rw [hr]; exact hp)
    rcases hmem with hmem | hmem
    · cases hmem
    · rw [contentAt, ← Option.isSome_iff_exists, List.lookup_isSome_iff]
      obtain ⟨x, hx, rfl⟩ := List.mem_map.mp hmem
      exact ⟨x, hx, by simp⟩

end IpReputation
