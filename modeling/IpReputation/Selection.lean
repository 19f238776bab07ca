import IpReputation.GitTree

/-! Which blobs of a tree the walk selects, read off an enumeration of all its entries. -/
namespace IpReputation

variable {ignoreCountry : Bool} {unreadable : Path → Bool} {dirs : List EntryName}
  {entry : TreeEntry} {entries tree : List TreeEntry} {w : Walk}

/-- An entry of a tree, and the directories below the root that enclose it, outermost first. -/
structure Located where
  dirs : List EntryName
  entry : TreeEntry

mutual

/-- An entry of the directory `dirs` and all it contains, depth first. -/
def locatedEntry (dirs : List EntryName) : TreeEntry → List Located
  | .tree (some name) entries =>
    ⟨dirs, .tree (some name) entries⟩ :: located (dirs ++ [name]) entries
  | .tree none entries => [⟨dirs, .tree none entries⟩]
  | .blob name content => [⟨dirs, .blob name content⟩]
  | .other name => [⟨dirs, .other name⟩]

def located (dirs : List EntryName) : List TreeEntry → List Located
  | [] => []
  | entry :: rest => locatedEntry dirs entry ++ located dirs rest

end

def dirPath (dirs : List EntryName) : Path := dirs.map fun name => .normal (osString name.name)

/-- A directory the walk does not enter. -/
def skippedDir (ignoreCountry : Bool) (name : EntryName) : Bool :=
  ignoreCountry && endsWith "_country" name.name

/-- None of the directories is skipped. -/
def entered (ignoreCountry : Bool) (dirs : List EntryName) : Bool :=
  dirs.all fun name => !skippedDir ignoreCountry name

/-- The path of a blob that is a list file outside the skipped directories. -/
def Located.selected (ignoreCountry : Bool) (x : Located) : Option Path :=
  match x.entry with
  | .blob (some name) _ =>
    if (endsWith ".ipset" name.name || endsWith ".netset" name.name) && entered ignoreCountry x.dirs
    then some (dirPath (x.dirs ++ [name]))
    else none
  | _ => none

/-- A reached entry without a UTF-8 name, or a directory to enter that cannot be read. -/
def Located.obstructs (ignoreCountry : Bool) (unreadable : Path → Bool) (x : Located) : Bool :=
  entered ignoreCountry x.dirs &&
    match x.entry with
    | .tree none _ | .blob none _ | .other none => true
    | .tree (some name) _ =>
      !skippedDir ignoreCountry name && unreadable (dirPath (x.dirs ++ [name]))
    | .blob (some _) _ | .other (some _) => false

/-- The selected paths in depth-first order. -/
def selection (ignoreCountry : Bool) (tree : List TreeEntry) : List Path :=
  (located [] tree).filterMap (Located.selected ignoreCountry)

theorem dirPath_push (dirs : List EntryName) (name : EntryName) :
    (dirPath dirs).push name = dirPath (dirs ++ [name]) := by
  simp [dirPath, Path.push]

mutual

/-- What an entry contains lies below the entry's own directories. -/
theorem locatedEntry_dirs {x : Located} (entry : TreeEntry) (dirs : List EntryName)
    (h : x ∈ locatedEntry dirs entry) : ∀ name ∈ dirs, name ∈ x.dirs := by
  intro d hd
  cases entry with
  | tree name entries =>
    cases name with
    | none =>
      obtain rfl := List.mem_singleton.mp h
      exact hd
    | some name =>
      rw [locatedEntry] at h
      rcases List.mem_cons.mp h with rfl | h
      · exact hd
      · exact located_dirs entries _ h d (List.mem_append_left _ hd)
  | blob name content | other name =>
    obtain rfl := List.mem_singleton.mp h
    exact hd

theorem located_dirs {x : Located} (entries : List TreeEntry) (dirs : List EntryName)
    (h : x ∈ located dirs entries) : ∀ name ∈ dirs, name ∈ x.dirs := by
  intro d hd
  cases entries with
  | nil => cases h
  | cons entry rest =>
    rw [located] at h
    rcases List.mem_append.mp h with h | h
    · exact locatedEntry_dirs entry dirs h d hd
    · exact located_dirs rest dirs h d hd

end

theorem selected_tree (ignoreCountry : Bool) (dirs : List EntryName) (name : Option EntryName)
    (entries : List TreeEntry) :
    Located.selected ignoreCountry ⟨dirs, .tree name entries⟩ = none := rfl

/-- Nothing below a skipped directory counts. -/
theorem not_entered_below {x : Located} {name : EntryName}
    (hskip : skippedDir ignoreCountry name = true) (h : x ∈ located (dirs ++ [name]) entries) :
    entered ignoreCountry x.dirs = false := by
  have hname : name ∈ x.dirs := located_dirs entries _ h name (by simp)
  rw [entered, List.all_eq_false]
  exact ⟨name, hname, by simp [hskip]⟩

theorem selected_of_not_entered {x : Located} (h : entered ignoreCountry x.dirs = false) :
    x.selected ignoreCountry = none := by
  unfold Located.selected
  split
  · simp [h]
  · rfl

theorem obstructs_of_not_entered {x : Located} (h : entered ignoreCountry x.dirs = false) :
    x.obstructs ignoreCountry unreadable = false := by
  simp [Located.obstructs, h]

/-- How a walk over part of a tree ends: with an error exactly when something there obstructs
it, and otherwise with the selected paths behind the files it already had. -/
def WalksTo (ignoreCountry : Bool) (unreadable : Path → Bool) (xs : List Located) (w : Walk)
    (r : Except CollectError Unit × Walk) : Prop :=
  (r.1 = .ok () ∧ (∀ x ∈ xs, x.obstructs ignoreCountry unreadable = false) ∧
    r.2.files = w.files ++ xs.filterMap (Located.selected ignoreCountry)) ∨
  ((∃ e, r.1 = .error e) ∧ ∃ x ∈ xs, x.obstructs ignoreCountry unreadable = true)

theorem walksTo_skipped {name : EntryName} (hskip : skippedDir ignoreCountry name = true) :
    WalksTo ignoreCountry unreadable (locatedEntry dirs (.tree (some name) entries)) w
      (.ok (), w) := by
  have hbelow : ∀ x ∈ located (dirs ++ [name]) entries, entered ignoreCountry x.dirs = false :=
    fun x hx => not_entered_below hskip hx
  left
  rw [locatedEntry]
  refine ⟨rfl, ?_, ?_⟩
  · intro x hx
    rcases List.mem_cons.mp hx with rfl | hx
    · simp [Located.obstructs, hskip]
    · exact obstructs_of_not_entered (hbelow x hx)
  · have hnone : (located (dirs ++ [name]) entries).filterMap (Located.selected ignoreCountry) =
        [] := List.filterMap_eq_nil_iff.mpr fun x hx => selected_of_not_entered (hbelow x hx)
    rw [List.filterMap_cons_none (selected_tree _ _ _ _), hnone, List.append_nil]

/-- The entry of a directory that is entered adds nothing of its own. -/
theorem walksTo_below {name : EntryName} {r : Except CollectError Unit × Walk}
    (hread : unreadable (dirPath (dirs ++ [name])) = false)
    (h : WalksTo ignoreCountry unreadable (located (dirs ++ [name]) entries) w r) :
    WalksTo ignoreCountry unreadable (locatedEntry dirs (.tree (some name) entries)) w r := by
  rw [locatedEntry]
  rcases h with ⟨hok, hclear, hfiles⟩ | ⟨herr, x, hx, hobs⟩
  · left
    refine ⟨hok, ?_, ?_⟩
    · intro x hx
      rcases List.mem_cons.mp hx with rfl | hx
      · simp [Located.obstructs, hread]
      · exact hclear x hx
    · rw [List.filterMap_cons_none (selected_tree _ _ _ _)]
      exact hfiles
  · exact .inr ⟨herr, x, List.mem_cons_of_mem _ hx, hobs⟩

mutual

theorem collectEntry_walksTo (entry : TreeEntry) (dirs : List EntryName) (w : Walk)
    (hw : w.prefixPath = dirPath dirs) (hd : entered ignoreCountry dirs = true) :
    WalksTo ignoreCountry unreadable (locatedEntry dirs entry) w
      (collectEntry ignoreCountry unreadable entry w) := by
  cases entry with
  | tree name entries =>
    cases name with
    | none =>
      exact .inr ⟨⟨_, rfl⟩, _, List.mem_singleton_self _, by simp [Located.obstructs, hd]⟩
    | some name =>
      rw [collectEntry, hw, dirPath_push]
      split
      · rename_i hskip
        exact walksTo_skipped hskip
      · rename_i hskip
        have hkeep : skippedDir ignoreCountry name = false := Bool.not_eq_true _ ▸ hskip
        split
        · rename_i hread
          refine .inr ⟨⟨_, rfl⟩, _, by rw [locatedEntry]; exact List.mem_cons_self, ?_⟩
          simp [Located.obstructs, hd, hkeep, hread]
        · rename_i hread
          have henter : entered ignoreCountry (dirs ++ [name]) = true := by
            simpa [entered, hkeep] using hd
          have hsub := collectRecursive_walksTo entries (dirs ++ [name])
            { w with prefixPath := dirPath (dirs ++ [name]) } rfl henter
          exact walksTo_below (Bool.not_eq_true _ ▸ hread) hsub
  | blob name content =>
    cases name with
    | none =>
      exact .inr ⟨⟨_, rfl⟩, _, List.mem_singleton_self _, by simp [Located.obstructs, hd]⟩
    | some name =>
      rw [collectEntry, hw, dirPath_push, isIpsetFile]
      split
      · rename_i hfile
        left
        refine ⟨rfl, ?_, ?_⟩
        · simp [locatedEntry, Located.obstructs]
        · have hsel : Located.selected ignoreCountry ⟨dirs, .blob (some name) content⟩ =
              some (dirPath (dirs ++ [name])) := by
            simp [Located.selected, hfile, hd]
          rw [locatedEntry, List.filterMap_cons_some hsel, List.filterMap_nil]
      · rename_i hfile
        left
        refine ⟨rfl, ?_, ?_⟩
        · simp [locatedEntry, Located.obstructs]
        · have hsel : Located.selected ignoreCountry ⟨dirs, .blob (some name) content⟩ = none := by
            simp [Located.selected, hfile]
          rw [locatedEntry, List.filterMap_cons_none hsel, List.filterMap_nil, List.append_nil]
  | other name =>
    cases name with
    | none =>
      exact .inr ⟨⟨_, rfl⟩, _, List.mem_singleton_self _, by simp [Located.obstructs, hd]⟩
    | some name =>
      exact .inl ⟨rfl, by simp [locatedEntry, Located.obstructs],
        by simp [locatedEntry, Located.selected, collectEntry]⟩

theorem collectRecursive_walksTo (entries : List TreeEntry) (dirs : List EntryName) (w : Walk)
    (hw : w.prefixPath = dirPath dirs) (hd : entered ignoreCountry dirs = true) :
    WalksTo ignoreCountry unreadable (located dirs entries) w
      (collectRecursive ignoreCountry unreadable entries w) := by
  cases entries with
  | nil => exact .inl ⟨rfl, by simp [located], by simp [located, collectRecursive]⟩
  | cons entry rest =>
    have hentry := collectEntry_walksTo entry dirs w hw hd
    have hpath := collectEntry_prefixPath ignoreCountry unreadable entry w
    rw [collectRecursive, located]
    rcases hr : collectEntry ignoreCountry unreadable entry w with ⟨e | u, w₁⟩
    · rw [hr] at hentry
      rcases hentry with ⟨hok, _⟩ | ⟨_, x, hx, hobs⟩
      · cases hok
      · exact .inr ⟨⟨e, rfl⟩, x, List.mem_append_left _ hx, hobs⟩
    · rw [hr] at hentry hpath
      have hrest := collectRecursive_walksTo rest dirs w₁ (hpath.trans hw) hd
      rcases hentry with ⟨_, hclear, hfiles⟩ | ⟨⟨e, he⟩, _⟩
      · rcases hrest with ⟨hok, hclear', hfiles'⟩ | ⟨herr, x, hx, hobs⟩
        · left
          refine ⟨hok, ?_, ?_⟩
          · intro x hx
            rcases List.mem_append.mp hx with hx | hx
            · exact hclear x hx
            · exact hclear' x hx
          · rw [hfiles', hfiles, List.filterMap_append, List.append_assoc]
        · exact .inr ⟨herr, x, List.mem_append_right _ hx, hobs⟩
      · cases he

end

/-- The selection of list files in one tree, and what the walk leaves in its path buffer. -/
structure Selects (ignoreCountry : Bool) (unreadable : Path → Bool) (tree : List TreeEntry) :
    Prop where
  fails_iff : (∃ e, collectIpsetFiles ignoreCountry unreadable tree = .error e) ↔
    ∃ x ∈ located [] tree, x.obstructs ignoreCountry unreadable = true
  files_eq : ∀ files, collectIpsetFiles ignoreCountry unreadable tree = .ok files →
    files = selection ignoreCountry tree
  /-- On every return, of any call of the walk, the prefix is the one it was called with. -/
  prefixPath_eq : ∀ w, (collectRecursive ignoreCountry unreadable tree w).2.prefixPath =
    w.prefixPath

/-- The walk selects exactly the list files outside the skipped directories. -/
theorem collectIpsetFiles_selects (ignoreCountry : Bool) (unreadable : Path → Bool)
    (tree : List TreeEntry) : Selects ignoreCountry unreadable tree := by
  have hwalk : WalksTo ignoreCountry unreadable (located [] tree) ⟨[], []⟩
      (collectRecursive ignoreCountry unreadable tree ⟨[], []⟩) :=
    collectRecursive_walksTo tree [] ⟨[], []⟩ rfl rfl
  refine ⟨?_, ?_, collectRecursive_prefixPath ignoreCountry unreadable tree⟩
  · rcases hr : collectRecursive ignoreCountry unreadable tree ⟨[], []⟩ with ⟨e | u, w⟩
    · rw [hr] at hwalk
      rcases hwalk with ⟨hok, _⟩ | ⟨_, hobs⟩
      · cases hok
      · simp [collectIpsetFiles, hr, hobs]
    · rw [hr] at hwalk
      rcases hwalk with ⟨_, hclear, _⟩ | ⟨⟨e, he⟩, _⟩
      · simpa [collectIpsetFiles, hr] using hclear
      · cases he
  · intro files h
    simp only [collectIpsetFiles] at h
    rcases hr : collectRecursive ignoreCountry unreadable tree ⟨[], []⟩ with ⟨e | u, w⟩
    · simp [hr] at h
    · rw [hr] at hwalk h
      obtain rfl := Except.ok.inj h
      rcases hwalk with ⟨_, _, hfiles⟩ | ⟨⟨e, he⟩, _⟩
      · exact hfiles
      · cases he

end IpReputation
