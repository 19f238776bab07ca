import IpReputation.GitTree

/-! `git.rs`: the local clone of the blocklist repository. -/
namespace IpReputation

abbrev Oid := BitVec 160

/-- A commit with its committer time in Unix seconds and its tree. -/
structure Commit where
  id : Oid
  time : Int64
  tree : List TreeEntry

inductive RefTarget
  | direct (oid : Oid)
  | symbolic (name : String)
  deriving DecidableEq

/-- A repository on disk. -/
structure Clone where
  /-- The url recorded for the remote `origin`. -/
  origin : Option String
  refs : String → Option RefTarget
  head : String
  commits : Oid → Option Commit
  /-- What reading a path gives; `none` where it cannot be read. -/
  workTree : Path → Option (List UInt8)

/-- What `path` holds. -/
inductive RepoDir
  | missing
  | empty
  | notDirectory
  | otherFiles
  | repository (clone : Clone)

/-- `+source:target`. -/
structure Refspec where
  force : Bool
  source : String
  target : String
  deriving DecidableEq

/-- What each url serves under each reference name. -/
abbrev Servers := String → String → Option Commit

/-- `git2` during one run. Every operation may fail; those that change the clone also say what
they leave behind then. -/
structure Git2 where
  /-- `fs::read_dir` fails for another reason than a missing or an ordinary file. -/
  inspectFails : Bool
  openRepository : RepoDir → Option Clone
  /-- `RepoBuilder::clone` of a branch; a failure leaves some directory. -/
  clone : (url branch : String) → RepoDir → Except RepoDir Clone
  findRemote : Clone → Option String
  createRemote : (url : String) → Clone → Bool × Clone
  fetch : (url : String) → Refspec → Clone → Bool × Clone
  findReference : Clone → String → Option RefTarget
  findCommit : Clone → Oid → Option Commit
  reference : String → Oid → Clone → Bool × Clone
  setHead : String → Clone → Bool × Clone
  resetHard : Commit → Clone → Bool × Clone
  tree : Commit → Option (List TreeEntry)
  /-- Subtrees, by path, that the object database fails to give. -/
  unreadable : Path → Bool

def REMOTE_NAME : String := "origin"

def headsRef (branch : String) : String := s!"refs/heads/{branch}"

def remotesRef (branch : String) : String := s!"refs/remotes/{REMOTE_NAME}/{branch}"

/-- The remote-tracking name of `branch` leads to `tip`. -/
def Clone.Points (branch : String) (tip : Commit) (c : Clone) : Prop :=
  c.refs (remotesRef branch) = some (.direct tip.id) ∧ c.commits tip.id = some tip

/-- The clone knows what `url` serves for `branch`, under its remote-tracking name. -/
def Clone.Tracks (servers : Servers) (url branch : String) (c : Clone) : Prop :=
  ∃ tip, servers url (headsRef branch) = some tip ∧ c.Points branch tip

namespace Git2

/-- Lookups answer from what is on disk. -/
structure Lookups (g : Git2) : Prop where
  open_dir : ∀ dir c, g.openRepository dir = some c → dir = .repository c
  find_remote : ∀ c url, g.findRemote c = some url → c.origin = some url
  find_reference : ∀ c name target, g.findReference c name = some target →
    c.refs name = some target
  find_commit : ∀ c oid commit, g.findCommit c oid = some commit → c.commits oid = some commit

/-- A clone that succeeds has the tip of its url. A forced fetch that succeeds points the
remote-tracking name at the tip its url serves; where that url has no such branch it succeeds as
well, and the name stays as it was. -/
structure Transfers (g : Git2) (servers : Servers) : Prop where
  clone_tip : ∀ url branch dir c, g.clone url branch dir = .ok c →
    c.origin = some url ∧ c.Tracks servers url branch
  fetch_served : ∀ url branch tip c c', servers url (headsRef branch) = some tip →
    g.fetch url ⟨true, headsRef branch, remotesRef branch⟩ c = (true, c') → c'.Points branch tip
  fetch_missing : ∀ url branch c c', servers url (headsRef branch) = none →
    g.fetch url ⟨true, headsRef branch, remotesRef branch⟩ c = (true, c') →
    c'.refs (remotesRef branch) = c.refs (remotesRef branch) ∧ c'.commits = c.commits

/-- A remote is created only where there is none, and nothing else changes. -/
def CreatesRemote (g : Git2) : Prop :=
  ∀ url c c', g.createRemote url c = (true, c') →
    c.origin = none ∧ c'.refs = c.refs ∧ c'.commits = c.commits

/-- Assumed of publications, where a fetch returns the tip current at that time: one that succeeds
has found the branch. -/
def FindsBranch (g : Git2) (servers : Servers) : Prop :=
  ∀ url branch c c', g.fetch url ⟨true, headsRef branch, remotesRef branch⟩ c = (true, c') →
    servers url (headsRef branch) ≠ none

/-- A hard reset that succeeds lets every path of the commit's tree be read, with the content it
has there. The lists are regular files. -/
structure Checkouts (g : Git2) : Prop where
  reset_content : ∀ commit c c', g.resetHard commit c = (true, c') →
    ∀ p content, contentAt commit.tree p = some content → c'.workTree p = some content
  tree_eq : ∀ commit tree, g.tree commit = some tree → tree = commit.tree

/-- What an update run relies on in `libgit2`. -/
structure Lawful (g : Git2) (servers : Servers) : Prop where
  lookups : g.Lookups
  transfers : g.Transfers servers
  finds_branch : g.FindsBranch servers
  checkouts : g.Checkouts

end Git2

inductive GitError
  | inspect (path : Path)
  | openRepository (path : Path)
  | clone (url : String)
  | remote
  | fetch (branch url : String)
  | remoteBranch (name : String)
  | notDirect (name : String)
  | commit (oid : Oid)
  | updateRef (name : String)
  | pointHead (name : String)
  | hardReset
  deriving DecidableEq

/-- A local clone tracking one branch of a remote repository. -/
structure GitRepository where
  path : Path
  url : String
  branch : String

/-- `true` when the path does not exist or is a directory without entries. -/
def isMissingOrEmptyDir (g : Git2) (dir : RepoDir) : Option Bool :=
  if g.inspectFails then none
  else
    match dir with
    | .missing | .empty => some true
    | .notDirectory | .otherFiles | .repository _ => some false

namespace GitRepository

def remoteRefName (repo : GitRepository) : String := remotesRef repo.branch

def localRefName (repo : GitRepository) : String := headsRef repo.branch

/-- `+` forces the update: FireHOL rewrites the branch history on every publication. -/
def refspec (repo : GitRepository) : Refspec :=
  ⟨true, headsRef repo.branch, repo.remoteRefName⟩

/-- `find_remote`, else `remote` with the configured url. -/
def remoteUrl (g : Git2) (repo : GitRepository) (c : Clone) : Option String × Clone :=
  match g.findRemote c with
  | some url => (some url, c)
  | none =>
    match g.createRemote repo.url c with
    | (false, c) => (none, c)
    | (true, c) => (some repo.url, c)

def fetch (g : Git2) (repo : GitRepository) (c : Clone) : Except GitError Unit × Clone :=
  match repo.remoteUrl g c with
  | (none, c) => (.error .remote, c)
  | (some url, c) =>
    match g.fetch url repo.refspec c with
    | (false, c) => (.error (.fetch repo.branch repo.url), c)
    | (true, c) => (.ok (), c)

/-- Opens the local clone and fetches the tracked branch, or clones it when the directory does
not exist yet or is empty. -/
def openOrClone (g : Git2) (repo : GitRepository) (dir : RepoDir) :
    Except GitError Clone × RepoDir :=
  match isMissingOrEmptyDir g dir with
  | none => (.error (.inspect repo.path), dir)
  | some false =>
    match g.openRepository dir with
    | none => (.error (.openRepository repo.path), dir)
    | some c =>
      match repo.fetch g c with
      | (.error e, c) => (.error e, .repository c)
      | (.ok (), c) => (.ok c, .repository c)
  | some true =>
    match g.clone repo.url repo.branch dir with
    | .error left => (.error (.clone repo.url), left)
    | .ok c => (.ok c, .repository c)

/-- Commit at the tip of the fetched remote branch. -/
def remoteTip (g : Git2) (repo : GitRepository) (c : Clone) : Except GitError Commit :=
  match g.findReference c repo.remoteRefName with
  | none => .error (.remoteBranch repo.remoteRefName)
  | some (.symbolic _) => .error (.notDirect repo.remoteRefName)
  | some (.direct oid) =>
    match g.findCommit c oid with
    | none => .error (.commit oid)
    | some commit => .ok commit

/-- Points the local branch and `HEAD` at `commit` and hard-resets the working tree to it. -/
def checkout (g : Git2) (repo : GitRepository) (commit : Commit) (c : Clone) :
    Except GitError Unit × Clone :=
  match g.reference repo.localRefName commit.id c with
  | (false, c) => (.error (.updateRef repo.localRefName), c)
  | (true, c) =>
    match g.setHead repo.localRefName c with
    | (false, c) => (.error (.pointHead repo.localRefName), c)
    | (true, c) =>
      match g.resetHard commit c with
      | (false, c) => (.error .hardReset, c)
      | (true, c) => (.ok (), c)

end GitRepository

variable {g : Git2} {servers : Servers} {repo : GitRepository} {c c' : Clone} {dir dir' : RepoDir}
  {tip : Commit}

/-- The fetch goes to the url recorded for `origin`, and to the configured one otherwise. -/
theorem remoteUrl_cases (hg : g.Lookups) {url : String}
    (h : repo.remoteUrl g c = (some url, c')) :
    (c' = c ∧ c.origin = some url) ∨
      g.createRemote repo.url c = (true, c') ∧ url = repo.url := by
  simp only [GitRepository.remoteUrl] at h
  split at h
  · rename_i found hfound
    obtain ⟨hurl, rfl⟩ := Prod.mk.inj h
    exact .inl ⟨rfl, hg.find_remote _ _ (hfound.trans hurl)⟩
  · split at h
    · simp at h
    · rename_i c₁ hcreate
      obtain ⟨hurl, rfl⟩ := Prod.mk.inj h
      exact .inr ⟨hcreate, (Option.some.inj hurl).symm⟩

/-- A fetch that succeeds went to a remote, which `libgit2` served. -/
theorem fetch_ok (h : repo.fetch g c = (.ok (), c')) : ∃ url c₁,
    repo.remoteUrl g c = (some url, c₁) ∧ g.fetch url repo.refspec c₁ = (true, c') := by
  simp only [GitRepository.fetch] at h
  split at h
  · simp at h
  · rename_i url c₁ hurl
    split at h
    · simp at h
    · rename_i c₂ hfetch
      obtain ⟨-, rfl⟩ := Prod.mk.inj h
      exact ⟨url, c₁, hurl, hfetch⟩

/-- Synchronised, the clone is on disk, either fetched or new. -/
theorem openOrClone_cases (h : repo.openOrClone g dir = (.ok c, dir')) :
    dir' = .repository c ∧
      ((∃ c₀, g.openRepository dir = some c₀ ∧ repo.fetch g c₀ = (.ok (), c)) ∨
        g.clone repo.url repo.branch dir = .ok c) := by
  simp only [GitRepository.openOrClone] at h
  split at h
  · simp at h
  · split at h
    · simp at h
    · rename_i c₀ hopen
      split at h
      · simp at h
      · rename_i c₂ hfetch
        obtain ⟨hc, rfl⟩ := Prod.mk.inj h
        obtain rfl := Except.ok.inj hc
        exact ⟨rfl, .inl ⟨c₀, hopen, hfetch⟩⟩
  · split at h
    · simp at h
    · rename_i c₁ hclone
      obtain ⟨hc, rfl⟩ := Prod.mk.inj h
      obtain rfl := Except.ok.inj hc
      exact ⟨rfl, .inr hclone⟩

/-- Where `dir` is synchronised from: the configured url, or the one an existing clone has
recorded. -/
def GitRepository.Source (repo : GitRepository) (dir : RepoDir) (url : String) : Prop :=
  url = repo.url ∨ ∃ c, dir = .repository c ∧ c.origin = some url

/-- A fetch of an existing branch makes the clone know the tip of the url it goes to. -/
theorem fetch_tracks (hlookups : g.Lookups) (htransfers : g.Transfers servers)
    (hfinds : g.FindsBranch servers) (h : repo.fetch g c = (.ok (), c')) :
    ∃ url, repo.Source (.repository c) url ∧ c'.Tracks servers url repo.branch := by
  obtain ⟨url, c₁, hurl, hfetch⟩ := fetch_ok h
  obtain ⟨tip, htip⟩ := Option.ne_none_iff_exists'.mp (hfinds url repo.branch c₁ c' hfetch)
  have hpoints := htransfers.fetch_served url repo.branch tip c₁ c' htip hfetch
  rcases remoteUrl_cases hlookups hurl with ⟨-, horigin⟩ | ⟨-, rfl⟩
  · exact ⟨url, .inr ⟨c, rfl, horigin⟩, tip, htip, hpoints⟩
  · exact ⟨repo.url, .inl rfl, tip, htip, hpoints⟩

/-- Synchronised, the clone is on disk and knows the tip of its source. -/
theorem openOrClone_tracks (hlookups : g.Lookups) (htransfers : g.Transfers servers)
    (hfinds : g.FindsBranch servers) (h : repo.openOrClone g dir = (.ok c, dir')) :
    dir' = .repository c ∧ ∃ url, repo.Source dir url ∧ c.Tracks servers url repo.branch := by
  obtain ⟨hdir, ⟨c₀, hopen, hfetch⟩ | hclone⟩ := openOrClone_cases h
  · obtain rfl := hlookups.open_dir _ _ hopen
    exact ⟨hdir, fetch_tracks hlookups htransfers hfinds hfetch⟩
  · exact ⟨hdir, repo.url, .inl rfl, (htransfers.clone_tip _ _ _ _ hclone).2⟩

/-- `remote_tip` answers with the commit that the remote-tracking name leads to. -/
theorem remoteTip_known (hg : g.Lookups) (h : repo.remoteTip g c = .ok tip) :
    ∃ oid, c.refs (remotesRef repo.branch) = some (.direct oid) ∧ c.commits oid = some tip := by
  simp only [GitRepository.remoteTip] at h
  split at h
  · cases h
  · cases h
  · rename_i oid hfind
    split at h
    · cases h
    · rename_i commit hfound
      obtain rfl := Except.ok.inj h
      exact ⟨oid, hg.find_reference _ _ _ hfind, hg.find_commit _ _ _ hfound⟩

theorem remoteTip_points {served : Commit} (hg : g.Lookups) (hc : c.Points repo.branch served)
    (h : repo.remoteTip g c = .ok tip) : tip = served := by
  obtain ⟨oid, href, hcommit⟩ := remoteTip_known hg h
  obtain ⟨hdirect, hserved⟩ := hc
  obtain rfl : oid = served.id := by simpa using href.symm.trans hdirect
  exact Option.some.inj (hcommit.symm.trans hserved)

/-- Of a clone that tracks `url` it is the tip served there. -/
theorem remoteTip_tracked {url : String} (hg : g.Lookups)
    (hc : c.Tracks servers url repo.branch) (h : repo.remoteTip g c = .ok tip) :
    servers url (headsRef repo.branch) = some tip := by
  obtain ⟨served, hserved, hpoints⟩ := hc
  rw [hserved, remoteTip_points hg hpoints h]

/-- After a checkout the working tree holds the commit's content. -/
theorem checkout_content (hg : g.Checkouts) (h : repo.checkout g tip c = (.ok (), c'))
    {p : Path} {content : List UInt8} (hp : contentAt tip.tree p = some content) :
    c'.workTree p = some content := by
  simp only [GitRepository.checkout] at h
  split at h
  · simp at h
  · split at h
    · simp at h
    · split at h
      · simp at h
      · rename_i c₁ c₂ c₃ hreset
        obtain ⟨-, rfl⟩ := Prod.mk.inj h
        exact hg.reset_content tip _ _ hreset p content hp

end IpReputation
