import IpReputation.Updater
import Mathlib.Logic.Function.Basic

/-! A `git2` that never fails on its own, for concrete runs of the model. -/
namespace IpReputation.Reference

/-- The clone after `tip` has arrived under the name `target`. -/
def receive (target : String) (tip : Commit) (c : Clone) : Clone :=
  { c with
    refs := Function.update c.refs target (some (.direct tip.id))
    commits := Function.update c.commits tip.id (some tip) }

/-- A fresh clone of `url`. -/
def freshClone (url branch : String) (tip : Commit) : Clone :=
  receive (remotesRef branch) tip
    { origin := some url
      refs := fun _ => none
      head := headsRef branch
      commits := fun _ => none
      workTree := contentAt tip.tree }

/-- Opening what is no repository, cloning a branch that the url does not serve and creating a
remote that exists fail; fetching a branch that the url does not serve changes nothing. -/
def git (servers : Servers) : Git2 where
  inspectFails := false
  openRepository dir :=
    match dir with
    | .repository c => some c
    | _ => none
  clone url branch dir :=
    match servers url (headsRef branch) with
    | none => .error dir
    | some tip => .ok (freshClone url branch tip)
  findRemote c := c.origin
  createRemote url c :=
    match c.origin with
    | none => (true, { c with origin := some url })
    | some _ => (false, c)
  fetch url refspec c :=
    match servers url refspec.source with
    | none => (true, c)
    | some tip => (true, receive refspec.target tip c)
  findReference c name := c.refs name
  findCommit c oid := c.commits oid
  reference name oid c :=
    (true, { c with refs := Function.update c.refs name (some (.direct oid)) })
  setHead name c := (true, { c with head := name })
  resetHard commit c := (true, { c with workTree := contentAt commit.tree })
  tree commit := some commit.tree
  unreadable _ := false

theorem receive_points (branch : String) (tip : Commit) (c : Clone) :
    (receive (remotesRef branch) tip c).Points branch tip :=
  ⟨Function.update_self .., Function.update_self ..⟩

variable (servers : Servers)

theorem git_lookups : (git servers).Lookups where
  open_dir := by
    intro dir c h
    cases dir <;> simp [git] at h
    rw [h]
  find_remote _ _ h := h
  find_reference _ _ _ h := h
  find_commit _ _ _ h := h

theorem git_transfers : (git servers).Transfers servers where
  clone_tip := by
    intro url branch dir c h
    simp only [git] at h
    split at h
    · cases h
    · rename_i tip htip
      cases h
      exact ⟨rfl, tip, htip, receive_points branch tip _⟩
  fetch_served := by
    intro url branch tip c c' htip h
    simp only [git, htip] at h
    obtain ⟨-, rfl⟩ := Prod.mk.inj h
    exact receive_points branch tip c
  fetch_missing := by
    intro url branch c c' hnone h
    simp only [git, hnone] at h
    obtain ⟨-, rfl⟩ := Prod.mk.inj h
    exact ⟨rfl, rfl⟩

theorem git_createsRemote : (git servers).CreatesRemote := by
  intro url c c' h
  simp only [git] at h
  split at h
  · rename_i hnone
    obtain ⟨-, rfl⟩ := Prod.mk.inj h
    exact ⟨hnone, rfl, rfl⟩
  · simp at h

theorem git_checkouts : (git servers).Checkouts where
  reset_content := by
    intro commit c c' h p content hp
    obtain ⟨-, rfl⟩ := Prod.mk.inj h
    exact hp
  tree_eq := by
    intro commit tree h
    exact (Option.some.inj h).symm

variable {servers}

theorem git_lawful (hserved : ∀ url name, servers url name ≠ none) :
    (git servers).Lawful servers where
  lookups := git_lookups servers
  transfers := git_transfers servers
  finds_branch url branch _ _ _ := hserved url (headsRef branch)
  checkouts := git_checkouts servers

/-- Where every url serves `tip`. -/
theorem git_lawful_const (tip : Commit) : (git fun _ _ => some tip).Lawful fun _ _ => some tip :=
  git_lawful fun _ _ => Option.some_ne_none tip

/-- A commit with a single list. -/
def listCommit (id : Oid) (time : Int64) (content : String) : Commit :=
  ⟨id, time, [.blob (some ⟨"bare.ipset", by decide, by decide, by decide⟩) (osString content)]⟩

/-- A commit whose only list has one address and no header. -/
def bareCommit (id : Oid) (time : Int64) : Commit := listCommit id time "1.2.3.4\n"

def updater : FireholUpdater :=
  ⟨⟨[.normal (osString "firehol-blocklist-ipsets")],
    "https://github.com/firehol/blocklist-ipsets.git", "master"⟩, true⟩

/-- Neither a clone nor any file. -/
def emptyWorld : World Bytes := ⟨.missing, fun _ => none, {}⟩

/-- A run while `tip` is upstream, writing at `seconds`. -/
def runEnv (tip : Commit) (seconds : Int) : RunEnv Bytes :=
  { git := git fun _ _ => some tip, now := seconds * nanos }

variable {repo : GitRepository} {tip : Commit} {url : String} {c c₁ : Clone}

/-- The url of the fetch is the recorded one, else the configured one, recorded from then on. -/
theorem git_remoteUrl (servers : Servers) (repo : GitRepository) (c : Clone) :
    repo.remoteUrl (git servers) c =
      (some (c.origin.getD repo.url), { c with origin := some (c.origin.getD repo.url) }) := by
  obtain ⟨origin, refs, head, commits, workTree⟩ := c
  cases origin <;> rfl

/-- Synchronising a clone finds what the url it fetches from serves. -/
theorem git_fetches_from (hurl : repo.remoteUrl (git servers) c = (some url, c₁))
    (htip : servers url (headsRef repo.branch) = some tip) : ∃ c' : Clone,
    repo.openOrClone (git servers) (.repository c) = (.ok c', .repository c') ∧
      repo.remoteTip (git servers) c' = .ok tip := by
  refine ⟨receive (remotesRef repo.branch) tip c₁, ?_, ?_⟩
  · have hopen : (git servers).openRepository (.repository c) = some c := rfl
    have hreceive : (git servers).fetch url repo.refspec c₁ =
        (true, receive (remotesRef repo.branch) tip c₁) := by
      simp only [git, GitRepository.refspec, htip]
      rfl
    have hfetch : repo.fetch (git servers) c =
        (.ok (), receive (remotesRef repo.branch) tip c₁) := by
      simp only [GitRepository.fetch, hurl, hreceive]
    simp only [GitRepository.openOrClone, hopen, hfetch]
    rfl
  · have href : (git servers).findReference
        (receive (remotesRef repo.branch) tip c₁) repo.remoteRefName = some (.direct tip.id) :=
      Function.update_self ..
    have hcommit : (git servers).findCommit
        (receive (remotesRef repo.branch) tip c₁) tip.id = some tip :=
      Function.update_self ..
    simp only [GitRepository.remoteTip, href, hcommit]

/-- Where that url does not serve the branch, it finds what the clone knew before. -/
theorem git_keeps {oid : Oid} (hurl : repo.remoteUrl (git servers) c = (some url, c₁))
    (hnone : servers url (headsRef repo.branch) = none)
    (href : c₁.refs (remotesRef repo.branch) = some (.direct oid))
    (hcommit : c₁.commits oid = some tip) :
    repo.openOrClone (git servers) (.repository c) = (.ok c₁, .repository c₁) ∧
      repo.remoteTip (git servers) c₁ = .ok tip := by
  constructor
  · have hopen : (git servers).openRepository (.repository c) = some c := rfl
    have hunchanged : (git servers).fetch url repo.refspec c₁ = (true, c₁) := by
      simp only [git, GitRepository.refspec, hnone]
    have hfetch : repo.fetch (git servers) c = (.ok (), c₁) := by
      simp only [GitRepository.fetch, hurl, hunchanged]
    simp only [GitRepository.openOrClone, hopen, hfetch]
    rfl
  · have hfind : (git servers).findReference c₁ repo.remoteRefName = some (.direct oid) := href
    have hfound : (git servers).findCommit c₁ oid = some tip := hcommit
    simp only [GitRepository.remoteTip, hfind, hfound]

/-- Where every url serves `tip`, synchronising a clone finds it. -/
theorem git_fetches (repo : GitRepository) (tip : Commit) (c : Clone) : ∃ c' : Clone,
    repo.openOrClone (git fun _ _ => some tip) (.repository c) = (.ok c', .repository c') ∧
      repo.remoteTip (git fun _ _ => some tip) c' = .ok tip :=
  git_fetches_from (git_remoteUrl _ repo c) rfl

end IpReputation.Reference
