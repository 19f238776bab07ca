import IpReputation.ReferenceGit

/-! Whose tip a synchronised clone answers with. -/
namespace IpReputation

variable {servers : Servers} {repo : GitRepository} {dir dir' : RepoDir} {g : Git2} {c : Clone}
  {tip : Commit} {url : String}

/-- What the synchronisation relies on in `libgit2`. -/
structure Git2.Synchronises (g : Git2) (servers : Servers) : Prop where
  lookups : g.Lookups
  transfers : g.Transfers servers
  creates_remote : g.CreatesRemote

/-- With these servers, whatever `git2` does, a tip that is found is that of the configured url. -/
def TipConfigured (servers : Servers) (repo : GitRepository) (dir : RepoDir) : Prop :=
  ∀ g : Git2, g.Synchronises servers → ∀ c dir' tip, repo.openOrClone g dir = (.ok c, dir') →
    repo.remoteTip g c = .ok tip → servers repo.url (headsRef repo.branch) = some tip

/-- The url an existing clone is fetched from. -/
def Clone.source (repo : GitRepository) (c : Clone) : String := c.origin.getD repo.url

/-- The clone knows `tip` for `branch` from earlier. -/
def Clone.Knows (branch : String) (tip : Commit) (c : Clone) : Prop :=
  ∃ oid, c.refs (remotesRef branch) = some (.direct oid) ∧ c.commits oid = some tip

/-- What an existing clone is fetched from has the tip of the configured url, and where the branch
is missing there the clone knows no other tip from earlier. -/
structure SourceAgrees (servers : Servers) (repo : GitRepository) (dir : RepoDir) : Prop where
  served : ∀ c tip, dir = .repository c →
    servers (c.source repo) (headsRef repo.branch) = some tip →
    servers repo.url (headsRef repo.branch) = some tip
  missing : ∀ c tip, dir = .repository c →
    servers (c.source repo) (headsRef repo.branch) = none → c.Knows repo.branch tip →
    servers repo.url (headsRef repo.branch) = some tip

/-- A fetch goes to the source of the clone, and what the clone knows is not lost before. -/
theorem remoteUrl_source (hg : g.Synchronises servers) {c₁ : Clone}
    (h : repo.remoteUrl g c = (some url, c₁)) : url = c.source repo ∧
      c₁.refs = c.refs ∧ c₁.commits = c.commits := by
  rcases remoteUrl_cases hg.lookups h with ⟨rfl, horigin⟩ | ⟨hcreate, rfl⟩
  · exact ⟨by rw [Clone.source, horigin, Option.getD_some], rfl, rfl⟩
  · obtain ⟨horigin, hrefs, hcommits⟩ := hg.creates_remote _ _ _ hcreate
    exact ⟨by rw [Clone.source, horigin, Option.getD_none], hrefs, hcommits⟩

/-- The tip found after a fetch is what the source serves, or else what the clone knew. -/
theorem fetched_tip (hg : g.Synchronises servers) {c₀ : Clone}
    (hfetch : repo.fetch g c₀ = (.ok (), c)) (hfound : repo.remoteTip g c = .ok tip) :
    servers (c₀.source repo) (headsRef repo.branch) = some tip ∨
      servers (c₀.source repo) (headsRef repo.branch) = none ∧ c₀.Knows repo.branch tip := by
  obtain ⟨url, c₁, hurl, hfetch⟩ := fetch_ok hfetch
  obtain ⟨rfl, hrefs, hcommits⟩ := remoteUrl_source hg hurl
  cases hserved : servers (c₀.source repo) (headsRef repo.branch) with
  | some served =>
    have hpoints := hg.transfers.fetch_served _ _ served _ _ hserved hfetch
    exact .inl (congrArg some (remoteTip_points hg.lookups hpoints hfound).symm)
  | none =>
    obtain ⟨href, hcommit⟩ := hg.transfers.fetch_missing _ _ _ _ hserved hfetch
    obtain ⟨oid, hdirect, htip⟩ := remoteTip_known hg.lookups hfound
    rw [href, hrefs] at hdirect
    rw [hcommit, hcommits] at htip
    exact .inr ⟨rfl, oid, hdirect, htip⟩

/-- The tip is that of the configured url exactly when neither the source of an existing clone nor
what that clone knows from earlier disagrees with it. -/
theorem tipConfigured_iff (servers : Servers) (repo : GitRepository) (dir : RepoDir) :
    TipConfigured servers repo dir ↔ SourceAgrees servers repo dir := by
  constructor
  · intro h
    have hg : (Reference.git servers).Synchronises servers :=
      ⟨Reference.git_lookups _, Reference.git_transfers _, Reference.git_createsRemote _⟩
    constructor
    · rintro c tip rfl hserved
      obtain ⟨c', hopen, hfound⟩ :=
        Reference.git_fetches_from (Reference.git_remoteUrl servers repo c) hserved
      exact h _ hg c' _ tip hopen hfound
    · rintro c tip rfl hmissing ⟨oid, href, hcommit⟩
      obtain ⟨hopen, hfound⟩ :=
        Reference.git_keeps (Reference.git_remoteUrl servers repo c) hmissing href hcommit
      exact h _ hg _ _ tip hopen hfound
  · intro h g hg c dir' tip hopen hfound
    obtain ⟨-, ⟨c₀, hdir, hfetch⟩ | hclone⟩ := openOrClone_cases hopen
    · have hdir := hg.lookups.open_dir _ _ hdir
      rcases fetched_tip hg hfetch hfound with hserved | ⟨hmissing, hknows⟩
      · exact h.served c₀ tip hdir hserved
      · exact h.missing c₀ tip hdir hmissing hknows
    · exact remoteTip_tracked hg.lookups (hg.transfers.clone_tip _ _ _ _ hclone).2 hfound

/-- The clone an earlier run left behind, of a mirror. -/
def mirrorClone : Clone :=
  Reference.freshClone "/srv/mirror.git" "master" (Reference.bareCommit 1 0)

/-- The mirror has stopped at an old commit. -/
def staleMirror : Servers := fun url _ =>
  if url = "/srv/mirror.git" then some (Reference.bareCommit 1 0)
  else some (Reference.bareCommit 2 1)

/-- With the mirror's clone on the volume, changing the configured url changes nothing. -/
theorem not_tipConfigured_mirror :
    ¬ TipConfigured staleMirror Reference.updater.repo (.repository mirrorClone) := by
  intro h
  have htip : staleMirror "/srv/mirror.git"
      (headsRef Reference.updater.repo.branch) = some (Reference.bareCommit 1 0) := rfl
  obtain ⟨c, hopen, hfound⟩ := Reference.git_fetches_from
    (Reference.git_remoteUrl staleMirror Reference.updater.repo mirrorClone) htip
  have hconfigured := h _ ⟨Reference.git_lookups _, Reference.git_transfers _,
    Reference.git_createsRemote _⟩ c _ _ hopen hfound
  have hid := congrArg (Option.map Commit.id) hconfigured
  revert hid
  decide

end IpReputation
