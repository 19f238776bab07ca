import IpReputation.ReloadVersions

/-! What the published versions hold, against the file as it is. -/
namespace IpReputation

open Transition

variable {β : Type} {G : Geoip2 β}

section Advance

variable {E : Files β}

/-- The files that an unfinished load has read. -/
def Stage.seen : Stage E G → Option E.State
  | .toParse _ _ seen | .toGauge _ _ seen | .toSwap _ _ seen => some seen
  | _ => none

/-- The path a thread has called with, until its call has returned. -/
def Thread.path : Thread E G → Option Path
  | .waiting _ path | .inside _ path _ _ => some path
  | _ => none

variable {lossy : Path → String} {faults : LoadFaults} {call : Call} {path : Path}
  {w : Work E G} {files read : E.State}

/-- A load holds what it read before or reads now. -/
theorem advance_seen (h : (advance lossy faults call path files w).stage.seen = some read) :
    w.stage.seen = some read ∨ read = files := by
  obtain ⟨stage, served, published⟩ := w
  cases stage with
  | locked =>
    cases call <;> cases hm : modifiedTime faults path (E.view files) <;>
      simp [advance, afterStat, hm, Stage.seen] at h
  | compare modified =>
    by_cases hu : Mmdb.unchanged served.snapshot modified = true <;>
      simp [advance, hu, Stage.seen] at h
  | toRead modified =>
    cases hr : tryRead faults path (E.view files) with
    | error e => simp [advance, hr, Stage.seen] at h
    | ok bytes =>
      simp only [advance, hr, Stage.seen, Option.some.injEq] at h
      exact .inr h.symm
  | toParse modified bytes old =>
    cases hp : OwnedReader.tryNew G bytes with
    | none => simp [advance, hp, Stage.seen] at h
    | some reader =>
      simp only [advance, hp, Stage.seen] at h
      exact .inl h
  | toGauge modified reader old => exact .inl h
  | toSwap modified reader old | toCount | done answer => simp [advance, Stage.seen] at h

/-- Only the swap touches the snapshot, and it publishes what was read. -/
theorem advance_published (lossy : Path → String) (faults : LoadFaults) (call : Call)
    (path : Path) (files : E.State) (w : Work E G) :
    ((advance lossy faults call path files w).published = w.published ∧
      (advance lossy faults call path files w).served.snapshot = w.served.snapshot) ∨
    ∃ read, w.stage.seen = some read ∧
      (advance lossy faults call path files w).published = w.published ++ [read] ∧
      (advance lossy faults call path files w).served.snapshot.isSome = true := by
  obtain ⟨stage, served, published⟩ := w
  cases stage with
  | compare modified =>
    by_cases hu : Mmdb.unchanged served.snapshot modified = true <;> simp [advance, hu]
  | toRead modified => cases hr : tryRead faults path (E.view files) <;> simp [advance, hr]
  | toParse modified bytes old => cases hp : OwnedReader.tryNew G bytes <;> simp [advance, hp]
  | toSwap modified reader old => exact .inr ⟨old, rfl, rfl, rfl⟩
  | locked | toGauge modified reader old | toCount | done answer => exact .inl ⟨rfl, rfl⟩

theorem path_of_update {threads : Nat → Thread E G} {new : Thread E G} {tid tid' : Nat}
    (h : (Function.update threads tid new tid').path = some path) :
    new.path = some path ∨ (threads tid').path = some path := by
  by_cases heq : tid' = tid
  · subst heq
    rw [Function.update_self] at h
    exact .inl h
  · rw [Function.update_of_ne heq] at h
    exact .inr h

/-- Only paths that may be called are called. -/
theorem called_stable : (reloads E G lossy).Stable fun s =>
    ∀ tid path, (s.threads tid).path = some path → E.called path := by
  intro s actor t h hs tid' path' hpath'
  cases h with
  | call hready hpath =>
    rcases path_of_update hpath' with hnew | hold
    · exact Option.some.inj hnew ▸ hpath
    · exact hs tid' path' hold
  | @lock tid call path hwait hlock =>
    rcases path_of_update hpath' with hnew | hold
    · exact hs tid path' (by rw [hwait]; exact hnew)
    · exact hs tid' path' hold
  | @work tid call path entry stage faults hbefore =>
    rcases path_of_update hpath' with hnew | hold
    · exact hs tid path' (by rw [hbefore]; exact hnew)
    · exact hs tid' path' hold
  | unlock hdone =>
    rcases path_of_update hpath' with hnew | hold
    · cases hnew
    · exact hs tid' path' hold
  | lookup | files hstep => exact hs tid' path' hpath'

theorem called_reachable {s : Reloads E G} {tid : Nat} (h : (reloads E G lossy).Reachable s)
    (hpath : (s.threads tid).path = some path) : E.called path := by
  refine called_stable.reachable ?_ h tid path hpath
  rintro s ⟨files, -, rfl⟩ tid path hpath
  cases hpath

end Advance

variable {lossy : Path → String} {path p : Path} {v v' seen : Versioned β}
  {s t : Reloads (versionedFile β path) G}

/-- What the file holds, whatever its modification time. -/
def Versioned.content (v : Versioned β) : Option β := v.current.map Prod.fst

/-- The file holds a database. -/
def Versioned.Valid (G : Geoip2 β) (v : Versioned β) (bytes : β) : Prop :=
  v.content = some bytes ∧ (G.fromBytes bytes).isSome = true

/-- The version seen is not one to come, and where it is the current one so is its content. -/
def Pins (v seen : Versioned β) : Prop :=
  seen.version ≤ v.version ∧ (seen.version = v.version → seen.content = v.content)

theorem Pins.refl (v : Versioned β) : Pins v v := ⟨le_rfl, fun _ => rfl⟩

/-- A replacement makes a new version, a touch keeps the content. -/
theorem Versioned.Step.pins (h : v.Step v') : Pins v' v := by
  refine ⟨h.version_le, ?_⟩
  intro heq
  cases h with
  | replace bytes t hfresh => exact absurd heq (Nat.ne_of_lt (Nat.lt_succ_self v.version))
  | touch bytes t₀ t hcur hfresh => simp only [Versioned.content, hcur, Option.map_some]

theorem Pins.step (h : Pins v seen) (hstep : v.Step v') : Pins v' seen := by
  refine ⟨h.1.trans hstep.version_le, ?_⟩
  intro heq
  have hle := hstep.version_le
  have hold : seen.version = v.version := le_antisymm h.1 (heq ▸ hle)
  have hnew : v.version = v'.version := hold.symm.trans heq
  exact (h.2 hold).trans (hstep.pins.2 hnew)

/-- Everything published and everything about to be is pinned; nothing is served before. -/
structure Pinned (s : Reloads (versionedFile β path) G) : Prop where
  published : ∀ seen ∈ s.published, Pins s.files seen
  held : ∀ tid call p entry stage seen, s.threads tid = .inside call p entry stage →
    stage.seen = some seen → Pins s.files seen
  loaded : s.served.snapshot = none → s.published = []

theorem pinned_stable : (reloads (versionedFile β path) G lossy).Stable Pinned := by
  intro s actor t h hs
  cases h with
  | call hready hpath =>
    refine ⟨hs.published, ?_, hs.loaded⟩
    intro tid' call' p' entry' stage' seen hin hseen
    have hbefore := (inside_of_update (by simp) hin).1
    exact hs.held _ _ _ _ _ _ hbefore hseen
  | lock hwait hlock =>
    refine ⟨hs.published, ?_, hs.loaded⟩
    intro tid' call' p' entry' stage' seen hin hseen
    rcases inside_of_lock hin with ⟨-, -, rfl⟩ | hbefore
    · cases hseen
    · exact hs.held _ _ _ _ _ _ hbefore hseen
  | @work tid call p entry stage faults hbefore =>
    have hpub := advance_published lossy faults call p s.files ⟨stage, s.served, s.published⟩
    refine ⟨?_, ?_, ?_⟩
    · intro seen hmem
      change seen ∈ (advance lossy faults call p s.files _).published at hmem
      rcases hpub with ⟨hsame, -⟩ | ⟨read, hread, hnew, -⟩
      · rw [hsame] at hmem
        exact hs.published seen hmem
      · rw [hnew] at hmem
        rcases List.mem_append.mp hmem with hmem | hmem
        · exact hs.published seen hmem
        · obtain rfl := List.mem_singleton.mp hmem
          exact hs.held _ _ _ _ _ _ hbefore hread
    · intro tid' call' p' entry' stage' seen hin hseen
      rcases inside_of_lock hin with ⟨-, -, rfl⟩ | hother
      · rcases advance_seen hseen with hread | rfl
        · exact hs.held _ _ _ _ _ _ hbefore hread
        · exact .refl _
      · exact hs.held _ _ _ _ _ _ hother hseen
    · intro hnone
      change (advance lossy faults call p s.files _).served.snapshot = none at hnone
      rcases hpub with ⟨hsame, hsnap⟩ | ⟨read, -, -, hsome⟩
      · exact hsame.trans (hs.loaded (hsnap.symm.trans hnone))
      · rw [hnone] at hsome
        cases hsome
  | unlock hdone =>
    refine ⟨hs.published, ?_, hs.loaded⟩
    intro tid' call' p' entry' stage' seen hin hseen
    have hbefore := (inside_of_update (by simp) hin).1
    exact hs.held _ _ _ _ _ _ hbefore hseen
  | lookup => exact ⟨hs.published, hs.held, hs.loaded⟩
  | files hstep =>
    refine ⟨?_, ?_, hs.loaded⟩
    · intro seen hmem
      exact (hs.published seen hmem).step hstep
    · intro tid' call' p' entry' stage' seen hin hseen
      exact (hs.held _ _ _ _ _ _ hin hseen).step hstep

theorem pinned_reachable (h : (reloads (versionedFile β path) G lossy).Reachable s) :
    Pinned s := by
  apply pinned_stable.reachable _ h
  rintro s ⟨files, -, rfl⟩
  refine ⟨?_, ?_, fun _ => rfl⟩
  · intro seen hmem
    cases hmem
  · intro tid call p entry stage seen hin
    cases hin

/-- The bytes that lookups are answered from. -/
def Served.content (served : Served G) : Option β :=
  served.snapshot.map fun snapshot => snapshot.reader.owner

/-- The bytes of the last snapshot published. -/
def Reloads.lastPublished (s : Reloads (versionedFile β path) G) : Option β :=
  s.published.getLast?.bind Versioned.content

/-- Lookups are always answered from the last snapshot published. -/
theorem served_eq_lastPublished (h : (reloads (versionedFile β path) G lossy).Reachable s) :
    s.served.content = s.lastPublished := by
  cases hsnap : s.served.snapshot with
  | none =>
    have hempty := (pinned_reachable h).loaded hsnap
    simp [Served.content, Reloads.lastPublished, hsnap, hempty]
  | some snapshot =>
    obtain ⟨seen, t, hlast, hsource⟩ := (neverStale h).last snapshot hsnap
    simp [Served.content, Reloads.lastPublished, Versioned.content, hsnap, hlast, hsource]

/-- The current version has been published. -/
def Fresh (s : Reloads (versionedFile β path) G) : Prop :=
  ∃ seen, s.published.getLast? = some seen ∧ s.files.version ≤ seen.version

/-- Once the current version has been published, lookups are answered from the file's content. -/
theorem Fresh.served_eq (hfresh : Fresh s)
    (h : (reloads (versionedFile β path) G lossy).Reachable s) :
    s.served.content = s.files.content := by
  obtain ⟨seen, hlast, hle⟩ := hfresh
  have hpins := (pinned_reachable h).published seen (List.mem_of_getLast? hlast)
  have hcontent := hpins.2 (le_antisymm hpins.1 hle)
  rw [served_eq_lastPublished h, Reloads.lastPublished, hlast, Option.bind_some, hcontent]

/-- No step of a call takes a publication back. -/
theorem Fresh.step {actor : Actor} (hfresh : Fresh s) (hs : Versions s)
    (h : (reloads (versionedFile β path) G lossy).step s actor t) (hactor : actor ≠ .files) :
    Fresh t := by
  cases h with
  | @work tid call p entry stage faults hbefore =>
    have hadv : Advanced s.files entry ⟨stage, s.served, s.published⟩
        (advance lossy faults call p s.files ⟨stage, s.served, s.published⟩) :=
      advanced hs.consistent (hs.entered _ _ _ _ _ hbefore) (hs.knows _ _ _ _ _ hbefore)
    exact hadv.upToDate ⟨s.files, s.served⟩ hfresh
  | files hstep => exact absurd rfl hactor
  | call hready hpath | lock hwait hlock | unlock hdone | lookup => exact hfresh

end IpReputation
