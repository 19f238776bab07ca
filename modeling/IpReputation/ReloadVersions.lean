import IpReputation.Reload
import IpReputation.Reference
import Mathlib.Data.Set.Insert
import Mathlib.Data.List.Pairwise

/-! Hot reload of one atomically replaced file: versions never go back, none is missed. -/
namespace IpReputation

open Transition

variable {β : Type}

/-- The database file as a sequence of versions; `used` are the modification times so far. -/
structure Versioned (β : Type) where
  version : Nat
  current : Option (β × SystemTime)
  used : Set SystemTime

/-- A replacement or a touch gives a modification time never used before. -/
inductive Versioned.Step : Versioned β → Versioned β → Prop
  | replace {v : Versioned β} (bytes : β) (t : SystemTime) : t ∉ v.used →
      Step v ⟨v.version + 1, some (bytes, t), insert t v.used⟩
  | touch {v : Versioned β} (bytes : β) (t₀ t : SystemTime) : v.current = some (bytes, t₀) →
      t ∉ v.used → Step v ⟨v.version, some (bytes, t), insert t v.used⟩

/-- The modification time of the current version counts as used. -/
def Versioned.Stamped (v : Versioned β) : Prop :=
  ∀ bytes t, v.current = some (bytes, t) → t ∈ v.used

/-- One file, called by one path, absent or present at first. -/
abbrev versionedFile (β : Type) (path : Path) : Files β where
  State := Versioned β
  view v p := if p = path then v.current.map fun c => .file c.1 c.2 else none
  initial v := v.version = 0 ∧ v.Stamped
  step := Versioned.Step
  called p := p = path

/-- `bytes` are those of version `seen`, and a file that bears the tag is still that version. -/
structure Tagged (v : Versioned β) (modified : Option SystemTime) (bytes : β)
    (seen : Versioned β) : Prop where
  source : ∃ t, seen.current = some (bytes, t)
  used : ∀ m, modified = some m → m ∈ v.used
  fresh : ∀ m current, modified = some m → v.current = some (current, m) →
    current = bytes ∧ v.version = seen.version

variable {G : Geoip2 β} {path p : Path} {lossy : Path → String} {faults : LoadFaults}
  {s t : Reloads (versionedFile β path) G} {tid : Nat} {call : Call} {served : Served G}
  {entry : Entry (versionedFile β path) G} {stage : Stage (versionedFile β path) G}
  {v v' seen : Versioned β} {w : Work (versionedFile β path) G} {published : List (Versioned β)}
  {modified : Option SystemTime} {bytes : β}

theorem Versioned.Step.version_le (h : v.Step v') : v.version ≤ v'.version := by
  cases h with
  | replace bytes t hfresh => exact Nat.le_succ v.version
  | touch bytes t₀ t hcur hfresh => exact Nat.le_refl v.version

theorem Versioned.Step.used_subset (h : v.Step v') : v.used ⊆ v'.used := by
  cases h with
  | replace bytes t hfresh => exact Set.subset_insert t v.used
  | touch bytes t₀ t hcur hfresh => exact Set.subset_insert t v.used

/-- After a step the file bears a new modification time. -/
theorem Versioned.Step.stamp_fresh (h : v.Step v') {m : SystemTime}
    (hcur : v'.current = some (bytes, m)) : m ∉ v.used := by
  cases h with
  | replace bytes' t hfresh =>
    obtain ⟨rfl, rfl⟩ : bytes' = bytes ∧ t = m := by simpa using hcur
    exact hfresh
  | touch bytes' t₀ t hold hfresh =>
    obtain ⟨rfl, rfl⟩ : bytes' = bytes ∧ t = m := by simpa using hcur
    exact hfresh

theorem Versioned.Step.stamped (h : v.Step v') : v'.Stamped := by
  intro bytes m hcur
  cases h with
  | replace bytes' t hfresh =>
    obtain ⟨-, rfl⟩ : bytes' = bytes ∧ t = m := by simpa using hcur
    exact Set.mem_insert t v.used
  | touch bytes' t₀ t hold hfresh =>
    obtain ⟨-, rfl⟩ : bytes' = bytes ∧ t = m := by simpa using hcur
    exact Set.mem_insert t v.used

/-- A tag taken before a step can only be borne by the file it was taken from. -/
theorem Tagged.step (h : Tagged v modified bytes seen) (hstep : v.Step v') :
    Tagged v' modified bytes seen where
  source := h.source
  used m hm := hstep.used_subset (h.used m hm)
  fresh m _ hm hcur := absurd (h.used m hm) (hstep.stamp_fresh hcur)

theorem view_eq_file {m : SystemTime}
    (h : (versionedFile β path).view v p = some (.file bytes m)) : v.current = some (bytes, m) := by
  by_cases hp : p = path
  · simp only [hp, if_true, Option.map_eq_some_iff] at h
    obtain ⟨⟨b, t⟩, hcur, hnode⟩ := h
    obtain ⟨rfl, rfl⟩ : b = bytes ∧ t = m := by simpa using hnode
    exact hcur
  · simp [hp] at h

/-- `stat` reports the current modification time. -/
theorem modifiedTime_versioned {m : SystemTime}
    (h : modifiedTime faults p ((versionedFile β path).view v) = .ok m) :
    ∃ bytes, v.current = some (bytes, m) := by
  simp only [modifiedTime, metadata] at h
  split at h
  · cases h
  · split at h
    · cases h
    · rename_i node hnode
      split at hnode
      · cases hnode
      · rename_i file hfile
        cases hnode
        cases node with
        | file bytes t =>
          obtain rfl := Except.ok.inj h
          exact ⟨bytes, view_eq_file hfile⟩
        | directory t =>
          exfalso
          split at hfile <;> simp at hfile

theorem tryRead_versioned (h : tryRead faults p ((versionedFile β path).view v) = .ok bytes) :
    ∃ m, v.current = some (bytes, m) := by
  have hread := Mmdb.readFile_of_tryRead h
  simp only [readFile] at hread
  split at hread
  · cases hread
  · cases hread
  · rename_i b m hfile
    obtain rfl := Except.ok.inj hread
    exact ⟨m, view_eq_file hfile⟩

/-- What has been published, against the file as it is. -/
structure Consistent (v : Versioned β) (served : Served G) (published : List (Versioned β)) :
    Prop where
  stamped : v.Stamped
  sorted : (published.map Versioned.version).Pairwise (· ≤ ·)
  past : ∀ seen ∈ published, seen.version ≤ v.version
  served : ∀ snapshot, served.snapshot = some snapshot → ∃ seen,
    published.getLast? = some seen ∧ Tagged v snapshot.modified snapshot.reader.owner seen

/-- The snapshot is at least as new as the file was at `entry`. -/
def UpToDate (entry : Entry (versionedFile β path) G) (published : List (Versioned β)) : Prop :=
  ∃ seen, published.getLast? = some seen ∧ entry.files.version ≤ seen.version

/-- Bytes read since `entry`: nothing published is newer. -/
structure Held (v : Versioned β) (entry : Entry (versionedFile β path) G)
    (published : List (Versioned β)) (modified : Option SystemTime) (bytes : β)
    (seen : Versioned β) : Prop where
  tagged : Tagged v modified bytes seen
  since : entry.files.version ≤ seen.version
  past : seen.version ≤ v.version
  newest : ∀ old ∈ published, old.version ≤ seen.version

/-- What a call that holds the lock knows at each stage. -/
def Knows (v : Versioned β) (entry : Entry (versionedFile β path) G)
    (w : Work (versionedFile β path) G) : Prop :=
  match w.stage with
  | .locked => True
  | .compare m => m ∈ v.used ∧
    ∀ snapshot, w.served.snapshot = some snapshot → snapshot.modified = some m →
      UpToDate entry w.published
  | .toRead modified => ∀ m, modified = some m → m ∈ v.used
  | .toParse modified bytes seen => Held v entry w.published modified bytes seen
  | .toGauge modified reader seen | .toSwap modified reader seen =>
    Held v entry w.published modified reader.owner seen
  | .toCount => UpToDate entry w.published
  | .done (.ok _) => UpToDate entry w.published
  | .done (.error _) => True

theorem Consistent.step (h : Consistent v served published) (hstep : v.Step v') :
    Consistent v' served published where
  stamped := hstep.stamped
  sorted := h.sorted
  past seen hseen := (h.past seen hseen).trans hstep.version_le
  served snapshot hsnap := by
    obtain ⟨seen, hlast, htag⟩ := h.served snapshot hsnap
    exact ⟨seen, hlast, htag.step hstep⟩

theorem Held.step (h : Held v entry published modified bytes seen) (hstep : v.Step v') :
    Held v' entry published modified bytes seen :=
  ⟨h.tagged.step hstep, h.since, h.past.trans hstep.version_le, h.newest⟩

theorem Knows.step (h : Knows v entry w) (hstep : v.Step v') : Knows v' entry w := by
  obtain ⟨stage, served, published⟩ := w
  cases stage with
  | locked => trivial
  | compare m => exact ⟨hstep.used_subset h.1, h.2⟩
  | toRead modified => exact fun m hm => hstep.used_subset (h m hm)
  | toParse modified bytes seen => exact Held.step h hstep
  | toGauge modified reader seen => exact Held.step h hstep
  | toSwap modified reader seen => exact Held.step h hstep
  | toCount => exact h
  | done answer => cases answer <;> exact h

/-- The current file, when its modification time is taken now. -/
theorem tagged_now (hcur : ∃ m, v.current = some (bytes, m))
    (hused : ∀ m, modified = some m → m ∈ v.used) : Tagged v modified bytes v where
  source := hcur
  used := hused
  fresh m _ _ hnow := by
    obtain ⟨m', hcur⟩ := hcur
    rw [hcur] at hnow
    exact ⟨(Prod.mk.inj (Option.some.inj hnow)).1.symm, rfl⟩

/-- A snapshot that bears the current modification time is the current version. -/
theorem Consistent.current (h : Consistent v served published) {snapshot : Snapshot G}
    {m : SystemTime} (hsnap : served.snapshot = some snapshot)
    (hm : snapshot.modified = some m) (hcur : v.current = some (bytes, m)) :
    ∃ seen, published.getLast? = some seen ∧ v.version = seen.version ∧
      snapshot.reader.owner = bytes := by
  obtain ⟨seen, hlast, htag⟩ := h.served snapshot hsnap
  obtain ⟨hbytes, hversion⟩ := htag.fresh m bytes hm hcur
  exact ⟨seen, hlast, hversion, hbytes.symm⟩

/-- Publishing what was read keeps the versions in order. -/
theorem Consistent.publish (h : Consistent v served published) {reader : OwnedReader G}
    (hheld : Held v entry published modified reader.owner seen) :
    Consistent v { served with snapshot := some ⟨reader, modified⟩ } (published ++ [seen]) where
  stamped := h.stamped
  sorted := by
    rw [List.map_append, List.pairwise_append]
    refine ⟨h.sorted, List.pairwise_singleton .., ?_⟩
    intro a ha b hb
    obtain ⟨old, hold, rfl⟩ := List.mem_map.mp ha
    obtain rfl := List.mem_singleton.mp hb
    exact hheld.newest old hold
  past old hold := by
    rcases List.mem_append.mp hold with hold | hold
    · exact h.past old hold
    · obtain rfl := List.mem_singleton.mp hold
      exact hheld.past
  served snapshot hsnap := by
    obtain rfl := Option.some.inj hsnap
    exact ⟨seen, by simp, hheld.tagged⟩

theorem UpToDate.publish (h : UpToDate entry published)
    (hnew : ∀ old ∈ published, old.version ≤ seen.version) :
    UpToDate entry (published ++ [seen]) := by
  obtain ⟨old, hlast, hle⟩ := h
  exact ⟨seen, by simp, hle.trans (hnew old (List.mem_of_getLast? hlast))⟩

/-- What one step of the holder of the lock does to what is published and to what it knows. -/
structure Advanced (v : Versioned β) (entry : Entry (versionedFile β path) G)
    (w w' : Work (versionedFile β path) G) : Prop where
  consistent : Consistent v w'.served w'.published
  knows : Knows v entry w'
  upToDate : ∀ other : Entry (versionedFile β path) G,
    UpToDate other w.published → UpToDate other w'.published

/-- A step that publishes nothing. -/
theorem Advanced.still {stage' : Stage (versionedFile β path) G}
    (hc : Consistent v served published) (hk : Knows v entry ⟨stage', served, published⟩) :
    Advanced v entry ⟨stage, served, published⟩ ⟨stage', served, published⟩ :=
  ⟨hc, hk, fun _ h => h⟩

theorem advanced (hc : Consistent v w.served w.published) (he : entry.files.version ≤ v.version)
    (hk : Knows v entry w) : Advanced v entry w (advance lossy faults call p v w) := by
  obtain ⟨stage, served, published⟩ := w
  cases stage with
  | locked =>
    cases call with
    | load =>
      apply Advanced.still hc
      intro m hm
      cases hstat : modifiedTime faults p ((versionedFile β path).view v) with
      | error e => simp [hstat, Except.toOption] at hm
      | ok m' =>
        obtain rfl : m' = m := by simpa [hstat, Except.toOption] using hm
        obtain ⟨bytes, hcur⟩ := modifiedTime_versioned hstat
        exact hc.stamped bytes m' hcur
    | reloadIfChanged =>
      cases hstat : modifiedTime faults p ((versionedFile β path).view v) with
      | error e =>
        simp only [advance, afterStat, hstat]
        exact .still hc trivial
      | ok m =>
        simp only [advance, afterStat, hstat]
        obtain ⟨bytes, hcur⟩ := modifiedTime_versioned hstat
        refine .still hc ⟨hc.stamped bytes m hcur, ?_⟩
        intro snapshot hsnap hm
        obtain ⟨seen, hlast, hversion, -⟩ := hc.current hsnap hm hcur
        exact ⟨seen, hlast, hversion ▸ he⟩
  | compare m =>
    by_cases hu : Mmdb.unchanged served.snapshot m = true
    · simp only [advance, hu, if_true]
      cases hsnap : served.snapshot with
      | none => simp [Mmdb.unchanged, hsnap] at hu
      | some snapshot =>
        exact .still hc (hk.2 snapshot hsnap (by simpa [Mmdb.unchanged, hsnap] using hu))
    · simp only [advance, if_neg hu]
      apply Advanced.still hc
      rintro m' hm
      obtain rfl := Option.some.inj hm
      exact hk.1
  | toRead modified =>
    cases hr : tryRead faults p ((versionedFile β path).view v) with
    | error e =>
      simp only [advance, hr]
      exact .still hc trivial
    | ok bytes =>
      simp only [advance, hr]
      exact .still hc ⟨tagged_now (tryRead_versioned hr) hk, he, le_rfl, hc.past⟩
  | toParse modified bytes seen =>
    cases hp : OwnedReader.tryNew G bytes with
    | none =>
      simp only [advance, hp]
      exact .still hc trivial
    | some reader =>
      simp only [advance, hp]
      obtain rfl := Mmdb.tryNew_owner hp
      exact .still hc hk
  | toGauge modified reader seen =>
    exact ⟨⟨hc.stamped, hc.sorted, hc.past, hc.served⟩, hk, fun _ h => h⟩
  | toSwap modified reader seen =>
    refine ⟨hc.publish hk, ⟨seen, by simp [advance], hk.since⟩, ?_⟩
    intro other hother
    exact hother.publish hk.newest
  | toCount => exact ⟨⟨hc.stamped, hc.sorted, hc.past, hc.served⟩, hk, fun _ h => h⟩
  | done answer => exact .still hc hk

/-- The invariant of the machine over one versioned file. -/
structure Versions (s : Reloads (versionedFile β path) G) : Prop where
  exclusive : Exclusive s
  consistent : Consistent s.files s.served s.published
  entered : ∀ tid call p entry stage, s.threads tid = .inside call p entry stage →
    entry.files.version ≤ s.files.version
  knows : ∀ tid call p entry stage, s.threads tid = .inside call p entry stage →
    Knows s.files entry ⟨stage, s.served, s.published⟩
  returned : ∀ tid call p entry b, s.threads tid = .returned call p entry (.ok b) →
    UpToDate entry s.published

theorem returned_of_update {threads : Nat → Thread (versionedFile β path) G}
    {new : Thread (versionedFile β path) G} {tid' : Nat} {answer : Answer}
    (hnew : ∀ call p entry answer, new ≠ .returned call p entry answer)
    (h : Function.update threads tid new tid' = .returned call p entry answer) :
    threads tid' = .returned call p entry answer := by
  by_cases heq : tid' = tid
  · subst heq
    rw [Function.update_self] at h
    exact absurd h (hnew call p entry answer)
  · rwa [Function.update_of_ne heq] at h

theorem Consistent.lookup (h : Consistent v served published) (m : Metrics) :
    Consistent v { served with metrics := m } published :=
  ⟨h.stamped, h.sorted, h.past, h.served⟩

theorem Knows.lookup (h : Knows v entry ⟨stage, served, published⟩) (m : Metrics) :
    Knows v entry ⟨stage, { served with metrics := m }, published⟩ := by
  cases stage with
  | done answer => cases answer <;> exact h
  | _ => exact h

theorem versions_stable : (reloads (versionedFile β path) G lossy).Stable Versions := by
  intro s actor t h hs
  have hexclusive := exclusive_stable h hs.exclusive
  cases h with
  | call hready hpath =>
    refine ⟨hexclusive, hs.consistent, ?_, ?_, ?_⟩
    · intro tid' call' p' entry' stage' hin
      have hbefore := (inside_of_update (by simp) hin).1
      exact hs.entered _ _ _ _ _ hbefore
    · intro tid' call' p' entry' stage' hin
      have hbefore := (inside_of_update (by simp) hin).1
      exact hs.knows _ _ _ _ _ hbefore
    · intro tid' call' p' entry' b hret
      have hbefore := returned_of_update (by simp) hret
      exact hs.returned _ _ _ _ _ hbefore
  | lock hwait hlock =>
    refine ⟨hexclusive, hs.consistent, ?_, ?_, ?_⟩
    · intro tid' call' p' entry' stage' hin
      rcases inside_of_lock hin with ⟨-, rfl, -⟩ | hbefore
      · exact le_rfl
      · exact hs.entered _ _ _ _ _ hbefore
    · intro tid' call' p' entry' stage' hin
      rcases inside_of_lock hin with ⟨-, -, rfl⟩ | hbefore
      · trivial
      · exact hs.knows _ _ _ _ _ hbefore
    · intro tid' call' p' entry' b hret
      have hbefore := returned_of_update (by simp) hret
      exact hs.returned _ _ _ _ _ hbefore
  | @work tid call p entry stage faults hbefore =>
    have hadv : Advanced s.files entry ⟨stage, s.served, s.published⟩
        (advance lossy faults call p s.files ⟨stage, s.served, s.published⟩) :=
      advanced hs.consistent (hs.entered _ _ _ _ _ hbefore) (hs.knows _ _ _ _ _ hbefore)
    refine ⟨hexclusive, hadv.consistent, ?_, ?_, ?_⟩
    · intro tid' call' p' entry' stage' hin
      obtain ⟨-, rfl, -⟩ := hs.exclusive.inside_of_worked hbefore hin
      exact hs.entered _ _ _ _ _ hbefore
    · intro tid' call' p' entry' stage' hin
      obtain ⟨-, rfl, rfl⟩ := hs.exclusive.inside_of_worked hbefore hin
      exact hadv.knows
    · intro tid' call' p' entry' b hret
      have hreturned := returned_of_update (by simp) hret
      exact hadv.upToDate _ (hs.returned _ _ _ _ _ hreturned)
  | @unlock tid call p entry answer hdone =>
    refine ⟨hexclusive, hs.consistent, ?_, ?_, ?_⟩
    · intro tid' call' p' entry' stage' hin
      have hbefore := (inside_of_update (by simp) hin).1
      exact hs.entered _ _ _ _ _ hbefore
    · intro tid' call' p' entry' stage' hin
      have hbefore := (inside_of_update (by simp) hin).1
      exact hs.knows _ _ _ _ _ hbefore
    · intro tid' call' p' entry' b hret
      by_cases heq : tid' = tid
      · subst heq
        simp only [Function.update_self, Thread.returned.injEq] at hret
        obtain ⟨rfl, rfl, rfl, rfl⟩ := hret
        exact hs.knows _ _ _ _ _ hdone
      · simp only [Function.update_of_ne heq] at hret
        exact hs.returned _ _ _ _ _ hret
  | @lookup filter ip =>
    refine ⟨hexclusive, hs.consistent.lookup _, hs.entered, ?_, hs.returned⟩
    intro tid' call' p' entry' stage' hin
    exact (hs.knows _ _ _ _ _ hin).lookup _
  | files hstep =>
    refine ⟨hexclusive, hs.consistent.step hstep, ?_, ?_, hs.returned⟩
    · intro tid' call' p' entry' stage' hin
      exact (hs.entered _ _ _ _ _ hin).trans hstep.version_le
    · intro tid' call' p' entry' stage' hin
      exact (hs.knows _ _ _ _ _ hin).step hstep

theorem versions_reachable (h : (reloads (versionedFile β path) G lossy).Reachable s) :
    Versions s := by
  apply versions_stable.reachable _ h
  rintro s ⟨files, ⟨-, hstamped⟩, rfl⟩
  refine ⟨?_, ⟨hstamped, .nil, ?_, ?_⟩, ?_, ?_, ?_⟩
  · intro tid call p entry stage hin
    cases hin
  · intro seen hseen
    cases hseen
  · intro snapshot hsnap
    cases hsnap
  · intro tid call p entry stage hin
    cases hin
  · intro tid call p entry stage hin
    cases hin
  · intro tid call p entry b hret
    cases hret

/-- Hot reload never rolls back and never misses a replacement: the published versions only
grow and the snapshot is the last of them, a snapshot that bears the file's modification time
is the file's content, and a call that answered `Ok` left a snapshot at least as new as the
file was when it took the lock. -/
structure NeverStale (s : Reloads (versionedFile β path) G) : Prop where
  monotone : (s.published.map Versioned.version).Pairwise (· ≤ ·)
  last : ∀ snapshot, s.served.snapshot = some snapshot → ∃ seen t,
    s.published.getLast? = some seen ∧ seen.current = some (snapshot.reader.owner, t)
  current : ∀ snapshot bytes t, s.served.snapshot = some snapshot →
    s.files.current = some (bytes, t) → snapshot.modified = some t →
    snapshot.reader.owner = bytes
  upToDate : ∀ tid call p entry b, s.threads tid = .inside call p entry (.done (.ok b)) ∨
    s.threads tid = .returned call p entry (.ok b) →
    ∃ seen, s.published.getLast? = some seen ∧ entry.files.version ≤ seen.version

theorem neverStale (h : (reloads (versionedFile β path) G lossy).Reachable s) : NeverStale s := by
  have hs := versions_reachable h
  refine ⟨hs.consistent.sorted, ?_, ?_, ?_⟩
  · intro snapshot hsnap
    obtain ⟨seen, hlast, htag⟩ := hs.consistent.served snapshot hsnap
    obtain ⟨t, hsource⟩ := htag.source
    exact ⟨seen, t, hlast, hsource⟩
  · intro snapshot bytes t hsnap hcur hm
    obtain ⟨seen, -, -, howner⟩ := hs.consistent.current hsnap hm hcur
    exact howner
  · rintro tid call p entry b (hin | hret)
    · exact hs.knows _ _ _ _ _ hin
    · exact hs.returned _ _ _ _ _ hret

/-- After a `load` of the first version. -/
theorem neverStale_load :
    ∃ s : Reloads (versionedFile Reference.Bytes []) Reference.geoip2,
      s.published.map Versioned.version = [0] ∧ NeverStale s := by
  let start : Reloads (versionedFile Reference.Bytes []) Reference.geoip2 :=
    .start ⟨0, some (.database fun _ => none, 7), {7}⟩
  obtain ⟨actors, hrun⟩ :=
    call_alone (fun _ => "firehol.mmdb") {} 0 .load [] start 6 trivial rfl rfl rfl
  refine ⟨_, ?_, neverStale (.run (.initial ⟨_, ⟨rfl, ?_⟩, rfl⟩) hrun)⟩
  · rfl
  · intro bytes t hcur
    obtain ⟨-, rfl⟩ : _ = bytes ∧ 7 = t := by simpa using hcur
    rfl

end IpReputation
