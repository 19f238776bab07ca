import IpReputation.ReloadContents

/-! Whatever the files do, what is served was read from one of them as a whole. -/
namespace IpReputation

open Transition

variable {β : Type} {G : Geoip2 β} {E : Files β}

/-- The bytes an unfinished load has read. -/
def Stage.bytes : Stage E G → Option β
  | .toParse _ bytes _ => some bytes
  | .toGauge _ reader _ | .toSwap _ reader _ => some reader.owner
  | _ => none

variable {lossy : Path → String} {faults : LoadFaults} {call : Call} {path : Path}
  {files : E.State} {w : Work E G} {bytes : β} {s t : Reloads E G} {I : E.State → Prop}
  {J : E.State → β → Prop}

/-- A load holds what it held before or reads now. -/
theorem advance_bytes (h : (advance lossy faults call path files w).stage.bytes = some bytes) :
    w.stage.bytes = some bytes ∨ readFile path (E.view files) = .ok bytes := by
  obtain ⟨stage, served, published⟩ := w
  cases stage with
  | locked =>
    cases call <;> cases hm : modifiedTime faults path (E.view files) <;>
      simp [advance, afterStat, hm, Stage.bytes] at h
  | compare modified =>
    by_cases hu : Mmdb.unchanged served.snapshot modified = true <;>
      simp [advance, hu, Stage.bytes] at h
  | toRead modified =>
    cases hr : tryRead faults path (E.view files) with
    | error e => simp [advance, hr, Stage.bytes] at h
    | ok read =>
      simp only [advance, hr, Stage.bytes, Option.some.injEq] at h
      exact .inr (h ▸ Mmdb.readFile_of_tryRead hr)
  | toParse modified read old =>
    cases hp : OwnedReader.tryNew G read with
    | none => simp [advance, hp, Stage.bytes] at h
    | some reader =>
      simp only [advance, hp, Stage.bytes, Option.some.injEq] at h
      exact .inl (by rw [← h, Mmdb.tryNew_owner hp]; rfl)
  | toGauge modified reader old => exact .inl h
  | toSwap modified reader old | toCount | done answer => simp [advance, Stage.bytes] at h

/-- What is served after a step was served before, or the call had read it. -/
theorem advance_snapshot {snapshot : Snapshot G}
    (h : (advance lossy faults call path files w).served.snapshot = some snapshot) :
    w.served.snapshot = some snapshot ∨ w.stage.bytes = some snapshot.reader.owner := by
  obtain ⟨stage, served, published⟩ := w
  cases stage with
  | compare modified =>
    by_cases hu : Mmdb.unchanged served.snapshot modified = true <;>
      simp only [advance, hu, Bool.false_eq_true, if_true, if_false] at h <;> exact .inl h
  | toRead modified =>
    cases hr : tryRead faults path (E.view files) <;> simp only [advance, hr] at h <;> exact .inl h
  | toParse modified read old =>
    cases hp : OwnedReader.tryNew G read <;> simp only [advance, hp] at h <;> exact .inl h
  | toSwap modified reader old =>
    obtain rfl := Option.some.inj h
    exact .inr rfl
  | locked | toGauge modified reader old | toCount | done answer => exact .inl h

/-- The files are `I`, and `J` relates them to all bytes that are served or on their way. -/
structure Sourced (I : E.State → Prop) (J : E.State → β → Prop) (s : Reloads E G) : Prop where
  files : I s.files
  called : ∀ tid path, (s.threads tid).path = some path → E.called path
  served : ∀ snapshot, s.served.snapshot = some snapshot → J s.files snapshot.reader.owner
  held : ∀ tid call path entry stage bytes, s.threads tid = .inside call path entry stage →
    stage.bytes = some bytes → J s.files bytes

theorem sourced_stable (hI : ∀ files files', E.step files files' → I files → I files')
    (hread : ∀ files path bytes, I files → E.called path →
      readFile path (E.view files) = .ok bytes → J files bytes)
    (hJ : ∀ files files' bytes, E.step files files' → J files bytes → J files' bytes) :
    (reloads E G lossy).Stable (Sourced I J) := by
  intro s actor t h hs
  have hcalled := called_stable h hs.called
  cases h with
  | call hready hpath =>
    refine ⟨hs.files, hcalled, hs.served, ?_⟩
    intro tid' call' path' entry' stage' bytes hin hbytes
    exact hs.held _ _ _ _ _ _ (inside_of_update (by simp) hin).1 hbytes
  | lock hwait hfree =>
    refine ⟨hs.files, hcalled, hs.served, ?_⟩
    intro tid' call' path' entry' stage' bytes hin hbytes
    rcases inside_of_lock hin with ⟨-, -, rfl⟩ | hbefore
    · cases hbytes
    · exact hs.held _ _ _ _ _ _ hbefore hbytes
  | @work tid call path entry stage faults hbefore =>
    have hpath : E.called path := hs.called tid path (by rw [hbefore]; rfl)
    refine ⟨hs.files, hcalled, ?_, ?_⟩
    · intro snapshot hsnap
      rcases advance_snapshot hsnap with hsame | hbytes
      · exact hs.served snapshot hsame
      · exact hs.held _ _ _ _ _ _ hbefore hbytes
    · intro tid' call' path' entry' stage' bytes hin hbytes
      rcases inside_of_lock hin with ⟨-, -, rfl⟩ | hother
      · rcases advance_bytes hbytes with hold | hnow
        · exact hs.held _ _ _ _ _ _ hbefore hold
        · exact hread _ path bytes hs.files hpath hnow
      · exact hs.held _ _ _ _ _ _ hother hbytes
  | unlock hdone =>
    refine ⟨hs.files, hcalled, hs.served, ?_⟩
    intro tid' call' path' entry' stage' bytes hin hbytes
    exact hs.held _ _ _ _ _ _ (inside_of_update (by simp) hin).1 hbytes
  | lookup => exact ⟨hs.files, hcalled, hs.served, hs.held⟩
  | files hstep =>
    refine ⟨hI _ _ hstep hs.files, hcalled, ?_, ?_⟩
    · intro snapshot hsnap
      exact hJ _ _ _ hstep (hs.served snapshot hsnap)
    · intro tid' call' path' entry' stage' bytes hin hbytes
      exact hJ _ _ _ hstep (hs.held _ _ _ _ _ _ hin hbytes)

end IpReputation
