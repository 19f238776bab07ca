import IpReputation.Reference

/-! What `write_mmdb` does to the files at the output and at the temporary path. -/
namespace IpReputation

open FileStore (Node)

variable {β : Type} {d d' : Disk β} {target path p : Path} {held : Option (Node β SystemTime)}
  {op : FileOp} {fs : FileSystem β}

/-- Every state before a rename holds at `target` what was there at the start. -/
def KeptUntilRename (target : Path) (held : Option (Node β SystemTime)) (d : Disk β) : Prop :=
  ∀ x ∈ d.trail, x.1 ≠ .rename → x.2 target = held

/-- The rename is still to come, and `target` holds what it held at the start. -/
structure Untouched (target : Path) (held : Option (Node β SystemTime)) (d : Disk β) : Prop where
  now : d.fs target = held
  past : KeptUntilRename target held d

/-- Some operation of the run was of this kind. -/
def Disk.Has (op : FileOp) (d : Disk β) : Prop := ∃ x ∈ d.trail, x.1 = op

theorem KeptUntilRename.did (h : KeptUntilRename target held d)
    (hfs : op ≠ .rename → fs target = held) : KeptUntilRename target held (d.did op fs) := by
  intro x hx hop
  rcases List.mem_append.mp hx with hx | hx
  · exact h x hx hop
  · obtain rfl := List.mem_singleton.mp hx
    exact hfs hop

theorem Untouched.did (op : FileOp) (h : Untouched target held d) (hfs : fs target = held) :
    Untouched target held (d.did op fs) := ⟨hfs, h.past.did fun _ => hfs⟩

theorem Untouched.removeQuietly (h : Untouched target held d) (hp : target ≠ p) :
    Untouched target held (removeQuietly p d) := by
  unfold IpReputation.removeQuietly
  cases hr : FileStore.remove p d.fs with
  | error e => exact h
  | ok fs => exact h.did .remove ((FileStore.remove_of_ne hr hp).trans h.now)

theorem removeQuietly_gone {bytes : β} {t : SystemTime} (h : d.fs p = some (.file bytes t)) :
    (removeQuietly p d).fs p = none := by
  simp [removeQuietly, FileStore.remove_file h, Disk.did]

/-- The files after the first operations of a run, as a process killed there leaves them. -/
def stateAfter (fs : FileSystem β) (ops : List (FileOp × FileSystem β)) : FileSystem β :=
  (ops.getLast?.map (·.2)).getD fs

theorem stateAfter_of_kept {before after : List (FileOp × FileSystem β)}
    (h : KeptUntilRename target (fs target) d) (ht : d.trail = before ++ after)
    (hb : ∀ x ∈ before, x.1 ≠ .rename) : stateAfter fs before target = fs target := by
  unfold stateAfter
  cases hl : before.getLast? with
  | none => rfl
  | some x =>
    have hx := List.mem_of_getLast? hl
    exact h x (by rw [ht]; exact List.mem_append_left _ hx) (hb x hx)

theorem untouched_start (fs : FileSystem β) : Untouched target (fs target) ⟨fs, []⟩ :=
  ⟨rfl, by intro x hx; cases hx⟩

variable [ByteString β] {faults : WriteFaults β} {now : SystemTime} {bytes : β} {temp : TempFile}

/-- What `TempFile::write` leaves behind, by how it ends. -/
theorem TempFile.write_cases (faults : WriteFaults β) (now : SystemTime) (bytes : β)
    (hne : target ≠ path) (h : Untouched target held d) :
    (∃ e, TempFile.write faults now path bytes d = (.error e, d)) ∨
    (∃ e d', TempFile.write faults now path bytes d = (.error e, d') ∧
      Untouched target held d' ∧ d'.fs path = none) ∨
    (∃ d', TempFile.write faults now path bytes d = (.ok ⟨some path⟩, d') ∧
      Untouched target held d' ∧ d'.fs path = some (.file bytes now)) := by
  cases hc : faults.create with
  | true => exact .inl ⟨.create path, by simp [TempFile.write, hc]⟩
  | false =>
    cases hf : createFile now path d.fs with
    | error e => exact .inl ⟨.create path, by simp [TempFile.write, hc, hf]⟩
    | ok fs =>
      obtain ⟨-, rfl⟩ := createFile_eq hf
      have hcreated := h.did .create
        ((Function.update_of_ne hne _ _).trans h.now :
          Function.update d.fs path (some (.file ByteString.empty now)) target = held)
      have hwritten := fun left => hcreated.did .write
        ((FileStore.write_of_ne hne).trans hcreated.now :
          FileStore.write left now path _ target = held)
      cases hw : faults.write with
      | some left =>
        refine .inr (.inl ⟨_, _, by simp [TempFile.write, hc, hf, hw, TempFile.drop]; rfl,
          (hwritten left).removeQuietly hne, ?_⟩)
        exact removeQuietly_gone FileStore.write_self
      | none =>
        cases hs : faults.sync with
        | true =>
          refine .inr (.inl ⟨_, _, by simp [TempFile.write, hc, hf, hw, hs, TempFile.drop]; rfl,
            (hwritten bytes).removeQuietly hne, ?_⟩)
          exact removeQuietly_gone FileStore.write_self
        | false =>
          refine .inr (.inr ⟨_, by simp [TempFile.write, hc, hf, hw, hs],
            (hwritten bytes).did .sync (hwritten bytes).now, ?_⟩)
          exact FileStore.write_self

omit [ByteString β] in
/-- `persist` either keeps `target` and removes its file, or has moved it over. -/
theorem TempFile.persist_cases (faults : WriteFaults β) (hne : target ≠ path)
    (h : Untouched target held d) (hfile : d.fs path = some (.file bytes now)) :
    (∃ e d', TempFile.persist faults ⟨some path⟩ target d = (.error e, d') ∧
      Untouched target held d' ∧ d'.fs path = none) ∨
    (∃ d', TempFile.persist faults ⟨some path⟩ target d = (.ok (), d') ∧
      KeptUntilRename target held d' ∧ d'.fs path = none ∧
      d'.fs target = some (.file bytes now)) := by
  cases hr : faults.rename with
  | true =>
    exact .inl ⟨_, _, by simp [TempFile.persist, hr]; rfl, h.removeQuietly hne,
      removeQuietly_gone hfile⟩
  | false =>
    cases hf : FileStore.rename path target d.fs with
    | error e =>
      exact .inl ⟨_, _, by simp [TempFile.persist, hr, hf]; rfl, h.removeQuietly hne,
        removeQuietly_gone hfile⟩
    | ok fs =>
      obtain ⟨htarget, hpath⟩ := FileStore.rename_target hf hfile (Ne.symm hne)
      refine .inr ⟨_, by simp [TempFile.persist, hr, hf]; rfl, h.past.did ?_, hpath, htarget⟩
      intro hop
      exact absurd rfl hop

variable {M : MmdbWriter β} {ipsets : List Ipset} {buildEpoch : SystemTime} {output : Path}
  {size : Nat}

/-- A run of `write_mmdb` whose temporary path is not the output itself. -/
theorem writeMmdb_cases (M : MmdbWriter β) (faults : WriteFaults β) (now : SystemTime)
    (ipsets : List Ipset) (buildEpoch : SystemTime) (hne : output ≠ tempPath output)
    (h : Untouched output held d) :
    (∃ e, writeMmdb M faults now ipsets buildEpoch output d = (.error e, d)) ∨
    (∃ e d', writeMmdb M faults now ipsets buildEpoch output d = (.error e, d') ∧
      Untouched output held d' ∧ d'.fs (tempPath output) = none) ∨
    (∃ bytes d', serialise M ipsets buildEpoch = .ok bytes ∧
      writeMmdb M faults now ipsets buildEpoch output d = (.ok (ByteString.len bytes), d') ∧
      KeptUntilRename output held d' ∧ d'.fs (tempPath output) = none ∧
      d'.fs output = some (.file bytes now)) := by
  cases hs : serialise M ipsets buildEpoch with
  | error e => exact .inl ⟨e, by simp [writeMmdb, hs]⟩
  | ok bytes =>
    rcases TempFile.write_cases faults now bytes hne h with
      ⟨e, hw⟩ | ⟨e, d₁, hw, hu, hgone⟩ | ⟨d₁, hw, hu, hfile⟩
    · exact .inl ⟨e, by simp [writeMmdb, hs, hw]⟩
    · exact .inr (.inl ⟨e, d₁, by simp [writeMmdb, hs, hw], hu, hgone⟩)
    · rcases TempFile.persist_cases faults hne hu hfile with
        ⟨e, d₂, hp, hu₂, hgone⟩ | ⟨d₂, hp, hk, hgone, hout⟩
      · exact .inr (.inl ⟨e, d₂, by simp [writeMmdb, hs, hw, hp], hu₂, hgone⟩)
      · exact .inr (.inr ⟨bytes, d₂, rfl, by simp [writeMmdb, hs, hw, hp], hk, hgone, hout⟩)

theorem TempFile.write_ok (h : TempFile.write faults now path bytes d = (.ok temp, d')) :
    temp = ⟨some path⟩ ∧ d'.fs path = some (.file bytes now) := by
  simp only [TempFile.write] at h
  split at h
  · simp at h
  · split at h
    · simp at h
    · split at h
      · simp at h
      · split at h
        · simp at h
        · obtain ⟨ht, rfl⟩ := Prod.mk.inj h
          exact ⟨(Except.ok.inj ht).symm, FileStore.write_self⟩

omit [ByteString β] in
theorem TempFile.persist_ok {node : Node β SystemTime}
    (h : TempFile.persist faults ⟨some path⟩ target d = (.ok (), d'))
    (hfile : d.fs path = some node) : d'.fs target = some node := by
  simp only [TempFile.persist] at h
  split at h
  · simp at h
  · split at h
    · simp at h
    · rename_i fs hf
      obtain ⟨-, rfl⟩ := Prod.mk.inj h
      by_cases hpt : path = target
      · subst hpt
        obtain rfl := FileStore.rename_self hf
        exact hfile
      · exact (FileStore.rename_target hf hfile hpt).1

/-- After `Ok` the output holds the serialised bytes, stamped with the clock of the write. -/
theorem writeMmdb_ok
    (h : writeMmdb M faults now ipsets buildEpoch output d = (.ok size, d')) :
    ∃ bytes, serialise M ipsets buildEpoch = .ok bytes ∧ size = ByteString.len bytes ∧
      d'.fs output = some (.file bytes now) := by
  simp only [writeMmdb] at h
  split at h
  · simp at h
  · rename_i bytes hs
    split at h
    · simp at h
    · rename_i temp d₁ hw
      obtain ⟨rfl, hfile⟩ := TempFile.write_ok hw
      split at h
      · simp at h
      · rename_i d₂ hp
        obtain ⟨hsize, rfl⟩ := Prod.mk.inj h
        exact ⟨bytes, hs, (Except.ok.inj hsize).symm, TempFile.persist_ok hp hfile⟩

/-- A run of `write_mmdb` over the given files, with every state in between. -/
def replacement (M : MmdbWriter β) (faults : WriteFaults β) (now : SystemTime)
    (ipsets : List Ipset) (buildEpoch : SystemTime) (output : Path) (fs : FileSystem β) :
    Except BuildError Nat × Disk β :=
  writeMmdb M faults now ipsets buildEpoch output ⟨fs, []⟩

/-- Replacing `output` is atomic, whatever fails and wherever the process is killed. -/
structure ReplacesAtomically (M : MmdbWriter β) (output : Path) : Prop where
  until_rename : ∀ faults now ipsets buildEpoch fs before after,
    (replacement M faults now ipsets buildEpoch output fs).2.trail = before ++ after →
    (∀ x ∈ before, x.1 ≠ .rename) → stateAfter fs before output = fs output
  after_err : ∀ faults now ipsets buildEpoch fs e,
    (replacement M faults now ipsets buildEpoch output fs).1 = .error e →
    (replacement M faults now ipsets buildEpoch output fs).2.fs output = fs output
  after_ok : ∀ faults now ipsets buildEpoch fs size,
    (replacement M faults now ipsets buildEpoch output fs).1 = .ok size →
    ∃ bytes, serialise M ipsets buildEpoch = .ok bytes ∧
      (replacement M faults now ipsets buildEpoch output fs).2.fs output = some (.file bytes now)
  no_temp : ∀ faults now ipsets buildEpoch fs,
    (∃ size, (replacement M faults now ipsets buildEpoch output fs).1 = .ok size) ∨
      (replacement M faults now ipsets buildEpoch output fs).2.Has .create →
    (replacement M faults now ipsets buildEpoch output fs).2.fs (tempPath output) = none

/-- With a temporary path of its own the replacement is atomic. -/
theorem replacesAtomically_of_ne (hne : output ≠ tempPath output) :
    ReplacesAtomically M output where
  until_rename := by
    intro faults now ipsets buildEpoch fs before after ht hb
    rcases writeMmdb_cases M faults now ipsets buildEpoch hne (untouched_start fs) with
      ⟨e, h⟩ | ⟨e, d', h, hu, -⟩ | ⟨bytes, d', -, h, hk, -⟩
    · rw [replacement, h] at ht
      exact stateAfter_of_kept (untouched_start fs).past ht hb
    · rw [replacement, h] at ht
      exact stateAfter_of_kept hu.past ht hb
    · rw [replacement, h] at ht
      exact stateAfter_of_kept hk ht hb
  after_err := by
    intro faults now ipsets buildEpoch fs e he
    rcases writeMmdb_cases M faults now ipsets buildEpoch hne (untouched_start fs) with
      ⟨e, h⟩ | ⟨e, d', h, hu, -⟩ | ⟨bytes, d', -, h, -⟩
    · rw [replacement, h]
    · rw [replacement, h]
      exact hu.now
    · simp [replacement, h] at he
  after_ok := by
    intro faults now ipsets buildEpoch fs size hok
    rcases writeMmdb_cases M faults now ipsets buildEpoch hne (untouched_start fs) with
      ⟨e, h⟩ | ⟨e, d', h, -⟩ | ⟨bytes, d', hs, h, -, -, hout⟩
    · simp [replacement, h] at hok
    · simp [replacement, h] at hok
    · exact ⟨bytes, hs, by rw [replacement, h]; exact hout⟩
  no_temp := by
    intro faults now ipsets buildEpoch fs hran
    rcases writeMmdb_cases M faults now ipsets buildEpoch hne (untouched_start fs) with
      ⟨e, h⟩ | ⟨e, d', h, -, hgone⟩ | ⟨bytes, d', -, h, -, hgone, -⟩
    · rw [replacement, h] at hran
      rcases hran with ⟨size, hok⟩ | ⟨x, hx, -⟩
      · cases hok
      · cases hx
    · rw [replacement, h]
      exact hgone
    · rw [replacement, h]
      exact hgone

/-- A path without a file name is a directory: nothing is created and nothing changes. -/
theorem replacement_no_name (M : MmdbWriter β) (hname : output.fileName = none)
    (faults : WriteFaults β) (now : SystemTime) (ipsets : List Ipset) (buildEpoch : SystemTime)
    (fs : FileSystem β) :
    ∃ e, replacement M faults now ipsets buildEpoch output fs = (.error e, ⟨fs, []⟩) := by
  have hself : tempPath output = output :=
    (withExtension_eq_self_iff (by decide)).mpr (Or.inl hname)
  cases hs : serialise M ipsets buildEpoch with
  | error e => exact ⟨e, by simp [replacement, writeMmdb, hs]⟩
  | ok bytes =>
    refine ⟨.create output, ?_⟩
    cases hc : faults.create <;>
      simp [replacement, writeMmdb, hs, TempFile.write, createFile, hself, hname, hc]

theorem replacesAtomically_of_no_name (hname : output.fileName = none) :
    ReplacesAtomically M output where
  until_rename := by
    intro faults now ipsets buildEpoch fs before after ht _
    obtain ⟨e, h⟩ := replacement_no_name M hname faults now ipsets buildEpoch fs
    rw [h] at ht
    have hb : before = [] := (List.append_eq_nil_iff.mp ht.symm).1
    rw [hb]
    rfl
  after_err := by
    intro faults now ipsets buildEpoch fs e _
    obtain ⟨e, h⟩ := replacement_no_name M hname faults now ipsets buildEpoch fs
    rw [h]
  after_ok := by
    intro faults now ipsets buildEpoch fs size hok
    obtain ⟨e, h⟩ := replacement_no_name M hname faults now ipsets buildEpoch fs
    simp [h] at hok
  no_temp := by
    intro faults now ipsets buildEpoch fs hran
    obtain ⟨e, h⟩ := replacement_no_name M hname faults now ipsets buildEpoch fs
    rw [h] at hran
    rcases hran with ⟨size, hok⟩ | ⟨x, hx, -⟩
    · cases hok
    · cases hx

/-- With extension `tmp` the temporary file is the database: a failed write truncates it, and
the guard then removes it. -/
theorem replacement_loses (now : SystemTime) (fs : FileSystem β) (left : β)
    (hname : output.fileName ≠ none) (hext : output.extension = some TMP)
    {bytes old : β} {t : SystemTime} (hs : serialise M ipsets buildEpoch = .ok bytes)
    (hold : fs output = some (.file old t)) :
    ∃ d', replacement M { write := some left } now ipsets buildEpoch output fs =
        (.error (.write output), d') ∧ d'.fs output = none := by
  have hself : tempPath output = output :=
    (withExtension_eq_self_iff (by decide)).mpr (Or.inr hext)
  have hcreate : createFile now output fs =
      .ok (Function.update fs output (some (.file ByteString.empty now))) := by
    simp [createFile, hname, FileStore.create, hold]
  refine ⟨_, by
    simp [replacement, writeMmdb, hs, TempFile.write, hself, hcreate, TempFile.drop]
    rfl, ?_⟩
  exact removeQuietly_gone FileStore.write_self

theorem not_replacesAtomically (hname : output.fileName ≠ none)
    (hext : output.extension = some TMP) {bytes : β}
    (hs : serialise M ipsets buildEpoch = .ok bytes) : ¬ ReplacesAtomically M output := by
  intro h
  obtain ⟨d', hrun, hgone⟩ :=
    replacement_loses 0 (fun _ => some (.file bytes 0)) bytes hname hext hs rfl
  have hkept := h.after_err { write := some bytes } 0 ipsets buildEpoch
    (fun _ => some (.file bytes 0)) (.write output) (by rw [hrun])
  rw [hrun, hgone] at hkept
  cases hkept

/-- Replacement is atomic for exactly the outputs that are not their own temporary path. -/
theorem replacesAtomically_iff
    (hM : ∃ ipsets buildEpoch bytes, serialise M ipsets buildEpoch = .ok bytes) :
    ReplacesAtomically M output ↔ output.fileName = none ∨ output.extension ≠ some TMP := by
  obtain ⟨ipsets, buildEpoch, bytes, hs⟩ := hM
  constructor
  · intro h
    by_contra hbad
    obtain ⟨hname, hext⟩ := not_or.mp hbad
    exact not_replacesAtomically hname (not_not.mp hext) hs h
  · intro h
    by_cases hname : output.fileName = none
    · exact replacesAtomically_of_no_name hname
    · apply replacesAtomically_of_ne
      intro heq
      rcases (withExtension_eq_self_iff (by decide)).mp heq.symm with hn | hext
      · exact hname hn
      · exact (h.resolve_left hname) hext

/-- `/data/firehol.tmp`. -/
def fireholTmp : Path := [.rootDir, .normal (osString "data"), .normal (osString "firehol.tmp")]

/-- `/data/firehol.mmdb`. -/
def fireholMmdb : Path := [.rootDir, .normal (osString "data"), .normal (osString "firehol.mmdb")]

theorem replacesAtomically_fireholMmdb : ReplacesAtomically Reference.mmdbWriter fireholMmdb :=
  (replacesAtomically_iff ⟨[], 0, _, rfl⟩).mpr (.inr (by decide))

/-- `MMDB_PATH=/data/firehol.tmp` is its own temporary path. -/
theorem not_replacesAtomically_fireholTmp :
    ¬ ReplacesAtomically Reference.mmdbWriter fireholTmp :=
  not_replacesAtomically (by decide) (by decide)
    (rfl : serialise Reference.mmdbWriter [] 0 = .ok _)

end IpReputation
