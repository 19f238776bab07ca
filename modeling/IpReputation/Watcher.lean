import IpReputation.ReloadContents

/-! `mmdb_watcher.rs`: the watch loop, the channel it receives from and the reloads it starts. -/
namespace IpReputation

open Transition

variable {β : Type} {G : Geoip2 β} {path : Path}

/-- `EventBatch`: the paths of the debounced events, or the texts of the errors. -/
abbrev EventBatch := Except (List String) (List Path)

/-- Whether `watch_loop` starts a reload on a batch. -/
def changes (fileName : OsString) (batch : EventBatch) : Bool :=
  match batch with
  | .error _ => false
  | .ok events => events.any fun event => event.fileName == some fileName

/-- The bound of the channel. -/
def CAPACITY : Nat := 16

/-- Where the start-up, and after it `watch_loop`, stands. -/
inductive Phase
  | start
  | loading
  | recv
  | reloading
  deriving DecidableEq

/-- The first load and the reloads of `watch_loop`, one after the other, run as this thread. -/
def loopThread : Nat := 0

/-- The calls on the database, the file, and the loop with its channel. -/
structure Watching (path : Path) (G : Geoip2 β) where
  core : Reloads (versionedFile β path) G
  channel : List EventBatch := []
  /-- Replacements no batch has been put in the channel for. -/
  owed : Nat := 0
  phase : Phase := .start

namespace Reloads

variable (s : Reloads (versionedFile β path) G)

/-- The loop's thread has a call to make. -/
def calling (call : Call) : Reloads (versionedFile β path) G :=
  { s with threads := Function.update s.threads loopThread (.waiting call path) }

/-- The loop's thread has taken the lock. -/
def entered (call : Call) (p : Path) : Reloads (versionedFile β path) G :=
  { s with
    loadLock := some loopThread
    threads := Function.update s.threads loopThread
      (.inside call p ⟨s.files, s.served⟩ .locked) }

/-- The loop's thread has released the lock and returned. -/
def left (call : Call) (p : Path) (entry : Entry (versionedFile β path) G) (answer : Answer) :
    Reloads (versionedFile β path) G :=
  { s with
    loadLock := none
    threads := Function.update s.threads loopThread (.returned call p entry answer) }

variable {s} {call : Call} {p : Path} {entry : Entry (versionedFile β path) G} {answer : Answer}

@[simp] theorem calling_self : (s.calling call).threads loopThread = .waiting call path := by
  simp only [calling, Function.update_self]

@[simp] theorem entered_self : (s.entered call p).threads loopThread =
    .inside call p ⟨s.files, s.served⟩ .locked := by
  simp only [entered, Function.update_self]

@[simp] theorem left_self : (s.left call p entry answer).threads loopThread =
    .returned call p entry answer := by
  simp only [left, Function.update_self]

end Reloads

/-- The loop's thread inside `Mmdb`. Nothing retries its reload, so that its `stat` and its `read`
are taken to find the file as it is. -/
inductive LoopStep (lossy : Path → String) (s : Reloads (versionedFile β path) G) :
    Reloads (versionedFile β path) G → Prop
  | lock {call : Call} {p : Path} :
      s.threads loopThread = .waiting call p → s.loadLock = none →
      LoopStep lossy s (s.entered call p)
  | work {call : Call} {p : Path} {entry : Entry (versionedFile β path) G}
      {stage : Stage (versionedFile β path) G} :
      s.threads loopThread = .inside call p entry stage → LoopStep lossy s
        (s.worked loopThread call p entry
          (advance lossy {} call p s.files ⟨stage, s.served, s.published⟩))
  | unlock {call : Call} {p : Path} {entry : Entry (versionedFile β path) G} {answer : Answer} :
      s.threads loopThread = .inside call p entry (.done answer) →
      LoopStep lossy s (s.left call p entry answer)

inductive Mover
  | startUp
  | debouncer
  | watchLoop
  | reload
  | other (actor : Actor)

/-- The steps of `run` up to the loop, of `watch_loop`, and of everything around it: batches of
any kind come in any order, and one that names the file makes good any of the replacements. -/
inductive WatchStep (fileName : OsString) (lossy : Path → String) :
    Watching path G → Mover → Watching path G → Prop
  | absent {w : Watching path G} :
      w.phase = .start → isFile path ((versionedFile β path).view w.core.files) = false →
      WatchStep fileName lossy w .startUp { w with phase := .recv }
  | load {w : Watching path G} :
      w.phase = .start → isFile path ((versionedFile β path).view w.core.files) = true →
      WatchStep fileName lossy w .startUp { w with core := w.core.calling .load, phase := .loading }
  | loaded {w : Watching path G} {p : Path} {entry : Entry (versionedFile β path) G} {b : Bool} :
      w.phase = .loading → w.core.threads loopThread = .returned .load p entry (.ok b) →
      WatchStep fileName lossy w .startUp { w with phase := .recv }
  | put {w : Watching path G} (batch : EventBatch) (owed : Nat) :
      w.channel.length < CAPACITY → owed ≤ w.owed →
      changes fileName batch = true ∨ owed = w.owed →
      WatchStep fileName lossy w .debouncer { w with channel := w.channel ++ [batch], owed }
  | skip {w : Watching path G} {batch : EventBatch} {rest : List EventBatch} :
      w.phase = .recv → w.channel = batch :: rest → changes fileName batch = false →
      WatchStep fileName lossy w .watchLoop { w with channel := rest }
  | spawn {w : Watching path G} {batch : EventBatch} {rest : List EventBatch} :
      w.phase = .recv → w.channel = batch :: rest → changes fileName batch = true →
      WatchStep fileName lossy w .watchLoop
        { w with core := w.core.calling .reloadIfChanged, channel := rest, phase := .reloading }
  -- The answer is only logged.
  | join {w : Watching path G} {call : Call} {p : Path} {entry : Entry (versionedFile β path) G}
      {answer : Answer} :
      w.phase = .reloading → w.core.threads loopThread = .returned call p entry answer →
      WatchStep fileName lossy w .watchLoop { w with phase := .recv }
  | reload {w : Watching path G} {core : Reloads (versionedFile β path) G} :
      LoopStep lossy w.core core → WatchStep fileName lossy w .reload { w with core }
  | other {w : Watching path G} {core : Reloads (versionedFile β path) G} {actor : Actor} :
      (reloads (versionedFile β path) G lossy).step w.core actor core → actor ≠ .files →
      actor ≠ .thread loopThread → WatchStep fileName lossy w (.other actor) { w with core }
  | files {w : Watching path G} {files : Versioned β} :
      w.core.files.Step files → WatchStep fileName lossy w (.other .files)
        { w with
          core := { w.core with files }
          owed := w.owed + (files.version - w.core.files.version) }

/-- The agent's view of its database file, from the start. -/
def watching (path : Path) (G : Geoip2 β) (fileName : OsString) (lossy : Path → String) :
    System (Watching path G) Mover where
  initial w := ∃ files, (versionedFile β path).initial files ∧ w = { core := .start files }
  step := WatchStep fileName lossy

variable {fileName : OsString} {lossy : Path → String} {w w' : Watching path G}
  {s t : Reloads (versionedFile β path) G} {mover : Mover} {call : Call} {p : Path}
  {entry : Entry (versionedFile β path) G} {answer : Answer}

theorem LoopStep.step (h : LoopStep lossy s t) :
    (reloads (versionedFile β path) G lossy).step s (.thread loopThread) t := by
  cases h with
  | lock hwait hfree => exact .lock hwait hfree
  | work hin => exact .work {} hin
  | unlock hdone => exact .unlock hdone

/-- A step of another thread, or a lookup, leaves the loop's thread alone. -/
theorem threads_other {actor : Actor}
    (h : (reloads (versionedFile β path) G lossy).step s actor t)
    (hactor : actor ≠ .thread loopThread) :
    t.threads loopThread = s.threads loopThread := by
  cases h with
  | @call tid _ _ hready hpath =>
    have hne : loopThread ≠ tid := fun heq => hactor (heq ▸ rfl)
    exact Function.update_of_ne hne ..
  | @lock tid _ _ hwait hlock =>
    have hne : loopThread ≠ tid := fun heq => hactor (heq ▸ rfl)
    exact Function.update_of_ne hne ..
  | @work tid _ _ _ _ faults hbefore =>
    have hne : loopThread ≠ tid := fun heq => hactor (heq ▸ rfl)
    exact Function.update_of_ne hne ..
  | @unlock tid _ _ _ _ hdone =>
    have hne : loopThread ≠ tid := fun heq => hactor (heq ▸ rfl)
    exact Function.update_of_ne hne ..
  | lookup | files hstep => rfl

theorem files_other {actor : Actor}
    (h : (reloads (versionedFile β path) G lossy).step s actor t) (hactor : actor ≠ .files) :
    t.files = s.files := by
  cases h with
  | files hstep => exact absurd rfl hactor
  | call hready hpath | lock hwait hlock | work faults hbefore | unlock hdone | lookup => rfl

/-- Between its calls the loop has no call under way, and what it calls are the program's calls
on one versioned file. -/
structure Follows (lossy : Path → String) (w : Watching path G) : Prop where
  core : (reloads (versionedFile β path) G lossy).Reachable w.core
  resting : w.phase = .start ∨ w.phase = .recv → (w.core.threads loopThread).Ready

theorem follows_stable : (watching path G fileName lossy).Stable (Follows lossy) := by
  intro w mover w' h hw
  cases h with
  | absent hphase hfile => exact ⟨hw.core, fun _ => hw.resting (.inl hphase)⟩
  | load hphase hfile =>
    have hcall : (reloads (versionedFile β path) G lossy).step w.core (.thread loopThread)
        (w.core.calling .load) := .call (hw.resting (.inl hphase)) rfl
    exact ⟨hw.core.step hcall, fun hrest => by simp at hrest⟩
  | loaded hphase hret => exact ⟨hw.core, fun _ => by simp only [hret, Thread.Ready]⟩
  | put batch owed hroom hle hbatch => exact ⟨hw.core, hw.resting⟩
  | skip hphase hchannel hbatch => exact ⟨hw.core, hw.resting⟩
  | spawn hphase hchannel hbatch =>
    have hcall : (reloads (versionedFile β path) G lossy).step w.core (.thread loopThread)
        (w.core.calling .reloadIfChanged) := .call (hw.resting (.inr hphase)) rfl
    exact ⟨hw.core.step hcall, fun hrest => by simp at hrest⟩
  | join hphase hret => exact ⟨hw.core, fun _ => by simp only [hret, Thread.Ready]⟩
  | reload hloop =>
    refine ⟨hw.core.step hloop.step, ?_⟩
    intro hrest
    have hready := hw.resting hrest
    -- A thread that rests takes no step of a call.
    cases hloop with
    | lock hwait hfree => simp [hwait, Thread.Ready] at hready
    | work hin => simp [hin, Thread.Ready] at hready
    | unlock hdone => simp [hdone, Thread.Ready] at hready
  | other hstep hfiles hthread =>
    refine ⟨hw.core.step hstep, ?_⟩
    intro hrest
    simpa only [threads_other hstep hthread] using hw.resting hrest
  | files hstep => exact ⟨hw.core.step (a := .files) (.files hstep), hw.resting⟩

theorem follows_initial {files : Versioned β} (h : (versionedFile β path).initial files) :
    Follows lossy ({ core := .start files } : Watching path G) :=
  ⟨.initial ⟨files, h, rfl⟩, fun _ => trivial⟩

end IpReputation
