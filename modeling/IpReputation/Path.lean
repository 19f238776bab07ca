import Mathlib.Data.List.Basic
import Mathlib.Data.List.TakeWhile

/-! `std::path`: a path as its components, and the file name's extension. -/
namespace IpReputation

/-- File names are byte strings. -/
abbrev OsString := List UInt8

def osString (s : String) : OsString := s.toUTF8.data.toList

/-- `str::from_utf8`. -/
def fromUtf8 (bytes : List UInt8) : Option String := String.fromUTF8? ⟨bytes.toArray⟩

/-- `.`. -/
def dot : UInt8 := 0x2E

/-- The extension `tmp`. -/
def TMP : OsString := [0x74, 0x6D, 0x70]

inductive Component
  | rootDir
  | curDir
  | parentDir
  | normal (name : OsString)
  deriving DecidableEq

abbrev Path := List Component

def beforeLastDot (file : OsString) : OsString := (file.reverse.dropWhile (· ≠ dot)).tail.reverse

def afterLastDot (file : OsString) : OsString := (file.reverse.takeWhile (· ≠ dot)).reverse

/-- `rsplit_file_at_dot`: what stands before and after the last dot. -/
def rsplitFileAtDot (file : OsString) : Option OsString × Option OsString :=
  if file = [dot, dot] then (some file, none)
  else if dot ∈ file then
    -- A leading dot with no other one belongs to the name.
    if beforeLastDot file = [] then (some file, none)
    else (some (beforeLastDot file), some (afterLastDot file))
  else (none, some file)

namespace Path

/-- `Path::file_name`: the last component, when it is a name. -/
def fileName (p : Path) : Option OsString :=
  match p.getLast? with
  | some (.normal name) => some name
  | _ => none

/-- `Path::parent`: none for a root or an empty path. -/
def parent (p : Path) : Option Path :=
  match p.getLast? with
  | none | some .rootDir => none
  | some _ => some p.dropLast

/-- `Path::file_stem`. -/
def fileStem (p : Path) : Option OsString :=
  p.fileName.bind fun file => (rsplitFileAtDot file).1.or (rsplitFileAtDot file).2

/-- `Path::extension`. -/
def extension (p : Path) : Option OsString :=
  p.fileName.bind fun file => (rsplitFileAtDot file).1.bind fun _ => (rsplitFileAtDot file).2

/-- `Path::with_extension`: the extension is replaced, not appended. -/
def withExtension (p : Path) (ext : OsString) : Path :=
  match p.fileStem with
  | none => p
  | some stem => p.dropLast ++ [.normal (if ext = [] then stem else stem ++ dot :: ext)]

end Path

/-- `std::path::absolute`: nothing is looked up on disk. -/
def absolute (currentDir : Option Path) (p : Path) : Option Path :=
  match p with
  | [] => none
  | .rootDir :: _ => some p
  | .curDir :: rest => currentDir.map (· ++ rest)
  | _ => currentDir.map (· ++ p)

variable {file ext : OsString} {p : Path}

theorem beforeLastDot_append (h : dot ∈ file) :
    beforeLastDot file ++ dot :: afterLastDot file = file := by
  have hne : file.reverse.dropWhile (· ≠ dot) ≠ [] := by
    intro hn
    have := List.dropWhile_eq_nil_iff.mp hn dot (List.mem_reverse.mpr h)
    simp at this
  have hhead : (file.reverse.dropWhile (· ≠ dot)).head hne = dot := by
    simpa using List.head_dropWhile_not (· ≠ dot) hne
  have hcons := List.cons_head_tail hne
  rw [hhead] at hcons
  have happ : file.reverse.takeWhile (· ≠ dot) ++ file.reverse.dropWhile (· ≠ dot) =
      file.reverse := List.takeWhile_append_dropWhile
  rw [← hcons] at happ
  simpa [beforeLastDot, afterLastDot] using congrArg List.reverse happ

/-- A name always has a stem, and the stem with `ext` behind it is the name again exactly when
`ext` was its extension. -/
theorem exists_stem (file ext : OsString) : ∃ stem,
    (rsplitFileAtDot file).1.or (rsplitFileAtDot file).2 = some stem ∧
      (stem ++ dot :: ext = file ↔
        ((rsplitFileAtDot file).1.bind fun _ => (rsplitFileAtDot file).2) = some ext) := by
  have hlong : file ++ dot :: ext ≠ file := by
    intro h
    have := congrArg List.length h
    simp at this
  unfold rsplitFileAtDot
  split
  · exact ⟨file, rfl, by simp⟩
  · split
    · rename_i hdot
      have hcut := beforeLastDot_append hdot
      split
      · exact ⟨file, rfl, by simp⟩
      · refine ⟨beforeLastDot file, rfl, ?_⟩
        simp only [Option.bind_some, Option.some.injEq]
        constructor
        · intro h
          exact (List.cons.inj (List.append_cancel_left (hcut.trans h.symm))).2
        · rintro rfl
          exact hcut
    · exact ⟨file, rfl, by simp⟩

/-- The path with its extension replaced is the path itself only for a path without a file name
or with that extension. -/
theorem withExtension_eq_self_iff (hext : ext ≠ []) :
    p.withExtension ext = p ↔ p.fileName = none ∨ p.extension = some ext := by
  unfold Path.withExtension Path.fileStem Path.extension
  cases hn : p.fileName with
  | none => simp
  | some file =>
    obtain ⟨stem, hs, hiff⟩ := exists_stem file ext
    simp only [Option.bind_some, hs, hext, if_false, reduceCtorEq, false_or, ← hiff]
    have hlast : p.getLast? = some (.normal file) := by
      unfold Path.fileName at hn
      split at hn <;> simp_all
    have hp : p.dropLast ++ [.normal file] = p := List.dropLast_append_getLast? _ hlast
    constructor
    · intro h
      have := h.trans hp.symm
      simpa using this
    · rintro rfl
      exact hp

example : Path.withExtension [.rootDir, .normal (osString "firehol.mmdb")] (osString "tmp") =
    [.rootDir, .normal (osString "firehol.tmp")] := by decide

end IpReputation
