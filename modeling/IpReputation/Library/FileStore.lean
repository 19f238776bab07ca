import Mathlib.Logic.Function.Basic

/-! A flat store of named files with the usual operations; each name holds its own file. -/
namespace FileStore

variable {ν β τ : Type*} [DecidableEq ν]

inductive Node (β τ : Type*)
  | file (bytes : β) (modified : τ)
  | directory (modified : τ)

/-- What each name holds. -/
abbrev Store (ν β τ : Type*) := ν → Option (Node β τ)

inductive IoError
  | notFound
  | isDirectory
  | other
  deriving DecidableEq

def Node.modified : Node β τ → τ
  | file _ t | directory t => t

def Node.isFile : Node β τ → Bool
  | file _ _ => true
  | directory _ => false

/-- Opens a fresh empty file under `p`, dropping the bytes of a file already there. -/
def create (empty : β) (now : τ) (p : ν) (s : Store ν β τ) : Except IoError (Store ν β τ) :=
  match s p with
  | some (.directory _) => .error .isDirectory
  | _ => .ok (Function.update s p (some (.file empty now)))

/-- Replaces the bytes of the open file `p`. -/
def write (bytes : β) (now : τ) (p : ν) (s : Store ν β τ) : Store ν β τ :=
  Function.update s p (some (.file bytes now))

/-- Moves what `p` holds onto `q`; a rename of a name onto itself changes nothing. -/
def rename (p q : ν) (s : Store ν β τ) : Except IoError (Store ν β τ) :=
  match s p with
  | none => .error .notFound
  | some node =>
    match s q with
    | some (.directory _) => .error .isDirectory
    | _ =>
      if p = q then .ok s
      else .ok (Function.update (Function.update s q (some node)) p none)

/-- Removes the file `p`. -/
def remove (p : ν) (s : Store ν β τ) : Except IoError (Store ν β τ) :=
  match s p with
  | none => .error .notFound
  | some (.directory _) => .error .isDirectory
  | some (.file _ _) => .ok (Function.update s p none)

variable {s s' : Store ν β τ} {p q r : ν} {empty bytes : β} {now : τ}

theorem create_eq (h : create empty now p s = .ok s') :
    s' = Function.update s p (some (.file empty now)) := by
  unfold create at h
  split at h <;> cases h
  rfl

@[simp] theorem write_self : write bytes now p s p = some (.file bytes now) :=
  Function.update_self ..

theorem write_of_ne (h : q ≠ p) : write bytes now p s q = s q := Function.update_of_ne h ..

theorem rename_target {node : Node β τ} (h : rename p q s = .ok s') (hp : s p = some node)
    (hpq : p ≠ q) : s' q = some node ∧ s' p = none := by
  simp only [rename, hp, hpq, if_false] at h
  split at h <;> cases h
  exact ⟨by rw [Function.update_of_ne (Ne.symm hpq), Function.update_self], Function.update_self ..⟩

theorem rename_self (h : rename p p s = .ok s') : s' = s := by
  unfold rename at h
  split at h
  · cases h
  · split at h
    · cases h
    · simpa using h.symm

theorem remove_file {t : τ} (h : s p = some (.file bytes t)) :
    remove p s = .ok (Function.update s p none) := by
  simp [remove, h]

theorem remove_of_ne (h : remove p s = .ok s') (hq : q ≠ p) : s' q = s q := by
  unfold remove at h
  split at h <;> cases h
  rw [Function.update_of_ne hq]

end FileStore
