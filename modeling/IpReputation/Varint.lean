import Mathlib.Data.UInt
import Mathlib.Data.Nat.Notation

/-! `client.rs` of the benchmark: the variable-length integers of the protocol. -/
namespace IpReputation.Client

/-- Where a run may panic: in the arithmetic of `get_varint`, at the frame counter, at a shift of
the pending mask, at an index out of range, at the depth of a pipeline. -/
inductive Panic
  | varint
  | frameCounter
  | pendingShift
  | slice
  | pipelineDepth
  deriving DecidableEq

/-- `x + y`; an overflow panics when it is checked, as in a debug build, and wraps otherwise. -/
def add (checks : Bool) (panic : Panic) (x y : UInt64) : Except Panic UInt64 :=
  if checks = true ∧ 2 ^ 64 ≤ x.toNat + y.toNat then .error panic else .ok (x + y)

/-- `x << n`; unchecked, the amount counts modulo the width. -/
def shl (checks : Bool) (panic : Panic) (x : UInt64) (n : Nat) : Except Panic UInt64 :=
  if checks = true ∧ 64 ≤ n then .error panic else .ok (x <<< UInt64.ofNat n)

/-- The groups of seven bits after the first byte. -/
def putGroups (n : UInt64) : List UInt8 :=
  if 128 ≤ n then (n.toUInt8 ||| 0x80) :: putGroups ((n - 128) >>> 7) else [n.toUInt8]
termination_by n.toNat
decreasing_by
  rename_i h
  have hn : 128 ≤ n.toNat := h
  have hsub : (n - 128).toNat = n.toNat - 128 := UInt64.toNat_sub_of_le _ _ h
  have hshift : ((n - 128) >>> 7).toNat = (n.toNat - 128) / 128 := by
    simp [hsub, Nat.shiftRight_eq_div_pow]
  omega

/-- SPOE variable-length integer. -/
def putVarint (n : UInt64) : List UInt8 :=
  if n < 240 then [n.toUInt8] else (n.toUInt8 ||| 0xF0) :: putGroups ((n - 240) >>> 4)

/-- The loop of `get_varint` over the bytes from `pos` on. -/
def getGroups (checks : Bool) : List UInt8 → UInt64 → Nat → Nat →
    Except Panic (Option UInt64 × Nat)
  | [], _, _, pos => .ok (none, pos)
  | byte :: rest, value, shift, pos => do
    let group ← shl checks .varint byte.toUInt64 shift
    let value ← add checks .varint value group
    if byte < 128 then .ok (some value, pos + 1)
    else getGroups checks rest value (shift + 7) (pos + 1)

/-- The value, when one could be read, and the position after the bytes read. -/
def getVarint (checks : Bool) (buf : List UInt8) (pos : Nat) :
    Except Panic (Option UInt64 × Nat) :=
  match buf.drop pos with
  | [] => .ok (none, pos)
  | first :: rest =>
    if first < 240 then .ok (some first.toUInt64, pos + 1)
    else getGroups checks rest first.toUInt64 4 (pos + 1)

variable {checks : Bool} {panic p : Panic} {x y value : UInt64} {n pos shift : Nat}
  {buf rest : List UInt8} {result : Option UInt64 × Nat}

theorem add_panic (h : add checks panic x y = .error p) : checks = true ∧ p = panic := by
  unfold add at h
  split at h
  · rename_i hover
    exact ⟨hover.1, (Except.error.inj h).symm⟩
  · cases h

theorem shl_panic (h : shl checks panic x n = .error p) : checks = true ∧ p = panic := by
  unfold shl at h
  split at h
  · rename_i hover
    exact ⟨hover.1, (Except.error.inj h).symm⟩
  · cases h

/-- Below the bound the counter counts. -/
theorem add_ok (h : x.toNat + y.toNat < 2 ^ 64) : add checks panic x y = .ok (x + y) := by
  have hnot : ¬ (checks = true ∧ 2 ^ 64 ≤ x.toNat + y.toNat) := by omega
  rw [add, if_neg hnot]

theorem add_error {p q : Panic} (h : add checks p x y = .error q) :
    checks = true ∧ 2 ^ 64 ≤ x.toNat + y.toNat ∧ p = q := by
  rw [add] at h
  split at h
  · rename_i hover
    exact ⟨hover.1, hover.2, Except.error.inj h⟩
  · cases h

/-- One round of the loop: it panics, or it adds a group and goes on after a continuation bit. -/
theorem getGroups_cons (checks : Bool) (byte : UInt8) (rest : List UInt8) (value : UInt64)
    (shift pos : Nat) :
    (checks = true ∧ getGroups checks (byte :: rest) value shift pos = .error .varint) ∨
    ∃ group sum, shl checks .varint byte.toUInt64 shift = .ok group ∧
      add checks .varint value group = .ok sum ∧
      getGroups checks (byte :: rest) value shift pos =
        if byte < 128 then .ok (some sum, pos + 1)
        else getGroups checks rest sum (shift + 7) (pos + 1) := by
  cases hshl : shl checks .varint byte.toUInt64 shift with
  | error q =>
    obtain ⟨hchecks, rfl⟩ := shl_panic hshl
    exact .inl ⟨hchecks, by simp [getGroups, hshl, bind, Except.bind]⟩
  | ok group =>
    cases hadd : add checks .varint value group with
    | error q =>
      obtain ⟨hchecks, rfl⟩ := add_panic hadd
      exact .inl ⟨hchecks, by simp [getGroups, hshl, hadd, bind, Except.bind]⟩
    | ok sum =>
      exact .inr ⟨group, sum, rfl, hadd, by simp [getGroups, hshl, hadd, bind, Except.bind]⟩

theorem getGroups_panic (h : getGroups checks rest value shift pos = .error p) :
    checks = true ∧ p = .varint := by
  induction rest generalizing value shift pos with
  | nil => cases h
  | cons byte rest ih =>
    rcases getGroups_cons checks byte rest value shift pos with
      ⟨hchecks, hpanic⟩ | ⟨group, sum, -, -, hnext⟩
    · rw [hpanic] at h
      exact ⟨hchecks, (Except.error.inj h).symm⟩
    · rw [hnext] at h
      split at h
      · cases h
      · exact ih h

/-- Nothing is left to read, one byte is the integer, or groups follow the first byte. -/
theorem getVarint_cases (buf : List UInt8) (pos : Nat) :
    (buf.drop pos = [] ∧ ∀ checks, getVarint checks buf pos = .ok (none, pos)) ∨
    ∃ first rest, buf.drop pos = first :: rest ∧
      ((first < 240 ∧ ∀ checks, getVarint checks buf pos = .ok (some first.toUInt64, pos + 1)) ∨
        (¬ first < 240 ∧ ∀ checks,
          getVarint checks buf pos = getGroups checks rest first.toUInt64 4 (pos + 1))) := by
  unfold getVarint
  cases buf.drop pos with
  | nil => exact .inl ⟨rfl, fun _ => rfl⟩
  | cons first rest =>
    refine .inr ⟨first, rest, rfl, ?_⟩
    by_cases hshort : first < 240
    · exact .inl ⟨hshort, fun _ => if_pos hshort⟩
    · exact .inr ⟨hshort, fun _ => if_neg hshort⟩

theorem getVarint_panic (h : getVarint checks buf pos = .error p) :
    checks = true ∧ p = .varint := by
  rcases getVarint_cases buf pos with
    ⟨-, hread⟩ | ⟨first, rest, -, ⟨-, hread⟩ | ⟨-, hread⟩⟩
  · rw [hread] at h
    cases h
  · rw [hread] at h
    cases h
  · rw [hread] at h
    exact getGroups_panic h

theorem getGroups_pos (h : getGroups checks rest value shift pos = .ok result) :
    result.2 ≤ pos + rest.length := by
  induction rest generalizing value shift pos with
  | nil =>
    obtain rfl := Except.ok.inj h
    exact le_rfl
  | cons byte rest ih =>
    rw [List.length_cons]
    rcases getGroups_cons checks byte rest value shift pos with
      ⟨-, hpanic⟩ | ⟨group, sum, -, -, hnext⟩
    · rw [hpanic] at h
      cases h
    · rw [hnext] at h
      split at h
      · obtain rfl := Except.ok.inj h
        change pos + 1 ≤ pos + (rest.length + 1)
        omega
      · have hle := ih h
        omega

/-- The position never leaves the buffer. -/
theorem getVarint_pos (h : getVarint checks buf pos = .ok result) (hpos : pos ≤ buf.length) :
    result.2 ≤ buf.length := by
  rcases getVarint_cases buf pos with ⟨-, hread⟩ | ⟨first, rest, hdrop, hcase⟩
  · rw [hread] at h
    obtain rfl := Except.ok.inj h
    exact hpos
  · have hlength : buf.length - pos = rest.length + 1 := by
      rw [← List.length_drop, hdrop, List.length_cons]
    rcases hcase with ⟨-, hread⟩ | ⟨-, hread⟩
    · rw [hread] at h
      obtain rfl := Except.ok.inj h
      change pos + 1 ≤ buf.length
      omega
    · rw [hread] at h
      have hle := getGroups_pos h
      omega

end IpReputation.Client
