import IpReputation.Workers
import Mathlib.Algebra.Order.Ring.Rat

/-! The latency line of a summary: minimum, mean, percentiles and maximum. -/
namespace IpReputation.Bench

open Client
open ScatterGather

/-- `f64`, as far as the weights and the percentiles use it; `ge` is `>=`. -/
structure F64 (F : Type) where
  zero : F
  one : F
  add : F → F → F
  mul : F → F → F
  div : F → F → F
  ofU64 : Nat → F
  ge : F → F → Bool

/-- On values that are no NaN, `>=` is a preorder, sums and quotients of what is not negative are
not negative, and the product of such a value with a fraction, above 0 and at most 1, follows the
fraction. -/
structure F64.Lawful {F : Type} (f : F64 F) : Prop where
  refl : f.ge f.zero f.zero = true
  trans : ∀ {a b c}, f.ge a b = true → f.ge b c = true → f.ge a c = true
  add_nonneg : ∀ {a b}, f.ge a f.zero = true → f.ge b f.zero = true →
    f.ge (f.add a b) f.zero = true
  div_nonneg : ∀ m n, 0 < n → f.ge (f.div (f.ofU64 m) (f.ofU64 n)) f.zero = true
  mul_mono : ∀ {a b c}, f.ge f.one a = true → f.ge a b = true → f.ge b f.zero = true →
    f.ge f.zero b = false → f.ge c f.zero = true → f.ge (f.mul a c) (f.mul b c) = true

/-- A share of all requests, above 0 and at most 1. -/
structure F64.Fraction {F : Type} (f : F64 F) (a : F) : Prop where
  nonneg : f.ge a f.zero = true
  pos : f.ge f.zero a = false
  le_one : f.ge f.one a = true

variable {F : Type} (f : F64 F)

/-- The weight of each sample of a report. -/
def F64.quotient (count samples : Nat) : F := f.div (f.ofU64 count) (f.ofU64 samples)

/-- The first latency at which the weights so far reach the target. -/
def reaches (target : F) : (cumulative : F) → List (Nat × F) → Option Nat
  | _, [] => none
  | cumulative, (latency, weight) :: rest =>
    if f.ge (f.add cumulative weight) target then some latency
    else reaches target (f.add cumulative weight) rest

def percentile (sorted : List (Nat × F)) (fraction : F) : Nat :=
  let total := (sorted.map (·.2)).foldl f.add f.zero
  match reaches f (f.mul fraction total) f.zero sorted with
  | some latency => latency
  | none => (sorted.getLast?.map (·.1)).getD 0

/-- `sort_by_key`, which is stable. -/
def Summary.sorted (s : Summary F) : List (Nat × F) :=
  s.weightedSamples.mergeSort fun x y => x.1 ≤ y.1

variable {f} {sorted : List (Nat × F)} {target target' fraction fraction' cumulative : F}
  {latency latency' : Nat}

theorem reaches_mem (h : reaches f target cumulative sorted = some latency) :
    latency ∈ sorted.map (·.1) := by
  induction sorted generalizing cumulative with
  | nil => cases h
  | cons x sorted ih =>
    rw [reaches] at h
    split at h
    · obtain rfl := Option.some.inj h
      exact List.mem_cons_self ..
    · exact List.mem_cons_of_mem _ (ih h)

/-- A higher target is reached at the same latency or a later one. -/
theorem reaches_mono (hf : f.Lawful) (hsorted : sorted.Pairwise fun x y => x.1 ≤ y.1)
    (htarget : f.ge target' target = true)
    (h : reaches f target' cumulative sorted = some latency') :
    ∃ latency, reaches f target cumulative sorted = some latency ∧ latency ≤ latency' := by
  induction sorted generalizing cumulative with
  | nil => cases h
  | cons x sorted ih =>
    obtain ⟨hhead, htail⟩ := List.pairwise_cons.mp hsorted
    rw [reaches] at h ⊢
    by_cases hlow : f.ge (f.add cumulative x.2) target = true
    · rw [if_pos hlow]
      refine ⟨x.1, rfl, ?_⟩
      split at h
      · exact (Option.some.inj h).le
      · obtain ⟨y, hy, rfl⟩ := List.mem_map.mp (reaches_mem h)
        exact hhead y hy
    · have hhigh : ¬ f.ge (f.add cumulative x.2) target' = true := fun hge =>
        hlow (hf.trans hge htarget)
      rw [if_neg hhigh] at h
      rw [if_neg hlow]
      exact ih htail h

theorem le_last (hsorted : sorted.Pairwise fun x y => x.1 ≤ y.1)
    (h : latency ∈ sorted.map (·.1)) : latency ≤ (sorted.getLast?.map (·.1)).getD 0 := by
  induction sorted generalizing latency with
  | nil => cases h
  | cons x sorted ih =>
    obtain ⟨hhead, htail⟩ := List.pairwise_cons.mp hsorted
    cases sorted with
    | nil =>
      obtain rfl := List.mem_singleton.mp h
      exact le_rfl
    | cons y sorted =>
      rw [List.getLast?_cons_cons]
      rcases List.mem_cons.mp h with rfl | h
      · exact (hhead y (List.mem_cons_self ..)).trans (ih htail (List.mem_cons_self ..))
      · exact ih htail h

theorem percentile_mem (f : F64 F) (fraction : F) (hne : sorted ≠ []) :
    percentile f sorted fraction ∈ sorted.map (·.1) := by
  simp only [percentile]
  split
  · rename_i latency hreaches
    exact reaches_mem hreaches
  · rw [List.getLast?_eq_getLast_of_ne_nil hne]
    exact List.mem_map_of_mem (List.getLast_mem hne)

theorem total_nonneg (hf : f.Lawful) (hweights : ∀ x ∈ sorted, f.ge x.2 f.zero = true)
    (h : f.ge cumulative f.zero = true) :
    f.ge ((sorted.map (·.2)).foldl f.add cumulative) f.zero = true := by
  induction sorted generalizing cumulative with
  | nil => exact h
  | cons x sorted ih =>
    exact ih (fun y hy => hweights y (List.mem_cons_of_mem _ hy))
      (hf.add_nonneg h (hweights x (List.mem_cons_self ..)))

theorem percentile_mono (hf : f.Lawful) (hsorted : sorted.Pairwise fun x y => x.1 ≤ y.1)
    (hweights : ∀ x ∈ sorted, f.ge x.2 f.zero = true) (hlow : f.Fraction fraction)
    (hhigh : f.Fraction fraction') (hle : f.ge fraction' fraction = true) :
    percentile f sorted fraction ≤ percentile f sorted fraction' := by
  have htarget := hf.mul_mono hhigh.le_one hle hlow.nonneg hlow.pos
    (total_nonneg hf hweights hf.refl)
  cases hhigh : reaches f (f.mul fraction' ((sorted.map (·.2)).foldl f.add f.zero)) f.zero
    sorted with
  | some latency' =>
    obtain ⟨latency, hlow, hle⟩ := reaches_mono hf hsorted htarget hhigh
    simpa only [percentile, hlow, hhigh] using hle
  | none =>
    by_cases hempty : sorted = []
    · subst hempty
      rfl
    · have hle := le_last hsorted (percentile_mem f fraction hempty)
      simpa only [percentile, hhigh] using hle

/-- All the line shows is in order, and is of the requests of the log. -/
structure Ordered (s : Summary F) (log : List (Nat × Reply)) (p50 p95 p99 : Nat) : Prop where
  shown : ∀ p ∈ [p50, p95, p99], p ∈ log.map (·.1)
  min : ∃ m, s.minLatency = some m ∧ IsLeast {x | x ∈ log.map (·.1)} m ∧ m ≤ p50 ∧
    m * s.count ≤ s.totalLatency
  p50_le : p50 ≤ p95
  p95_le : p95 ≤ p99
  max : IsGreatest {x | x ∈ log.map (·.1)} s.maxLatency ∧ p99 ≤ s.maxLatency ∧
    s.totalLatency ≤ s.maxLatency * s.count

variable {n : Nat} {checks : Bool} {encode : IpAddr → Bytes} {workload : Workload}
  {connections : Fin n → Connection} {P : Pool n Nat Worker Nat WorkerReport}
  {s : Summary F} {log : List (Nat × Reply)} {half most nearly : F}

theorem Summary.sorted_pairwise (s : Summary F) : s.sorted.Pairwise fun x y => x.1 ≤ y.1 := by
  have hpairwise : s.sorted.Pairwise fun x y => decide (x.1 ≤ y.1) = true := by
    apply List.pairwise_mergeSort
    · intro x y z
      simp only [decide_eq_true_eq]
      exact Nat.le_trans
    · intro x y
      simp only [Bool.or_eq_true, decide_eq_true_eq]
      exact Nat.le_total ..
  exact hpairwise.imp of_decide_eq_true

theorem sum_bounds {lats : List Nat} {lo hi : Nat} (hlo : ∀ x ∈ lats, lo ≤ x)
    (hhi : ∀ x ∈ lats, x ≤ hi) : lo * lats.length ≤ lats.sum ∧ lats.sum ≤ hi * lats.length := by
  have hleast := List.card_nsmul_le_sum lats lo hlo
  have hgreatest := List.sum_le_card_nsmul lats hi hhi
  rw [smul_eq_mul, Nat.mul_comm] at hleast hgreatest
  exact ⟨hleast, hgreatest⟩

theorem Summary.Samples.ordered (h : s.Samples log) (hf : f.Lawful) (hcount : 0 < s.count)
    (hweights : ∀ x ∈ s.weightedSamples, f.ge x.2 f.zero = true) (hhalf : f.Fraction half)
    (hmost : f.Fraction most) (hnearly : f.Fraction nearly) (hle : f.ge most half = true)
    (hle' : f.ge nearly most = true) :
    Ordered s log (percentile f s.sorted half) (percentile f s.sorted most)
      (percentile f s.sorted nearly) := by
  have hperm : s.sorted.Perm s.weightedSamples := List.mergeSort_perm ..
  have hsorted := s.sorted_pairwise
  have hweights' : ∀ x ∈ s.sorted, f.ge x.2 f.zero = true := fun x hx =>
    hweights x (hperm.mem_iff.mp hx)
  have hlog : log ≠ [] := by
    rintro rfl
    rw [h.describes.count] at hcount
    cases hcount
  have hne : s.sorted ≠ [] := by
    intro hempty
    rw [hempty] at hperm
    exact hlog (h.some (List.perm_nil.mp hperm.symm))
  have hmem : ∀ fraction, percentile f s.sorted fraction ∈ log.map (·.1) := fun fraction =>
    h.sampled.subset ((hperm.map _).mem_iff.mp (percentile_mem f fraction hne))
  have hmax : ∀ x ∈ log.map (·.1), x ≤ s.maxLatency := fun x hx =>
    h.describes.maxLatency.2 (.inr hx)
  -- The largest latency is 0 only when it is one of them.
  have hgreatest : s.maxLatency ∈ log.map (·.1) := by
    rcases h.describes.maxLatency.1 with hzero | hlatency
    · have hsame : percentile f s.sorted half = s.maxLatency :=
        Nat.le_antisymm (hmax _ (hmem half)) (by rw [hzero]; exact Nat.zero_le _)
      exact hsame ▸ hmem half
    · exact hlatency
  have hleast := h.describes.minLatency
  cases hmin : s.minLatency with
  | none =>
    rw [hmin] at hleast
    exact absurd (List.map_eq_nil_iff.mp hleast) hlog
  | some m =>
    rw [hmin] at hleast
    have hbounds := sum_bounds (fun x hx => hleast.2 hx) hmax
    rw [List.length_map, ← h.describes.count, ← h.describes.totalLatency] at hbounds
    refine ⟨?_, ⟨m, hmin, hleast, hleast.2 (hmem half), hbounds.1⟩,
      percentile_mono hf hsorted hweights' hhalf hmost hle,
      percentile_mono hf hsorted hweights' hmost hnearly hle',
      ⟨hgreatest, hmax⟩, hmax _ (hmem nearly), hbounds.2⟩
    simp only [List.forall_mem_cons, List.not_mem_nil, false_implies, implies_true, and_true]
    exact ⟨hmem half, hmem most, hmem nearly⟩

theorem weights_nonneg (hf : f.Lawful) (l : List (Fin n × WorkerReport)) {s : Summary F}
    (h : ∀ x ∈ s.weightedSamples, f.ge x.2 f.zero = true) :
    ∀ x ∈ (l.foldl (fun s x => s.merge f.quotient x.2) s).weightedSamples,
      f.ge x.2 f.zero = true := by
  induction l generalizing s with
  | nil => exact h
  | cons r l ih =>
    refine ih ?_
    intro x hx
    simp only [Summary.merge] at hx
    split at hx
    · exact h x hx
    · rename_i hne
      rcases List.mem_append.mp hx with hx | hx
      · exact h x hx
      · obtain ⟨latency, -, rfl⟩ := List.mem_map.mp hx
        exact hf.div_nonneg _ _ (List.length_pos_of_ne_nil hne)

/-- Whatever was measured, the line shows latencies of answered requests, the least and the greatest
of them all, in their order, and a mean between minimum and maximum. -/
theorem latencies_ordered (hf : f.Lawful)
    (hreach : (workers checks encode workload connections).Reachable P) (howner : P.owner = .ready)
    (hcount : 0 < (summary f.quotient P).count) (hhalf : f.Fraction half) (hmost : f.Fraction most)
    (hnearly : f.Fraction nearly) (hle : f.ge most half = true) (hle' : f.ge nearly most = true) :
    ∃ histories : Fin n → History, (∀ i, P.threads i = .idle (histories i).worker) ∧
      (∀ i, (histories i).Genuine checks encode workload (i + 1) (connections i)) ∧
      Ordered (summary f.quotient P) (combined histories)
        (percentile f (summary f.quotient P).sorted half)
        (percentile f (summary f.quotient P).sorted most)
        (percentile f (summary f.quotient P).sorted nearly) := by
  obtain ⟨histories, logs, hidle, hgenuine, hsamples, -⟩ :=
    histories_ready f.quotient hreach howner
  exact ⟨histories, hidle, hgenuine, hsamples.ordered hf hcount
    (weights_nonneg hf P.received (by simp)) hhalf hmost hnearly hle hle'⟩

/-- Quotients of small counters are exact. -/
def rationals : F64 Rat where
  zero := 0
  one := 1
  add := (· + ·)
  mul := (· * ·)
  div := (· / ·)
  ofU64 := Nat.cast
  ge x y := decide (y ≤ x)

theorem rationals_lawful : rationals.Lawful where
  refl := rfl
  trans h k := by
    simp only [rationals, decide_eq_true_eq] at *
    exact k.trans h
  add_nonneg h k := by
    simp only [rationals, decide_eq_true_eq] at *
    exact add_nonneg h k
  div_nonneg m n _ := by
    simp only [rationals, decide_eq_true_eq]
    exact div_nonneg (Nat.cast_nonneg m) (Nat.cast_nonneg n)
  mul_mono _ h _ _ k := by
    simp only [rationals, decide_eq_true_eq] at *
    exact mul_le_mul_of_nonneg_right h k

theorem rationals_fraction {a : Rat} (hpos : 0 < a) (hle : a ≤ 1) : rationals.Fraction a where
  nonneg := decide_eq_true hpos.le
  pos := decide_eq_false hpos.not_ge
  le_one := decide_eq_true hle

theorem latencies_ordered_timeout :
    ∃ (c : Connection) (P : Pool 1 Nat Worker Nat WorkerReport),
      0 < (summary rationals.quotient P).count ∧
      ∃ histories : Fin 1 → History, (∀ i, P.threads i = .idle (histories i).worker) ∧
        (∀ i, (histories i).Genuine false (fun _ => []) (.fixed [.v4 0xC0000201]) (i + 1) c) ∧
        Ordered (summary rationals.quotient P) (combined histories)
          (percentile rationals (summary rationals.quotient P).sorted (1 / 2))
          (percentile rationals (summary rationals.quotient P).sorted (19 / 20))
          (percentile rationals (summary rationals.quotient P).sorted (99 / 100)) := by
  obtain ⟨c, P, r, -, hreach, howner, -, hreceived, hone⟩ := timeout_reached
  have hcount : 0 < (summary rationals.quotient P).count := by
    rw [summary_count, hreceived]
    simp [hone]
  have hle : rationals.ge (19 / 20) (1 / 2) = true := decide_eq_true (by norm_num)
  have hle' : rationals.ge (99 / 100) (19 / 20) = true := decide_eq_true (by norm_num)
  exact ⟨c, P, hcount, latencies_ordered rationals_lawful hreach howner hcount
    (rationals_fraction (by norm_num) (by norm_num))
    (rationals_fraction (by norm_num) (by norm_num))
    (rationals_fraction (by norm_num) (by norm_num)) hle hle'⟩

end IpReputation.Bench
