import IpReputation.Library.Transition
import Mathlib.Algebra.BigOperators.Fin
import Mathlib.Algebra.Order.BigOperators.Group.Finset
import Mathlib.Data.Fintype.BigOperators

/-! An owner hands every worker thread a command over a channel of its own, of capacity one, and
collects their reports from a channel they share. -/
namespace ScatterGather

open Transition

variable {n : Nat} {β σ κ ρ : Type*}

inductive Thread (σ κ ρ : Type*)
  | idle (s : σ)
  | busy (s : σ) (c : κ)
  | reporting (s : σ) (r : ρ)
  | panicked

/-- Within a round the owner sends what is still to send, then receives the reports left. -/
inductive Owner (n : Nat) (κ : Type*)
  | ready
  | round (todo : List (Fin n × κ)) (left : Nat)
  | panicked

structure Pool (n : Nat) (β σ κ ρ : Type*) where
  owner : Owner n κ
  slots : Fin n → Option κ
  threads : Fin n → Thread σ κ ρ
  /-- Reports sent and not yet received, with their workers. -/
  queue : List (Fin n × ρ)
  received : List (Fin n × ρ)
  rounds : List β

inductive Move (n : Nat)
  | start
  | owner
  | worker (i : Fin n)

def commands (cmds : Fin n → κ) : List (Fin n × κ) := (List.finRange n).map fun i => (i, cmds i)

variable (told : β → Fin n → κ) (work : Fin n → σ → κ → Option (σ × ρ) → Prop)

/-- `told` are the commands of a round; `work` says what a worker in state `s` may make of its
command, where `none` is a panic. -/
inductive Step : Pool n β σ κ ρ → Move n → Pool n β σ κ ρ → Prop
  | start {P : Pool n β σ κ ρ} (b : β) : P.owner = .ready →
      Step P .start { P with owner := .round (commands (told b)) n, rounds := P.rounds ++ [b] }
  | send {P : Pool n β σ κ ρ} {i : Fin n} {c : κ} {todo : List (Fin n × κ)} {left : Nat} :
      P.owner = .round ((i, c) :: todo) left → P.slots i = none → P.threads i ≠ .panicked →
      Step P .owner
        { P with owner := .round todo left, slots := Function.update P.slots i (some c) }
  | sendFails {P : Pool n β σ κ ρ} {i : Fin n} {c : κ} {todo : List (Fin n × κ)} {left : Nat} :
      P.owner = .round ((i, c) :: todo) left → P.threads i = .panicked →
      Step P .owner { P with owner := .panicked }
  | take {P : Pool n β σ κ ρ} {i : Fin n} {s : σ} {c : κ} :
      P.threads i = .idle s → P.slots i = some c →
      Step P (.worker i)
        { P with
          slots := Function.update P.slots i none
          threads := Function.update P.threads i (.busy s c) }
  | finish {P : Pool n β σ κ ρ} {i : Fin n} {s s' : σ} {c : κ} {r : ρ} :
      P.threads i = .busy s c → work i s c (some (s', r)) →
      Step P (.worker i) { P with threads := Function.update P.threads i (.reporting s' r) }
  | panic {P : Pool n β σ κ ρ} {i : Fin n} {s : σ} {c : κ} :
      P.threads i = .busy s c → work i s c none →
      Step P (.worker i) { P with threads := Function.update P.threads i .panicked }
  | report {P : Pool n β σ κ ρ} {i : Fin n} {s : σ} {r : ρ} : P.threads i = .reporting s r →
      Step P (.worker i)
        { P with
          threads := Function.update P.threads i (.idle s)
          queue := P.queue ++ [(i, r)] }
  | receive {P : Pool n β σ κ ρ} {i : Fin n} {r : ρ} {rest : List (Fin n × ρ)} {left : Nat} :
      P.owner = .round [] (left + 1) → P.queue = (i, r) :: rest →
      Step P .owner
        { P with owner := .round [] left, queue := rest, received := P.received ++ [(i, r)] }
  | receiveFails {P : Pool n β σ κ ρ} {left : Nat} : P.owner = .round [] (left + 1) → P.queue = [] →
      (∀ i, P.threads i = .panicked) → Step P .owner { P with owner := .panicked }
  | done {P : Pool n β σ κ ρ} : P.owner = .round [] 0 → Step P .owner { P with owner := .ready }

/-- All workers wait for their first command. -/
def pool (init : Fin n → σ) : System (Pool n β σ κ ρ) (Move n) where
  initial P := P = ⟨.ready, fun _ => none, fun i => .idle (init i), [], [], []⟩
  step := Step told work

/-- One worker alone, command by command. -/
inductive Serial (work : σ → κ → Option (σ × ρ) → Prop) : σ → List κ → List ρ → σ → Prop
  | nil {s : σ} : Serial work s [] [] s
  | snoc {s s' s'' : σ} {cs : List κ} {rs : List ρ} {c : κ} {r : ρ} :
      Serial work s cs rs s' → work s' c (some (s'', r)) →
      Serial work s (cs ++ [c]) (rs ++ [r]) s''

/-- The entries of one worker. -/
def entriesOf {τ : Type*} (i : Fin n) (l : List (Fin n × τ)) : List τ :=
  (l.filter (·.1 = i)).map (·.2)

def Owner.todo : Owner n κ → List (Fin n × κ)
  | .round todo _ => todo
  | .ready | .panicked => []

/-- A thread that has sent these reports got there alone, with these commands still ahead. -/
def Thread.Traced (work : σ → κ → Option (σ × ρ) → Prop) (init : σ) (all : List κ)
    (reports : List ρ) (ahead : List κ) : Thread σ κ ρ → Prop
  | .idle s => ∃ past, Serial work init past reports s ∧ past ++ ahead = all
  | .busy s c => ∃ past, Serial work init past reports s ∧ past ++ c :: ahead = all
  | .reporting s r => ∃ past, Serial work init past (reports ++ [r]) s ∧ past ++ ahead = all
  | .panicked => ∃ past s c, Serial work init past reports s ∧ work s c none ∧
      past ++ c :: ahead = all

variable {told} {work} {P Q : Pool n β σ κ ρ} {init : Fin n → σ} {i : Fin n} {a : Move n}
  {τ : Type*} {l l' : List (Fin n × τ)} {x : τ}

@[simp] theorem entriesOf_nil : entriesOf i ([] : List (Fin n × τ)) = [] := rfl

@[simp] theorem entriesOf_append : entriesOf i (l ++ l') = entriesOf i l ++ entriesOf i l' := by
  simp [entriesOf]

@[simp] theorem entriesOf_cons_self : entriesOf i ((i, x) :: l) = x :: entriesOf i l := by
  simp [entriesOf]

theorem entriesOf_cons_other {j : Fin n} (h : j ≠ i) :
    entriesOf i ((j, x) :: l) = entriesOf i l := by
  simp [entriesOf, h]

theorem entriesOf_commands (cmds : Fin n → κ) (i : Fin n) :
    entriesOf i (commands cmds) = [cmds i] := by
  have hself : (List.finRange n).filter (fun j => decide (j = i)) = [i] := by
    rw [List.filter_eq, List.count_finRange]
    rfl
  simp only [entriesOf, commands, List.filter_map, List.map_map]
  simp only [Function.comp_def, hself, List.map_cons, List.map_nil]

theorem flatMap_congr_of_notMem {α : Type*} {L L' : Fin n → List α} {j : Fin n} {is : List (Fin n)}
    (h : ∀ i, i ≠ j → L i = L' i) (hj : j ∉ is) : is.flatMap L = is.flatMap L' := by
  induction is with
  | nil => rfl
  | cons i is ih =>
    rw [List.mem_cons, not_or] at hj
    obtain ⟨hne, hrest⟩ := hj
    rw [List.flatMap_cons, List.flatMap_cons, h i (Ne.symm hne), ih hrest]

/-- The first of one worker, then all others. -/
theorem flatMap_update_perm {α : Type*} {L : Fin n → List α} {j : Fin n} {a : α} {as : List α}
    (h : L j = a :: as) : ((List.finRange n).flatMap L).Perm
      (a :: (List.finRange n).flatMap (Function.update L j as)) := by
  have hother : ∀ i, i ≠ j → L i = Function.update L j as i := fun i hi =>
    (Function.update_of_ne hi as L).symm
  obtain ⟨before, after, hsplit⟩ := List.append_of_mem (List.mem_finRange j)
  have hnodup := List.nodup_finRange n
  rw [hsplit, List.nodup_append] at hnodup
  obtain ⟨-, hafter, hapart⟩ := hnodup
  have hbefore : j ∉ before := fun hj => hapart j hj j (List.mem_cons_self ..) rfl
  rw [hsplit, List.flatMap_append, List.flatMap_append, List.flatMap_cons, List.flatMap_cons,
    flatMap_congr_of_notMem hother hbefore,
    flatMap_congr_of_notMem hother (List.nodup_cons.mp hafter).1, h, Function.update_self]
  exact List.perm_middle

/-- What is known of the entries of each worker is known of all entries in the order they came. -/
theorem forall₂_entriesOf {α : Type*} {R : τ → α → Prop} (l : List (Fin n × τ))
    (L : Fin n → List α) (h : ∀ i, List.Forall₂ R (entriesOf i l) (L i)) :
    ∃ d, List.Forall₂ (fun x a => R x.2 a) l d ∧ ((List.finRange n).flatMap L).Perm d := by
  induction l generalizing L with
  | nil =>
    have hnil : ∀ i, L i = [] := fun i => List.forall₂_nil_left_iff.mp (h i)
    exact ⟨[], .nil, by simp [hnil]⟩
  | cons x l ih =>
    obtain ⟨j, x⟩ := x
    have hhead := h j
    rw [entriesOf_cons_self] at hhead
    obtain ⟨a, as, ha, has, hj⟩ := List.forall₂_cons_left_iff.mp hhead
    obtain ⟨d, hd, hperm⟩ := ih (Function.update L j as) (by
      intro i
      by_cases hij : i = j
      · subst hij
        rwa [Function.update_self]
      · have hi := h i
        rwa [entriesOf_cons_other (Ne.symm hij), ← Function.update_of_ne hij as L] at hi)
    exact ⟨a :: d, .cons ha hd, (flatMap_update_perm hj).trans (hperm.cons a)⟩

/-- What the workers have each adds up to what there is. -/
theorem sum_map_entriesOf (f : τ → Nat) (l : List (Fin n × τ)) :
    ∑ i, ((entriesOf i l).map f).sum = (l.map fun x => f x.2).sum := by
  induction l with
  | nil => simp
  | cons x l ih =>
    obtain ⟨j, x⟩ := x
    have hcons : ∀ i, ((entriesOf i ((j, x) :: l)).map f).sum =
        ((entriesOf i l).map f).sum + if j = i then f x else 0 := by
      intro i
      by_cases hji : j = i
      · subst hji
        simp [Nat.add_comm]
      · simp [entriesOf_cons_other hji, hji]
    simp only [hcons, Finset.sum_add_distrib, ih, Finset.sum_ite_eq, Finset.mem_univ, if_true,
      List.map_cons, List.sum_cons]
    omega

theorem sum_entriesOf (l : List (Fin n × τ)) : ∑ i, (entriesOf i l).length = l.length := by
  simpa using sum_map_entriesOf (fun _ => 1) l

theorem Serial.length_eq {w : σ → κ → Option (σ × ρ) → Prop} {s s' : σ} {cs : List κ} {rs : List ρ}
    (h : Serial w s cs rs s') : cs.length = rs.length := by
  induction h with
  | nil => rfl
  | snoc _ _ ih => simp [ih]

theorem Serial.of_nil {w : σ → κ → Option (σ × ρ) → Prop} {s s' : σ} {rs : List ρ}
    (h : Serial w s [] rs s') : s' = s := by
  generalize hnil : ([] : List κ) = cs at h
  cases h with
  | nil => rfl
  | snoc _ _ => simp at hnil

theorem Serial.of_singleton {w : σ → κ → Option (σ × ρ) → Prop} {s s' : σ} {c : κ} {rs : List ρ}
    (h : Serial w s [c] rs s') : ∃ r, w s c (some (s', r)) := by
  generalize hone : [c] = cs at h
  cases h with
  | nil => cases hone
  | @snoc s₁ _ past rs c' r hbefore hwork =>
    obtain ⟨rfl, rfl⟩ : [] = past ∧ c = c' := by
      cases past with
      | nil => exact ⟨rfl, by simpa using hone⟩
      | cons x past => simp at hone
    exact ⟨r, hbefore.of_nil ▸ hwork⟩

/-- What the worker has been told and has not started on. -/
def Pool.ahead (P : Pool n β σ κ ρ) (i : Fin n) : List κ :=
  (P.slots i).toList ++ entriesOf i P.owner.todo

def Pool.reports (P : Pool n β σ κ ρ) (i : Fin n) : List ρ := entriesOf i (P.received ++ P.queue)

/-- How many reports the owner has after so many rounds. -/
def Owner.Counts (received rounds : Nat) : Owner n κ → Prop
  | .ready => received = n * rounds
  | .round _ left => received + left = n * rounds
  | .panicked => True

variable (told work) in
/-- Every thread works alone, and the owner starts no round before it has all reports. -/
structure Inv (init : Fin n → σ) (P : Pool n β σ κ ρ) : Prop where
  traced : ∀ i, (P.threads i).Traced (work i) (init i) (P.rounds.map (told · i)) (P.reports i)
    (P.ahead i)
  counts : P.owner.Counts P.received.length P.rounds.length
  all : ∀ i, P.rounds.length ≤ (entriesOf i P.received).length + 1
  failed : P.owner = .panicked → ∀ i, P.threads i = .panicked

def Thread.pending : Thread σ κ ρ → Nat
  | .idle _ => 0
  | .busy _ _ | .reporting _ _ | .panicked => 1

variable {w : σ → κ → Option (σ × ρ) → Prop} {s : σ} {all ahead : List κ} {reports : List ρ}
  {t : Thread σ κ ρ}

/-- A command is reported, in a thread, or ahead. -/
theorem Thread.Traced.length (h : t.Traced w s all reports ahead) :
    reports.length + t.pending + ahead.length = all.length := by
  cases t with
  | idle s' =>
    obtain ⟨past, hserial, rfl⟩ := h
    simp [Thread.pending, hserial.length_eq]
  | busy s' c =>
    obtain ⟨past, hserial, rfl⟩ := h
    have hlength := hserial.length_eq
    simp only [Thread.pending, List.length_append, List.length_cons]
    omega
  | reporting s' r =>
    obtain ⟨past, hserial, rfl⟩ := h
    have hlength := hserial.length_eq
    simp only [Thread.pending, List.length_append, List.length_singleton] at hlength ⊢
    omega
  | panicked =>
    obtain ⟨past, s', c, hserial, -, rfl⟩ := h
    have hlength := hserial.length_eq
    simp only [Thread.pending, List.length_append, List.length_cons]
    omega

/-- One more command for the worker. -/
theorem Thread.Traced.extend (h : t.Traced w s all reports ahead) (c : κ) :
    t.Traced w s (all ++ [c]) reports (ahead ++ [c]) := by
  cases t with
  | idle s' | busy s' c' | reporting s' r =>
    obtain ⟨past, hserial, rfl⟩ := h
    exact ⟨past, hserial, by simp⟩
  | panicked =>
    obtain ⟨past, s', c', hserial, hwork, rfl⟩ := h
    exact ⟨past, s', c', hserial, hwork, by simp⟩

/-- Between two rounds every report of every worker has been received. -/
theorem Inv.all_received (h : Inv told work init P) (howner : P.owner = .ready) (i : Fin n) :
    (entriesOf i P.received).length = P.rounds.length := by
  have hle : ∀ i ∈ Finset.univ, (entriesOf i P.received).length ≤ P.rounds.length := by
    intro i _
    have hlength := (h.traced i).length
    simp only [Pool.reports, entriesOf_append, List.length_append, List.length_map] at hlength
    omega
  have hcounts := h.counts
  rw [howner] at hcounts
  have hsum : ∑ i, (entriesOf i P.received).length = ∑ _i : Fin n, P.rounds.length := by
    rw [sum_entriesOf, Finset.sum_const, Finset.card_univ, Fintype.card_fin, smul_eq_mul]
    exact hcounts
  exact (Finset.sum_eq_sum_iff_of_le hle).mp hsum i (Finset.mem_univ i)

theorem Inv.not_failed (h : Inv told work init P) (i : Fin n) (halive : P.threads i ≠ .panicked) :
    P.owner ≠ .panicked :=
  fun howner => halive (h.failed howner i)

/-- A thread that moves leaves the others as they are. -/
theorem forall_thread_update {P : Fin n → Thread σ κ ρ → Prop} {threads : Fin n → Thread σ κ ρ}
    (ht : P i t) (h : ∀ j, j ≠ i → P j (threads j)) (j : Fin n) :
    P j (Function.update threads i t j) := by
  by_cases hji : j = i
  · subst hji
    rwa [Function.update_self]
  · rw [Function.update_of_ne hji]
    exact h j hji

theorem inv_step (h : Inv told work init P) (hstep : Step told work P a Q) :
    Inv told work init Q := by
  cases hstep with
  | start b howner =>
    have hreceived := h.all_received howner
    refine ⟨?_, ?_, ?_, by simp⟩
    · intro i
      have htold := (h.traced i).extend (told b i)
      simp only [Pool.ahead, howner, Owner.todo, entriesOf_nil, List.append_nil] at htold
      simpa [Pool.ahead, Pool.reports, Owner.todo, entriesOf_commands] using htold
    · have hcounts := h.counts
      rw [howner] at hcounts
      simp only [Owner.Counts, List.length_append, List.length_singleton] at hcounts ⊢
      rw [hcounts, Nat.mul_succ]
    · intro i
      simp [hreceived i]
  | @send i c todo left howner hslot halive =>
    have hcounts := h.counts
    rw [howner] at hcounts
    refine ⟨?_, hcounts, h.all, by simp⟩
    intro j
    have htraced := h.traced j
    by_cases hji : j = i
    · subst hji
      simpa [Pool.ahead, Pool.reports, howner, hslot, Owner.todo] using htraced
    · simpa [Pool.ahead, Pool.reports, howner, hji, Owner.todo,
        entriesOf_cons_other (Ne.symm hji)] using htraced
  | @sendFails i c todo left howner hdead =>
    have hlength := (h.traced i).length
    have hall := h.all i
    simp only [hdead, Thread.pending, Pool.reports, Pool.ahead, howner, Owner.todo,
      entriesOf_cons_self, entriesOf_append, List.length_append, List.length_cons,
      List.length_map] at hlength
    omega
  | @take i s c hidle hslot =>
    refine ⟨?_, h.counts, h.all, ?_⟩
    · refine forall_thread_update ?_ ?_
      · have htraced := h.traced i
        rw [hidle] at htraced
        obtain ⟨past, hserial, hall⟩ := htraced
        refine ⟨past, hserial, ?_⟩
        simpa [Pool.ahead, hslot] using hall
      · intro j hji
        have htraced := h.traced j
        simpa [Pool.ahead, Pool.reports, hji] using htraced
    · exact fun howner => absurd howner (h.not_failed i (by simp [hidle]))
  | @finish i s s' c r hbusy hwork =>
    refine ⟨?_, h.counts, h.all, ?_⟩
    · refine forall_thread_update ?_ fun j _ => h.traced j
      have htraced := h.traced i
      rw [hbusy] at htraced
      obtain ⟨past, hserial, hall⟩ := htraced
      refine ⟨past ++ [c], hserial.snoc hwork, ?_⟩
      rw [List.append_assoc]
      exact hall
    · exact fun howner => absurd howner (h.not_failed i (by simp [hbusy]))
  | @panic i s c hbusy hwork =>
    refine ⟨?_, h.counts, h.all, ?_⟩
    · refine forall_thread_update ?_ fun j _ => h.traced j
      have htraced := h.traced i
      rw [hbusy] at htraced
      obtain ⟨past, hserial, hall⟩ := htraced
      exact ⟨past, s, c, hserial, hwork, hall⟩
    · exact fun howner => absurd howner (h.not_failed i (by simp [hbusy]))
  | @report i s r hreporting =>
    refine ⟨?_, h.counts, h.all, ?_⟩
    · refine forall_thread_update ?_ ?_
      · have htraced := h.traced i
        rw [hreporting] at htraced
        obtain ⟨past, hserial, hall⟩ := htraced
        refine ⟨past, ?_, hall⟩
        simpa [Pool.reports] using hserial
      · intro j hji
        have htraced := h.traced j
        simpa [Pool.reports, Pool.ahead, entriesOf_cons_other (Ne.symm hji)] using htraced
    · exact fun howner => absurd howner (h.not_failed i (by simp [hreporting]))
  | @receive i r rest left howner hqueue =>
    refine ⟨?_, ?_, ?_, by simp⟩
    · intro j
      have htraced := h.traced j
      simpa [Pool.reports, Pool.ahead, howner, hqueue, Owner.todo] using htraced
    · have hcounts := h.counts
      rw [howner] at hcounts
      simp only [Owner.Counts, List.length_append, List.length_singleton] at hcounts ⊢
      omega
    · intro j
      have hall := h.all j
      simp only [entriesOf_append, List.length_append]
      omega
  | @receiveFails left howner hqueue hdead =>
    refine ⟨?_, trivial, h.all, fun _ => hdead⟩
    intro j
    have htraced := h.traced j
    simpa [Pool.reports, Pool.ahead, howner, Owner.todo] using htraced
  | done howner =>
    have hcounts := h.counts
    rw [howner] at hcounts
    refine ⟨?_, by simpa [Owner.Counts] using hcounts, h.all, by simp⟩
    intro j
    have htraced := h.traced j
    simpa [Pool.reports, Pool.ahead, howner, Owner.todo] using htraced

theorem inv_reachable (h : (pool told work init).Reachable P) : Inv told work init P := by
  refine System.Stable.reachable (I := Inv told work init) ?_ ?_ h
  · exact fun P a Q hstep hP => inv_step hP hstep
  · rintro P rfl
    exact ⟨fun i => ⟨[], .nil, rfl⟩, rfl, by simp, by simp⟩

/-- Between two rounds every worker waits, and has made its reports alone from its commands. -/
theorem Inv.ready (h : Inv told work init P) (howner : P.owner = .ready) (i : Fin n) :
    (∃ s, P.threads i = .idle s ∧
      Serial (work i) (init i) (P.rounds.map (told · i)) (entriesOf i P.received) s) ∧
    P.slots i = none ∧ entriesOf i P.queue = [] := by
  have htraced := h.traced i
  have hlength := htraced.length
  simp only [Pool.reports, Pool.ahead, howner, Owner.todo, entriesOf_append, entriesOf_nil,
    List.append_nil, List.length_append, List.length_map, h.all_received howner i] at hlength
  have hslot : P.slots i = none := by
    cases hs : P.slots i with
    | none => rfl
    | some c =>
      simp only [hs, Option.toList_some, List.length_singleton] at hlength
      omega
  have hqueue : entriesOf i P.queue = [] := List.length_eq_zero_iff.mp (by omega)
  refine ⟨?_, hslot, hqueue⟩
  cases ht : P.threads i with
  | idle s =>
    rw [ht] at htraced
    obtain ⟨past, hserial, hall⟩ := htraced
    simp only [Pool.ahead, howner, Owner.todo, entriesOf_nil, hslot, Option.toList_none,
      List.append_nil] at hall
    simp only [Pool.reports, entriesOf_append, hqueue, List.append_nil] at hserial
    exact ⟨s, rfl, hall ▸ hserial⟩
  | busy s c | reporting s r | panicked =>
    simp only [ht, Thread.pending] at hlength
    omega

def Thread.stage : Thread σ κ ρ → Nat
  | .busy _ _ => 2
  | .reporting _ _ => 1
  | .idle _ | .panicked => 0

def Owner.stage : Owner n κ → Nat
  | .round todo left => 4 * todo.length + left + 1
  | .ready | .panicked => 0

/-- The steps that worker `i` can still take. -/
def load (slots : Fin n → Option κ) (threads : Fin n → Thread σ κ ρ) (i : Fin n) : Nat :=
  3 * (slots i).toList.length + (threads i).stage

/-- How many steps the round can still take. -/
def Pool.stage (P : Pool n β σ κ ρ) : Nat := P.owner.stage + ∑ i, load P.slots P.threads i

/-- What one worker does counts for itself only. -/
theorem sum_load (i : Fin n) (slots slots' : Fin n → Option κ)
    (threads threads' : Fin n → Thread σ κ ρ) (hslots : ∀ j, j ≠ i → slots' j = slots j)
    (hthreads : ∀ j, j ≠ i → threads' j = threads j) :
    ∑ j, load slots' threads' j + load slots threads i =
      ∑ j, load slots threads j + load slots' threads' i := by
  have hrest : ∑ j ∈ Finset.univ.erase i, load slots' threads' j =
      ∑ j ∈ Finset.univ.erase i, load slots threads j := by
    apply Finset.sum_congr rfl
    intro j hj
    have hji := Finset.ne_of_mem_erase hj
    rw [load, load, hslots j hji, hthreads j hji]
  rw [← Finset.add_sum_erase _ (load slots' threads') (Finset.mem_univ i),
    ← Finset.add_sum_erase _ (load slots threads) (Finset.mem_univ i), hrest]
  omega

/-- A worker's own step. -/
theorem sum_load_thread (slots : Fin n → Option κ) {threads : Fin n → Thread σ κ ρ}
    (ht : t.stage < (threads i).stage) :
    ∑ j, load slots (Function.update threads i t) j < ∑ j, load slots threads j := by
  have hsum := sum_load i slots slots threads (Function.update threads i t) (fun _ _ => rfl)
    fun j hji => Function.update_of_ne hji ..
  have hself : load slots (Function.update threads i t) i =
      3 * (slots i).toList.length + t.stage := by
    rw [load, Function.update_self]
  have hbefore : load slots threads i = 3 * (slots i).toList.length + (threads i).stage := rfl
  omega

/-- Every step within a round brings its end nearer. -/
theorem stage_step (hstep : Step told work P a Q) (ha : a ≠ .start) : Q.stage < P.stage := by
  cases hstep with
  | start b howner => exact absurd rfl ha
  | @send i c todo left howner hslot halive =>
    have hsum := sum_load i P.slots (Function.update P.slots i (some c)) P.threads P.threads
      (fun j hji => Function.update_of_ne hji ..) fun _ _ => rfl
    have hafter : load (Function.update P.slots i (some c)) P.threads i =
        3 + (P.threads i).stage := by
      rw [load, Function.update_self]
      rfl
    have hbefore : load P.slots P.threads i = (P.threads i).stage := by
      rw [load, hslot]
      exact Nat.zero_add _
    simp only [Pool.stage, howner, Owner.stage, List.length_cons]
    omega
  | @sendFails i c todo left howner hdead =>
    simp only [Pool.stage, howner, Owner.stage]
    omega
  | @take i s c hidle hslot =>
    have hsum := sum_load i P.slots (Function.update P.slots i none) P.threads
      (Function.update P.threads i (.busy s c)) (fun j hji => Function.update_of_ne hji ..)
      fun j hji => Function.update_of_ne hji ..
    have hafter : load (Function.update P.slots i none)
        (Function.update P.threads i (.busy s c)) i = 2 := by
      rw [load, Function.update_self, Function.update_self]
      rfl
    have hbefore : load P.slots P.threads i = 3 := by
      rw [load, hslot, hidle]
      rfl
    simp only [Pool.stage]
    omega
  | @finish i s s' c r hbusy hwork =>
    apply Nat.add_lt_add_left
    apply sum_load_thread
    rw [hbusy]
    exact Nat.one_lt_two
  | @panic i s c hbusy hwork =>
    apply Nat.add_lt_add_left
    apply sum_load_thread
    rw [hbusy]
    exact Nat.two_pos
  | @report i s r hreporting =>
    apply Nat.add_lt_add_left
    apply sum_load_thread
    rw [hreporting]
    exact Nat.one_pos
  | @receive i r rest left howner hqueue =>
    simp only [Pool.stage, howner, Owner.stage, List.length_nil]
    omega
  | @receiveFails left howner hqueue hdead =>
    simp only [Pool.stage, howner, Owner.stage]
    omega
  | done howner =>
    simp only [Pool.stage, howner, Owner.stage]
    omega

/-- A round takes no more steps than it has stages. -/
theorem stage_run {as : List (Move n)} (hrun : (pool told work init).Run P as Q)
    (has : ∀ a ∈ as, a ≠ .start) : as.length + Q.stage ≤ P.stage := by
  induction hrun with
  | refl => simp
  | head hstep hrun ih =>
    have hlt := stage_step hstep (has _ (List.mem_cons_self ..))
    have hrest := ih fun a ha => has a (List.mem_cons_of_mem _ ha)
    rw [List.length_cons]
    omega

variable (told work) in
/-- Nothing can happen but the start of a new round. -/
def Settled (P : Pool n β σ κ ρ) : Prop := ∀ a Q, Step told work P a Q → a = .start

theorem Settled.thread (hs : Settled told work P) (htotal : ∀ i s c, ∃ out, work i s c out)
    (i : Fin n) :
    P.threads i = .panicked ∨ (∃ s, P.threads i = .idle s) ∧ P.slots i = none := by
  cases ht : P.threads i with
  | idle s =>
    right
    refine ⟨⟨s, rfl⟩, ?_⟩
    cases hslot : P.slots i with
    | none => rfl
    | some c => cases hs _ _ (.take ht hslot)
  | busy s c =>
    obtain ⟨_ | ⟨s', r⟩, hwork⟩ := htotal i s c
    · cases hs _ _ (.panic ht hwork)
    · cases hs _ _ (.finish ht hwork)
  | reporting s r => cases hs _ _ (.report ht)
  | panicked => exact .inl rfl

theorem Settled.todo (hs : Settled told work P) (htotal : ∀ i s c, ∃ out, work i s c out) :
    P.owner.todo = [] := by
  cases howner : P.owner with
  | ready | panicked => rfl
  | round todo left =>
    cases todo with
    | nil => rfl
    | cons x todo =>
      rcases hs.thread htotal x.1 with hdead | ⟨⟨s, hidle⟩, hslot⟩
      · cases hs _ _ (.sendFails howner hdead)
      · cases hs _ _ (.send howner hslot (by simp [hidle]))

/-- In a settled round the owner misses a report that no longer comes. -/
theorem Settled.round {todo : List (Fin n × κ)} {left : Nat} (hs : Settled told work P)
    (htotal : ∀ i s c, ∃ out, work i s c out) (howner : P.owner = .round todo left) :
    0 < left ∧ P.queue = [] ∧ ∃ i, P.threads i ≠ .panicked := by
  obtain rfl : todo = [] := by
    have htodo := hs.todo htotal
    rwa [howner] at htodo
  cases left with
  | zero => cases hs _ _ (.done howner)
  | succ left =>
    cases hqueue : P.queue with
    | cons x rest => cases hs _ _ (.receive howner hqueue)
    | nil =>
      refine ⟨Nat.succ_pos _, rfl, ?_⟩
      by_contra hdead
      simp only [ne_eq, not_exists, not_not] at hdead
      cases hs _ _ (.receiveFails howner hqueue hdead)

/-- Nothing happens between two rounds. -/
theorem Inv.settled (h : Inv told work init P) (howner : P.owner = .ready) :
    Settled told work P := by
  intro a Q hstep
  cases hstep with
  | start b _ => rfl
  | send h' | sendFails h' | receive h' | receiveFails h' | done h' =>
    rw [howner] at h'
    cases h'
  | @take i s c hidle hslot =>
    rw [(h.ready howner i).2.1] at hslot
    cases hslot
  | @finish i s s' c r ht | @panic i s c ht | @report i s r ht =>
    obtain ⟨⟨s₀, hidle, -⟩, -⟩ := h.ready howner i
    rw [hidle] at ht
    cases ht

/-- Once nothing can happen but a new round: the last one has ended if no worker panicked, it has
panicked if all did, and otherwise the owner waits for ever. -/
theorem settled_iff (htotal : ∀ i s c, ∃ out, work i s c out) (hn : 0 < n)
    (h : (pool told work init).Reachable P) (hs : Settled told work P) :
    (P.owner = .ready ↔ ∀ i, P.threads i ≠ .panicked) ∧
      (P.owner = .panicked ↔ ∀ i, P.threads i = .panicked) := by
  have hinv := inv_reachable h
  have hready : P.owner = .ready → ∀ i, P.threads i ≠ .panicked := by
    intro howner i hdead
    obtain ⟨⟨s, hidle, -⟩, -⟩ := hinv.ready howner i
    rw [hdead] at hidle
    cases hidle
  refine ⟨⟨hready, ?_⟩, ⟨hinv.failed, ?_⟩⟩
  · intro halive
    cases howner : P.owner with
    | ready => rfl
    | panicked => exact absurd howner (hinv.not_failed ⟨0, hn⟩ (halive _))
    | round todo left =>
      obtain ⟨hleft, hqueue, -⟩ := hs.round htotal howner
      have htodo := hs.todo htotal
      -- All reports are received, and one is said to be missing.
      have hall : ∀ i, (entriesOf i P.received).length = P.rounds.length := by
        intro i
        obtain ⟨⟨s, hidle⟩, hslot⟩ := (hs.thread htotal i).resolve_left (halive i)
        have hlength := (hinv.traced i).length
        simpa [Pool.reports, Pool.ahead, hidle, hslot, htodo, hqueue, Thread.pending] using hlength
      have hcounts := hinv.counts
      rw [howner, ← sum_entriesOf P.received] at hcounts
      simp only [hall, Owner.Counts, Finset.sum_const, Finset.card_univ, Fintype.card_fin,
        smul_eq_mul] at hcounts
      omega
  · intro hdead
    cases howner : P.owner with
    | ready => exact absurd (hdead ⟨0, hn⟩) (hready howner _)
    | panicked => rfl
    | round todo left =>
      obtain ⟨-, -, i, halive⟩ := hs.round htotal howner
      exact absurd (hdead i) halive

/-- Only a start adds to the rounds. -/
theorem rounds_run {as : List (Move n)} (hrun : (pool told work init).Run P as Q)
    (has : ∀ a ∈ as, a ≠ .start) : Q.rounds = P.rounds := by
  induction hrun with
  | refl => rfl
  | head hstep hrun ih =>
    have hrest := ih fun a ha => has a (List.mem_cons_of_mem _ ha)
    have hfirst := has _ (List.mem_cons_self ..)
    cases hstep with
    | start b howner => exact absurd rfl hfirst
    | send | sendFails | take | finish | panic | report | receive | receiveFails | done =>
      exact hrest

/-- A round of a pool between two rounds takes at most five steps a worker, and one more. -/
theorem round_steps {b : β} {as : List (Move n)} (h : (pool told work init).Reachable P)
    (howner : P.owner = .ready)
    (hrun : (pool told work init).Run
      { P with owner := .round (commands (told b)) n, rounds := P.rounds ++ [b] } as Q)
    (has : ∀ a ∈ as, a ≠ .start) : as.length ≤ 5 * n + 1 := by
  have hload : ∀ i, load P.slots P.threads i = 0 := by
    intro i
    obtain ⟨⟨s, hidle, -⟩, hslot, -⟩ := (inv_reachable h).ready howner i
    rw [load, hidle, hslot]
    rfl
  have hle := stage_run hrun has
  simp only [Pool.stage, Owner.stage, hload, Finset.sum_const_zero, commands, List.length_map,
    List.length_finRange] at hle
  omega

end ScatterGather
