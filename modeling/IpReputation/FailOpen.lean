import IpReputation.Frontend

/-! Requests the agent leaves unanswered: what they do to the cache. -/
namespace IpReputation

open Transition

variable {answers : IpAddr → Bool → Prop} {expirable : Frontend → IpAddr → Prop}
  {s t : Frontend} {e : FrontendEvent} {r : HttpRequest}

/-- The request found `gpt0 = 0`, and the agent gave it no answer. -/
def HttpRequest.unanswered (r : HttpRequest) : Bool :=
  r.found = some 0 ∧ r.answer = none ∧
    (r.rule = .setGpt0Good ∨ r.rule = .setGpt0Bad ∨ r.rule = .silentDrop ∨ r.ended = true)

/-- An unanswered request is served, and none of its rules changes `gpt0` of any address. A
request that finds `0` asks the agent. -/
structure FailsOpen (S : System Frontend FrontendEvent) : Prop where
  served : ∀ s, S.Reachable s → ∀ r ∈ s.requests, r.unanswered = true → r.ended = true →
    r.rule = .served
  unchanged : ∀ s r t, S.Reachable s → S.step s (.rule r) t → r.unanswered = true →
    ∀ ip, t.gpt0 ip = s.gpt0 ip
  asks : ∀ s r t, S.Reachable s → S.step s (.rule r) t → r.rule = .sendSpoeGroup →
    s.gpt0 r.src = 0 → ∃ before after, s.requests = before ++ r :: after ∧
      t.requests = before ++ { r with rule := .waiting, found := some 0 } :: after

/-- No session variable of an earlier answer meets an unanswered request in an entry that is
still `0`, and no other request marks its address as bad while it is under way. -/
def NothingStale (s : Frontend) (e : FrontendEvent) (_ : Frontend) : Prop :=
  match e with
  | .unanswered r => s.gpt0 r.src ≠ 2
  | .rule r =>
    (r.unanswered = true → r.rule = .setGpt0Good ∨ r.rule = .setGpt0Bad → s.gpt0 r.src = 0 →
      s.ipBad r.session = none) ∧
    (r.rule = .setGpt0Bad → s.gpt0 r.src = 0 → s.ipBad r.session = some true →
      ∀ q ∈ s.requests, q.src = r.src → q.unanswered = true → q.ended = true)
  | _ => True

/-- An unanswered request on its way has not been overtaken by a bad mark, and ends well. -/
def HttpRequest.StaysOpen (s : Frontend) (r : HttpRequest) : Prop :=
  r.unanswered = true → (r.ended = false → s.gpt0 r.src ≠ 2) ∧ (r.ended = true → r.rule = .served)

/-- A request that evaluates a rule under the condition stays open. -/
theorem staysOpen_evaluate {requests : List HttpRequest} (hw : r.rule ≠ .waiting)
    (he : r.ended = false)
    (hvar : r.unanswered = true → r.rule = .setGpt0Good ∨ r.rule = .setGpt0Bad →
      s.gpt0 r.src = 0 → s.ipBad r.session = none)
    (h : r.StaysOpen s) : (evaluate (s.gpt0 r.src) (s.ipBad r.session) r).1.StaysOpen
      (s.evaluated r requests) := by
  have hgpt0 := gpt0_evaluated s r requests r.src
  unfold HttpRequest.StaysOpen
  rw [evaluate_src]
  obtain ⟨sid, src, rule, found, answer⟩ := r
  cases rule with
  | trackSc0 => simp [evaluate, HttpRequest.unanswered, HttpRequest.ended]
  | sendSpoeGroup =>
    by_cases hzero : s.gpt0 src = 0 <;>
      simp [evaluate, HttpRequest.unanswered, HttpRequest.ended, hzero]
  | waiting => exact absurd rfl hw
  | setGpt0Good =>
    intro hun
    have hun' : (⟨sid, src, .setGpt0Good, found, answer⟩ : HttpRequest).unanswered = true := by
      simpa [evaluate, HttpRequest.unanswered] using hun
    refine ⟨fun _ => ?_, by simp [evaluate, HttpRequest.ended]⟩
    rcases hgpt0 with hsame | ⟨-, -, ⟨-, -, hone⟩ | ⟨hrule, -⟩⟩
    · exact hsame.symm ▸ (h hun').1 rfl
    · rw [hone]
      decide
    · cases hrule
  | setGpt0Bad =>
    intro hun
    have hun' : (⟨sid, src, .setGpt0Bad, found, answer⟩ : HttpRequest).unanswered = true := by
      simpa [evaluate, HttpRequest.unanswered] using hun
    refine ⟨fun _ => ?_, by simp [evaluate, HttpRequest.ended]⟩
    rcases hgpt0 with hsame | ⟨-, hzero, ⟨hrule, -⟩ | ⟨-, hset, -⟩⟩
    · exact hsame.symm ▸ (h hun').1 rfl
    · cases hrule
    · have hunset := hvar hun' (.inr rfl) hzero
      rw [hunset] at hset
      cases hset
  | silentDrop =>
    intro hun
    have hun' : (⟨sid, src, .silentDrop, found, answer⟩ : HttpRequest).unanswered = true := by
      by_cases htwo : s.gpt0 src = 2 <;>
        simpa [evaluate, HttpRequest.unanswered, HttpRequest.ended, htwo] using hun
    have hne : s.gpt0 src ≠ 2 := (h hun').1 rfl
    simp [evaluate, hne, HttpRequest.ended]
  | served => cases he
  | dropped => cases he

theorem HttpRequest.StaysOpen.mono (h : r.StaysOpen s)
    (hgpt0 : r.unanswered = true → r.ended = false → s.gpt0 r.src ≠ 2 → t.gpt0 r.src ≠ 2) :
    r.StaysOpen t :=
  fun hun => ⟨fun he => hgpt0 hun he ((h hun).1 he), (h hun).2⟩

theorem staysOpen_step (hst : FrontendStep answers expirable s e t) (hok : NothingStale s e t)
    (h : ∀ r ∈ s.requests, r.StaysOpen s) : ∀ r ∈ t.requests, r.StaysOpen t := by
  cases hst with
  | connect | disconnect => exact h
  | request hs =>
    intro r hr
    rcases List.mem_append.mp hr with hr | hr
    · exact h r hr
    · obtain rfl := List.mem_singleton.mp hr
      intro hun
      simp [HttpRequest.unanswered] at hun
  | @rule before after r hs hw he =>
    obtain ⟨hvar, hmark⟩ := hok
    have hr : r ∈ s.requests := by simp [hs]
    refine forall_mem_replace (x := r) (staysOpen_evaluate hw he hvar (h r hr)) ?_
    rw [← hs]
    intro q hq
    refine (h q hq).mono fun hun hq' hne => ?_
    rcases gpt0_evaluated s r _ q.src with hsame | ⟨hsrc, hzero, ⟨-, -, hone⟩ | ⟨hrule, hset, -⟩⟩
    · exact hsame.symm ▸ hne
    · rw [hone]
      decide
    · have hended := hmark hrule (hsrc ▸ hzero) hset q hq hsrc hun
      rw [hended] at hq'
      cases hq'
  | @answered before after r v hs hw hv =>
    refine forall_mem_replace (x := r) ?_ (hs ▸ h)
    intro hun
    simp [HttpRequest.unanswered] at hun
  | @unanswered before after r hs hw =>
    refine forall_mem_replace (x := r) ?_ (hs ▸ h)
    exact fun _ => ⟨fun _ => hok, by simp [HttpRequest.ended]⟩
  | @expire ip hidle =>
    intro r hr
    refine (h r hr).mono fun _ _ hne => ?_
    by_cases hip : r.src = ip
    · simp [Frontend.gpt0, hip]
    · simpa [Frontend.gpt0, hip] using hne

theorem staysOpen_reachable
    (h : ((frontend answers expirable).restrict NothingStale).Reachable s) :
    ∀ r ∈ s.requests, r.StaysOpen s := by
  have hstable : ((frontend answers expirable).restrict NothingStale).Stable
      fun s => ∀ r ∈ s.requests, r.StaysOpen s :=
    fun _ _ _ hst hs => staysOpen_step hst.1 hst.2 hs
  refine hstable.reachable ?_ h
  rintro s ⟨-, -, hrequests⟩
  simp [hrequests]

/-- In the runs that meet the condition, fail-open caches nothing. -/
theorem failsOpen_nothingStale (answers : IpAddr → Bool → Prop)
    (expirable : Frontend → IpAddr → Prop) :
    FailsOpen ((frontend answers expirable).restrict NothingStale) where
  served s hreach r hr hun he := ((staysOpen_reachable hreach r hr) hun).2 he
  unchanged s r t hreach hst hun ip := by
    obtain ⟨hst, hok⟩ := hst
    obtain ⟨hvar, -⟩ := hok
    cases hst with
    | rule hs hw he =>
      rcases gpt0_evaluated s r _ ip with hsame | ⟨rfl, hzero, ⟨hrule, hset, -⟩ | ⟨hrule, hset, -⟩⟩
      · exact hsame
      · have hunset := hvar hun (.inl hrule) hzero
        rw [hunset] at hset
        cases hset
      · have hunset := hvar hun (.inr hrule) hzero
        rw [hunset] at hset
        cases hset
  asks s r t _ hst hrule hzero := by
    obtain ⟨hst, -⟩ := hst
    cases hst with
    | rule hs hw he =>
      refine ⟨_, _, hs, ?_⟩
      simp [Frontend.evaluated, evaluate, hrule, hzero]

/-- A client. -/
def someone : IpAddr := .v4 0x01020304#32

/-- The connection of `someone` after an answer `false`. -/
def keptAlive : Nat → Option Session :=
  Function.update (fun _ => none) 0 (some ⟨someone, some false⟩)

/-- A second request on the connection, unanswered, about to evaluate the first set rule. -/
def second : HttpRequest := ⟨0, someone, .setGpt0Good, some 0, none⟩

/-- The first request was answered with `false`, its entry has expired, and the agent is down. -/
theorem reachable_second : ∃ table requests,
    (frontend (fun _ _ => True) Idle).Reachable ⟨table, keptAlive, requests ++ [second]⟩ ∧
      (table someone).getD 0 = 0 := by
  have hanswer : (fun _ _ => True : IpAddr → Bool → Prop) someone false := trivial
  have hfirst : (frontend (fun _ _ => True) Idle).Reachable
      ⟨Function.update (fun _ => none) someone (some 1), keptAlive,
        [⟨0, someone, .served, some 0, some false⟩]⟩ := reachable_answered (v := false) hanswer
  have hidle : Idle ⟨Function.update (fun _ => none) someone (some 1), keptAlive,
      [⟨0, someone, .served, some 0, some false⟩]⟩ someone := by
    intro r hr _
    obtain rfl := List.mem_singleton.mp hr
    rfl
  have hexpired : (frontend (fun _ _ => True) Idle).Reachable
      ⟨Function.update (Function.update (fun _ => none) someone (some 1)) someone none, keptAlive,
        [⟨0, someone, .served, some 0, some false⟩]⟩ := hfirst.step (.expire hidle)
  have hsession : keptAlive 0 = some ⟨someone, some false⟩ := rfl
  have hwaiting := reachable_waiting hexpired hsession (by simp)
  have hdown := hwaiting.step (.unanswered rfl rfl)
  exact ⟨_, [⟨0, someone, .served, some 0, some false⟩], hdown, by simp⟩

/-- The unanswered request is cached as good, on the word of an earlier answer. -/
theorem not_failsOpen_keepAlive : ¬ FailsOpen (frontend (fun _ _ => True) Idle) := by
  intro h
  obtain ⟨table, requests, hreach, hzero⟩ := reachable_second
  have hstep : FrontendStep (fun _ _ => True) Idle ⟨table, keptAlive, requests ++ [second]⟩
      (.rule second) _ := .rule rfl nofun rfl
  have hsame := h.unchanged _ second _ hreach hstep rfl someone
  have hstored : Frontend.gpt0 (Frontend.evaluated ⟨table, keptAlive, requests ++ [second]⟩ second
      (requests ++ (evaluate ((table someone).getD 0) (some false) second).1 :: [])) someone =
        1 := by
    simp [Frontend.gpt0, Frontend.evaluated, Frontend.ipBad, evaluate, second, keptAlive, hzero,
      store]
  have hbefore : Frontend.gpt0 ⟨table, keptAlive, requests ++ [second]⟩ someone = 0 := hzero
  have hone : (1 : Nat) = 0 := hstored.symm.trans (hsame.trans hbefore)
  cases hone

end IpReputation
