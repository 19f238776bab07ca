import IpReputation.Frontend
import IpReputation.Verdict

/-! With a fixed database the stick table agrees with the verdict of the agent. -/
namespace IpReputation

open Transition

variable {β : Type} {G : Geoip2 β} {filter : IpFilter} {parseIp : String → Option IpAddr}
  {snapshot : Option (Snapshot G)} {answers : IpAddr → Bool → Prop} {drop : IpAddr → Bool}
  {s t : Frontend} {e : FrontendEvent} {r : HttpRequest} {g g' : Nat} {var var' : Option Bool}

/-- `src`, as the `ip` argument the agent gets. -/
def ipValue (ip : IpAddr) : TypedData :=
  match ip with
  | .v4 addr => .ipv4 addr
  | .v6 addr => .ipv6 addr

/-- What the handler sets for an address, under one snapshot and one filter. -/
def HandlerAnswers (filter : IpFilter) (parseIp : String → Option IpAddr)
    (snapshot : Option (Snapshot G)) (ip : IpAddr) (v : Bool) : Prop :=
  ∃ m, (filter.handle parseIp snapshot (askFor (ipValue ip)) m).1.vars =
    [(.session, RESULT_VARIABLE, .boolean v)]

/-- The verdict of `should_drop`; the metrics do not matter for it. -/
def dropVerdict (filter : IpFilter) (snapshot : Option (Snapshot G)) (ip : IpAddr) : Bool :=
  (filter.shouldDrop snapshot ip {}).1

/-- The agent answered the request, or the cache did. -/
def HttpRequest.Informed (r : HttpRequest) : Prop :=
  r.answer ≠ none ∨ ∃ g, r.found = some g ∧ g ≠ 0

/-- How far the rules have got with a request whose verdict is known, given its entry and its
session variable. -/
def PhaseOk (drop : IpAddr → Bool) (gpt0 : Nat) (ipBad : Option Bool) (r : HttpRequest) : Prop :=
  match r.rule with
  | .trackSc0 | .sendSpoeGroup => r.answer = none
  | .waiting => r.answer = none ∧ r.found = some 0
  | .setGpt0Good => r.Informed → gpt0 ≠ 0 ∨ ipBad = some (drop r.src)
  | .setGpt0Bad => r.Informed → gpt0 ≠ 0 ∨ ipBad = some true
  | .silentDrop => r.Informed → gpt0 ≠ 0
  | .served => r.Informed → drop r.src = false
  | .dropped => drop r.src = true

/-- What an entry may hold for an address with this verdict. -/
def Agrees (verdict : Bool) (gpt0 : Nat) : Prop :=
  gpt0 = 0 ∨ gpt0 = 1 ∧ verdict = false ∨ gpt0 = 2 ∧ verdict = true

/-- A request's own rule takes it to its next phase. -/
theorem phase_evaluate (hg : Agrees (drop r.src) g) (hvar : ∀ v, var = some v → v = drop r.src)
    (h : PhaseOk drop g var r) (hw : r.rule ≠ .waiting) :
    PhaseOk drop ((evaluate g var r).2.getD g) var (evaluate g var r).1 := by
  obtain ⟨sid, src, rule, found, answer⟩ := r
  cases rule with
  | trackSc0 => exact h
  | sendSpoeGroup =>
    by_cases hzero : g = 0
    · subst hzero
      exact ⟨h, rfl⟩
    · simp [PhaseOk, evaluate, hzero]
  | waiting => exact absurd rfl hw
  | setGpt0Good =>
    intro hinf
    rcases h hinf with hne | hset
    · simp [evaluate, hne]
    · cases hd : drop src with
      | true => exact .inr (hset.trans (congrArg some hd))
      | false =>
        left
        by_cases hzero : g = 0
        · simp [evaluate, hzero, hset, hd]
        · simp [evaluate, hzero]
  | setGpt0Bad =>
    intro hinf
    rcases h hinf with hne | hset
    · simp [evaluate, hne]
    · by_cases hzero : g = 0
      · simp [evaluate, hzero, hset]
      · simp [evaluate, hzero]
  | silentDrop =>
    rcases hg with rfl | ⟨rfl, hd⟩ | ⟨rfl, hd⟩
    · intro hinf
      exact absurd rfl (h hinf)
    · exact fun _ => hd
    · exact hd
  | served => exact h
  | dropped => exact h

/-- A phase outlasts what others do to the entry and to the session variable. -/
theorem PhaseOk.mono (h : PhaseOk drop g var r) (hg : r.tracked = true → g ≠ 0 → g' ≠ 0)
    (hvar : r.ended = false → ∀ v, var = some v → var' = some v) : PhaseOk drop g' var' r := by
  obtain ⟨sid, src, rule, found, answer⟩ := r
  cases rule with
  | trackSc0 | sendSpoeGroup | waiting | served | dropped => exact h
  | setGpt0Good => exact fun hinf => (h hinf).imp (hg rfl) (hvar rfl _)
  | setGpt0Bad => exact fun hinf => (h hinf).imp (hg rfl) (hvar rfl _)
  | silentDrop => exact fun hinf => hg rfl (h hinf)

/-- The request's connection is there, and the request is on its way. -/
structure HttpRequest.Sound (drop : IpAddr → Bool) (s : Frontend) (r : HttpRequest) : Prop where
  connected : r.ended = false → ∃ session, s.sessions r.session = some session ∧ session.src = r.src
  phase : PhaseOk drop (s.gpt0 r.src) (s.ipBad r.session) r

/-- Entries and session variables are right, and so is every request. -/
structure CacheInvariant (drop : IpAddr → Bool) (s : Frontend) : Prop where
  agrees : ∀ ip, Agrees (drop ip) (s.gpt0 ip)
  vars : ∀ sid session, s.sessions sid = some session → ∀ v, session.ipBad = some v →
    v = drop session.src
  requests : ∀ r ∈ s.requests, r.Sound drop s

theorem forall_update {sessions : Nat → Option Session} {P : Session → Prop} {sid : Nat}
    {new : Option Session} (h : ∀ sid session, sessions sid = some session → P session)
    (hnew : ∀ session, new = some session → P session) :
    ∀ other session, Function.update sessions sid new other = some session → P session := by
  intro other session hs
  by_cases hsid : other = sid
  · rw [hsid, Function.update_self] at hs
    exact hnew session hs
  · rw [Function.update_of_ne hsid] at hs
    exact h other session hs

/-- A connection keeps its address, and its variable once it is set. -/
def Remembers (s t : Frontend) (sid : Nat) : Prop :=
  ∀ session, s.sessions sid = some session → ∃ session', t.sessions sid = some session' ∧
    session'.src = session.src ∧ ∀ v, session.ipBad = some v → session'.ipBad = some v

/-- What others do leaves a request sound. -/
theorem HttpRequest.Sound.mono (h : r.Sound drop s)
    (hgpt0 : r.tracked = true → s.gpt0 r.src ≠ 0 → t.gpt0 r.src ≠ 0)
    (hsession : r.ended = false → Remembers s t r.session) : r.Sound drop t := by
  refine ⟨?_, h.phase.mono hgpt0 ?_⟩
  · intro he
    obtain ⟨session, hs, hsrc⟩ := h.connected he
    obtain ⟨session', hs', hsrc', -⟩ := hsession he session hs
    exact ⟨session', hs', hsrc'.trans hsrc⟩
  · intro he v hv
    obtain ⟨session, hs, hsrc⟩ := h.connected he
    obtain ⟨session', hs', -, hkeep⟩ := hsession he session hs
    rw [Frontend.ipBad, hs] at hv
    rw [Frontend.ipBad, hs']
    exact hkeep v hv

theorem remembers_of_eq {sid : Nat} (h : t.sessions sid = s.sessions sid) : Remembers s t sid :=
  fun session hs => ⟨session, h.trans hs, rfl, fun _ hv => hv⟩

theorem CacheInvariant.var_eq (h : CacheInvariant drop s) (hr : r ∈ s.requests)
    (he : r.ended = false) {v : Bool} (hv : s.ipBad r.session = some v) : v = drop r.src := by
  obtain ⟨session, hsession, hsrc⟩ := (h.requests r hr).connected he
  rw [Frontend.ipBad, hsession] at hv
  rw [← hsrc]
  exact h.vars r.session session hsession v hv

/-- A rule moves its own request on, and keeps every entry right and every set entry set. -/
theorem cacheInvariant_rule {before after : List HttpRequest} (h : CacheInvariant drop s)
    (hs : s.requests = before ++ r :: after) (hw : r.rule ≠ .waiting) (he : r.ended = false) :
    CacheInvariant drop (s.evaluated r
      (before ++ (evaluate (s.gpt0 r.src) (s.ipBad r.session) r).1 :: after)) := by
  have hr : r ∈ s.requests := by simp [hs]
  have hcases := gpt0_evaluated s r
    (before ++ (evaluate (s.gpt0 r.src) (s.ipBad r.session) r).1 :: after)
  have hvar : ∀ v, s.ipBad r.session = some v → v = drop r.src := fun v hv => h.var_eq hr he hv
  refine ⟨?_, h.vars, forall_mem_replace (x := r) ?_ ?_⟩
  · intro ip
    rcases hcases ip with hsame | ⟨rfl, -, ⟨-, hset, hone⟩ | ⟨-, hset, htwo⟩⟩
    · exact hsame.symm ▸ h.agrees ip
    · exact .inr (.inl ⟨hone, (hvar _ hset).symm⟩)
    · exact .inr (.inr ⟨htwo, (hvar _ hset).symm⟩)
  · refine ⟨?_, ?_⟩
    · intro _
      rw [evaluate_session, evaluate_src]
      exact (h.requests r hr).connected he
    · have hphase := phase_evaluate (h.agrees r.src) hvar (h.requests r hr).phase hw
      have hself : (s.evaluated r
          (before ++ (evaluate (s.gpt0 r.src) (s.ipBad r.session) r).1 :: after)).gpt0 r.src =
            (evaluate (s.gpt0 r.src) (s.ipBad r.session) r).2.getD (s.gpt0 r.src) := store_self
      rw [evaluate_src, evaluate_session, hself]
      exact hphase
  · rw [← hs]
    intro q hq
    refine (h.requests q hq).mono ?_ fun _ => remembers_of_eq rfl
    intro _ hne
    rcases hcases q.src with hsame | ⟨-, hzero, -⟩
    · exact hsame.symm ▸ hne
    · exact absurd hzero hne

/-- An answer of a fixed database is the verdict on the connection's address. -/
theorem cacheInvariant_answered {before after : List HttpRequest} (h : CacheInvariant drop s)
    (hs : s.requests = before ++ r :: after) (hw : r.rule = .waiting) :
    CacheInvariant drop ⟨s.table, setVar s.sessions r.session (drop r.src),
      before ++ { r with rule := .setGpt0Good, answer := some (drop r.src) } :: after⟩ := by
  have hr : r ∈ s.requests := by simp [hs]
  have he : r.ended = false := by simp [HttpRequest.ended, hw]
  obtain ⟨session, hsession, hsrc⟩ := (h.requests r hr).connected he
  have hset : setVar s.sessions r.session (drop r.src) r.session =
      some ⟨r.src, some (drop r.src)⟩ := by
    simp [setVar, hsession, hsrc]
  have hother : ∀ sid, sid ≠ r.session →
      setVar s.sessions r.session (drop r.src) sid = s.sessions sid := by
    intro sid hsid
    simp [setVar, hsid]
  have hnew : ∀ session', (s.sessions r.session).map
      (fun session => { session with ipBad := some (drop r.src) }) = some session' →
        ∀ v, session'.ipBad = some v → v = drop session'.src := by
    intro session' hs' v hv
    rw [hsession, Option.map_some] at hs'
    obtain rfl := Option.some.inj hs'
    rw [← Option.some.inj hv, hsrc]
  refine ⟨h.agrees, forall_update h.vars hnew, forall_mem_replace (x := r) ?_ ?_⟩
  · exact ⟨fun _ => ⟨_, hset, rfl⟩, fun _ => .inr (by simp [Frontend.ipBad, hset])⟩
  · rw [← hs]
    intro q hq
    refine (h.requests q hq).mono (fun _ hne => hne) ?_
    intro hq' session' hs'
    by_cases hsid : q.session = r.session
    · refine ⟨_, (congrArg _ hsid).trans hset, ?_, ?_⟩
      · rw [hsid, hsession] at hs'
        rw [← Option.some.inj hs', hsrc]
      · intro v hv
        rw [hsid, hsession] at hs'
        obtain rfl := Option.some.inj hs'
        rw [h.vars _ _ hsession v hv, hsrc]
    · exact remembers_of_eq (hother q.session hsid) session' hs'

theorem cacheInvariant_step (hanswers : ∀ ip v, answers ip v → v = drop ip)
    (hst : FrontendStep answers Idle s e t) (h : CacheInvariant drop s) :
    CacheInvariant drop t := by
  cases hst with
  | @connect sid src hfree =>
    have hnew : ∀ session, some (⟨src, none⟩ : Session) = some session →
        ∀ v, session.ipBad = some v → v = drop session.src := by
      intro session hs v hv
      obtain rfl := Option.some.inj hs
      cases hv
    refine ⟨h.agrees, forall_update h.vars hnew, ?_⟩
    · intro r hr
      refine (h.requests r hr).mono (fun _ hne => hne) fun he => ?_
      obtain ⟨session, hs, -⟩ := (h.requests r hr).connected he
      have hsid : r.session ≠ sid := by
        intro hsid
        rw [hsid, hfree] at hs
        cases hs
      exact remembers_of_eq (Function.update_of_ne hsid _ _)
  | @disconnect sid hdone =>
    refine ⟨h.agrees, forall_update h.vars (by simp), ?_⟩
    · intro r hr
      refine (h.requests r hr).mono (fun _ hne => hne) fun he => ?_
      have hsid : r.session ≠ sid := by
        intro hsid
        rw [hdone r hr hsid] at he
        cases he
      exact remembers_of_eq (Function.update_of_ne hsid _ _)
  | @request sid session hs =>
    refine ⟨h.agrees, h.vars, ?_⟩
    intro r hr
    rcases List.mem_append.mp hr with hr | hr
    · exact (h.requests r hr).mono (fun _ hne => hne) fun _ => remembers_of_eq rfl
    · obtain rfl := List.mem_singleton.mp hr
      exact ⟨fun _ => ⟨session, hs, rfl⟩, rfl⟩
  | rule hs hw he => exact cacheInvariant_rule h hs hw he
  | @answered before after r v hs hw hv =>
    obtain rfl := hanswers r.src v hv
    exact cacheInvariant_answered h hs hw
  | @unanswered before after r hs hw =>
    refine ⟨h.agrees, h.vars, forall_mem_replace (x := r) ?_ ?_⟩
    · have hr : r ∈ s.requests := by simp [hs]
      have hphase := (h.requests r hr).phase
      have he : r.ended = false := by simp [HttpRequest.ended, hw]
      refine ⟨fun _ => (h.requests r hr).connected he, ?_⟩
      simp only [PhaseOk, hw] at hphase
      rintro (hanswer | ⟨g, hfound, hne⟩)
      · exact absurd hphase.1 hanswer
      · exact absurd (Option.some.inj (hfound.symm.trans hphase.2)) hne
    · rw [← hs]
      exact fun q hq => (h.requests q hq).mono (fun _ hne => hne) fun _ => remembers_of_eq rfl
  | @expire ip hidle =>
    refine ⟨?_, h.vars, ?_⟩
    · intro other
      by_cases hip : other = ip
      · left
        simp [Frontend.gpt0, hip]
      · have hsame := h.agrees other
        simpa [Frontend.gpt0, hip] using hsame
    · intro r hr
      refine (h.requests r hr).mono ?_ fun _ => remembers_of_eq rfl
      intro htracked hne
      have hip : r.src ≠ ip := by
        intro hip
        rw [hidle r hr hip] at htracked
        cases htracked
      simpa [Frontend.gpt0, hip] using hne

theorem cacheInvariant_reachable (hanswers : ∀ ip v, answers ip v → v = drop ip)
    (h : (frontend answers Idle).Reachable s) : CacheInvariant drop s := by
  have hstable : (frontend answers Idle).Stable (CacheInvariant drop) :=
    fun _ _ _ hst hs => cacheInvariant_step hanswers hst hs
  refine hstable.reachable ?_ h
  rintro s ⟨htable, hsessions, hrequests⟩
  refine ⟨?_, by simp [hsessions], by simp [hrequests]⟩
  intro ip
  left
  simp [Frontend.gpt0, htable]

theorem handlerAnswers_eq {ip : IpAddr} {v : Bool}
    (h : HandlerAnswers filter parseIp snapshot ip v) : v = dropVerdict filter snapshot ip := by
  obtain ⟨m, hvars⟩ := h
  have hip : (askFor (ipValue ip)).clientIp parseIp = some ip := by
    cases ip <;> rfl
  rw [handle_some _ hip] at hvars
  have hv : (filter.verdict snapshot ip).isSome = v := by
    simpa [Request.answer, Request.setVar, askFor] using hvars
  rw [dropVerdict, shouldDrop_eq, hv]

/-- The table and the rules do to every request what `should_drop` says of its address. -/
structure CacheSound (drop : IpAddr → Bool) (s : Frontend) : Prop where
  good : ∀ ip, s.gpt0 ip = 1 → drop ip = false
  bad : ∀ ip, s.gpt0 ip = 2 → drop ip = true
  dropped : ∀ r ∈ s.requests, r.rule = .dropped → drop r.src = true
  /-- Every finished request that the agent answered or that found its address cached. -/
  decided : ∀ r ∈ s.requests, r.ended = true → r.Informed →
    (r.rule = .dropped ↔ drop r.src = true)

theorem CacheInvariant.cacheSound (h : CacheInvariant drop s) : CacheSound drop s where
  good ip hone := by
    rcases h.agrees ip with hg | ⟨-, hd⟩ | ⟨hg, -⟩
    · omega
    · exact hd
    · omega
  bad ip htwo := by
    rcases h.agrees ip with hg | ⟨hg, -⟩ | ⟨-, hd⟩
    · omega
    · omega
    · exact hd
  dropped r hr hrule := by
    have hphase := (h.requests r hr).phase
    simpa only [PhaseOk, hrule] using hphase
  decided r hr he hinf := by
    have hphase := (h.requests r hr).phase
    have hrule : r.rule = .served ∨ r.rule = .dropped := by
      simpa [HttpRequest.ended] using he
    rcases hrule with hrule | hrule
    · simp only [PhaseOk, hrule] at hphase
      simp [hrule, hphase hinf]
    · simp only [PhaseOk, hrule] at hphase
      simp [hrule, hphase]

/-- With the snapshot and the drop sets held fixed, the cache is sound in every run. -/
theorem cacheSound_reachable
    (h : (frontend (HandlerAnswers filter parseIp snapshot) Idle).Reachable s) :
    CacheSound (dropVerdict filter snapshot) s := by
  have hanswers : ∀ ip v, HandlerAnswers filter parseIp snapshot ip v →
      v = dropVerdict filter snapshot ip := fun _ _ => handlerAnswers_eq
  exact (cacheInvariant_reachable hanswers h).cacheSound

/-- A run in which `10.1.2.3` is dropped because category `spam` is. -/
theorem cacheSound_reachable_multi : ∃ s : Frontend, (∃ r ∈ s.requests, r.rule = .dropped) ∧
    CacheSound (dropVerdict ⟨{"spam"}, ∅⟩ multiServed.snapshot) s := by
  have hanswer : HandlerAnswers ⟨{"spam"}, ∅⟩ (fun _ => none) multiServed.snapshot
      (.v4 0x0A010203#32) true := by
    refine ⟨{}, ?_⟩
    have hip : (askFor (ipValue (.v4 0x0A010203#32))).clientIp (fun _ => none) =
        some (.v4 0x0A010203#32) := rfl
    rw [handle_some _ hip, verdict_multi]
    rfl
  exact ⟨_, ⟨_, List.mem_singleton_self _, rfl⟩, cacheSound_reachable (reachable_answered hanswer)⟩

end IpReputation
