import IpReputation.CacheSoundness

/-! The stick table while new databases are published: whose verdicts it still tells. -/
namespace IpReputation

open Transition

variable {β : Type} {G : Geoip2 β}

/-- The frontend, and every snapshot the agent has served. -/
structure Live (G : Geoip2 β) where
  frontend : Frontend
  past : List (Option (Snapshot G))

inductive LiveEvent
  | frontend (e : FrontendEvent)
  | publish

variable (filter : IpFilter) (parseIp : String → Option IpAddr)

/-- An answer from any of these snapshots; it may be on its way when the next one is published. -/
def PastAnswers (past : List (Option (Snapshot G))) (ip : IpAddr) (v : Bool) : Prop :=
  ∃ snapshot ∈ past, HandlerAnswers filter parseIp snapshot ip v

inductive LiveStep : Live G → LiveEvent → Live G → Prop
  | frontend {s : Live G} {e : FrontendEvent} {t : Frontend} :
      FrontendStep (PastAnswers filter parseIp s.past) Idle s.frontend e t →
      LiveStep s (.frontend e) { s with frontend := t }
  | publish {s : Live G} (snapshot : Snapshot G) :
      LiveStep s .publish { s with past := s.past ++ [some snapshot] }

/-- An empty frontend in front of an agent that has served one snapshot, or none yet. -/
def live : System (Live G) LiveEvent where
  initial s := ∃ snapshot,
    (frontend (PastAnswers filter parseIp s.past) Idle).initial s.frontend ∧ s.past = [snapshot]
  step := LiveStep filter parseIp

/-- How far the rules have got with a request, when these answers have been given so far. -/
def PhaseSaid (said : IpAddr → Bool → Prop) (gpt0 : Nat) (ipBad : Option Bool)
    (r : HttpRequest) : Prop :=
  match r.rule with
  | .trackSc0 | .sendSpoeGroup => r.answer = none
  | .waiting => r.answer = none ∧ r.found = some 0
  | .setGpt0Good => r.Informed → gpt0 ≠ 0 ∨ ipBad ≠ none
  -- Another request of the connection may have been answered `false` meanwhile.
  | .setGpt0Bad => r.Informed → gpt0 ≠ 0 ∨ ipBad = some true ∨ said r.src false
  | .silentDrop => r.Informed → gpt0 ≠ 0 ∨ said r.src false
  | .served => r.Informed → said r.src false
  | .dropped => said r.src true

variable {filter parseIp} {said said' : IpAddr → Bool → Prop} {answers : IpAddr → Bool → Prop}
  {s t : Frontend} {e : FrontendEvent} {r : HttpRequest} {g g' : Nat} {var var' : Option Bool}

/-- A request's own rule takes it to its next phase. -/
theorem phaseSaid_evaluate (hone : g = 1 → said r.src false) (htwo : g = 2 → said r.src true)
    (hle : g ≤ 2) (hvar : ∀ v, var = some v → said r.src v) (h : PhaseSaid said g var r)
    (hw : r.rule ≠ .waiting) :
    PhaseSaid said ((evaluate g var r).2.getD g) var (evaluate g var r).1 := by
  obtain ⟨sid, src, rule, found, answer⟩ := r
  cases rule with
  | trackSc0 => exact h
  | sendSpoeGroup =>
    by_cases hzero : g = 0
    · subst hzero
      exact ⟨h, rfl⟩
    · simp [PhaseSaid, evaluate, hzero]
  | waiting => exact absurd rfl hw
  | setGpt0Good =>
    intro hinf
    rcases h hinf with hne | hset
    · simp [evaluate, hne]
    · obtain ⟨v, rfl⟩ := Option.ne_none_iff_exists'.mp hset
      cases v with
      | true => exact .inr (.inl rfl)
      | false => exact .inr (.inr (hvar false rfl))
  | setGpt0Bad =>
    intro hinf
    rcases h hinf with hne | hset | hsaid
    · simp [evaluate, hne]
    · by_cases hzero : g = 0
      · simp [evaluate, hzero, hset]
      · simp [evaluate, hzero]
    · exact .inr hsaid
  | silentDrop =>
    by_cases hbad : g = 2
    · simpa [PhaseSaid, evaluate, hbad] using htwo hbad
    · simp only [PhaseSaid, evaluate, hbad, if_false]
      intro hinf
      rcases h hinf with hne | hsaid
      · exact hone (by omega)
      · exact hsaid
  | served => exact h
  | dropped => exact h

/-- A phase outlasts what others do to the entry and to the session variable. -/
theorem PhaseSaid.mono (h : PhaseSaid said g var r)
    (hsaid : ∀ v, said r.src v → said' r.src v) (hg : r.tracked = true → g ≠ 0 → g' ≠ 0)
    (hvar : r.ended = false → var ≠ none → var' ≠ none)
    (hnew : r.ended = false → ∀ v, var' = some v → said' r.src v) : PhaseSaid said' g' var' r := by
  obtain ⟨sid, src, rule, found, answer⟩ := r
  cases rule with
  | trackSc0 | sendSpoeGroup | waiting => exact h
  | setGpt0Good => exact fun hinf => (h hinf).imp (hg rfl) (hvar rfl)
  | setGpt0Bad =>
    intro hinf
    rcases h hinf with hne | hset | hfalse
    · exact .inl (hg rfl hne)
    · obtain ⟨v, hv⟩ := Option.ne_none_iff_exists'.mp (hvar rfl (by simp [hset]))
      cases v with
      | true => exact .inr (.inl hv)
      | false => exact .inr (.inr (hnew rfl false hv))
    · exact .inr (.inr (hsaid false hfalse))
  | silentDrop => exact fun hinf => (h hinf).imp (hg rfl) (hsaid false)
  | served => exact fun hinf => hsaid false (h hinf)
  | dropped => exact hsaid true h

/-- The request's connection is there, and the request is on its way. -/
structure HttpRequest.Told (said : IpAddr → Bool → Prop) (s : Frontend) (r : HttpRequest) :
    Prop where
  connected : r.ended = false → ∃ session, s.sessions r.session = some session ∧ session.src = r.src
  phase : PhaseSaid said (s.gpt0 r.src) (s.ipBad r.session) r

/-- Entries and session variables are answers that were given, and so are all decisions. -/
structure Tells (said : IpAddr → Bool → Prop) (s : Frontend) : Prop where
  known : ∀ ip, s.gpt0 ip ≤ 2
  good : ∀ ip, s.gpt0 ip = 1 → said ip false
  bad : ∀ ip, s.gpt0 ip = 2 → said ip true
  vars : ∀ sid session, s.sessions sid = some session → ∀ v, session.ipBad = some v →
    said session.src v
  requests : ∀ r ∈ s.requests, r.Told said s

/-- A connection keeps its address, and its variable stays set. -/
def StaysSet (s t : Frontend) (sid : Nat) : Prop :=
  ∀ session, s.sessions sid = some session → ∃ session', t.sessions sid = some session' ∧
    session'.src = session.src ∧ (session.ipBad ≠ none → session'.ipBad ≠ none)

theorem staysSet_of_eq {sid : Nat} (h : t.sessions sid = s.sessions sid) : StaysSet s t sid :=
  fun session hs => ⟨session, h.trans hs, rfl, id⟩

/-- What others do leaves a request told. -/
theorem HttpRequest.Told.mono (h : r.Told said s) (hsaid : ∀ v, said r.src v → said' r.src v)
    (hgpt0 : r.tracked = true → s.gpt0 r.src ≠ 0 → t.gpt0 r.src ≠ 0)
    (hsession : r.ended = false → StaysSet s t r.session)
    (hvars : ∀ sid session, t.sessions sid = some session → ∀ v, session.ipBad = some v →
      said' session.src v) : r.Told said' t := by
  have hstays : r.ended = false → ∃ session session', s.sessions r.session = some session ∧
      t.sessions r.session = some session' ∧ session'.src = r.src ∧
      (session.ipBad ≠ none → session'.ipBad ≠ none) := by
    intro he
    obtain ⟨session, hs, hsrc⟩ := h.connected he
    obtain ⟨session', hs', hsrc', hset⟩ := hsession he session hs
    exact ⟨session, session', hs, hs', hsrc'.trans hsrc, hset⟩
  refine ⟨?_, h.phase.mono hsaid hgpt0 ?_ ?_⟩
  · intro he
    obtain ⟨-, session', -, hs', hsrc, -⟩ := hstays he
    exact ⟨session', hs', hsrc⟩
  · intro he hne
    obtain ⟨session, session', hs, hs', -, hset⟩ := hstays he
    rw [Frontend.ipBad, hs] at hne
    rw [Frontend.ipBad, hs']
    exact hset hne
  · intro he v hv
    obtain ⟨-, session', -, hs', hsrc, -⟩ := hstays he
    rw [Frontend.ipBad, hs'] at hv
    rw [← hsrc]
    exact hvars _ session' hs' v hv

/-- More answers take nothing back. -/
theorem Tells.mono (h : Tells said s) (hsaid : ∀ ip v, said ip v → said' ip v) :
    Tells said' s := by
  have hvars : ∀ sid session, s.sessions sid = some session → ∀ v, session.ipBad = some v →
      said' session.src v := fun sid session hs v hv => hsaid _ _ (h.vars sid session hs v hv)
  refine ⟨h.known, fun ip hone => hsaid _ _ (h.good ip hone),
    fun ip htwo => hsaid _ _ (h.bad ip htwo), hvars, ?_⟩
  intro r hr
  exact (h.requests r hr).mono (hsaid r.src) (fun _ hne => hne) (fun _ => staysSet_of_eq rfl) hvars

theorem Tells.var_said (h : Tells said s) (hr : r ∈ s.requests) (he : r.ended = false) {v : Bool}
    (hv : s.ipBad r.session = some v) : said r.src v := by
  obtain ⟨session, hsession, hsrc⟩ := (h.requests r hr).connected he
  rw [Frontend.ipBad, hsession] at hv
  rw [← hsrc]
  exact h.vars r.session session hsession v hv

/-- A rule moves its own request on, and stores nothing that was not said. -/
theorem tells_rule {before after : List HttpRequest} (h : Tells said s)
    (hs : s.requests = before ++ r :: after) (hw : r.rule ≠ .waiting) (he : r.ended = false) :
    Tells said (s.evaluated r
      (before ++ (evaluate (s.gpt0 r.src) (s.ipBad r.session) r).1 :: after)) := by
  have hr : r ∈ s.requests := by simp [hs]
  have hcases := gpt0_evaluated s r
    (before ++ (evaluate (s.gpt0 r.src) (s.ipBad r.session) r).1 :: after)
  have hvar : ∀ v, s.ipBad r.session = some v → said r.src v := fun v hv => h.var_said hr he hv
  refine ⟨?_, ?_, ?_, h.vars, forall_mem_replace (x := r) ?_ ?_⟩
  · intro ip
    rcases hcases ip with hsame | ⟨-, -, ⟨-, -, hone⟩ | ⟨-, -, htwo⟩⟩
    · exact hsame.symm ▸ h.known ip
    · omega
    · omega
  · intro ip hone
    rcases hcases ip with hsame | ⟨rfl, -, ⟨-, hset, -⟩ | ⟨-, -, htwo⟩⟩
    · exact h.good ip (hsame.symm.trans hone)
    · exact hvar false hset
    · omega
  · intro ip htwo
    rcases hcases ip with hsame | ⟨rfl, -, ⟨-, -, hone⟩ | ⟨-, hset, -⟩⟩
    · exact h.bad ip (hsame.symm.trans htwo)
    · omega
    · exact hvar true hset
  · refine ⟨?_, ?_⟩
    · intro _
      rw [evaluate_session, evaluate_src]
      exact (h.requests r hr).connected he
    · have hphase := phaseSaid_evaluate (h.good r.src) (h.bad r.src) (h.known r.src) hvar
        (h.requests r hr).phase hw
      have hself : (s.evaluated r
          (before ++ (evaluate (s.gpt0 r.src) (s.ipBad r.session) r).1 :: after)).gpt0 r.src =
            (evaluate (s.gpt0 r.src) (s.ipBad r.session) r).2.getD (s.gpt0 r.src) := store_self
      rw [evaluate_src, evaluate_session, hself]
      exact hphase
  · rw [← hs]
    intro q hq
    refine (h.requests q hq).mono (fun _ hv => hv) ?_ (fun _ => staysSet_of_eq rfl) h.vars
    intro _ hne
    rcases hcases q.src with hsame | ⟨-, hzero, -⟩
    · exact hsame.symm ▸ hne
    · exact absurd hzero hne

theorem tells_answered {before after : List HttpRequest} {v : Bool} (h : Tells said s)
    (hs : s.requests = before ++ r :: after) (hw : r.rule = .waiting) (hv : said r.src v) :
    Tells said ⟨s.table, setVar s.sessions r.session v,
      before ++ { r with rule := .setGpt0Good, answer := some v } :: after⟩ := by
  have hr : r ∈ s.requests := by simp [hs]
  have he : r.ended = false := by simp [HttpRequest.ended, hw]
  obtain ⟨session, hsession, hsrc⟩ := (h.requests r hr).connected he
  have hset : setVar s.sessions r.session v r.session = some ⟨r.src, some v⟩ := by
    simp [setVar, hsession, hsrc]
  have hvars : ∀ sid session, setVar s.sessions r.session v sid = some session →
      ∀ u, session.ipBad = some u → said session.src u := by
    refine forall_update h.vars ?_
    intro session' hs' u hu
    rw [hsession, Option.map_some] at hs'
    obtain rfl := Option.some.inj hs'
    obtain rfl := Option.some.inj hu
    rw [hsrc]
    exact hv
  refine ⟨h.known, h.good, h.bad, hvars, forall_mem_replace (x := r) ?_ ?_⟩
  · exact ⟨fun _ => ⟨_, hset, rfl⟩, fun _ => .inr (by simp [Frontend.ipBad, hset])⟩
  · rw [← hs]
    intro q hq
    refine (h.requests q hq).mono (fun _ hv => hv) (fun _ hne => hne) ?_ hvars
    intro hq' session' hs'
    by_cases hsid : q.session = r.session
    · rw [hsid, hsession] at hs'
      obtain rfl := Option.some.inj hs'
      exact ⟨_, (congrArg _ hsid).trans hset, hsrc.symm, by simp⟩
    · exact staysSet_of_eq (by simp [setVar, hsid]) session' hs'

theorem tells_step (hanswers : ∀ ip v, answers ip v → said ip v)
    (hst : FrontendStep answers Idle s e t) (h : Tells said s) : Tells said t := by
  cases hst with
  | @connect sid src hfree =>
    have hvars : ∀ sid' session, Function.update s.sessions sid (some ⟨src, none⟩) sid' =
        some session → ∀ v, session.ipBad = some v → said session.src v := by
      refine forall_update h.vars ?_
      intro session hs v hv
      obtain rfl := Option.some.inj hs
      cases hv
    refine ⟨h.known, h.good, h.bad, hvars, ?_⟩
    intro r hr
    refine (h.requests r hr).mono (fun _ hv => hv) (fun _ hne => hne) (fun he => ?_) hvars
    obtain ⟨session, hs, -⟩ := (h.requests r hr).connected he
    have hsid : r.session ≠ sid := by
      intro hsid
      rw [hsid, hfree] at hs
      cases hs
    exact staysSet_of_eq (Function.update_of_ne hsid _ _)
  | @disconnect sid hdone =>
    have hvars : ∀ sid' session, Function.update s.sessions sid none sid' = some session →
        ∀ v, session.ipBad = some v → said session.src v := forall_update h.vars (by simp)
    refine ⟨h.known, h.good, h.bad, hvars, ?_⟩
    intro r hr
    refine (h.requests r hr).mono (fun _ hv => hv) (fun _ hne => hne) (fun he => ?_) hvars
    have hsid : r.session ≠ sid := by
      intro hsid
      rw [hdone r hr hsid] at he
      cases he
    exact staysSet_of_eq (Function.update_of_ne hsid _ _)
  | @request sid session hs =>
    refine ⟨h.known, h.good, h.bad, h.vars, ?_⟩
    intro r hr
    rcases List.mem_append.mp hr with hr | hr
    · exact (h.requests r hr).mono (fun _ hv => hv) (fun _ hne => hne)
        (fun _ => staysSet_of_eq rfl) h.vars
    · obtain rfl := List.mem_singleton.mp hr
      exact ⟨fun _ => ⟨session, hs, rfl⟩, rfl⟩
  | rule hs hw he => exact tells_rule h hs hw he
  | answered hs hw hv => exact tells_answered h hs hw (hanswers _ _ hv)
  | @unanswered before after r hs hw =>
    refine ⟨h.known, h.good, h.bad, h.vars, forall_mem_replace (x := r) ?_ ?_⟩
    · have hr : r ∈ s.requests := by simp [hs]
      have hphase := (h.requests r hr).phase
      have he : r.ended = false := by simp [HttpRequest.ended, hw]
      refine ⟨fun _ => (h.requests r hr).connected he, ?_⟩
      simp only [PhaseSaid, hw] at hphase
      rintro (hanswer | ⟨g, hfound, hne⟩)
      · exact absurd hphase.1 hanswer
      · exact absurd (Option.some.inj (hfound.symm.trans hphase.2)) hne
    · rw [← hs]
      exact fun q hq => (h.requests q hq).mono (fun _ hv => hv) (fun _ hne => hne)
        (fun _ => staysSet_of_eq rfl) h.vars
  | @expire ip hidle =>
    have hgpt0 : ∀ other, other ≠ ip →
        Frontend.gpt0 { s with table := Function.update s.table ip none } other =
          s.gpt0 other := by
      intro other hne
      simp [Frontend.gpt0, hne]
    have hgone : Frontend.gpt0 { s with table := Function.update s.table ip none } ip = 0 := by
      simp [Frontend.gpt0]
    refine ⟨?_, ?_, ?_, h.vars, ?_⟩
    · intro other
      by_cases hip : other = ip
      · rw [hip, hgone]
        omega
      · rw [hgpt0 other hip]
        exact h.known other
    · intro other hone
      by_cases hip : other = ip
      · rw [hip, hgone] at hone
        omega
      · exact h.good other ((hgpt0 other hip).symm.trans hone)
    · intro other htwo
      by_cases hip : other = ip
      · rw [hip, hgone] at htwo
        omega
      · exact h.bad other ((hgpt0 other hip).symm.trans htwo)
    · intro r hr
      refine (h.requests r hr).mono (fun _ hv => hv) ?_ (fun _ => staysSet_of_eq rfl) h.vars
      intro htracked hne
      have hip : r.src ≠ ip := by
        intro hip
        rw [hidle r hr hip] at htracked
        cases htracked
      rwa [hgpt0 r.src hip]

variable {l : Live G} {ip : IpAddr}

/-- The verdict of a snapshot that has been served. -/
def PastVerdict (filter : IpFilter) (past : List (Option (Snapshot G))) (ip : IpAddr) (v : Bool) :
    Prop :=
  ∃ snapshot ∈ past, dropVerdict filter snapshot ip = v

theorem pastVerdict_of_answers {past : List (Option (Snapshot G))} {v : Bool}
    (h : PastAnswers filter parseIp past ip v) : PastVerdict filter past ip v := by
  obtain ⟨snapshot, hmem, hanswer⟩ := h
  exact ⟨snapshot, hmem, (handlerAnswers_eq hanswer).symm⟩

theorem tells_reachable (h : (live filter parseIp).Reachable l) :
    Tells (PastVerdict filter l.past) l.frontend := by
  refine System.Stable.reachable (I := fun l => Tells (PastVerdict filter l.past) l.frontend)
    ?_ ?_ h
  · intro l event l' hst hl
    cases hst with
    | frontend hst => exact tells_step (fun _ _ => pastVerdict_of_answers) hst hl
    | publish snapshot =>
      refine hl.mono ?_
      rintro ip v ⟨old, hmem, hv⟩
      exact ⟨old, List.mem_append_left _ hmem, hv⟩
  · rintro l ⟨-, ⟨htable, hsessions, hrequests⟩, -⟩
    refine ⟨?_, ?_, ?_, by simp [hsessions], by simp [hrequests]⟩ <;> intro ip <;>
      simp [Frontend.gpt0, htable]

/-- Entries, and what is done to requests, go back to verdicts of snapshots served so far. -/
structure CacheTraced (filter : IpFilter) (past : List (Option (Snapshot G))) (s : Frontend) :
    Prop where
  good : ∀ ip, s.gpt0 ip = 1 → PastVerdict filter past ip false
  bad : ∀ ip, s.gpt0 ip = 2 → PastVerdict filter past ip true
  dropped : ∀ r ∈ s.requests, r.rule = .dropped → PastVerdict filter past r.src true
  /-- Every served request that the agent answered or that found its address cached. -/
  served : ∀ r ∈ s.requests, r.rule = .served → r.Informed → PastVerdict filter past r.src false

/-- However publications interleave with requests, answers and expiries, the frontend does to no
request what no served database ever said of its address. -/
theorem cacheTraced_reachable (h : (live filter parseIp).Reachable l) :
    CacheTraced filter l.past l.frontend := by
  have htells := tells_reachable h
  refine ⟨htells.good, htells.bad, ?_, ?_⟩
  · intro r hr hrule
    have hphase := (htells.requests r hr).phase
    simpa only [PhaseSaid, hrule] using hphase
  · intro r hr hrule
    have hphase := (htells.requests r hr).phase
    simpa only [PhaseSaid, hrule] using hphase

/-- On an address of which all served databases say the same, a change of database is not
noticed. -/
theorem CacheTraced.decided {past : List (Option (Snapshot G))} {v : Bool}
    (h : CacheTraced filter past s)
    (hagree : ∀ snapshot ∈ past, dropVerdict filter snapshot r.src = v) (hr : r ∈ s.requests)
    (he : r.ended = true) (hinf : r.Informed) : r.rule = .dropped ↔ v = true := by
  have hrule : r.rule = .served ∨ r.rule = .dropped := by
    simpa [HttpRequest.ended] using he
  rcases hrule with hrule | hrule
  · obtain ⟨snapshot, hmem, hv⟩ := h.served r hr hrule hinf
    simp [hrule, ← hagree snapshot hmem, hv]
  · obtain ⟨snapshot, hmem, hv⟩ := h.dropped r hr hrule
    simp [hrule, ← hagree snapshot hmem, hv]

/-- Between publications the frontend runs as before, with the answers of all snapshots so far. -/
theorem live_frontend {past : List (Option (Snapshot G))} {es : List FrontendEvent}
    (h : (frontend (PastAnswers filter parseIp past) Idle).Run s es t) :
    (live filter parseIp).Run ⟨s, past⟩ (es.map .frontend) ⟨t, past⟩ := by
  induction h with
  | refl => exact .refl
  | head hst _ ih =>
    have hlive : LiveStep filter parseIp ⟨_, past⟩ (.frontend _) ⟨_, past⟩ := .frontend hst
    exact .head hlive ih

/-- `10.1.2.3` has been dropped once, for category `spam`. -/
def droppedOnce : Live Reference.geoip2 where
  frontend :=
    ⟨Function.update (fun _ => none) (.v4 0x0A010203#32) (some 2),
      Function.update (fun _ => none) 0 (some ⟨.v4 0x0A010203#32, some true⟩),
      [⟨0, .v4 0x0A010203#32, .dropped, some 0, some true⟩]⟩
  past := [multiServed.snapshot, some ⟨Reference.emptyReader, none⟩]

/-- The answer was given from the first snapshot, with the second already published. -/
theorem droppedOnce_reachable : (live ⟨{"spam"}, ∅⟩ fun _ => none).Reachable droppedOnce := by
  have hanswer : PastAnswers ⟨{"spam"}, ∅⟩ (fun _ => none) droppedOnce.past
      (.v4 0x0A010203#32) true := by
    refine ⟨multiServed.snapshot, List.mem_cons_self, {}, ?_⟩
    have hip : (askFor (ipValue (.v4 0x0A010203#32))).clientIp (fun _ => none) =
        some (.v4 0x0A010203#32) := rfl
    rw [handle_some _ hip, verdict_multi]
    rfl
  obtain ⟨s₀, es, hinitial, hrun⟩ := reachable_answered hanswer
  have hstart : (live ⟨{"spam"}, ∅⟩ fun _ => none).Reachable
      (⟨s₀, [multiServed.snapshot]⟩ : Live Reference.geoip2) := .initial ⟨_, hinitial, rfl⟩
  exact (hstart.step (.publish ⟨Reference.emptyReader, none⟩)).run (live_frontend hrun)

theorem cacheTraced_reachable_dropped : ∃ l : Live Reference.geoip2, 1 < l.past.length ∧
    (∃ r ∈ l.frontend.requests, r.rule = .dropped) ∧
      CacheTraced ⟨{"spam"}, ∅⟩ l.past l.frontend :=
  ⟨_, by decide, ⟨_, List.mem_singleton_self _, rfl⟩, cacheTraced_reachable droppedOnce_reachable⟩

end IpReputation
