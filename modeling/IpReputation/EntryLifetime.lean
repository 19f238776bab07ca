import IpReputation.LiveCache

/-! For as long as a table entry lives, no publication reaches its address. -/
namespace IpReputation

open Transition

variable {β : Type} {G : Geoip2 β} {filter : IpFilter} {parseIp : String → Option IpAddr}
  {answers : IpAddr → Bool → Prop} {s s₀ t : Frontend} {e : FrontendEvent} {g : Nat} {ip : IpAddr}
  {r : HttpRequest} {l l' : Live G} {events : List LiveEvent}

/-- What may become of the `i`-th request of an address whose entry is not `0` in `s`. -/
structure HttpRequest.Obeys (s : Frontend) (i : Nat) (r : HttpRequest) : Prop where
  /-- The agent is asked only by a request that it was asked by before. -/
  asked : r.rule = .waiting → ∃ r₀, s.requests[i]? = some r₀ ∧ r₀.rule = .waiting
  ended : r.ended = true → (∃ r₀, s.requests[i]? = some r₀ ∧ r₀.ended = true) ∨
    (r.rule = .dropped ↔ s.gpt0 r.src = 2)

/-- From `s` to `t` the entry of `ip` has stayed, and the requests of `ip` followed it. -/
structure Sticks (ip : IpAddr) (s t : Frontend) : Prop where
  entry : t.gpt0 ip = s.gpt0 ip
  requests : ∀ i (r : HttpRequest), t.requests[i]? = some r → r.src = ip → r.Obeys s i

theorem sticks_refl (ip : IpAddr) (s : Frontend) : Sticks ip s s := by
  refine ⟨rfl, ?_⟩
  intro i r hr hip
  exact ⟨fun hw => ⟨r, hr, hw⟩, fun he => .inl ⟨r, hr, he⟩⟩

/-- A rule that is evaluated follows the entry. -/
theorem HttpRequest.Obeys.evaluate {i : Nat} {var : Option Bool} (hg : g ≠ 0)
    (hentry : s.gpt0 r.src = g) (h : r.Obeys s i) : (evaluate g var r).1.Obeys s i := by
  obtain ⟨sid, src, rule, found, answer⟩ := r
  cases rule with
  | trackSc0 | setGpt0Good | setGpt0Bad =>
    constructor <;> simp [IpReputation.evaluate, HttpRequest.ended]
  | sendSpoeGroup => constructor <;> simp [IpReputation.evaluate, hg, HttpRequest.ended]
  | silentDrop =>
    constructor
    · by_cases htwo : g = 2 <;> simp [IpReputation.evaluate, htwo]
    · by_cases htwo : g = 2 <;> simp [IpReputation.evaluate, htwo, hentry]
  | waiting | served | dropped => exact h

theorem sticks_step (hg : s₀.gpt0 ip ≠ 0) (hst : FrontendStep answers Idle s e t)
    (hkept : e ≠ .expire ip) (h : Sticks ip s₀ s) : Sticks ip s₀ t := by
  cases hst with
  | connect src hfree => exact ⟨h.entry, h.requests⟩
  | disconnect hdone => exact ⟨h.entry, h.requests⟩
  | @request sid session hs =>
    refine ⟨h.entry, ?_⟩
    intro i r hr hip
    rcases Nat.lt_or_ge i s.requests.length with hold | hnew
    · rw [List.getElem?_append_left hold] at hr
      exact h.requests i r hr hip
    · rw [List.getElem?_append_right hnew, List.getElem?_singleton] at hr
      obtain rfl : { session := sid, src := session.src } = r := by
        split at hr
        · exact Option.some.inj hr
        · cases hr
      constructor <;> simp [HttpRequest.ended]
  | @rule before after r hs hw he =>
    have hentry : (s.evaluated r (before ++ (evaluate (s.gpt0 r.src) (s.ipBad r.session) r).1 ::
        after)).gpt0 ip = s.gpt0 ip := by
      rcases gpt0_evaluated s r _ ip with hsame | ⟨-, hzero, -⟩
      · exact hsame
      · exact absurd (h.entry.symm.trans hzero) hg
    refine ⟨hentry.trans h.entry, forall_getElem?_replace (x := r) ?_ (hs ▸ h.requests)⟩
    intro hr hip
    rw [evaluate_src] at hip
    subst hip
    exact (hr rfl).evaluate (h.entry ▸ hg) h.entry.symm
  | answered hs hw hv =>
    refine ⟨h.entry, forall_getElem?_replace (fun _ _ => ?_) (hs ▸ h.requests)⟩
    constructor <;> simp [HttpRequest.ended]
  | unanswered hs hw =>
    refine ⟨h.entry, forall_getElem?_replace (fun _ _ => ?_) (hs ▸ h.requests)⟩
    constructor <;> simp [HttpRequest.ended]
  | @expire other hidle =>
    have hother : ip ≠ other := by
      rintro rfl
      exact hkept rfl
    refine ⟨?_, h.requests⟩
    rw [← h.entry]
    simp [Frontend.gpt0, hother]

/-- A verdict sticks: once the table knows an address, and for as long as its entry does not
expire, the agent is asked about it by no other request, whatever is published, and every request
of it that has not ended yet is dropped or served as the entry says. -/
theorem verdict_sticks (hrun : (live filter parseIp).Run l events l')
    (hg : l.frontend.gpt0 ip ≠ 0) (hkept : ∀ event ∈ events, event ≠ .frontend (.expire ip)) :
    Sticks ip l.frontend l'.frontend := by
  suffices hrest : ∀ s₀, s₀.gpt0 ip ≠ 0 → Sticks ip s₀ l.frontend → Sticks ip s₀ l'.frontend by
    exact hrest _ hg (sticks_refl ip l.frontend)
  clear hg
  induction hrun with
  | refl => exact fun s₀ _ h => h
  | head hst _ ih =>
    intro s₀ hg h
    have hrest := ih (fun event hevent => hkept event (List.mem_cons_of_mem _ hevent)) s₀ hg
    cases hst with
    | publish snapshot => exact hrest h
    | @frontend e t hst =>
      have hnow : e ≠ .expire ip := by
        rintro rfl
        exact hkept _ (List.mem_cons_self ..) rfl
      exact hrest (sticks_step hg hst hnow h)

/-- A database without any network is published, and `10.1.2.3` stays dropped. -/
theorem verdict_sticks_dropped : ∃ (snapshot : Snapshot Reference.geoip2) (l : Live _),
    dropVerdict ⟨{"spam"}, ∅⟩ (some snapshot) (.v4 0x0A010203#32) = false ∧
    (live ⟨{"spam"}, ∅⟩ fun _ => none).Run droppedOnce [.publish, .frontend (.request 0)] l ∧
      l.past.getLast? = some (some snapshot) ∧
      Sticks (.v4 0x0A010203#32) droppedOnce.frontend l.frontend := by
  have hfalse : dropVerdict ⟨{"spam"}, ∅⟩ (some ⟨Reference.emptyReader, none⟩)
      (.v4 0x0A010203#32) = false := rfl
  have hsession : droppedOnce.frontend.sessions 0 = some ⟨.v4 0x0A010203#32, some true⟩ := by
    simp [droppedOnce]
  have hrun : (live ⟨{"spam"}, ∅⟩ fun _ => none).Run droppedOnce
      [.publish, .frontend (.request 0)] _ :=
    .head (.publish ⟨Reference.emptyReader, none⟩) (.single (.frontend (.request hsession)))
  refine ⟨_, _, hfalse, hrun, by simp, verdict_sticks hrun ?_ (by simp)⟩
  simp [Frontend.gpt0, droppedOnce]

end IpReputation
