import IpReputation.IpText
import IpReputation.Verdict

/-! One client address in its four spellings. -/
namespace IpReputation

variable {β : Type} {M : MmdbWriter β} {G : Geoip2 β} {filter : IpFilter} {ipsets : List Ipset}
  {a : Ipv4Addr} {value : TypedData} {req : Request} {ip : IpAddr}

/-- The request carries `check-client-ip` with this `ip` argument. -/
def Request.Asks (value : TypedData) (req : Request) : Prop :=
  ∃ msg, req.getMessage MESSAGE_NAME = some msg ∧ msg IP_ARGUMENT = some value

/-- The address as such, or as the text of it. -/
def SpellsIpv4 (a : Ipv4Addr) (value : TypedData) : Prop :=
  value = .ipv4 a ∨ value = .string (dotted a)

/-- The IPv4-mapped address, or the text of it. -/
def SpellsMapped (a : Ipv4Addr) (value : TypedData) : Prop :=
  value = .ipv6 (toIpv6Mapped a) ∨ value = .string (dottedMapped a)

/-- Every request for one of these values is answered `ip_bad = v`. -/
def Answers (filter : IpFilter) (snapshot : Option (Snapshot G)) (values : TypedData → Prop)
    (v : Bool) : Prop :=
  ∀ value req m, values value → req.Asks value →
    (filter.handle parseIpAddr snapshot req m).1 = req.answer v

/-- All four spellings are answered alike. -/
def SpellingBlind (filter : IpFilter) (snapshot : Option (Snapshot G)) (a : Ipv4Addr) : Prop :=
  ∃ v, Answers filter snapshot (fun value => SpellsIpv4 a value ∨ SpellsMapped a value) v

theorem Request.Asks.clientIp (h : req.Asks value) :
    req.clientIp parseIpAddr = ipArgument parseIpAddr (some value) := by
  obtain ⟨msg, hmsg, hvalue⟩ := h
  simp [Request.clientIp, hmsg, hvalue]

theorem ipArgument_spellsIpv4 (h : SpellsIpv4 a value) :
    ipArgument parseIpAddr (some value) = some (.v4 a) := by
  rcases h with rfl | rfl
  · rfl
  · exact parseIpAddr_dotted a

theorem ipArgument_spellsMapped (h : SpellsMapped a value) :
    ipArgument parseIpAddr (some value) = some (.v6 (toIpv6Mapped a)) := by
  rcases h with rfl | rfl
  · rfl
  · exact parseIpAddr_dottedMapped a

/-- Values that stand for one address share its verdict. -/
theorem answers_of_ipArgument {snapshot : Option (Snapshot G)} {values : TypedData → Prop}
    (h : ∀ value, values value → ipArgument parseIpAddr (some value) = some ip) :
    Answers filter snapshot values (filter.verdict snapshot ip).isSome := by
  intro value req m hvalue hreq
  rw [handle_some req (hreq.clientIp.trans (h value hvalue))]

variable [ByteString β] {s : Served G}

/-- A served database has no verdict on an IPv6 address. -/
theorem ServesBuilt.verdict_v6 (hM : M.Lawful) (hG : G.Reads M) (h : ServesBuilt M G ipsets s)
    (addr : Ipv6Addr) : filter.verdict s.snapshot (.v6 addr) = none := by
  obtain ⟨snapshot, hsnap, -, hv6⟩ := h.lookup hM hG
  simp [IpFilter.verdict, Mmdb.lookup, hsnap, hv6 addr]

/-- An IPv4 address and its text get one answer; spelled as an IPv6 address, it is let through. -/
theorem answers_spellings (hM : M.Lawful) (hG : G.Reads M) (h : ServesBuilt M G ipsets s) :
    (∃ v, Answers filter s.snapshot (SpellsIpv4 a) v) ∧
      Answers filter s.snapshot (SpellsMapped a) false := by
  refine ⟨⟨_, answers_of_ipArgument fun _ => ipArgument_spellsIpv4⟩, ?_⟩
  have hmapped : Answers filter s.snapshot (SpellsMapped a)
      (filter.verdict s.snapshot (.v6 (toIpv6Mapped a))).isSome :=
    answers_of_ipArgument fun _ => ipArgument_spellsMapped
  rwa [h.verdict_v6 hM hG] at hmapped

/-- `10.1.2.3` with category `spam` dropped. -/
theorem answers_spellings_multi :
    (∃ v, Answers ⟨{"spam"}, ∅⟩ multiServed.snapshot (SpellsIpv4 0x0A010203#32) v) ∧
      Answers ⟨{"spam"}, ∅⟩ multiServed.snapshot (SpellsMapped 0x0A010203#32) false :=
  answers_spellings Reference.mmdbWriter_lawful Reference.geoip2_reads multiServed_servesBuilt

theorem askFor_asks (value : TypedData) : (askFor value).Asks value := ⟨_, rfl, rfl⟩

/-- `10.1.2.3` is blocked, `::ffff:10.1.2.3` is not. -/
theorem not_spellingBlind_multi :
    ¬ SpellingBlind ⟨{"spam"}, ∅⟩ multiServed.snapshot 0x0A010203#32 := by
  rintro ⟨v, hv⟩
  have hplain := hv (.ipv4 0x0A010203#32) _ {} (.inl (.inl rfl)) (askFor_asks _)
  have hmapped := hv (.ipv6 (toIpv6Mapped 0x0A010203#32)) _ {} (.inr (.inl rfl)) (askFor_asks _)
  rw [handle_some _ (show (askFor _).clientIp parseIpAddr = some (.v4 0x0A010203#32) from rfl)]
    at hplain
  rw [handle_some _ (show (askFor _).clientIp parseIpAddr =
    some (.v6 (toIpv6Mapped 0x0A010203#32)) from rfl)] at hmapped
  rw [multiServed_servesBuilt.verdict_v6 Reference.mmdbWriter_lawful Reference.geoip2_reads]
    at hmapped
  have htrue := answer_inj hplain
  have hfalse := answer_inj hmapped
  rw [verdict_multi] at htrue
  rw [← htrue] at hfalse
  cases hfalse

end IpReputation
