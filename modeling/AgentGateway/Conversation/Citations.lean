import AgentGateway.Conversation.Canonical
import AgentGateway.Conversation.Publication

/-!
# Citations

The sources of a record are the ids that its own packet discloses and those of
the records that were acknowledged in the same conversation when it was
created.  Through these records the sources reach back over the whole history
of the conversation, and no further: a citation is accepted exactly if its id
was disclosed there.
-/

namespace AgentGateway

open Json (Value)
open Interaction
open Dispatcher

variable {K : Crates} {c : Dispatcher} {d : Directory} {h : List Action}
  {id : String} {p q : Value} {r r' : Record}

/-! ## Conversations -/

/-- Two packets or bindings belong to one conversation, under one policy. -/
structure SameConversation (p q : Value) : Prop where
  room : p["roomId"] = q["roomId"]
  agent : p["agentId"] = q["agentId"]
  id : p["conversation"]["id"] = q["conversation"]["id"]
  generation : p["conversation"]["generation"] =
    q["conversation"]["generation"]
  policy : p["context"]["policyRevision"] = q["context"]["policyRevision"]

theorem SameConversation.trans {o : Value} (hop : SameConversation o p)
    (hpq : SameConversation p q) : SameConversation o q :=
  ⟨hop.room.trans hpq.room, hop.agent.trans hpq.agent, hop.id.trans hpq.id,
    hop.generation.trans hpq.generation, hop.policy.trans hpq.policy⟩

theorem sameConversation_binding (p : Value) :
    SameConversation p (binding p) := by
  refine ⟨?_, ?_, ?_, ?_, ?_⟩
  · rw [binding_getElem (by decide) (by decide) (by decide)]
  · rw [binding_getElem (by decide) (by decide) (by decide)]
  · rw [binding_getElem (by decide) (by decide) (by decide)]
  · rw [binding_getElem (by decide) (by decide) (by decide)]
  · rw [binding_context (by decide) (by decide) (by decide)]

theorem carriesOver_iff :
    carriesOver r p ↔ r.phase = "acknowledged" ∧ r.ack.isSome = true ∧
      SameConversation r.binding p := by
  constructor
  · rintro ⟨hphase, hack, hroom, hagent, hid, hgeneration, hpolicy⟩
    exact ⟨hphase, hack, hroom, hagent, hid, hgeneration, hpolicy⟩
  · rintro ⟨hphase, hack, hsame⟩
    exact ⟨hphase, hack, hsame.room, hsame.agent, hsame.id, hsame.generation,
      hsame.policy⟩

theorem carriesOver_trans (hr : carriesOver r p) (hpq : SameConversation p q) :
    carriesOver r q := by
  rw [carriesOver_iff] at hr ⊢
  exact ⟨hr.1, hr.2.1, hr.2.2.trans hpq⟩

/-! ## Disclosure -/

/-- An id occurs in the context of a packet. -/
def Discloses (p : Value) (s : String) : Prop :=
  s ∈ eventIds p ∨ s ∈ decisionIds p

theorem mem_sources {s : String} : s ∈ sources p ↔ Discloses p s := by
  rw [sources, StringSet.mem_ofList, List.mem_append]
  rfl

theorem items_remove {k : String} {v : Value} : items (v.remove k)[k] = [] := by
  rw [Value.getElem_remove]
  simp [items, Value.asArray?]

/-- A binding discloses nothing. -/
theorem not_discloses_binding (p : Value) (s : String) :
    ¬Discloses (binding p) s := by
  have hcontext : (binding p)["context"] = .null ∨ (binding p)["context"] =
      ((p["context"].remove "entries").remove "activeDecisions").remove
        "nativeReplyBindings" := by
    rw [binding, Value.getElem_remove_of_ne (by decide),
      Value.getElem_remove_of_ne (by decide)]
    cases p with
    | obj fs =>
        rw [Value.getElem_set rfl, if_pos rfl]
        exact .inr rfl
    | _ => exact .inl rfl
  have hitems : items (binding p)["context"]["entries"] = [] ∧
      items (binding p)["context"]["activeDecisions"] = [] ∧
      items (binding p)["context"]["nativeReplyBindings"] = [] := by
    rcases hcontext with heq | heq
    · rw [heq]
      exact ⟨rfl, rfl, rfl⟩
    · rw [heq]
      refine ⟨?_, ?_, items_remove⟩
      · rw [Value.getElem_remove_of_ne (by decide),
          Value.getElem_remove_of_ne (by decide)]
        exact items_remove
      · rw [Value.getElem_remove_of_ne (by decide)]
        exact items_remove
  obtain ⟨hentries, hdecisions, hbindings⟩ := hitems
  rintro (hs | hs)
  · simp [eventIds, hentries, hbindings] at hs
  · simp [decisionIds, hdecisions] at hs

/-- The packet was claimed for a task. -/
def PacketOf (K : Crates) (t : List Action) (id : String) (p : Value) : Prop :=
  ∃ c lease, Claimed K c t id p lease

theorem Claimed.mono {lease : String} {h' : List Action}
    (hp : Claimed K c h id p lease) (hh : h ⊆ h') :
    Claimed K c h' id p lease :=
  ⟨hp.answered.mono hh, hp.task, hp.valid, hp.uuid⟩

theorem PacketOf.mono {t t' : List Action} (hp : PacketOf K t id p)
    (ht : t ⊆ t') : PacketOf K t' id p := by
  obtain ⟨c, lease, hclaim⟩ := hp
  exact ⟨c, lease, hclaim.mono ht⟩

/-! ## The creation of a record -/

/-- At the moment `t` there was no record of the task yet.  Its first record was
created from the packet `p`, with the sources of the records that carried over
at that moment. -/
structure CreatedAt (K : Crates) (t : List Action) (id : String) (p : Value)
    (r : Record) : Prop where
  packet : PacketOf K t id p
  missing : directory t id = none
  binding : r.binding = binding p
  sources : ∀ s, s ∈ r.sources ↔ Discloses p s ∨
    ∃ i q, (directory t).record i = some q ∧ carriesOver q p ∧ s ∈ q.sources

theorem CreatedAt.extends {t : List Action} (hr : CreatedAt K t id p r)
    (hext : r.Extends r') : CreatedAt K t id p r' :=
  ⟨hr.packet, hr.missing, by rw [hext.binding, hr.binding], fun s => by
    rw [hext.sources, hr.sources s]⟩

theorem createdAt_freshRecord {t : List Action} {lease : String}
    {prior : StringSet} (hp : PacketOf K t id p)
    (hmissing : directory t id = none)
    (hprior : PriorOf (directory t) p prior) :
    CreatedAt K t id p (freshRecord p lease prior) := by
  refine ⟨hp, hmissing, rfl, fun s => ?_⟩
  show s ∈ (sources p).union prior ↔ _
  rw [StringSet.mem_union, mem_sources, hprior s]

/-- The first record of a task is an extension of a fresh one. -/
theorem SaveGuarantee.of_missing (hs : SaveGuarantee K c d h id r)
    (hnone : d.record id = none) :
    ∃ p lease prior, Claimed K c h id p lease ∧ d id = none ∧
      PriorOf d p prior ∧ (freshRecord p lease prior).Extends r := by
  cases hs with
  | recovery hstored _ _ =>
      rw [hnone] at hstored
      cases hstored
  | @claim p lease _ _ hclaim hheld hchange =>
      cases hheld with
      | stored hstored _ =>
          rw [hnone] at hstored
          cases hstored
      | @fresh prior hmissing hprior _ =>
          exact ⟨p, lease, prior, hclaim, hmissing, hprior,
            hchange.extends (freshRecord_wellFormed hclaim.task prior)⟩

/-- Every durable record was created at an earlier moment of the run. -/
theorem Run.createdAt {run : List (Call K)} (hrun : Run K run d)
    {t : List Action} (ht : t <+: trace run)
    (hr : (directory t).record id = some r) :
    ∃ t₀ p, t₀ <+: t ∧ CreatedAt K t₀ id p r := by
  refine Run.forall_trace (P := fun t => t <+: trace run → ∀ id r,
    (directory t).record id = some r →
      ∃ t₀ p, t₀ <+: t ∧ CreatedAt K t₀ id p r) ?_ ?_ ht ht id r hr
  · rintro _ id r ⟨⟩
  · rintro past x future h e rest rfl hevents hinv hinitial id r hr
    have hle := (List.prefix_append (trace past ++ h) [e])
    have hinv := hinv (hle.trans hinitial)
    have hG := hrun.guarantee hevents
    rw [directory_snoc] at hr
    rcases record_step hG id with hsame | ⟨q, ans, _, hsave, hnew⟩
    · obtain ⟨t₀, p, ht₀, hcreated⟩ := hinv id r (hsame ▸ hr)
      exact ⟨t₀, p, ht₀.trans hle, hcreated⟩
    · rw [hnew] at hr
      cases hr
      cases hold : (directory (trace past ++ h)).record id with
      | some q =>
          obtain ⟨t₀, p, ht₀, hcreated⟩ := hinv id q hold
          have hwell := hrun.wellFormed (hle.trans hinitial) hold
          exact ⟨t₀, p, ht₀.trans hle,
            hcreated.extends (hsave.extends hold hwell)⟩
      | none =>
          obtain ⟨p, lease, prior, hclaim, hmissing, hprior, hext⟩ :=
            hsave.of_missing hold
          have hpacket : PacketOf K (trace past ++ h) id p :=
            ⟨_, lease, hclaim.mono (List.subset_append_right _ h)⟩
          exact ⟨_, p, hle,
            (createdAt_freshRecord hpacket hmissing hprior).extends hext⟩

/-! ## The reach of the sources -/

/-- At an earlier moment, a task of the same conversation was acknowledged whose
packet satisfies `D`. -/
def Earlier (K : Crates) (t : List Action) (p : Value) (D : Value → Prop) :
    Prop :=
  ∃ t₁ i r q, t₁ <+: t ∧ (directory t₁).record i = some r ∧
    carriesOver r p ∧ PacketOf K t₁ i q ∧ r.binding = binding q ∧ D q

theorem Earlier.mono {t t' : List Action} {D : Value → Prop}
    (he : Earlier K t p D) (ht : t <+: t') (hpq : SameConversation p q) :
    Earlier K t' q D := by
  obtain ⟨t₁, i, r, o, ht₁, hr, hcarries, ho⟩ := he
  exact ⟨t₁, i, r, o, ht₁.trans ht, hr, carriesOver_trans hcarries hpq, ho⟩

/-- The sources of a record stem from packets of its own task or of tasks that
were acknowledged earlier in the same conversation.  The induction is on the
length of the history: a record is younger than those it draws from. -/
theorem Run.disclosed_of_mem_sources {run : List (Call K)} (hrun : Run K run d)
    {t : List Action} (ht : t <+: trace run)
    (hr : (directory t).record id = some r) {s : String} (hs : s ∈ r.sources) :
    (∃ q, PacketOf K t id q ∧ r.binding = binding q ∧ Discloses q s) ∨
      Earlier K t r.binding (Discloses · s) := by
  induction hlength : t.length using Nat.strong_induction_on
    generalizing t id r with
  | _ n ih =>
      obtain ⟨t₀, p, ht₀, hcreated⟩ := hrun.createdAt ht hr
      rcases (hcreated.sources s).mp hs with hp | ⟨i, q, hq, hcarries, hs⟩
      · exact .inl ⟨p, hcreated.packet.mono ht₀.subset, hcreated.binding, hp⟩
      · have hne : t₀ ≠ t := by
          rintro rfl
          rw [Directory.record_eq_none_of hcreated.missing] at hr
          cases hr
        have hlt : t₀.length < n := by
          rw [← hlength]
          exact lt_of_le_of_ne ht₀.length_le
            fun heq => hne (ht₀.eq_of_length heq)
        have hsame : SameConversation p r.binding := by
          rw [hcreated.binding]
          exact sameConversation_binding p
        refine .inr ?_
        rcases ih _ hlt (ht₀.trans ht) hq hs rfl with ⟨o, ho, hbinding, hdis⟩ |
          hearlier
        · exact ⟨t₀, i, q, o, ht₀, hq, carriesOver_trans hcarries hsame, ho,
            hbinding, hdis⟩
        · exact hearlier.mono ht₀
            ((carriesOver_iff.mp hcarries).2.2.trans hsame)

theorem Run.disclosed_of_mem_prior {run : List (Call K)} (hrun : Run K run d)
    {t : List Action} (ht : t <+: trace run) {prior : StringSet}
    (hprior : PriorOf (directory t) p prior) {s : String} (hs : s ∈ prior) :
    Earlier K t p (Discloses · s) := by
  obtain ⟨i, r, hr, hcarries, hs⟩ := (hprior s).mp hs
  rcases hrun.disclosed_of_mem_sources ht hr hs with ⟨q, hq, hbinding, hdis⟩ |
    hearlier
  · exact ⟨t, i, r, q, List.prefix_refl t, hr, hcarries, hq, hbinding, hdis⟩
  · exact hearlier.mono (List.prefix_refl t) (carriesOver_iff.mp hcarries).2.2

/-! ## Packets of one task -/

/-- What the context digest of a packet is taken of. -/
def digested (p : Value) : Value := .object
  [("roomId", p["roomId"]),
    ("agentId", p["agentId"]),
    ("conversationId", p["conversation"]["id"]),
    ("generation", p["conversation"]["generation"]),
    ("triggerEventId", p["triggerEventId"]),
    ("guidanceRevision", p["guidanceRevision"]),
    ("context", p["context"].remove "digest")]

/-- SHA-256 tells the texts under the digests of two packets apart. -/
def Distinguishes (K : Crates) (p q : Value) : Prop :=
  ∀ text text', canonicalBytes (digested p) = some text →
    canonicalBytes (digested q) = some text' →
      K.sha256Hex text = K.sha256Hex text' → text = text'

theorem safe_digested (hp : Safe p) : Safe (digested p) := by
  refine safe_object fun f hf => ?_
  simp only [List.mem_cons, List.not_mem_nil, or_false] at hf
  rcases hf with rfl | rfl | rfl | rfl | rfl | rfl | rfl
  · exact hp.getElem trivial _
  · exact hp.getElem trivial _
  · exact (hp.getElem trivial _).getElem trivial _
  · exact (hp.getElem trivial _).getElem trivial _
  · exact hp.getElem trivial _
  · exact hp.getElem trivial _
  · exact Safe.remove (hp.getElem trivial _) _

/-- The digest of a packet is the one of its contents. -/
structure DigestChecked (K : Crates) (p : Value) : Prop where
  context : ∃ fs, p["context"] = .obj fs
  digest : ∃ text, canonicalBytes (digested p) = some text ∧
    p["context"]["digest"] = .str (K.sha256Hex text)

theorem digestChecked_of_valid {a : Admission}
    {now : Option (ℤ × ℤ × ℤ)} {prior : StringSet}
    (h : validatePacketWithSources K p a now prior = some ()) :
    DigestChecked K p := by
  have hadmitted := (checked_of_validate h).admitted
  obtain ⟨⟨⟩, _, hadmitted⟩ := Option.bind_eq_some_iff.mp hadmitted
  obtain ⟨⟨⟩, _, hadmitted⟩ := Option.bind_eq_some_iff.mp hadmitted
  obtain ⟨⟨⟩, _, hadmitted⟩ := Option.bind_eq_some_iff.mp hadmitted
  obtain ⟨model, _, hadmitted⟩ := Option.bind_eq_some_iff.mp hadmitted
  obtain ⟨efforts, _, hadmitted⟩ := Option.bind_eq_some_iff.mp hadmitted
  obtain ⟨⟨⟩, _, hadmitted⟩ := Option.bind_eq_some_iff.mp hadmitted
  obtain ⟨digest, hdigest, hadmitted⟩ := Option.bind_eq_some_iff.mp hadmitted
  obtain ⟨fs, hfs, hdigest⟩ := Option.bind_eq_some_iff.mp hdigest
  obtain ⟨text, htext, hdigest⟩ := Option.bind_eq_some_iff.mp hdigest
  have hcontext : p["context"] = .obj fs := by
    cases hvalue : p["context"] with
    | obj gs =>
        rw [hvalue] at hfs
        cases hfs
        rfl
    | _ =>
        rw [hvalue] at hfs
        cases hfs
  refine ⟨⟨fs, hcontext⟩, text, htext, ?_⟩
  rw [guard_eq_some.mp hadmitted]
  split_ifs at hdigest
  cases hdigest
  rfl

theorem digest_of_packetValid {prior : StringSet} (hp : Safe p)
    (hvalid : PacketValid K c p prior) :
    p["context"]["digest"] = .str (K.sha256Hex (toVec (digested p))) := by
  obtain ⟨now, hvalid⟩ := hvalid
  obtain ⟨text, htext, hdigest⟩ := (digestChecked_of_valid hvalid).digest
  rw [canonicalBytes_of_safe (safe_digested hp), Option.some.injEq] at htext
  rw [hdigest, htext]

/-- Two packets that were claimed for a task with one binding disclose the same
ids. -/
theorem discloses_iff_of_binding {t t' : List Action}
    (hp : PacketOf K t id p) (hq : PacketOf K t' id q)
    (hsha : Distinguishes K p q) (hbinding : binding p = binding q)
    (s : String) : Discloses p s ↔ Discloses q s := by
  obtain ⟨c, lease, hp⟩ := hp
  obtain ⟨c', lease', hq⟩ := hq
  obtain ⟨prior, hpvalid⟩ := hp.valid
  obtain ⟨prior', hqvalid⟩ := hq.valid
  have hpsafe := safe_digested hp.answered.safe.1
  have hqsafe := safe_digested hq.answered.safe.1
  have hdigest : p["context"]["digest"] = q["context"]["digest"] := by
    rw [← binding_context (by decide) (by decide) (by decide), hbinding,
      binding_context (by decide) (by decide) (by decide)]
  rw [digest_of_packetValid hp.answered.safe.1 hpvalid,
    digest_of_packetValid hq.answered.safe.1 hqvalid] at hdigest
  have heq : digested p = digested q := by
    apply toVec_injective hpsafe hqsafe
    exact hsha _ _ (canonicalBytes_of_safe hpsafe)
      (canonicalBytes_of_safe hqsafe) (Value.str.inj hdigest)
  have hcontext : p["context"].remove "digest" =
      q["context"].remove "digest" := by
    have hget : (digested p)["context"] = (digested q)["context"] := by
      rw [heq]
    rw [digested, digested, Value.getElem_object, Value.getElem_object]
      at hget
    exact hget
  have hsame : ∀ k : String, k ≠ "digest" →
      p["context"][k] = q["context"][k] := by
    intro k hk
    rw [← Value.getElem_remove_of_ne hk, hcontext,
      Value.getElem_remove_of_ne hk]
  simp only [Discloses, eventIds, decisionIds,
    hsame "entries" (by decide), hsame "activeDecisions" (by decide),
    hsame "nativeReplyBindings" (by decide)]

/-! ## Citations of results -/

/-- A result passes all checks but the one on its citations. -/
structure OtherwiseValid (K : Crates) (x p : Value) (a : Admission) :
    Prop where
  schema : schema K Contracts.result x = some ()
  packet : resultMatches x p = some ()
  settings : resultSettings x p (some a) = some ()
  usage : resultUsage K x p = some ()

theorem any_asStr? {v : Value} {P : String → Prop} [DecidablePred P] :
    (v.asStr?.any fun s => decide (P s)) = true ↔ ∃ s, v = .str s ∧ P s := by
  rw [Option.any_eq_true]
  simp only [Value.asStr?_eq_some, decide_eq_true_eq]

theorem citationsKnown_iff {x : Value} {A : StringSet} :
    citationsKnown x A = some () ↔ ∃ cs, x["citations"] = .arr cs ∧
      ∀ v ∈ cs, ∃ s, v = .str s ∧ s ∈ A := by
  constructor
  · intro h
    obtain ⟨cs, hcs, hall⟩ := Option.bind_eq_some_iff.mp h
    refine ⟨cs, Value.asArray?_eq_some.mp hcs, fun v hv => ?_⟩
    exact any_asStr?.mp (List.all_eq_true.mp (guard_eq_some.mp hall) v hv)
  · rintro ⟨cs, hcs, hall⟩
    refine Option.bind_eq_some_iff.mpr
      ⟨cs, Value.asArray?_eq_some.mpr hcs, guard_eq_some.mpr ?_⟩
    exact List.all_eq_true.mpr fun v hv => any_asStr?.mpr (hall v hv)

theorem validateResultWithAdmission_iff {x : Value} {A : StringSet}
    {a : Admission} :
    validateResultWithAdmission K x p A a = some () ↔
      OtherwiseValid K x p a ∧
        citationsKnown x ((sources p).union A) = some () := by
  constructor
  · intro h
    obtain ⟨⟨⟩, hschema, h⟩ := Option.bind_eq_some_iff.mp h
    obtain ⟨⟨⟩, hmatches, h⟩ := Option.bind_eq_some_iff.mp h
    obtain ⟨⟨⟩, hcitations, h⟩ := Option.bind_eq_some_iff.mp h
    obtain ⟨⟨⟩, hsettings, husage⟩ := Option.bind_eq_some_iff.mp h
    exact ⟨⟨hschema, hmatches, hsettings, husage⟩, hcitations⟩
  · rintro ⟨⟨hschema, hmatches, hsettings, husage⟩, hcitations⟩
    simp [validateResultWithAdmission, validateResultPolicy, hschema, hmatches,
      hcitations, hsettings, husage]

/-- Every citation of a completion that is sent was disclosed to its own task
or, earlier, to an acknowledged task of the same conversation.  Conversely, a
result is never rejected for a citation that was disclosed to its own task or to
a task of the same conversation that was acknowledged when the record was
created.  The sources of a record depend on no other records, stay as they are,
and are those of every packet that is claimed for the task, where SHA-256 tells
the texts of the two packets apart. -/
theorem citations_scope {run : List (Call K)} (hrun : Run K run d) :
    (∀ past x future h a rest id lease u, run = past ++ x :: future →
      x.events = h ++ a :: rest → Posts a id lease u →
      u["kind"] = .str "completed" →
      ∃ r cs, (directory (trace past ++ h)).record id = some r ∧
        u["data"]["citations"] = .arr cs ∧ ∀ v ∈ cs, ∃ s, v = .str s ∧
          ((∃ q, PacketOf K (trace past ++ h) id q ∧
              r.binding = binding q ∧ Discloses q s) ∨
            Earlier K (trace past ++ h) r.binding (Discloses · s))) ∧
    ∀ t id r, t <+: trace run → (directory t).record id = some r →
      ∃ t₀ p, t₀ <+: t ∧ CreatedAt K t₀ id p r ∧
        (∀ x q a cs, OtherwiseValid K x q a → x["citations"] = .arr cs →
          (∀ v ∈ cs, ∃ s, v = .str s ∧ (Discloses q s ∨ Discloses p s ∨
            ∃ i r' t₁ q', (directory t₀).record i = some r' ∧
              carriesOver r' p ∧ CreatedAt K t₁ i q' r' ∧
              Discloses q' s)) →
          validateResultWithAdmission K x q r.sources a = some ()) ∧
        (∀ t', t <+: t' → t' <+: trace run →
          ∃ r', (directory t').record id = some r' ∧
            r'.sources = r.sources) ∧
        ∀ t' q, PacketOf K t' id q → r.binding = binding q →
          Distinguishes K q p → ∀ s, Discloses q s → s ∈ r.sources := by
  constructor
  · rintro past x future h a rest id lease u rfl hevents hpost hkind
    have hinitial : trace past ++ h <+: trace (past ++ x :: future) :=
      ⟨a :: rest ++ trace future, by simp [hevents]⟩
    obtain ⟨q, r, hr, _, _, _, hq, hvalid, _⟩ :=
      hrun.completion_validated hevents hpost hkind
    obtain ⟨cs, hcs, hall⟩ := citationsKnown_iff.mp
      (validateResultWithAdmission_iff.mp hvalid).2
    refine ⟨r, cs, hr, hcs, fun v hv => ?_⟩
    obtain ⟨s, rfl, hs⟩ := hall v hv
    refine ⟨s, rfl, ?_⟩
    rcases StringSet.mem_union.mp hs with hs | hs
    · rw [mem_sources] at hs
      rcases hq with rfl | ⟨hclaim, hbinding⟩
      · obtain ⟨t₀, p, _, hcreated⟩ := hrun.createdAt hinitial hr
        rw [hcreated.binding] at hs
        exact absurd hs (not_discloses_binding p s)
      · exact .inl ⟨q, ⟨_, lease,
          hclaim.mono (List.subset_append_right _ h)⟩, hbinding, hs⟩
    · exact hrun.disclosed_of_mem_sources hinitial hr hs
  · intro t id r ht hr
    obtain ⟨t₀, p, ht₀, hcreated⟩ := hrun.createdAt ht hr
    refine ⟨t₀, p, ht₀, hcreated, ?_, ?_, ?_⟩
    · intro x q a cs hother hcs hall
      refine validateResultWithAdmission_iff.mpr
        ⟨hother, citationsKnown_iff.mpr ⟨cs, hcs, fun v hv => ?_⟩⟩
      obtain ⟨s, rfl, hs⟩ := hall v hv
      refine ⟨s, rfl, StringSet.mem_union.mpr ?_⟩
      rcases hs with hs | hs | ⟨i, r', t₁, q', hr', hcarries, hcreated', hs⟩
      · exact .inl (mem_sources.mpr hs)
      · exact .inr ((hcreated.sources s).mpr (.inl hs))
      · exact .inr ((hcreated.sources s).mpr (.inr ⟨i, r', hr', hcarries,
          (hcreated'.sources s).mpr (.inl hs)⟩))
    · intro t' htt' ht'
      obtain ⟨r', hr', hext⟩ := hrun.extends htt' ht' hr
      exact ⟨r', hr', hext.sources⟩
    · intro t' q hq hbinding hsha s hs
      have hsame := discloses_iff_of_binding hq hcreated.packet hsha
        (hbinding.symm.trans hcreated.binding) s
      exact (hcreated.sources s).mpr (.inl (hsame.mp hs))

theorem citations_scope_recoveryCall :
    ∃ r cs, (directory (trace [Sample.completedCall] ++
        Sample.beforeReplay)).record Sample.task₁ = some r ∧
      Sample.completion["data"]["citations"] = .arr cs ∧
      ∀ v ∈ cs, ∃ s, v = .str s ∧
        ((∃ q, PacketOf Reference.crates
            (trace [Sample.completedCall] ++ Sample.beforeReplay)
            Sample.task₁ q ∧ r.binding = binding q ∧ Discloses q s) ∨
          Earlier Reference.crates
            (trace [Sample.completedCall] ++ Sample.beforeReplay) r.binding
            (Discloses · s)) :=
  (citations_scope Sample.run_conversation).1 [Sample.completedCall]
    Sample.recoveryCall [] Sample.beforeReplay _ _ _ _ _ rfl
    Sample.recoveryCall_events rfl (updateValue_kind _ _ _ _)

end AgentGateway
