import AgentGateway.Conversation.Citations

/-!
# Sources of decisions

The source events of an active decision are compared with the events of the
packet and with the prior sources.  The prior sources do not tell events from
decisions, so an id that was only ever disclosed as a decision passes for a
source event.
-/

namespace AgentGateway

open Json (Value)
open Interaction
open Dispatcher

variable {K : Crates} {c : Dispatcher} {d : Directory} {p : Value}

/-- What the active decisions of a packet name as their source events. -/
def decisionSources (p : Value) : List Value :=
  (items p["context"]["activeDecisions"]).flatMap fun o =>
    items o["sourceEventIds"]

theorem packetRecords_ids {rev last : ℕ} {es : List Value}
    {ids ids' : List String} {seqs seqs' : List ℕ}
    (h : packetRecords p rev last es ids seqs = some (ids', seqs')) :
    ∀ s ∈ ids', s ∈ ids ∨ ∃ e ∈ es, e["eventId"] = .str s := by
  induction es generalizing last ids seqs with
  | nil =>
      cases h
      exact fun s hs => .inl hs
  | cons e es ih =>
      obtain ⟨seq, _, h⟩ := Option.bind_eq_some_iff.mp h
      obtain ⟨⟨⟩, _, h⟩ := Option.bind_eq_some_iff.mp h
      obtain ⟨i, hi, h⟩ := Option.bind_eq_some_iff.mp h
      obtain ⟨⟨⟩, _, h⟩ := Option.bind_eq_some_iff.mp h
      obtain ⟨⟨⟩, _, h⟩ := Option.bind_eq_some_iff.mp h
      intro s hs
      rcases ih h s hs with hs | ⟨e', he', hs⟩
      · rcases List.mem_cons.mp hs with rfl | hs
        · exact .inr ⟨e, by simp, Value.asStr?_eq_some.mp hi⟩
        · exact .inl hs
      · exact .inr ⟨e', by simp [he'], hs⟩

theorem packetDecisions_sources {ids : List String} {prior : StringSet}
    {ds : List Value} {decisions : List (List Char)}
    (h : packetDecisions ids prior ds decisions = some ()) :
    ∀ o ∈ ds, ∀ v ∈ items o["sourceEventIds"],
      ∃ s, v = .str s ∧ (s ∈ ids ∨ s ∈ prior) := by
  induction ds generalizing decisions with
  | nil => simp
  | cons o ds ih =>
      obtain ⟨⟨⟩, _, h⟩ := Option.bind_eq_some_iff.mp h
      obtain ⟨vs, hvs, h⟩ := Option.bind_eq_some_iff.mp h
      obtain ⟨⟨⟩, hall, h⟩ := Option.bind_eq_some_iff.mp h
      intro o' ho' v hv
      rcases List.mem_cons.mp ho' with rfl | ho'
      · have hv : v ∈ vs := by simpa [items, hvs] using hv
        exact any_asStr?.mp
          (List.all_eq_true.mp (guard_eq_some.mp hall) v hv)
      · exact ih h o' ho' v hv

/-- What validation accepts as a source event. -/
theorem sources_of_packetValid {prior : StringSet}
    (hvalid : PacketValid K c p prior) :
    ∀ v ∈ decisionSources p,
      ∃ s, v = .str s ∧ (s ∈ eventIds p ∨ s ∈ prior) := by
  obtain ⟨now, hvalid⟩ := hvalid
  obtain ⟨base, rev, entries, bindings, ds, ids, ids', seqs, seqs', hcontext⟩ :=
    checked_of_packetContext (checked_of_validate hvalid).context
  have hevents : ∀ s ∈ ids', s ∈ eventIds p := by
    intro s hs
    have hrecord : ∃ e ∈ entries ++ bindings, e["eventId"] = .str s := by
      rcases packetRecords_ids hcontext.second s hs with hs | ⟨e, he, hs⟩
      · rcases packetRecords_ids hcontext.first s hs with hs | ⟨e, he, hs⟩
        · cases hs
        · exact ⟨e, List.mem_append_left _ he, hs⟩
      · exact ⟨e, List.mem_append_right _ he, hs⟩
    obtain ⟨e, he, hs⟩ := hrecord
    refine List.mem_filterMap.mpr ⟨e, ?_, Value.asStr?_eq_some.mpr hs⟩
    simpa [items, Value.asArray?, hcontext.entries_eq, hcontext.bindings_eq]
      using he
  intro v hv
  obtain ⟨o, ho, hv⟩ := List.mem_flatMap.mp hv
  have ho : o ∈ ds := by
    simpa [items, Value.asArray?, hcontext.decisions_eq] using ho
  obtain ⟨s, rfl, hs⟩ := packetDecisions_sources hcontext.sources o ho v hv
  exact ⟨s, rfl, hs.imp_left (hevents s)⟩

/-- Earlier turns of the conversation disclosed the id as a decision, but
neither they nor the packet disclose it as an event. -/
def DecisionOnly (K : Crates) (t : List Action) (p : Value) (s : String) :
    Prop :=
  Earlier K t p (s ∈ decisionIds ·) ∧ ¬Earlier K t p (s ∈ eventIds ·) ∧
    s ∉ eventIds p

theorem Earlier.or {t : List Action} {D E : Value → Prop}
    (he : Earlier K t p fun q => D q ∨ E q) :
    Earlier K t p D ∨ Earlier K t p E := by
  obtain ⟨t₁, i, r, q, ht₁, hr, hcarries, hq, hbinding, hD | hE⟩ := he
  · exact .inl ⟨t₁, i, r, q, ht₁, hr, hcarries, hq, hbinding, hD⟩
  · exact .inr ⟨t₁, i, r, q, ht₁, hr, hcarries, hq, hbinding, hE⟩

/-- The source events of an admitted packet are events that were disclosed to
the conversation if and only if none of them was disclosed as a decision
only. -/
theorem decision_sources_are_events_iff {run : List (Call K)}
    (hrun : Run K run d) {t : List Action} (ht : t <+: trace run)
    {claim : Value} {es : List Action} {d' : Directory} {lease id : String}
    {prior : StringSet}
    (hadmitted : Exec world (directory t) (admitClaim K c claim).run es d'
      (some (.ok (p, lease, id, prior)))) :
    (∀ v ∈ decisionSources p, ∃ s, v = .str s ∧
        (s ∈ eventIds p ∨ Earlier K t p (s ∈ eventIds ·))) ↔
      ∀ s, .str s ∈ decisionSources p → ¬DecisionOnly K t p s := by
  have hadmitted : AdmittedClaim K c (directory t) claim p lease id prior :=
    (((admitClaim_admitted (h := []) Guarantees.none_lenient).exec
      hadmitted).1 _ rfl).2 p lease id prior rfl
  constructor
  · rintro hall s hs ⟨_, hnever, hno⟩
    obtain ⟨s', heq, hs'⟩ := hall _ hs
    cases heq
    exact hs'.elim hno hnever
  · intro hnone v hv
    obtain ⟨s, rfl, hs⟩ := sources_of_packetValid hadmitted.valid v hv
    refine ⟨s, rfl, ?_⟩
    by_contra hneither
    rw [not_or] at hneither
    obtain ⟨hno, hnever⟩ := hneither
    have hprior := hs.resolve_left hno
    rcases (hrun.disclosed_of_mem_prior ht hadmitted.sources hprior).or with
      hevent | hdecision
    · exact hnever hevent
    · exact hnone s hv ⟨hdecision, hnever, hno⟩

theorem decision_sources_are_events_iff_packet₁ :
    ∃ s, Value.str (Sample.ident "0000000a") = .str s ∧
      (s ∈ eventIds Sample.packet₁ ∨
        Earlier Reference.crates [] Sample.packet₁ (s ∈ eventIds ·)) := by
  have hsources := (decision_sources_are_events_iff .nil List.nil_prefix
    (Sample.exec_admitted exec_priorSources_empty)).mpr (by
      rintro s _ ⟨⟨t, i, r, q, ht, hr, _⟩, _⟩
      cases List.prefix_nil.mp ht
      cases hr)
  exact hsources _ (by decide +kernel)

/-- The broker's answer to a claim. -/
def claimReply : Action → Option Reply
  | ⟨.roomRequest ⟨_, .claim, _, _⟩, reply⟩ => some reply
  | _ => none

theorem claimReplies_conversation :
    (trace Sample.conversation).filterMap claimReply =
      [response (Sample.claim Sample.packet₁ Sample.lease)] := rfl

/-- Only the first packet was claimed in the sample conversation. -/
theorem packetOf_conversation {t : List Action} {id : String} {q : Value}
    (ht : t <+: trace Sample.conversation)
    (hq : PacketOf Reference.crates t id q) : q = Sample.packet₁ := by
  obtain ⟨c, lease, ⟨reply, claim, hmem, hclaim, hpacket, _⟩, _⟩ := hq
  have hreply : reply ∈ [response (Sample.claim Sample.packet₁
      Sample.lease)] := by
    rw [← claimReplies_conversation]
    exact List.mem_filterMap.mpr ⟨_, ht.subset hmem, rfl⟩
  rw [List.mem_singleton.mp hreply,
    roomResponse_response Sample.admissible.claimOf.sendable] at hclaim
  cases hclaim
  rw [← hpacket, Sample.admissible.claimOf.packet]

/-- The first turn discloses a decision, and it is acknowledged.  The second
turn is admitted with that decision as the source event of another one. -/
theorem decision_accepted_as_source :
    Run Reference.crates Sample.conversation
        (Sample.directoryOf Sample.acknowledged) ∧
      (∃ es, Exec world (directory (trace Sample.conversation))
        (admitClaim Reference.crates Sample.mediator
          (Sample.claim Sample.packet₂ Sample.lease)).run es
        (directory (trace Sample.conversation))
        (some (.ok (Sample.packet₂, Sample.lease, Sample.ident "00000016",
          Sample.firstSources)))) ∧
      .str (Sample.ident "0000000c") ∈ decisionSources Sample.packet₂ ∧
      Sample.ident "0000000c" ∈ decisionIds Sample.packet₁ ∧
      Sample.ident "0000000c" ∉ eventIds Sample.packet₂ ∧
      ¬Earlier Reference.crates (trace Sample.conversation) Sample.packet₂
        (Sample.ident "0000000c" ∈ eventIds ·) := by
  have hstate : Sample.directoryOf Sample.acknowledged =
      directory (trace Sample.conversation) :=
    Sample.run_conversation.state_eq
  refine ⟨Sample.run_conversation, ⟨_, hstate ▸ Sample.exec_admitted₂⟩,
    by decide +kernel, by decide +kernel, by decide +kernel, ?_⟩
  rintro ⟨t, i, r, q, ht, _, _, hq, _, hmem⟩
  rw [packetOf_conversation ht hq] at hmem
  have hno : Sample.ident "0000000c" ∉ eventIds Sample.packet₁ := by
    decide +kernel
  exact hno hmem

end AgentGateway
