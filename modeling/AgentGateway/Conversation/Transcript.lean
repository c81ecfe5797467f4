import AgentGateway.Conversation.Turns
import Mathlib.Data.Finset.Card
import Mathlib.Order.Interval.Finset.Nat

/-!
# Accepted transcripts

The entries and the native reply bindings of an accepted packet are two parts
of one transcript: numbered without repetition after the base revision, and
ended by the message that the turn answers.
-/

namespace AgentGateway

open Json (Value Schema)

variable {K : Crates} {a : Admission} {now : Option (ℤ × ℤ × ℤ)}
  {prior : StringSet} {p : Value}

/-! ## Records -/

/-- The sequence number of a record. -/
def sequence (e : Value) : ℕ := e["sequence"].asU64?.getD 0

/-- The event id of a record. -/
def eventId (e : Value) : String := e["eventId"].asStr?.getD ""

/-- The records in the order of their sequence numbers. -/
def transcript (entries bindings : List Value) : List Value :=
  entries.merge bindings fun x y => decide (sequence x ≤ sequence y)

/-- A record that is numbered within the half-open range and names an event. -/
structure RecordWithin (base rev : ℕ) (e : Value) : Prop where
  sequence_eq : e["sequence"] = .num (.posInt (sequence e))
  eventId_eq : e["eventId"] = .str (eventId e)
  after_base : base < sequence e
  upto_rev : sequence e ≤ rev

/-- What the loop over one of the lists establishes.  The cursor starts at
`last`, and `ids` and `seqs` are what the loop before it collected. -/
structure Collected (p : Value) (rev last : ℕ) (es : List Value)
    (ids ids' : List String) (seqs seqs' : List ℕ) : Prop where
  within : ∀ e ∈ es, RecordWithin last rev e
  increasing : (es.map sequence).Pairwise (· < ·)
  ids_eq : ids' = (es.map eventId).reverse ++ ids
  seqs_eq : seqs' = (es.map sequence).reverse ++ seqs
  ids_nodup : ids.Nodup → ids'.Nodup
  seqs_nodup : seqs.Nodup → seqs'.Nodup
  generation : ∀ e ∈ es, (e.get? "sourceTaskId").isSome = true →
    e["generation"] = p["conversation"]["generation"]

theorem collected_of_packetRecords {rev last : ℕ} {es : List Value}
    {ids ids' : List String} {seqs seqs' : List ℕ}
    (h : packetRecords p rev last es ids seqs = some (ids', seqs')) :
    Collected p rev last es ids ids' seqs seqs' := by
  induction es generalizing last ids seqs with
  | nil =>
      cases h
      exact ⟨by simp, by simp, by simp, by simp, id, id, by simp⟩
  | cons e es ih =>
      obtain ⟨seq, hseq, h⟩ := Option.bind_eq_some_iff.mp h
      obtain ⟨⟨⟩, hrange, h⟩ := Option.bind_eq_some_iff.mp h
      obtain ⟨i, hi, h⟩ := Option.bind_eq_some_iff.mp h
      obtain ⟨⟨⟩, hfresh, h⟩ := Option.bind_eq_some_iff.mp h
      obtain ⟨⟨⟩, hgeneration, h⟩ := Option.bind_eq_some_iff.mp h
      have hrange := guard_eq_some.mp hrange
      have hfresh := guard_eq_some.mp hfresh
      have hgeneration := guard_eq_some.mp hgeneration
      simp only [not_or, not_le, not_lt] at hrange
      obtain ⟨hlast, hrev, hnew⟩ := hrange
      have hsequence : sequence e = seq := by rw [sequence, hseq]; rfl
      have heventId : eventId e = i := by rw [eventId, hi]; rfl
      have hrest := ih h
      constructor
      · rintro x (_ | ⟨_, hx⟩)
        · refine ⟨?_, ?_, by omega, by omega⟩
          · rw [hsequence]
            exact Value.asU64?_eq_some.mp hseq
          · rw [heventId]
            exact Value.asStr?_eq_some.mp hi
        · have hwithin := hrest.within x hx
          exact { hwithin with after_base := hlast.trans hwithin.after_base }
      · rw [List.map_cons, List.pairwise_cons]
        refine ⟨fun n hn => ?_, hrest.increasing⟩
        obtain ⟨x, hx, rfl⟩ := List.mem_map.mp hn
        rw [hsequence]
        exact (hrest.within x hx).after_base
      · rw [hrest.ids_eq]
        simp [heventId]
      · rw [hrest.seqs_eq]
        simp [hsequence]
      · intro hids
        exact hrest.ids_nodup (List.nodup_cons.mpr ⟨hfresh, hids⟩)
      · intro hseqs
        exact hrest.seqs_nodup (List.nodup_cons.mpr ⟨hnew, hseqs⟩)
      · rintro x (_ | ⟨_, hx⟩) hsource
        · by_contra hne
          exact hgeneration ⟨hsource, hne⟩
        · exact hrest.generation x hx hsource

/-! ## The trigger -/

/-- The record that the turn answers. -/
structure Trigger (p : Value) (rev : ℕ) (e : Value) : Prop where
  event : e["eventId"] = p["triggerEventId"]
  last : sequence e = rev
  author : e["authorId"] = p["requesterId"]
  human : e["authorRole"] = .str "human"
  short : ∃ text, e["text"] = .str text ∧ text.toList.length ≤ 8000

theorem trigger_of_packetTrigger {rev : ℕ} {entries : List Value}
    (h : packetTrigger p rev entries = some ()) :
    ∃ e, entries.filter (fun e => e["eventId"] = p["triggerEventId"]) = [e] ∧
      Trigger p rev e := by
  unfold packetTrigger at h
  split at h
  next e hfilter =>
    obtain ⟨⟨⟩, hauthor, h⟩ := Option.bind_eq_some_iff.mp h
    obtain ⟨⟨⟩, hrole, h⟩ := Option.bind_eq_some_iff.mp h
    obtain ⟨⟨⟩, hseq, h⟩ := Option.bind_eq_some_iff.mp h
    obtain ⟨text, htext, h⟩ := Option.bind_eq_some_iff.mp h
    have hmem : e ∈ [e] := List.mem_singleton_self e
    rw [← hfilter] at hmem
    refine ⟨e, hfilter, ?_, ?_, guard_eq_some.mp hauthor,
      guard_eq_some.mp hrole, text, Value.asStr?_eq_some.mp htext,
      guard_eq_some.mp h⟩
    · simpa using (List.mem_filter.mp hmem).2
    · rw [sequence, guard_eq_some.mp hseq]
      rfl
  next => cases h

/-! ## Transcripts -/

/-- A list in strictly increasing order ends with its greatest element. -/
theorem getLast?_of_increasing {es : List Value} {e : Value}
    (h : (es.map sequence).Pairwise (· < ·)) (he : e ∈ es)
    (hmax : ∀ x ∈ es, sequence x ≤ sequence e) : es.getLast? = some e := by
  induction es using List.reverseRecOn with
  | nil => simp at he
  | append_singleton es x _ =>
      rw [List.getLast?_append, List.getLast?_singleton, Option.some_or]
      rcases List.mem_append.mp he with he | he
      · rw [List.map_append, List.pairwise_append] at h
        have hlt : sequence e < sequence x :=
          h.2.2 _ (List.mem_map_of_mem he) _ (by simp)
        have hle := hmax x (by simp)
        omega
      · rw [List.mem_singleton.mp he]

theorem transcript_increasing {entries bindings : List Value}
    (hentries : (entries.map sequence).Pairwise (· < ·))
    (hbindings : (bindings.map sequence).Pairwise (· < ·))
    (hnodup : ((entries ++ bindings).map sequence).Nodup) :
    ((transcript entries bindings).map sequence).Pairwise (· < ·) := by
  have hweak : ∀ es : List Value, (es.map sequence).Pairwise (· < ·) →
      es.Pairwise fun x y => decide (sequence x ≤ sequence y) = true := by
    intro es hes
    rw [List.pairwise_map] at hes
    exact hes.imp fun hlt => decide_eq_true (Nat.le_of_lt hlt)
  have hsorted := @List.pairwise_merge Value
    (fun x y => decide (sequence x ≤ sequence y))
    (by
      intro x y z hxy hyz
      simp only [decide_eq_true_eq] at *
      omega)
    (by
      intro x y
      simp only [Bool.or_eq_true, decide_eq_true_eq]
      omega)
    entries bindings (hweak _ hentries) (hweak _ hbindings)
  have hperm : (transcript entries bindings).Perm (entries ++ bindings) :=
    List.merge_perm_append _
  have hdistinct : ((transcript entries bindings).map sequence).Nodup :=
    (hperm.map sequence).nodup_iff.mpr hnodup
  have hle : ((transcript entries bindings).map sequence).Pairwise (· ≤ ·) := by
    rw [List.pairwise_map]
    exact hsorted.imp fun h => of_decide_eq_true h
  exact (hle.and hdistinct).imp fun h => Nat.lt_of_le_of_ne h.1 h.2

/-- The transcript of a packet. -/
structure WellFormed (p : Value) (base rev : ℕ)
    (entries bindings : List Value) : Prop where
  baseRevision : p["context"]["baseRevision"] = .num (.posInt base)
  revision : p["context"]["revision"] = .num (.posInt rev)
  entries_eq : p["context"]["entries"] = .arr entries
  bindings_eq : p["context"]["nativeReplyBindings"] = .arr bindings
  within : ∀ e ∈ entries ++ bindings, RecordWithin base rev e
  eventIds_distinct : ((entries ++ bindings).map eventId).Nodup
  sequences_distinct : ((entries ++ bindings).map sequence).Nodup
  entries_increasing : (entries.map sequence).Pairwise (· < ·)
  bindings_increasing : (bindings.map sequence).Pairwise (· < ·)
  bounded : entries.length + bindings.length ≤ min 2000 (rev - base)
  increasing :
    ((transcript entries bindings).map sequence).Pairwise (· < ·)
  /-- The last record is the only entry of the trigger event. -/
  trigger : ∃ e, (transcript entries bindings).getLast? = some e ∧
    entries.filter (fun e => e["eventId"] = p["triggerEventId"]) = [e] ∧
      Trigger p rev e
  generation : ∀ b ∈ bindings,
    b["generation"] = p["conversation"]["generation"]
  mode : (p["context"]["kind"] = .str "baseline" ∧
      p["conversation"]["mode"] = .str "new" ∧ base = 0 ∧ bindings = []) ∨
    (p["context"]["kind"] = .str "delta" ∧
      p["conversation"]["mode"] = .str "continue")

theorem length_le_of_within {base rev : ℕ} {es : List Value}
    (hwithin : ∀ e ∈ es, RecordWithin base rev e)
    (hnodup : (es.map sequence).Nodup) : es.length ≤ rev - base := by
  have hsubset : (es.map sequence).toFinset ⊆ Finset.Ioc base rev := by
    intro n hn
    obtain ⟨e, he, rfl⟩ := List.mem_map.mp (List.mem_toFinset.mp hn)
    exact Finset.mem_Ioc.mpr ⟨(hwithin e he).after_base, (hwithin e he).upto_rev⟩
  have hcard := Finset.card_le_card hsubset
  rwa [List.toFinset_card_of_nodup hnodup, Nat.card_Ioc, List.length_map]
    at hcard

theorem mode_or {v : Value} (h : (Contracts.enum ["new", "continue"]).valid
    K.isFormat v = true) : v = .str "new" ∨ v = .str "continue" := by
  simpa [Contracts.enum, Schema.valid] using h

theorem kind_or {v : Value} (h : (Contracts.enum ["baseline", "delta"]).valid
    K.isFormat v = true) : v = .str "baseline" ∨ v = .str "delta" := by
  simpa [Contracts.enum, Schema.valid] using h

theorem modes_of_schema (h : Contracts.input.valid K.isFormat p = true) :
    (p["conversation"]["mode"] = .str "new" ∨
        p["conversation"]["mode"] = .str "continue") ∧
      (p["context"]["kind"] = .str "baseline" ∨
        p["context"]["kind"] = .str "delta") := by
  have hconversation : Contracts.conversation.valid K.isFormat
      p["conversation"] = true := Schema.valid_getElem h (by decide) rfl
  have hcontext : Contracts.context.valid K.isFormat p["context"] = true :=
    Schema.valid_getElem h (by decide) rfl
  constructor
  · apply mode_or
    exact Schema.valid_getElem (k := "mode") hconversation (by decide) rfl
  · apply kind_or
    exact Schema.valid_getElem (k := "kind") hcontext (by decide) rfl

/-- A native reply binding names its task. -/
theorem source_of_binding (h : Contracts.input.valid K.isFormat p = true)
    {bindings : List Value}
    (hbindings : p["context"]["nativeReplyBindings"] = .arr bindings) :
    ∀ b ∈ bindings, (b.get? "sourceTaskId").isSome = true := by
  have hcontext : Contracts.context.valid K.isFormat p["context"] = true :=
    Schema.valid_getElem h (by decide) rfl
  obtain ⟨bs, hbs, hbinding⟩ := Schema.valid_array
    (Schema.valid_getElem (k := "nativeReplyBindings") hcontext (by decide) rfl)
  rw [hbindings] at hbs
  obtain rfl : bindings = bs := Value.arr.inj hbs
  intro b hb
  obtain ⟨fs, rfl, hkeys, _⟩ := Schema.exists_fields_of_valid (hbinding b hb)
  simp only [Schema.keysPresent, Bool.and_eq_true, List.all_eq_true] at hkeys
  exact hkeys.1 "sourceTaskId" (by decide)

/-- Every accepted packet has a well-formed transcript. -/
theorem accepted_transcript_well_formed
    (h : validatePacketWithSources K p a now prior = some ()) :
    ∃ base rev entries bindings, WellFormed p base rev entries bindings := by
  have hchecked := checked_of_validate h
  obtain ⟨base, rev, entries, bindings, _, ids, ids', seqs, seqs', hcontext⟩ :=
    checked_of_packetContext hchecked.context
  have hinput := valid_of_schema hchecked.schema
  obtain ⟨hmodes, hkinds⟩ := modes_of_schema hinput
  have hcollected := collected_of_packetRecords hcontext.first
  have hcollected' := collected_of_packetRecords hcontext.second
  have hids : ids' = ((entries ++ bindings).map eventId).reverse := by
    rw [hcollected'.ids_eq, hcollected.ids_eq]
    simp
  have hseqs : seqs' = ((entries ++ bindings).map sequence).reverse := by
    rw [hcollected'.seqs_eq, hcollected.seqs_eq]
    simp
  have hwithin : ∀ e ∈ entries ++ bindings, RecordWithin base rev e := by
    intro e he
    rcases List.mem_append.mp he with he | he
    · exact hcollected.within e he
    · exact hcollected'.within e he
  have hidsNodup : ((entries ++ bindings).map eventId).Nodup := by
    rw [← List.nodup_reverse, ← hids]
    exact hcollected'.ids_nodup (hcollected.ids_nodup .nil)
  have hseqsNodup : ((entries ++ bindings).map sequence).Nodup := by
    rw [← List.nodup_reverse, ← hseqs]
    exact hcollected'.seqs_nodup (hcollected.seqs_nodup .nil)
  have hlength := length_le_of_within hwithin hseqsNodup
  rw [List.length_append] at hlength
  have hincreasing := transcript_increasing hcollected.increasing
    hcollected'.increasing hseqsNodup
  obtain ⟨e, hfilter, he⟩ := trigger_of_packetTrigger hcontext.trigger
  have hmem : e ∈ entries := by
    have hsingle : e ∈ [e] := List.mem_singleton_self e
    rw [← hfilter] at hsingle
    exact (List.mem_filter.mp hsingle).1
  refine ⟨base, rev, entries, bindings, ?_⟩
  constructor
  · exact hcontext.baseRevision
  · exact hcontext.revision
  · exact hcontext.entries_eq
  · exact hcontext.bindings_eq
  · exact hwithin
  · exact hidsNodup
  · exact hseqsNodup
  · exact hcollected.increasing
  · exact hcollected'.increasing
  · exact Nat.le_min.mpr ⟨hcontext.count, hlength⟩
  · exact hincreasing
  · refine ⟨e, getLast?_of_increasing hincreasing
      (List.mem_merge.mpr (.inl hmem)) fun x hx => ?_, hfilter, he⟩
    rw [he.last]
    refine (hwithin x ?_).upto_rev
    exact List.mem_append.mpr (List.mem_merge.mp hx)
  · intro b hb
    apply hcollected'.generation b hb
    exact source_of_binding hinput hcontext.bindings_eq b hb
  · by_cases hkind : p["context"]["kind"] = .str "baseline"
    · refine .inl ⟨hkind, hcontext.mode.mpr hkind, ?_⟩
      by_contra hne
      exact hcontext.baseline ⟨hkind, by tauto⟩
    · refine .inr ⟨hkinds.resolve_left hkind, hmodes.resolve_left fun hnew => ?_⟩
      exact hkind (hcontext.mode.mp hnew)

namespace Sample

def nativeReply (id : String) (sequence : ℕ) : Value := .object
  [("eventId", .str id), ("sequence", number sequence),
    ("sourceTaskId", .str task₁), ("generation", number 1),
    ("textDigest", .str
      "2cbe2120153d40b87011f3eb6ab555550031d89b575968b307e88021df7511b8")]

/-- A turn that continues the conversation; the reply to the first turn stands
between two messages. -/
def boundPacket : Value :=
  packet (ident "00000016") "continue" (ident "00000017")
    ((context "delta" 5 8
      [message (ident "00000018") 6 (ident "00000003")
          "2026-10-05T12:00:04Z" "Green it is.",
        message (ident "00000017") 8 (ident "00000004")
          "2026-10-05T12:00:05Z" "@codex-agent Is that settled?"] []
      "1f476e408c3df43c2fd030a68f839e567f6bf513e15f2dfb2562614958d0cc5b").set
        "nativeReplyBindings" (.arr [nativeReply (ident "00000019") 7]))

theorem boundPacket_valid : validatePacketWithSources Reference.crates
    boundPacket mediator.admission (some (Sample.now, Sample.now, Sample.now))
      .empty = some () := by
  decide +kernel

end Sample

theorem accepted_transcript_well_formed_boundPacket :
    ∃ base rev entries bindings,
      WellFormed Sample.boundPacket base rev entries bindings ∧
        bindings ≠ [] := by
  obtain ⟨base, rev, entries, bindings, hwell⟩ :=
    accepted_transcript_well_formed Sample.boundPacket_valid
  refine ⟨base, rev, entries, bindings, hwell, ?_⟩
  rintro rfl
  have hbindings := hwell.bindings_eq
  revert hbindings
  decide +kernel

end AgentGateway
