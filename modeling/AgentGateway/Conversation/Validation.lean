import AgentGateway.Conversation.Contracts
import AgentGateway.Conversation.Decoding
import AgentGateway.Library.StringSet

/-!
# Validation of the conversation profile

The checks of `conversation_validation.rs`, in its order.  The long functions
of the source are cut into one definition for each group of checks.
-/

namespace AgentGateway

open Json (Value Schema)
open Utf8 (Bytes)

/-- The functions of other crates that validation calls. -/
structure Crates where
  /-- The lower-case hexadecimal SHA-256 digest. -/
  sha256Hex : Bytes → String
  /-- `DateTime::parse_from_rfc3339`, in nanoseconds since the epoch. -/
  parseFromRfc3339 : String → Option ℤ
  /-- The string formats of the `jsonschema` validator. -/
  isFormat : Json.Format → String → Bool
  /-- Whether `Uuid::parse_str` accepts a text. -/
  uuidParses : String → Bool

def codexId : String := "74686f75-6768-746b-686f-72616c000004"

/-- The reviewed revisions, and for each model its reasoning efforts. -/
structure Admission where
  catalogRevision : String
  guidanceRevision : String
  models : List (String × List String)

def safeFailureCode (code : String) : Option String :=
  ["invalid_task_input", "forbidden", "conversation_busy",
    "conversation_stale", "context_mismatch", "context_too_large",
    "runtime_unavailable", "authentication_required", "session_unavailable",
    "timeout", "conversation_interrupted", "execution_failed",
    "duplicate_conflict"].find? fun known => known == code

theorem safeFailureCode_eq_some {code known : String}
    (h : safeFailureCode code = some known) :
    known = code ∧ code ∈ failureCodes := by
  have hmem := List.mem_of_find?_eq_some h
  have heq : known = code := by simpa using List.find?_some h
  exact ⟨heq, heq ▸ hmem⟩

/-! ## Canonical texts -/

mutual
/-- The inner function of `canonical_bytes`. -/
def sorted : Value → Checked Value
  | .obj fs => (sortedFields fs).map Value.object
  | .arr xs => (sortedItems xs).map .arr
  | .num (.posInt n) =>
      if n > maxSafeInteger then none else some (.num (.posInt n))
  | .num _ => none
  | v => some v

def sortedItems : List Value → Checked (List Value)
  | [] => some []
  | x :: xs =>
      match sorted x, sortedItems xs with
      | some y, some ys => some (y :: ys)
      | _, _ => none

def sortedFields : List (String × Value) → Checked (List (String × Value))
  | [] => some []
  | (k, x) :: fs =>
      match sorted x, sortedFields fs with
      | some y, some gs => some ((k, y) :: gs)
      | _, _ => none
end

def canonicalBytes (v : Value) : Checked Bytes := (sorted v).map toVec

theorem object_of_sortedKeys {fs : List (String × Value)}
    (h : Value.SortedKeys fs) : Value.object fs = .obj fs := by
  have hfold : ∀ (gs m : List (String × Value)),
      Value.SortedKeys (m ++ gs) →
      gs.foldl (fun m f => Value.insertField f.1 f.2 m) m = m ++ gs := by
    intro gs
    induction gs with
    | nil => simp
    | cons f gs ih =>
        intro m hm
        have hlt : ∀ g ∈ m, Value.KeyLt g.1 f.1 := by
          intro g hg
          simp only [Value.SortedKeys, List.map_append, List.map_cons,
            List.pairwise_append] at hm
          exact hm.2.2 g.1 (List.mem_map_of_mem hg) f.1 (by simp)
        rw [List.foldl_cons, Value.insertField_of_forall_lt _ hlt,
          ih _ (by simpa using hm)]
        simp
  rw [Value.object, hfold fs [] (by simpa using h), List.nil_append]

theorem sortedItems_of_forall {xs : List Value}
    (h : ∀ x ∈ xs, sorted x = some x) : sortedItems xs = some xs := by
  induction xs with
  | nil => rfl
  | cons x xs ih =>
      rw [sortedItems, h x (by simp), ih fun y hy => h y (by simp [hy])]

theorem sortedFields_of_forall {fs : List (String × Value)}
    (h : ∀ f ∈ fs, sorted f.2 = some f.2) : sortedFields fs = some fs := by
  induction fs with
  | nil => rfl
  | cons f fs ih =>
      obtain ⟨k, x⟩ := f
      rw [sortedFields, h (k, x) (by simp), ih fun g hg => h g (by simp [hg])]

/-- A safe value is its own canonical form. -/
theorem sorted_of_safe {v : Value} (h : Safe v) : sorted v = some v := by
  induction v using Value.induct with
  | null => rfl
  | bool b => rfl
  | str s => rfl
  | num n =>
      cases n with
      | posInt n =>
          have hn : n ≤ maxSafeInteger := h.self
          rw [sorted, if_neg (by omega)]
      | _ => exact absurd h.self id
  | arr xs ih =>
      rw [sorted, sortedItems_of_forall fun x hx => ih x hx (h.items x hx)]
      rfl
  | obj fs ih =>
      rw [sorted, sortedFields_of_forall fun f hf => ih f hf (h.fields f hf),
        Option.map_some, object_of_sortedKeys h.self]

theorem canonicalBytes_of_safe {v : Value} (h : Safe v) :
    canonicalBytes v = some (toVec v) := by
  rw [canonicalBytes, sorted_of_safe h, Option.map_some]

section Checks

variable (K : Crates)

/-- `context_digest` -/
def contextDigest (p : Value) : Checked String := do
  let context := p["context"]
  let _ ← context.asObject?
  let b ← canonicalBytes (.object
    [("roomId", p["roomId"]),
      ("agentId", p["agentId"]),
      ("conversationId", p["conversation"]["id"]),
      ("generation", p["conversation"]["generation"]),
      ("triggerEventId", p["triggerEventId"]),
      ("guidanceRevision", p["guidanceRevision"]),
      ("context", context.remove "digest")])
  if b.length > 1048576 then none else some (K.sha256Hex b)

/-- Values with numbers out of range never reach the schema validator. -/
def schema (s : Schema) (v : Value) : Checked Unit := do
  let _ ← canonicalBytes v
  guard (s.valid K.isFormat v = true)

def timestamp (v : Value) : Checked ℤ :=
  v.asStr?.bind K.parseFromRfc3339

theorem schema_of_safe {s : Schema} {v : Value} (h : Safe v) :
    schema K s v = some () ↔ s.valid K.isFormat v = true := by
  simp [schema, canonicalBytes_of_safe h, guard]

variable {K} in
theorem valid_of_schema {s : Schema} {v : Value}
    (h : schema K s v = some ()) : s.valid K.isFormat v = true := by
  obtain ⟨_, _, h⟩ := Option.bind_eq_some_iff.mp h
  simpa [guard] using h

/-! ## Packets -/

/-- The identity and settings of a packet, and its context digest. -/
def packetAdmitted (p : Value) (a : Admission) : Checked Unit := do
  guard (p["agentId"] = .str codexId)
  guard (p["guidanceRevision"] = .str a.guidanceRevision)
  guard (p["catalogRevision"] = .str a.catalogRevision)
  let model ← p["model"].asStr?
  let efforts ← a.models.lookup model
  guard (efforts.any fun e => decide (some e = p["reasoningEffort"].asStr?))
  let digest ← contextDigest K p
  guard (p["context"]["digest"] = .str digest)

/-- The loop over the entries or the bindings.  It carries the event ids and
the sequences met so far; `last` is the sequence of the record before. -/
def packetRecords (p : Value) (rev : ℕ) :
    ℕ → List Value → List String → List ℕ → Checked (List String × List ℕ)
  | _, [], ids, seqs => some (ids, seqs)
  | last, e :: es, ids, seqs => do
      let seq ← e["sequence"].asU64?
      guard (¬(seq ≤ last ∨ seq > rev ∨ seq ∈ seqs))
      let id ← e["eventId"].asStr?
      guard (id ∉ ids)
      guard (¬((e.get? "sourceTaskId").isSome ∧
        e["generation"] ≠ p["conversation"]["generation"]))
      packetRecords p rev seq es (id :: ids) (seq :: seqs)

/-- Exactly one entry is the trigger: the last one, by the requester. -/
def packetTrigger (p : Value) (rev : ℕ) (entries : List Value) :
    Checked Unit :=
  match entries.filter fun e => e["eventId"] = p["triggerEventId"] with
  | [e] => do
      guard (e["authorId"] = p["requesterId"])
      guard (e["authorRole"] = .str "human")
      guard (e["sequence"] = .num (.posInt rev))
      let text ← e["text"].asStr?
      guard (text.toList.length ≤ 8000)
  | _ => none

/-- The loop over the active decisions.  A source event must be one of this
packet or lie in `prior`. -/
def packetDecisions (ids : List String) (prior : StringSet) :
    List Value → List (List Char) → Checked Unit
  | [], _ => some ()
  | d :: ds, decisions => do
      let id := Json.print d["decisionId"]
      guard (id ∉ decisions)
      let events ← d["sourceEventIds"].asArray?
      guard (events.all fun s => s.asStr?.any fun s =>
        decide (s ∈ ids ∨ s ∈ prior))
      packetDecisions ids prior ds (id :: decisions)

/-- The context of a packet, as far as it does not depend on the time. -/
def packetContext (p : Value) (prior : StringSet) : Checked Unit := do
  let context := p["context"]
  let base ← context["baseRevision"].asU64?
  let rev ← context["revision"].asU64?
  let entries ← context["entries"].asArray?
  let bindings ← context["nativeReplyBindings"].asArray?
  guard (entries.length + bindings.length ≤ 2000)
  guard (base < rev)
  guard (p["conversation"]["mode"] = .str "new" ↔
    context["kind"] = .str "baseline")
  guard (¬(context["kind"] = .str "baseline" ∧ (base ≠ 0 ∨ bindings ≠ [])))
  let (ids, seqs) ← packetRecords p rev base entries [] []
  let (ids, _) ← packetRecords p rev base bindings ids seqs
  packetTrigger p rev entries
  let decisions ← context["activeDecisions"].asArray?
  packetDecisions ids prior decisions []

/-- The time limits of a packet.  `now` holds the three readings of the clock
that are compared with the expiries, or nothing where they are not checked. -/
def packetTimes (p : Value) (now : Option (ℤ × ℤ × ℤ)) : Checked Unit := do
  let issued ← timestamp K p["issuedAt"]
  let expires ← timestamp K p["expiresAt"]
  let auth ← timestamp K p["authorizationExpiresAt"]
  let lease ← timestamp K p["leaseExpiresAt"]
  guard (issued < expires)
  guard (expires ≤ auth)
  guard (expires ≤ lease)
  guard (expires - issued ≤ 180 * 1000000000)
  guard (issued < lease)
  guard (now.all fun t => t.1 < expires ∧ t.2.1 < auth ∧ t.2.2 < lease)

def validatePacketWithSources (p : Value) (a : Admission)
    (now : Option (ℤ × ℤ × ℤ)) (prior : StringSet) : Checked Unit := do
  schema K Contracts.input p
  packetAdmitted K p a
  packetContext p prior
  packetTimes K p now

/-! ## Sources -/

/-- The items of an array; other values have none. -/
def items (v : Value) : List Value := v.asArray?.getD []

def eventIds (p : Value) : List String :=
  (items p["context"]["entries"] ++
    items p["context"]["nativeReplyBindings"]).filterMap fun e =>
      e["eventId"].asStr?

def decisionIds (p : Value) : List String :=
  (items p["context"]["activeDecisions"]).filterMap fun d =>
    d["decisionId"].asStr?

def sources (p : Value) : StringSet :=
  StringSet.ofList (eventIds p ++ decisionIds p)

/-! ## Results -/

def resultMatches (r p : Value) : Checked Unit := do
  guard (r["conversationId"] = p["conversation"]["id"])
  guard (r["generation"] = p["conversation"]["generation"])
  guard (r["consumedRevision"] = p["context"]["revision"])
  guard (r["contextDigest"] = p["context"]["digest"])
  let text ← r["assistantText"].asStr?
  guard (text.utf8ByteSize ≤ 65536)

def citationsKnown (r : Value) (known : StringSet) : Checked Unit := do
  let citations ← r["citations"].asArray?
  guard (citations.all fun c => c.asStr?.any fun s => decide (s ∈ known))

/-- Settings that are not the packet's own must be admitted ones. -/
def settingsAllowed (settings p : Value) : Option Admission → Checked Unit
  | some admission =>
      match settings["model"].asStr? with
      | some model => do
          let efforts ← admission.models.lookup model
          guard (settings["reasoningEffort"].asStr?.all fun e => e ∈ efforts)
      | none => guard (settings["reasoningEffort"].isNull = true)
  | none => do
      guard (settings["model"].isNull = true ∨
        settings["model"] = p["model"])
      guard (settings["reasoningEffort"].isNull = true ∨
        settings["reasoningEffort"] = p["reasoningEffort"])

def resultSettings (r p : Value) (admission : Option Admission) :
    Checked Unit := do
  let settings := r["effectiveSettings"]
  if settings.isNull then some ()
  else do
    guard (¬(settings["confirmation"] = .str "confirmed" ∧
      (settings["model"].isNull = true ∨
        settings["reasoningEffort"].isNull = true)))
    settingsAllowed settings p admission
    guard (settings["reroutedModel"].asStr?.all fun s =>
      s.toList.length ≤ 128)

def reportedModel (settings p : Value) : Value :=
  if settings["reroutedModel"].isNull = false then settings["reroutedModel"]
  else if settings["model"].isNull = false then settings["model"]
  else p["model"]

def resultUsage (r p : Value) : Checked Unit := do
  let usage := r["usage"]
  if usage.isNull then some ()
  else do
    guard (usage["model"] = reportedModel r["effectiveSettings"] p)
    guard (¬(usage["freshness"] ≠ .str "unavailable" ∧
      usage["modelContextWindow"].isNull = true))
    let reported ← timestamp K usage["reportedAt"]
    let issued ← timestamp K p["issuedAt"]
    let expires ← timestamp K p["expiresAt"]
    guard (issued ≤ reported ∧ reported ≤ expires)

def validateResultPolicy (r p : Value) (prior : StringSet)
    (admission : Option Admission) : Checked Unit := do
  schema K Contracts.result r
  resultMatches r p
  citationsKnown r ((sources p).union prior)
  resultSettings r p admission
  resultUsage K r p

def validateResultWithAdmission (r p : Value) (prior : StringSet)
    (admission : Admission) : Checked Unit :=
  validateResultPolicy K r p prior (some admission)

end Checks

/-! ## Accepted packets -/

/-- What the checks have read of an accepted context, in their order. -/
structure ContextChecked (p : Value) (prior : StringSet) (base rev : ℕ)
    (entries bindings decisions : List Value) (ids ids' : List String)
    (seqs seqs' : List ℕ) : Prop where
  baseRevision : p["context"]["baseRevision"] = .num (.posInt base)
  revision : p["context"]["revision"] = .num (.posInt rev)
  entries_eq : p["context"]["entries"] = .arr entries
  bindings_eq : p["context"]["nativeReplyBindings"] = .arr bindings
  count : entries.length + bindings.length ≤ 2000
  mode : p["conversation"]["mode"] = .str "new" ↔
    p["context"]["kind"] = .str "baseline"
  baseline : ¬(p["context"]["kind"] = .str "baseline" ∧
    (base ≠ 0 ∨ bindings ≠ []))
  first : packetRecords p rev base entries [] [] = some (ids, seqs)
  second : packetRecords p rev base bindings ids seqs = some (ids', seqs')
  trigger : packetTrigger p rev entries = some ()
  decisions_eq : p["context"]["activeDecisions"] = .arr decisions
  sources : packetDecisions ids' prior decisions [] = some ()

theorem checked_of_packetContext {p : Value} {prior : StringSet}
    (h : packetContext p prior = some ()) :
    ∃ base rev entries bindings decisions ids ids' seqs seqs',
      ContextChecked p prior base rev entries bindings decisions ids ids' seqs
        seqs' := by
  obtain ⟨base, hbase, h⟩ := Option.bind_eq_some_iff.mp h
  obtain ⟨rev, hrev, h⟩ := Option.bind_eq_some_iff.mp h
  obtain ⟨entries, hentries, h⟩ := Option.bind_eq_some_iff.mp h
  obtain ⟨bindings, hbindings, h⟩ := Option.bind_eq_some_iff.mp h
  obtain ⟨⟨⟩, hcount, h⟩ := Option.bind_eq_some_iff.mp h
  obtain ⟨⟨⟩, _, h⟩ := Option.bind_eq_some_iff.mp h
  obtain ⟨⟨⟩, hmode, h⟩ := Option.bind_eq_some_iff.mp h
  obtain ⟨⟨⟩, hbaseline, h⟩ := Option.bind_eq_some_iff.mp h
  obtain ⟨⟨ids, seqs⟩, hfirst, h⟩ := Option.bind_eq_some_iff.mp h
  obtain ⟨⟨ids', seqs'⟩, hsecond, h⟩ := Option.bind_eq_some_iff.mp h
  obtain ⟨⟨⟩, htrigger, h⟩ := Option.bind_eq_some_iff.mp h
  obtain ⟨decisions, hdecisions, hsources⟩ := Option.bind_eq_some_iff.mp h
  refine ⟨base, rev, entries, bindings, decisions, ids, ids', seqs, seqs', ?_⟩
  constructor
  · exact Value.asU64?_eq_some.mp hbase
  · exact Value.asU64?_eq_some.mp hrev
  · exact Value.asArray?_eq_some.mp hentries
  · exact Value.asArray?_eq_some.mp hbindings
  · exact guard_eq_some.mp hcount
  · exact guard_eq_some.mp hmode
  · exact guard_eq_some.mp hbaseline
  · exact hfirst
  · exact hsecond
  · exact htrigger
  · exact Value.asArray?_eq_some.mp hdecisions
  · exact hsources

/-- The groups of checks that an accepted packet has passed. -/
structure PacketChecked (K : Crates) (p : Value) (a : Admission)
    (now : Option (ℤ × ℤ × ℤ)) (prior : StringSet) : Prop where
  schema : schema K Contracts.input p = some ()
  admitted : packetAdmitted K p a = some ()
  context : packetContext p prior = some ()
  times : packetTimes K p now = some ()

theorem checked_of_validate {K : Crates} {p : Value} {a : Admission}
    {now : Option (ℤ × ℤ × ℤ)} {prior : StringSet}
    (h : validatePacketWithSources K p a now prior = some ()) :
    PacketChecked K p a now prior := by
  obtain ⟨⟨⟩, hschema, h⟩ := Option.bind_eq_some_iff.mp h
  obtain ⟨⟨⟩, hadmitted, h⟩ := Option.bind_eq_some_iff.mp h
  obtain ⟨⟨⟩, hcontext, htimes⟩ := Option.bind_eq_some_iff.mp h
  exact ⟨hschema, hadmitted, hcontext, htimes⟩

end AgentGateway
