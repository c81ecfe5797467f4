import AgentGateway.Conversation.Contracts
import AgentGateway.Task.ActionItems
import AgentGateway.Task.Packet

/-!
# Deterministic results

The one result that a verified packet has, and the schema under which results
are published.
-/

namespace AgentGateway.Task

open Json (Value Schema)

/-! ## The results of the two skills -/

/-- `titles` of `summary_result` -/
def summaryTitles (decisions : List ActiveDecision) : String :=
  if decisions = [] then "none"
  else if 20 < decisions.length ∨
      7000 < (decisions.map fun d => d.title.toList.length + 2).sum then
    toString decisions.length ++
      " active decisions (titles omitted to keep the result bounded)"
  else String.intercalate "; " (decisions.map (·.title))

def messageCount (events : List Value) : ℕ :=
  events.countP fun e =>
    decide ((e.get? "eventType").bind Value.asStr? = some "message.created")

variable (F : Formats)

def summaryText (p : RoomContextPacket) : String :=
  "Room " ++ F.showUuid p.roomId ++ " revision " ++
    toString p.contextRevision ++ " has " ++ toString (messageCount p.events) ++
    " messages and active decisions: " ++ summaryTitles p.activeDecisions ++ "."

def summaryCitations (p : RoomContextPacket) : List String :=
  (p.events.filterMap eventId).take 100

def summaryValue (summary : String) (citations : List String) : Value :=
  .object [("kind", .str "context-summary.v1"), ("summary", .str summary),
    ("citations", .arr (citations.map .str))]

def summaryResult (p : RoomContextPacket) : Value :=
  summaryValue (summaryText F p) (summaryCitations p)

def actionItemsValue (items : List ActionItem) (citation : String) : Value :=
  .object [("kind", .str "action-items.v1"),
    ("actionItems", .arr (items.map ActionItem.value)),
    ("citations", .arr [.str citation])]

def actionItemsResult (p : RoomContextPacket) : Except PacketError Value :=
  match invocationEvent F p with
  | none => .error .missingInvocation
  | some e =>
      match eventId e with
      | none => .error .missingInvocation
      | some id => .ok (actionItemsValue (actionItems p.input) id)

/-- The sole terminal result that is allowed for a packet. -/
def expectedResult (p : RoomContextPacket) (now : DateTime) :
    Except PacketError Value :=
  match verifyPacketAt F p now with
  | .error e => .error e
  | .ok () =>
      if p.skillId = "summarize-context" then .ok (summaryResult F p)
      else if p.skillId = "extract-action-items" then actionItemsResult F p
      else .error .unknownAgentOrSkill

variable {F}

theorem expectedResult_summary {p : RoomContextPacket} {now : DateTime}
    (h : Verified F p now) (hskill : p.skillId = "summarize-context") :
    expectedResult F p now = .ok (summaryResult F p) := by
  rw [expectedResult, verifyPacketAt_eq_ok.mpr h]
  exact if_pos hskill

theorem mem_of_invocationEvent {p : RoomContextPacket} {e : Value}
    (h : invocationEvent F p = some e) : e ∈ p.events :=
  List.mem_of_find?_eq_some h

theorem eventIds_of_verified {p : RoomContextPacket} {now : DateTime}
    (h : Verified F p now) : ∃ js : List Uuid,
      p.events.map (fun e => (eventId e).bind F.parseUuid) = js.map some ∧
        js.Nodup := by
  obtain ⟨js, hjs, hnodup, _⟩ := uniqueEventIds_iff.mp h.ids
  exact ⟨js, hjs, hnodup⟩

theorem exists_eventId {p : RoomContextPacket} {now : DateTime}
    (h : Verified F p now) {e : Value} (he : e ∈ p.events) :
    ∃ s, eventId e = some s := by
  obtain ⟨js, hjs, _⟩ := eventIds_of_verified h
  have hmem : (eventId e).bind F.parseUuid ∈ js.map some :=
    hjs ▸ List.mem_map_of_mem he
  obtain ⟨j, _, hj⟩ := List.mem_map.mp hmem
  obtain ⟨s, hs, _⟩ := Option.bind_eq_some_iff.mp hj.symm
  exact ⟨s, hs⟩

theorem expectedResult_actions {p : RoomContextPacket} {now : DateTime}
    (h : Verified F p now) (hskill : p.skillId = "extract-action-items") :
    ∃ e id, invocationEvent F p = some e ∧ eventId e = some id ∧
      expectedResult F p now =
        .ok (actionItemsValue (actionItems p.input) id) := by
  obtain ⟨e, he, _⟩ := h.invocation
  obtain ⟨id, hid⟩ := exists_eventId h (mem_of_invocationEvent he)
  have hother : p.skillId ≠ "summarize-context" := by
    rw [hskill]
    decide
  refine ⟨e, id, he, hid, ?_⟩
  rw [expectedResult, verifyPacketAt_eq_ok.mpr h]
  simp only [if_neg hother, if_pos hskill, actionItemsResult, he, hid]

/-- A verified packet has a result, whatever else it holds. -/
theorem exists_expectedResult {p : RoomContextPacket} {now : DateTime}
    (h : Verified F p now) : ∃ v, expectedResult F p now = .ok v := by
  have hskill : p.skillId = "summarize-context" ∨
      p.skillId = "extract-action-items" := by
    simpa [skills] using h.skill
  rcases hskill with hskill | hskill
  · exact ⟨_, expectedResult_summary h hskill⟩
  · obtain ⟨e, id, _, _, hresult⟩ := expectedResult_actions h hskill
    exact ⟨_, hresult⟩

/-- The result does not depend on the time at which it is asked for. -/
theorem expectedResult_eq {p : RoomContextPacket} {now now' : DateTime}
    (h : Verified F p now) (h' : Verified F p now') :
    expectedResult F p now = expectedResult F p now' := by
  rw [expectedResult, expectedResult, verifyPacketAt_eq_ok.mpr h,
    verifyPacketAt_eq_ok.mpr h']

/-! ## The published schema -/

namespace Contracts

open AgentGateway.Contracts (text const)

/-- `citationIds` of `room-event.schema.json` -/
def citationIds : Schema :=
  .array (.string 0 none (some .uuid) none) 0 (some 100) true

def actionItem : Schema :=
  .object
    [("text", text 1 (some 2000)), ("owner", text 1 (some 256)),
      ("due", text 1 (some 256))]
    ["text"] []

def contextSummary : Schema :=
  .object
    [("kind", const "context-summary.v1"), ("summary", text 1 (some 8000)),
      ("citations", citationIds)]
    ["kind", "summary", "citations"] []

def actionItems : Schema :=
  .object
    [("kind", const "action-items.v1"),
      ("actionItems", .array actionItem 0 (some 20) false),
      ("citations", citationIds)]
    ["kind", "actionItems", "citations"] []

def externalTaskResult : Schema := .oneOf [contextSummary, actionItems]

def isHex (a : Char) : Bool :=
  ('0' ≤ a && a ≤ '9') || ('a' ≤ a && a ≤ 'f') || ('A' ≤ a && a ≤ 'F')

/-- The hyphenated text of an identifier: 8-4-4-4-12 hexadecimal digits. -/
def hyphenated (s : String) : Bool :=
  decide (s.toList.length = 36) &&
    s.toList.zipIdx.all fun a =>
      if a.2 ∈ [8, 13, 18, 23] then a.1 = '-' else isHex a.1

/-- The formats of the schema; it has no date and no URI. -/
def isFormat : Json.Format → String → Bool
  | .uuid, s => hyphenated s
  | .dateTime, _ => true
  | .uri, _ => true

end Contracts

end AgentGateway.Task
