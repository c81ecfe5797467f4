import AgentGateway.Conversation.Decoding
import AgentGateway.Library.Split
import Mathlib.Data.Prod.Lex
import Mathlib.Data.Rat.Defs

/-!
# Room context packets

The packet of a room task, its canonical text, and the checks that
`verify_packet_at` makes before anything is done with it.
-/

namespace AgentGateway.Task

open Json (Value)
open Utf8 (Bytes)

/-! ## Packets -/

abbrev Uuid := BitVec 128

/-- An instant by its seconds and nanoseconds, in this order. -/
abbrev DateTime := ℤ ×ₗ ℕ

/-- The functions of other crates that the task side calls. -/
structure Formats where
  /-- The lower-case hexadecimal SHA-256 digest. -/
  sha256Hex : Bytes → String
  /-- `Uuid::parse_str` -/
  parseUuid : String → Option Uuid
  /-- The hyphenated form in which identifiers are printed. -/
  showUuid : Uuid → String
  /-- `Uuid::new_v5` in the namespace of updates. -/
  uuidV5 : String → Uuid
  /-- `DateTime::parse_from_rfc3339`, turned to UTC. -/
  parseTime : String → Option DateTime
  /-- How instants are serialized. -/
  showTime : DateTime → String
  /-- The value of a number as a double. -/
  asF64 : Json.Number → ℚ
  /-- `checked_add_signed` of some milliseconds. -/
  addMilliseconds : DateTime → ℕ → Option DateTime

structure ActiveDecision where
  decisionId : Uuid
  title : String
  summary : String
  sourceEventIds : List Uuid
deriving DecidableEq

/-- A context packet.  Its revision is an `i64`, and no vector of the source
is longer than `isize::MAX`. -/
@[ext]
structure RoomContextPacket where
  taskId : Uuid
  roomId : Uuid
  requesterId : Uuid
  agentId : Uuid
  skillId : String
  contextRevision : ℤ
  issuedAt : DateTime
  expiresAt : DateTime
  input : String
  events : List Value
  activeDecisions : List ActiveDecision
  canonicalSha256 : String
  revision_range : -2 ^ 63 ≤ contextRevision ∧ contextRevision < 2 ^ 63
  events_length : events.length < 2 ^ 63
  decisions_length : activeDecisions.length < 2 ^ 63

def referenceAgentId : Uuid := 0x74686f756768746b686f72616c000003

inductive PacketError where
  | unknownAgentOrSkill
  | invalidTimeRange
  | expired
  | hashMismatch
  | invalidEventIds
  | missingInvocation
  | invocationMismatch
deriving DecidableEq

/-! ## The canonical text -/

/-- An `i64` as JSON. -/
def integer (n : ℤ) : Value :=
  if 0 ≤ n then .num (.posInt n.toNat) else .num (.negInt n.natAbs)

variable (F : Formats)

def uuid (u : Uuid) : Value := .str (F.showUuid u)

/-- A serialized decision; the fields stand in the order of declaration. -/
def ActiveDecision.canonical (d : ActiveDecision) : Value :=
  .obj [("decisionId", uuid F d.decisionId), ("title", .str d.title),
    ("summary", .str d.summary),
    ("sourceEventIds", .arr (d.sourceEventIds.map (uuid F)))]

/-- `CanonicalPacket` -/
def canonicalPacket (p : RoomContextPacket) : Value :=
  .obj [("taskId", uuid F p.taskId), ("roomId", uuid F p.roomId),
    ("requesterId", uuid F p.requesterId), ("agentId", uuid F p.agentId),
    ("skillId", .str p.skillId), ("contextRevision", integer p.contextRevision),
    ("issuedAt", .str (F.showTime p.issuedAt)),
    ("expiresAt", .str (F.showTime p.expiresAt)), ("input", .str p.input),
    ("events", .arr p.events),
    ("activeDecisions", .arr (p.activeDecisions.map (·.canonical F)))]

def canonicalPacketSha256 (p : RoomContextPacket) : String :=
  F.sha256Hex (toVec (canonicalPacket F p))

/-! ## Verification -/

def eventId (e : Value) : Option String := (e.get? "eventId").bind Value.asStr?

/-- The loop over the events: every identifier parses and none comes twice. -/
def uniqueEventIds (ids : List Uuid) : List Value → Bool
  | [] => true
  | e :: es =>
      match (eventId e).bind F.parseUuid with
      | none => false
      | some id => if id ∈ ids then false else uniqueEventIds (id :: ids) es

def isInvocation (p : RoomContextPacket) (e : Value) : Bool :=
  (e.get? "eventType").bind Value.asStr? = some "agent.task.requested" &&
    (((e.get? "payload").bind (·.get? "taskId")).bind Value.asStr?).bind
      F.parseUuid = some p.taskId

def invocationEvent (p : RoomContextPacket) : Option Value :=
  p.events.find? (isInvocation F p)

/-- The invocation states the authorized input of the packet. -/
def InvocationMatches (p : RoomContextPacket) (e : Value) : Prop :=
  Split.trim p.input.toList ≠ [] ∧ p.input.toList.length ≤ 8000 ∧
    e["roomId"] = uuid F p.roomId ∧ e["actor"]["role"] = .str "human" ∧
    e["actor"]["id"] = uuid F p.requesterId ∧
    e["payload"]["agentId"] = uuid F p.agentId ∧
    e["payload"]["requesterId"] = uuid F p.requesterId ∧
    e["payload"]["skillId"] = .str p.skillId ∧
    e["payload"]["contextRevision"] = integer p.contextRevision

instance (p : RoomContextPacket) (e : Value) :
    Decidable (InvocationMatches F p e) := by
  unfold InvocationMatches
  infer_instance

def skills : List String := ["summarize-context", "extract-action-items"]

def verifyPacketAt (p : RoomContextPacket) (now : DateTime) :
    Except PacketError Unit :=
  if p.agentId ≠ referenceAgentId ∨ p.skillId ∉ skills ∨
      p.contextRevision < 0 then .error .unknownAgentOrSkill
  else if p.expiresAt < p.issuedAt then .error .invalidTimeRange
  else if p.expiresAt ≤ now then .error .expired
  else if canonicalPacketSha256 F p ≠ p.canonicalSha256 then
    .error .hashMismatch
  else if uniqueEventIds F [] p.events = false then .error .invalidEventIds
  else match invocationEvent F p with
    | none => .error .missingInvocation
    | some e =>
        if InvocationMatches F p e then .ok () else .error .invocationMismatch

/-! ## Verified packets -/

variable {F}

theorem uniqueEventIds_iff {ids : List Uuid} {es : List Value} :
    uniqueEventIds F ids es = true ↔ ∃ js : List Uuid,
      es.map (fun e => (eventId e).bind F.parseUuid) = js.map some ∧
        js.Nodup ∧ ∀ j ∈ js, j ∉ ids := by
  induction es generalizing ids with
  | nil =>
      simp only [uniqueEventIds, List.map_nil, true_iff]
      exact ⟨[], rfl, List.nodup_nil, by simp⟩
  | cons e es ih =>
      rw [uniqueEventIds]
      split
      next hnone =>
        simp only [Bool.false_eq_true, false_iff]
        rintro ⟨js, hjs, _⟩
        cases js with
        | nil => cases hjs
        | cons j js =>
            rw [List.map_cons, List.map_cons, List.cons.injEq, hnone] at hjs
            cases hjs.1
      next id hid =>
        split_ifs with hmem
        · rw [false_iff]
          rintro ⟨js, hjs, _, hfresh⟩
          cases js with
          | nil => cases hjs
          | cons j js =>
              rw [List.map_cons, List.map_cons, List.cons.injEq, hid,
                Option.some.injEq] at hjs
              exact hfresh j (by simp) (hjs.1 ▸ hmem)
        · rw [ih]
          constructor
          · rintro ⟨js, hjs, hnodup, hfresh⟩
            refine ⟨id :: js, by simp [hid, hjs], ?_, ?_⟩
            · refine List.nodup_cons.mpr ⟨fun hin => ?_, hnodup⟩
              exact hfresh id hin (by simp)
            · intro j hj
              rcases List.mem_cons.mp hj with rfl | hj
              · exact hmem
              · exact fun hin => hfresh j hj (by simp [hin])
          · rintro ⟨js, hjs, hnodup, hfresh⟩
            cases js with
            | nil => cases hjs
            | cons j js =>
                rw [List.map_cons, List.map_cons, List.cons.injEq, hid,
                  Option.some.injEq] at hjs
                obtain ⟨rfl, hjs⟩ := hjs
                rw [List.nodup_cons] at hnodup
                refine ⟨js, hjs, hnodup.2, fun i hi => ?_⟩
                rw [List.mem_cons, not_or]
                refine ⟨?_, hfresh i (by simp [hi])⟩
                rintro rfl
                exact hnodup.1 hi

variable (F)

/-- What a packet that passes verification satisfies. -/
structure Verified (p : RoomContextPacket) (now : DateTime) : Prop where
  agent : p.agentId = referenceAgentId
  skill : p.skillId ∈ skills
  revision : 0 ≤ p.contextRevision
  times : p.issuedAt ≤ p.expiresAt
  fresh : now < p.expiresAt
  hash : canonicalPacketSha256 F p = p.canonicalSha256
  ids : uniqueEventIds F [] p.events = true
  invocation : ∃ e, invocationEvent F p = some e ∧ InvocationMatches F p e

variable {F}

theorem verifyPacketAt_eq_ok {p : RoomContextPacket} {now : DateTime} :
    verifyPacketAt F p now = .ok () ↔ Verified F p now := by
  constructor
  · intro h
    unfold verifyPacketAt at h
    split_ifs at h with hagent htimes hexpired hhash hids
    simp only [not_or, not_not, not_lt, not_le, Bool.not_eq_false]
      at hagent htimes hexpired hhash hids
    obtain ⟨ha, hs, hr⟩ := hagent
    cases he : invocationEvent F p with
    | none => simp [he] at h
    | some e =>
        by_cases hmatch : InvocationMatches F p e
        · exact ⟨ha, hs, hr, htimes, hexpired, hhash, hids, e, he, hmatch⟩
        · simp [he, hmatch] at h
  · intro h
    obtain ⟨e, he, hmatch⟩ := h.invocation
    have hagent : ¬(p.agentId ≠ referenceAgentId ∨ p.skillId ∉ skills ∨
        p.contextRevision < 0) := by
      have hrevision := h.revision
      simp only [not_or, not_not, not_lt]
      exact ⟨h.agent, h.skill, hrevision⟩
    rw [verifyPacketAt, if_neg hagent, if_neg (not_lt.mpr h.times),
      if_neg (not_le.mpr h.fresh), if_neg (not_not.mpr h.hash),
      if_neg (by simp [h.ids]), he]
    exact if_pos hmatch

theorem isOk_verifyPacketAt {p : RoomContextPacket} {now : DateTime} :
    (verifyPacketAt F p now).isOk = true ↔ Verified F p now := by
  rw [← verifyPacketAt_eq_ok]
  cases verifyPacketAt F p now with
  | ok x => simp [Except.isOk, Except.toBool]
  | error e => simp [Except.isOk, Except.toBool]

/-- A verified packet stays verified until it expires. -/
theorem Verified.later {p : RoomContextPacket} {now now' : DateTime}
    (h : Verified F p now) (hfresh : now' < p.expiresAt) :
    Verified F p now' :=
  ⟨h.agent, h.skill, h.revision, h.times, hfresh, h.hash, h.ids,
    h.invocation⟩

end AgentGateway.Task
