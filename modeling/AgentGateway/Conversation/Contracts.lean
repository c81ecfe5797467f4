import AgentGateway.Library.Json.Schema

/-!
# The agent-conversation contracts

The five schemas of `contracts/agent-conversation-v1/schemas` that the mediator
compiles in, after expansion of their references into `turn.schema.json`.
-/

namespace AgentGateway

open Json (Value Schema)

def profile : String := "thought-khoral.agent-conversation.v1"

/-- The codes of `failure` in the turn schema, which are also those of
`safe_failure_code`. -/
def failureCodes : List String :=
  ["invalid_task_input", "forbidden", "conversation_busy",
    "conversation_stale", "context_mismatch", "context_too_large",
    "runtime_unavailable", "authentication_required", "session_unavailable",
    "timeout", "conversation_interrupted", "execution_failed",
    "duplicate_conflict"]

namespace Contracts

/-! ## Shared definitions -/

def uuidPattern : Json.Pattern :=
  List.replicate 8 .lowerHex ++ .char '-' :: List.replicate 4 .lowerHex ++
    .char '-' :: List.replicate 4 .lowerHex ++
    .char '-' :: List.replicate 4 .lowerHex ++
    .char '-' :: List.replicate 12 .lowerHex

def uuid : Schema := .string 1 none (some .uuid) (some uuidPattern)

def digest : Schema :=
  .string 64 (some 64) none (some (List.replicate 64 .lowerHex))

def dateTime : Schema := .string 1 none (some .dateTime) none

def positiveInteger : Schema := .integer 1 9007199254740991

def safeInteger : Schema := .integer 0 9007199254740991

/-- A string whose length lies between the bounds. -/
def text (minLength : ℕ) (maxLength : Option ℕ) : Schema :=
  .string minLength maxLength none none

def nullable (s : Schema) : Schema := .anyOf [s, .null]

def const (s : String) : Schema := .const (.str s)

def enum (ss : List String) : Schema := .enum (ss.map .str)

def effectiveSettings : Schema :=
  .object
    [("model", nullable (text 1 (some 128))),
      ("reasoningEffort", nullable (text 1 (some 128))),
      ("confirmation", enum ["confirmed", "unconfirmed"]),
      ("reroutedModel", nullable (text 1 none))]
    ["model", "reasoningEffort", "confirmation", "reroutedModel"] []

def usage : Schema :=
  .object
    [("lastTotalTokens", safeInteger),
      ("modelContextWindow", nullable positiveInteger),
      ("reportedAt", dateTime),
      ("model", nullable (text 1 none)),
      ("freshness", enum ["fresh", "stale", "unavailable"])]
    ["lastTotalTokens", "modelContextWindow", "reportedAt", "model",
      "freshness"] []

/-! ## The five contracts -/

/-- `result.schema.json`, which is also `reply` of the turn schema. -/
def result : Schema :=
  .object
    [("kind", const "conversation-reply.v1"),
      ("conversationId", uuid),
      ("generation", positiveInteger),
      ("assistantText", text 1 (some 65536)),
      ("consumedRevision", positiveInteger),
      ("contextDigest", digest),
      ("citations", .array uuid 0 (some 100) true),
      ("effectiveSettings", nullable effectiveSettings),
      ("usage", nullable usage)]
    ["kind", "conversationId", "generation", "assistantText",
      "consumedRevision", "contextDigest", "citations", "effectiveSettings",
      "usage"] []

/-- `ack.schema.json` -/
def ack : Schema :=
  .object
    [("profileVersion", const profile),
      ("taskId", uuid),
      ("conversationId", uuid),
      ("generation", positiveInteger),
      ("replyEventId", uuid),
      ("replySequence", positiveInteger),
      ("textDigest", digest),
      ("consumedRevision", positiveInteger),
      ("contextDigest", digest)]
    ["profileVersion", "taskId", "conversationId", "generation",
      "replyEventId", "replySequence", "textDigest", "consumedRevision",
      "contextDigest"] []

/-- `catalog.schema.json` -/
def catalog : Schema :=
  .object
    [("profileVersion", const profile),
      ("catalogRevision", text 1 (some 128)),
      ("data", .array
        (.object
          [("id", text 1 (some 128)),
            ("displayName", text 1 (some 128)),
            ("defaultReasoningEffort", nullable (text 1 (some 128))),
            ("supportedReasoningEfforts", .array
              (.object
                [("id", text 1 (some 128)), ("description", text 1 (some 512))]
                ["id", "description"] [])
              0 none false)]
          ["id", "displayName", "defaultReasoningEffort",
            "supportedReasoningEfforts"] [])
        0 (some 100) false),
      ("nextCursor", nullable (text 1 (some 256)))]
    ["profileVersion", "catalogRevision", "data", "nextCursor"] []

def progressData : Schema :=
  .object
    [("phase", enum ["accepted", "working", "finalizing"]),
      ("text", text 1 (some 512))]
    ["phase", "text"] []

def failedData : Schema :=
  .object [("code", enum failureCodes)] ["code"] []

/-- One branch of `oneOf` in the update schema. -/
def updateCase (kind : String) (data : Schema) : Schema :=
  .properties [("kind", const kind), ("data", data)]

/-- `update.schema.json` -/
def update : Schema :=
  .allOf
    [.object
      [("profileVersion", const profile),
        ("updateId", uuid),
        ("ordinal", positiveInteger),
        ("taskId", uuid),
        ("generation", positiveInteger),
        ("contextDigest", digest),
        ("kind",
          enum ["progress", "settings", "usage", "completed", "failed"]),
        ("data", .any)]
      ["profileVersion", "updateId", "ordinal", "taskId", "generation",
        "contextDigest", "kind", "data"] [],
      .oneOf
        [updateCase "progress" progressData,
          updateCase "settings" effectiveSettings,
          updateCase "usage" usage,
          updateCase "completed" result,
          updateCase "failed" failedData]]

/-! ## The task packet -/

def entry : Schema :=
  .object
    [("eventId", uuid),
      ("sequence", positiveInteger),
      ("authorId", uuid),
      ("authorRole", enum ["human", "agent"]),
      ("occurredAt", dateTime),
      ("text", text 1 none),
      ("displayName", text 1 (some 128))]
    ["eventId", "sequence", "authorId", "authorRole", "occurredAt", "text"] []

def activeDecision : Schema :=
  .object
    [("decisionId", uuid),
      ("title", text 1 none),
      ("summary", text 0 none),
      ("sourceEventIds", .array uuid 0 none true)]
    ["decisionId", "title", "summary", "sourceEventIds"] []

def nativeReplyBinding : Schema :=
  .object
    [("eventId", uuid),
      ("sequence", positiveInteger),
      ("sourceTaskId", uuid),
      ("generation", positiveInteger),
      ("textDigest", digest)]
    ["eventId", "sequence", "sourceTaskId", "generation", "textDigest"] []

def context : Schema :=
  .object
    [("kind", enum ["baseline", "delta"]),
      ("baseRevision", safeInteger),
      ("revision", positiveInteger),
      ("policyRevision", text 1 (some 128)),
      ("entries", .array entry 1 (some 2000) false),
      ("activeDecisions", .array activeDecision 0 none false),
      ("nativeReplyBindings", .array nativeReplyBinding 0 (some 2000) false),
      ("digest", digest)]
    ["kind", "baseRevision", "revision", "policyRevision", "entries",
      "activeDecisions", "nativeReplyBindings", "digest"] []

def conversation : Schema :=
  .object
    [("id", uuid),
      ("generation", positiveInteger),
      ("mode", enum ["new", "continue"])]
    ["id", "generation", "mode"] []

/-- `input.schema.json` -/
def input : Schema :=
  .object
    [("profileVersion", const profile),
      ("taskId", uuid),
      ("roomId", uuid),
      ("requesterId", uuid),
      ("agentId", uuid),
      ("skillId", const "chat"),
      ("conversation", conversation),
      ("triggerEventId", uuid),
      ("context", context),
      ("guidanceRevision", text 1 (some 128)),
      ("issuedAt", dateTime),
      ("expiresAt", dateTime),
      ("authorizationExpiresAt", dateTime),
      ("leaseOwner", text 1 (some 128)),
      ("leaseExpiresAt", dateTime),
      ("model", text 1 (some 128)),
      ("reasoningEffort", text 1 (some 128)),
      ("catalogRevision", text 1 (some 128))]
    ["profileVersion", "taskId", "roomId", "requesterId", "agentId",
      "skillId", "conversation", "triggerEventId", "context",
      "guidanceRevision", "issuedAt", "expiresAt", "authorizationExpiresAt",
      "leaseOwner", "leaseExpiresAt"]
    [("model", ["reasoningEffort", "catalogRevision"]),
      ("reasoningEffort", ["model", "catalogRevision"]),
      ("catalogRevision", ["model", "reasoningEffort"])]

/-! ## Depths -/

theorem depthBound_result : result.depthBound = some 2 := by rfl

theorem depthBound_ack : ack.depthBound = some 1 := by rfl

end Contracts

end AgentGateway
