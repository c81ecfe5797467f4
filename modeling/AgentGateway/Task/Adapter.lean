import AgentGateway.Conversation.Pinning
import AgentGateway.Task.Events

/-!
# The A2A adapter

The stream that the reference agent produces for a packet, and the admission of
the responses that come back, one by one and all at once.
-/

namespace AgentGateway.Task

open Json (Value)

/-! ## A2A messages -/

inductive TaskState where
  | submitted
  | working
  | completed
  | other (name : String)
deriving DecidableEq

inductive Role where
  | user
  | agent
  | other (name : String)
deriving DecidableEq

inductive PartContent where
  | text (text : String)
  | data (data : Value)
  | other (content : Value)

structure Part where
  content : PartContent
  filename : Option String
  mediaType : Option String
  metadata : Option Value

structure Message where
  messageId : String
  contextId : Option String
  taskId : Option String
  role : Role
  parts : List Part
  metadata : Option Value
  extensions : Option (List String)
  referenceTaskIds : Option (List String)

structure TaskStatus where
  state : TaskState
  message : Option Message
  timestamp : Option DateTime

structure Artifact where
  artifactId : String
  name : Option String
  description : Option String
  parts : List Part
  metadata : Option Value
  extensions : Option (List String)

structure A2aTask where
  id : String
  contextId : String
  status : TaskStatus
  artifacts : Option (List Artifact)
  history : Option (List Message)
  metadata : Option Value

structure TaskStatusUpdateEvent where
  taskId : String
  contextId : String
  status : TaskStatus
  metadata : Option Value

inductive StreamResponse where
  | task (task : A2aTask)
  | statusUpdate (update : TaskStatusUpdateEvent)
  | other (response : Value)

variable (F : Formats)

/-! ## The stream of the reference agent -/

def contextId (p : RoomContextPacket) : String :=
  F.showUuid p.roomId ++ ":" ++ toString p.contextRevision

def plainPart (content : PartContent) : Part := ⟨content, none, none, none⟩

def workingUpdate (p : RoomContextPacket) (text : String) : StreamResponse :=
  .statusUpdate
    { taskId := F.showUuid p.taskId
      contextId := contextId F p
      status :=
        { state := .working
          message := some
            { messageId := F.showUuid p.taskId ++ ":" ++ text
              contextId := some (contextId F p)
              taskId := some (F.showUuid p.taskId)
              role := .agent
              parts := [plainPart (.text text)]
              metadata := none
              extensions := none
              referenceTaskIds := none }
          timestamp := none }
      metadata := none }

def taskResponse (p : RoomContextPacket) (state : TaskState)
    (artifacts : Option (List Artifact)) : StreamResponse :=
  .task
    { id := F.showUuid p.taskId
      contextId := contextId F p
      status := ⟨state, none, none⟩
      artifacts := artifacts
      history := none
      metadata := none }

/-- The artifact for some data. -/
def artifactWith (p : RoomContextPacket) (data : Value) : Artifact where
  artifactId := F.showUuid p.taskId ++ ":result"
  name := some "governed-room-result"
  description :=
    some "Deterministic result bound to the authorized context packet."
  parts := [plainPart (.data data)]
  metadata := none
  extensions := none

def artifact (p : RoomContextPacket) (binding result : Value) : Artifact :=
  artifactWith F p (.object [("packet", binding), ("result", result)])

def bindingValue (p : RoomContextPacket) : Value :=
  .object [("taskId", uuid F p.taskId), ("roomId", uuid F p.roomId),
    ("contextRevision", integer p.contextRevision),
    ("canonicalSha256", .str p.canonicalSha256)]

/-- The four responses of the agent, with a given binding. -/
def responses (p : RoomContextPacket) (binding result : Value) :
    List StreamResponse :=
  [taskResponse F p .submitted none, workingUpdate F p readingText,
    workingUpdate F p preparingText,
    taskResponse F p .completed (some [artifact F p binding result])]

def streamForPacket (p : RoomContextPacket) (now : DateTime) :
    Except PacketError (List StreamResponse) :=
  match expectedResult F p now with
  | .ok result => .ok (responses F p (bindingValue F p) result)
  | .error e => .error e

/-! ## Admission -/

/-- A derived structure decodes from an object with its keys, or from an array
that gives its fields in order. -/
def bindingFields : Value → Option (Value × Value × Value × Value)
  | .obj fs => do
      guard (fs.length = 4)
      let taskId ← fs.lookup "taskId"
      let roomId ← fs.lookup "roomId"
      let contextRevision ← fs.lookup "contextRevision"
      let canonicalSha256 ← fs.lookup "canonicalSha256"
      return (taskId, roomId, contextRevision, canonicalSha256)
  | .arr [taskId, roomId, contextRevision, canonicalSha256] =>
      some (taskId, roomId, contextRevision, canonicalSha256)
  | _ => none

def decodeUuid (v : Value) : Option Uuid := v.asStr?.bind F.parseUuid

def maxDouble : ℤ := 9007199254740991

/-- `deserialize_a2a_revision` -/
def decodeRevision : Value → Option ℤ
  | .num n =>
      match asI64? (.num n) with
      | some i => some i
      | none =>
          let double := F.asF64 n
          if double.den ≠ 1 ∨ double < -maxDouble ∨ maxDouble < double then none
          else some double.num
  | _ => none

def decodeBinding (v : Value) : Option PacketBinding := do
  let (taskId, roomId, contextRevision, canonicalSha256) ← bindingFields v
  let taskId ← decodeUuid F taskId
  let roomId ← decodeUuid F roomId
  let contextRevision ← decodeRevision F contextRevision
  let canonicalSha256 ← canonicalSha256.asStr?
  return ⟨taskId, roomId, contextRevision, canonicalSha256⟩

def submittedEvent (p : RoomContextPacket) (event : StreamResponse) :
    Option A2aTaskEvent := do
  let .task task := event | none
  guard (task.id = F.showUuid p.taskId)
  guard (task.contextId = contextId F p)
  guard (task.status.state = .submitted)
  guard (task.status.message.isNone ∧ task.status.timestamp.isNone)
  guard (task.artifacts.isNone ∧ task.history.isNone ∧ task.metadata.isNone)
  return .submitted 0

def workingEvent (p : RoomContextPacket) (event : StreamResponse)
    (ordinal : ℕ) (expectedText : String) : Option A2aTaskEvent := do
  let .statusUpdate update := event | none
  guard (update.taskId = F.showUuid p.taskId)
  guard (update.contextId = contextId F p)
  guard (update.status.state = .working)
  guard (update.status.timestamp.isNone ∧ update.metadata.isNone)
  let message ← update.status.message
  guard (message.messageId = F.showUuid p.taskId ++ ":" ++ expectedText)
  guard (message.contextId = some (contextId F p))
  guard (message.taskId = some (F.showUuid p.taskId))
  guard (message.role = .agent)
  guard (message.metadata.isNone ∧ message.extensions.isNone ∧
    message.referenceTaskIds.isNone)
  let [part] := message.parts | none
  let .text text := part.content | none
  guard (text = expectedText)
  guard (part.filename.isNone ∧ part.mediaType.isNone ∧ part.metadata.isNone)
  return .working ordinal text

/-- The data of the one part of the one artifact. -/
def artifactData (p : RoomContextPacket) (artifacts : List Artifact) :
    Option Value := do
  let [artifact] := artifacts | none
  guard (artifact.artifactId = F.showUuid p.taskId ++ ":result")
  guard (artifact.name = some "governed-room-result")
  guard (artifact.description =
    some "Deterministic result bound to the authorized context packet.")
  guard (artifact.metadata.isNone ∧ artifact.extensions.isNone)
  let [part] := artifact.parts | none
  let .data data := part.content | none
  guard (part.filename.isNone ∧ part.mediaType.isNone ∧ part.metadata.isNone)
  return data

def completedEvent (p : RoomContextPacket) (now : DateTime)
    (event : StreamResponse) : Option A2aTaskEvent := do
  let .task task := event | none
  guard (task.id = F.showUuid p.taskId)
  guard (task.contextId = contextId F p)
  guard (task.status.state = .completed)
  guard (task.status.message.isNone ∧ task.status.timestamp.isNone)
  guard (task.history.isNone ∧ task.metadata.isNone)
  let artifacts ← task.artifacts
  let data ← artifactData F p artifacts
  let .obj fs := data | none
  guard (fs.length = 2)
  let packet ← fs.lookup "packet"
  let result ← fs.lookup "result"
  let binding ← decodeBinding F packet
  guard (binding = p.binding)
  guard (validateResult F p now result)
  return .completed 3 result binding

/-- `validate_event`, at the time at which a result would be checked. -/
def validateEvent (p : RoomContextPacket) (now : DateTime)
    (event : StreamResponse) (ordinal : ℕ) : Option A2aTaskEvent :=
  match ordinal with
  | 0 => submittedEvent F p event
  | 1 => workingEvent F p event 1 readingText
  | 2 => workingEvent F p event 2 preparingText
  | 3 => completedEvent F p now event
  | _ => none

/-- The events of a list of responses from a position on. -/
def validateFrom (p : RoomContextPacket) (now : DateTime) :
    ℕ → List StreamResponse → Option (List A2aTaskEvent)
  | _, [] => some []
  | ordinal, event :: stream => do
      let admitted ← validateEvent F p now event ordinal
      let rest ← validateFrom p now (ordinal + 1) stream
      return admitted :: rest

/-- `validate_stream`: the packet is verified at one time, the result of the
stream is checked at another. -/
def validateStream (p : RoomContextPacket) (verified checked : DateTime)
    (stream : List StreamResponse) : Option (List A2aTaskEvent) := do
  guard ((verifyPacketAt F p verified).isOk)
  guard (stream.length = 4)
  validateFrom F p checked 0 stream

/-- The loop of `invoke_stream` over the responses: what is sent on, and
whether the invocation ends well. -/
def admitFrom (p : RoomContextPacket) (now : DateTime) :
    ℕ → List StreamResponse → List A2aTaskEvent × Bool
  | ordinal, [] => ([], decide (ordinal = 4))
  | ordinal, event :: stream =>
      match validateEvent F p now event ordinal with
      | none => ([], false)
      | some admitted =>
          let rest := admitFrom p now (ordinal + 1) stream
          (admitted :: rest.1, rest.2)

/-- `invoke_stream`, on the responses that the transport delivers. -/
def invokeStream (p : RoomContextPacket) (verified checked : DateTime)
    (stream : List StreamResponse) : List A2aTaskEvent × Bool :=
  if (verifyPacketAt F p verified).isOk then admitFrom F p checked 0 stream
  else ([], false)

end AgentGateway.Task
