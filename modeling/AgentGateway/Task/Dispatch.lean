import AgentGateway.Library.Interaction
import AgentGateway.Task.Events

/-!
# The dispatcher

One call of `run_once`: a claim, the check of the fetched context, the race of
the invocation against the events it delivers, and the updates of the task.
-/

namespace AgentGateway.Task

open Interaction
open Json (Value)

/-! ## Operations -/

@[ext]
structure TaskUpdateRequest where
  updateId : Uuid
  contextRevision : ℤ
  eventType : String
  payload : Value
  occurredAt : DateTime

structure ContextResponse where
  packet : RoomContextPacket
  leaseToken : Uuid

/-- How an invocation under its deadline ends. -/
inductive Invocation where
  | finished
  | failed
  | timedOut
deriving DecidableEq

/-- What `select!` comes back with. -/
inductive Selected where
  | invocation (result : Invocation)
  | event (event : Option A2aTaskEvent)

/-- The answer to one attempt at a submission. -/
inductive Answer where
  | accepted
  | failed (retryable : Bool)
  | timedOut
deriving DecidableEq

inductive Op where
  | claim (leaseOwner : Uuid)
  | fetchContext (taskId leaseToken : Uuid)
  | now
  /-- The start of `invoke_stream`, under a time limit in nanoseconds. -/
  | invoke (packet : RoomContextPacket) (limit : ℤ)
  | select
  | recv
  | invocation
  | submitUpdate (taskId leaseToken : Uuid) (request : TaskUpdateRequest)
      (limit : ℤ)

/-- The answers; a broker error carries whether it may be retried. -/
@[reducible]
def Op.Ans : Op → Type
  | .claim _ => Except Bool (Option ContextResponse)
  | .fetchContext _ _ => Option ContextResponse
  | .now => DateTime
  | .invoke _ _ => Unit
  | .select => Selected
  | .recv => Option A2aTaskEvent
  | .invocation => Invocation
  | .submitUpdate _ _ _ _ => Answer

abbrev Room : Signature := ⟨Op, Op.Ans⟩

/-- A call that may be left unfinished. -/
abbrev Call := OptionT (Prog Room)

def ask (op : Op) : Call op.Ans := OptionT.lift (Prog.perform (S := Room) op)

inductive DispatchError where
  | broker
  | rejected
deriving DecidableEq

inductive TerminalFailure where
  | contextRefetchFailed
  | contextBindingMismatch
  | invalidContextPacket
  | localA2aInvocation
  | a2aResponseAdmission
deriving DecidableEq

def TerminalFailure.asStr : TerminalFailure → String
  | .invalidContextPacket => "invalid_task_input"
  | _ => "execution_failed"

/-! ## Updates -/

variable (F : Formats)

def updateName (taskId : Uuid) (ordinal : ℕ) (kind : String) : String :=
  F.showUuid taskId ++ ":" ++ toString ordinal ++ ":" ++ kind

def deterministicUpdateId (taskId : Uuid) (ordinal : ℕ) (kind : String) :
    Uuid :=
  F.uuidV5 (updateName F taskId ordinal kind)

/-- The event whose time the updates carry: `taskId` is compared as text. -/
def requestEvent (p : RoomContextPacket) : Option Value :=
  p.events.find? fun e =>
    decide (e["eventType"] = .str "agent.task.requested" ∧
      e["payload"]["taskId"] = uuid F p.taskId)

def invokedAt (p : RoomContextPacket) : DateTime :=
  (((requestEvent F p).bind fun e => e["occurredAt"].asStr?).bind
    F.parseTime).getD p.issuedAt

def updateOccurredAt (p : RoomContextPacket) (ordinal : ℕ) : DateTime :=
  (F.addMilliseconds (invokedAt F p) ordinal).getD (invokedAt F p)

def progressRequest (p : RoomContextPacket) (ordinal : ℕ)
    (phase text : String) : TaskUpdateRequest where
  updateId := deterministicUpdateId F p.taskId ordinal ("progressed:" ++ phase)
  contextRevision := p.contextRevision
  eventType := "agent.task.progressed"
  payload := .object [("phase", .str phase), ("text", .str text)]
  occurredAt := updateOccurredAt F p ordinal

def successRequest (p : RoomContextPacket) (ordinal : ℕ) (result : Value) :
    TaskUpdateRequest where
  updateId := deterministicUpdateId F p.taskId ordinal "succeeded"
  contextRevision := p.contextRevision
  eventType := "agent.task.succeeded"
  payload := .object [("result", result)]
  occurredAt := updateOccurredAt F p ordinal

def failureRequest (p : RoomContextPacket) (failure : TerminalFailure)
    (ordinal : ℕ) : TaskUpdateRequest where
  updateId := deterministicUpdateId F p.taskId ordinal
    ("failed:" ++ failure.asStr)
  contextRevision := p.contextRevision
  eventType := "agent.task.failed"
  payload := .object
    [("failure", .object [("code", .str failure.asStr)])]
  occurredAt := updateOccurredAt F p ordinal

/-! ## Submission -/

def toNanos (t : DateTime) : ℤ := (ofLex t).1 * 1000000000 + (ofLex t).2

/-- The time to the expiry of a packet, not below zero. -/
def remaining (p : RoomContextPacket) (now : DateTime) : ℤ :=
  max 0 (toNanos p.expiresAt - toNanos now)

/-- The retry loop, cut off after some attempts: `none` is a call that is still
retrying then. -/
def submit (p : RoomContextPacket) (leaseToken : Uuid)
    (request : TaskUpdateRequest) : ℕ → Call (Except DispatchError Unit)
  | 0 => .mk (.ret none)
  | patience + 1 => do
      let now : DateTime ← ask .now
      if p.expiresAt ≤ now then return .error .broker
      let later : DateTime ← ask .now
      let answer : Answer ← ask (.submitUpdate p.taskId leaseToken request
        (min (remaining p later) 5000000000))
      match answer with
      | .accepted => return .ok ()
      | .failed false => return .error .rejected
      | _ => submit p leaseToken request patience

/-- A failure, and the number of updates that the call reports for it. -/
def submitFailure (patience : ℕ) (p : RoomContextPacket) (leaseToken : Uuid)
    (failure : TerminalFailure) (ordinal : ℕ) :
    Call (Except DispatchError ℕ) := do
  match ← submit p leaseToken (failureRequest F p failure ordinal) patience with
  | .ok () => return .ok 1
  | .error e => return .error e

/-! ## The event loop -/

/-- Whether an event is admitted at its position; the clock is read for the
last one. -/
def validateAgentEvent (p : RoomContextPacket) (event : A2aTaskEvent)
    (ordinal : ℕ) : Call Bool :=
  if event.ordinal ≠ ordinal then return false
  else match event with
    | .submitted 0 => return true
    | .working 1 text => return text = readingText
    | .working 2 text => return text = preparingText
    | .completed 3 result binding =>
        if binding = p.binding then do
          let now : DateTime ← ask .now
          return validateResult F p now result
        else return false
    | _ => return false

structure LoopState where
  invocationDone : Bool
  received : ℕ
  terminal : Option (ℕ × Value)
  submittedUpdates : ℕ

/-- How the loop is left: with the result of the call, or by `break`. -/
abbrev Exit := Except DispatchError ℕ ⊕ LoopState

/-- The branch of `select!` that is taken. -/
def nextEvent (invocationDone : Bool) : Call Selected := do
  if invocationDone then
    let event : Option A2aTaskEvent ← ask .recv
    return .event event
  else ask .select

/-- A progress update, after which the loop goes on unless it is refused. -/
def reportProgress (patience : ℕ) (p : RoomContextPacket) (leaseToken : Uuid)
    (request : TaskUpdateRequest) (received : ℕ) (next : Call Exit) :
    Call Exit := do
  match ← submit p leaseToken request patience with
  | .ok () => next
  | .error _ =>
      return .inl (← submitFailure F patience p leaseToken
        .a2aResponseAdmission received)

/-- What an admitted event leads to, with the loop that goes on after it. -/
def admittedEvent (patience : ℕ) (p : RoomContextPacket) (leaseToken : Uuid)
    (continueWith : LoopState → Call Exit) (event : A2aTaskEvent)
    (s : LoopState) : Call Exit :=
  let s := { s with received := s.received + 1 }
  let next := continueWith
    { s with submittedUpdates := s.submittedUpdates + 1 }
  match event with
  | .submitted ordinal =>
      reportProgress F patience p leaseToken
        (progressRequest F p ordinal "accepted" "Task submitted") s.received
        next
  | .working ordinal text =>
      reportProgress F patience p leaseToken
        (progressRequest F p ordinal "working" text) s.received next
  | .completed ordinal result _ =>
      continueWith { s with terminal := some (ordinal, result) }

def eventLoop (patience : ℕ) (p : RoomContextPacket) (leaseToken : Uuid) :
    ℕ → LoopState → Call Exit
  | 0, _ => .mk (.ret none)
  | n + 1, s => do
      match ← nextEvent s.invocationDone with
      | .invocation result =>
          if result ≠ .finished then
            return .inl (← submitFailure F patience p leaseToken
              .localA2aInvocation s.received)
          eventLoop patience p leaseToken n { s with invocationDone := true }
      | .event none => return .inr s
      | .event (some event) =>
          if ¬(← validateAgentEvent F p event s.received) then
            return .inl (← submitFailure F patience p leaseToken
              .a2aResponseAdmission s.received)
          admittedEvent F patience p leaseToken
            (eventLoop patience p leaseToken n) event s

/-! ## One call -/

def awaitInvocation (invocationDone : Bool) : Call Invocation :=
  if invocationDone then return .finished else ask .invocation

/-- The success of the task; one that is refused becomes a failure. -/
def reportSuccess (patience : ℕ) (p : RoomContextPacket) (leaseToken : Uuid)
    (ordinal : ℕ) (result : Value) (s : LoopState) :
    Call (Except DispatchError ℕ) := do
  match ← submit p leaseToken (successRequest F p ordinal result) patience with
  | .error _ =>
      submitFailure F patience p leaseToken .a2aResponseAdmission s.received
  | .ok () => return .ok (s.submittedUpdates + 1)

/-- The part after the loop was left by `break`. -/
def conclude (patience : ℕ) (p : RoomContextPacket) (leaseToken : Uuid)
    (s : LoopState) : Call (Except DispatchError ℕ) := do
  let result ← awaitInvocation s.invocationDone
  if result ≠ .finished then
    submitFailure F patience p leaseToken .localA2aInvocation s.received
  else match s.terminal.filter fun _ => s.received = 4 with
    | none =>
        submitFailure F patience p leaseToken .a2aResponseAdmission s.received
    | some (ordinal, result) =>
        reportSuccess F patience p leaseToken ordinal result s

/-- The part after the packet is verified. -/
def execute (patience : ℕ) (p : RoomContextPacket) (leaseToken : Uuid) :
    Call (Except DispatchError ℕ) := do
  let now : DateTime ← ask .now
  let limit := min (max 0 (toNanos p.expiresAt - toNanos now - 2000000000))
    10000000000
  let _ ← ask (.invoke p limit)
  match ← eventLoop F patience p leaseToken patience ⟨false, 0, none, 0⟩ with
  | .inl outcome => return outcome
  | .inr s => conclude F patience p leaseToken s

/-- The part after a task is claimed. -/
def handle (patience : ℕ) (claimed : ContextResponse) :
    Call (Except DispatchError ℕ) := do
  let fallback := claimed.packet
  let leaseToken := claimed.leaseToken
  let fetched? : Option ContextResponse ←
    ask (.fetchContext fallback.taskId leaseToken)
  match fetched? with
  | none =>
      submitFailure F patience fallback leaseToken .contextRefetchFailed 0
  | some fetched =>
      if fetched.leaseToken ≠ leaseToken ∨
          fetched.packet.binding ≠ fallback.binding then
        submitFailure F patience fallback leaseToken .contextBindingMismatch 0
      else
        let p := fetched.packet
        let now : DateTime ← ask .now
        if (verifyPacketAt F p now).isOk then execute F patience p leaseToken
        else submitFailure F patience p leaseToken .invalidContextPacket 0

/-- `run_once`, with the number of updates that it reports. -/
def runOnce (patience : ℕ) (leaseOwner : Uuid) :
    Call (Except DispatchError ℕ) := do
  let claimed? : Except Bool (Option ContextResponse) ←
    ask (.claim leaseOwner)
  match claimed? with
  | .error retryable =>
      return .error (if retryable then .broker else .rejected)
  | .ok none => return .ok 0
  | .ok (some claimed) => handle F patience claimed

end AgentGateway.Task
