import AgentGateway.Conversation.Effects

/-!
# The broker and worker clients

`RoomGatewayClient::conversation_request` and `WorkerClient`.  What a client
makes of a reply is a pure function, so that a fact about an answer can be
read off the event of the reply.
-/

namespace AgentGateway

open Json (Value)
open Utf8 (Bytes)
open Mediation

/-- `error_for_status` -/
def isErrorStatus (status : ℕ) : Bool := 400 ≤ status && status < 600

def isSuccess (status : ℕ) : Bool := 200 ≤ status && status < 300

/-- A computed result as the result of a program. -/
def ofExcept {α : Type} : Except MediationError α → Mediation α
  | .ok a => pure a
  | .error e => throw e

/-! ## The broker -/

/-- The token that a response of the token endpoint carries. -/
def serviceAccessToken : Option TokenResponse → Except RoomClientError String
  | none => .error (.http none)
  | some r =>
      if isErrorStatus r.status then .error (.http (some r.status))
      else
        match r.accessToken with
        | none => .error (.http none)
        | some token =>
            if token = "" then .error .emptyServiceToken else .ok token

/-- The value that a response of the broker carries. -/
def roomResponse : Reply → Except RoomClientError (Option Value)
  | none => .error (.http none)
  | some r =>
      if isErrorStatus r.status then .error (.http (some r.status))
      else if r.status = 204 then .ok none
      else if r.received.length > 2097152 then
        .error .invalidConversationResponse
      else if r.broken then .error (.http none)
      else
        match parseJson r.received with
        | none => .error .invalidConversationResponse
        | some v => .ok (some v)

/-- `conversation_request` -/
def conversationRequest (request : RoomRequest) : Mediation (Option Value) := do
  let token ← perform (.serviceToken request)
  let _ ← ofExcept ((serviceAccessToken token).mapError .broker)
  let reply ← perform (.roomRequest request)
  ofExcept ((roomResponse reply).mapError .broker)

def taskRequest (id suffix : String) (lease : Option String)
    (body : Option Value) : RoomRequest where
  method := if body.isSome then .post else .get
  path := .task id suffix
  lease := lease
  body := body

/-- `broker` -/
def broker (id suffix : String) (lease : Option String)
    (body : Option Value) : Mediation Value := do
  let value ← conversationRequest (taskRequest id suffix lease body)
  checked value

/-! ## The worker -/

def workerBody (path : WorkerPath) (bytes : Bytes) : Checked Value :=
  if path = .rpc then parseRpcJson bytes else parseJson bytes

/-- A receipt that the worker refuses to look up counts as missing. -/
def workerValue (path : WorkerPath) (status : ℕ) (value : Value) :
    Except MediationError (Option Value) :=
  if status = 400 ∧ path.isReceipt = true ∧
      value = .object [("code", .str "invalid_task_input")] then .ok none
  else if isSuccess status then .ok (some value)
  else .error .interrupted

/-- The value that a response of the worker carries. -/
def workerResponse (path : WorkerPath) :
    Reply → Except MediationError (Option Value)
  | none => .error .http
  | some r =>
      if r.received.length > maxJsonBytes then .error .validation
      else if r.broken then .error .http
      else if r.status = 204 then .ok none
      else
        match workerBody path r.received with
        | none => .error .validation
        | some value => workerValue path r.status value

namespace Worker

/-- The second half of `request`: wait for the reply. -/
def receive (r : WorkerRequest) : Mediation (Option Value) := do
  let reply ← perform (.workerReceive r)
  ofExcept (workerResponse r.path reply)

def request (r : WorkerRequest) : Mediation (Option Value) := do
  perform (.workerSend r)
  receive r

def receiptRequest (id : String) : WorkerRequest :=
  ⟨.get, .receipt id, none⟩

/-- `receipt` -/
def receipt (id : String) : Mediation (Option Value) :=
  request (receiptRequest id)

def rpcRequest (id method : String) (params : Value) : WorkerRequest :=
  ⟨.post, .rpc, some (.object
    [("jsonrpc", .str "2.0"), ("id", .str id), ("method", .str method),
      ("params", params)])⟩

/-- The outcome that a JSON-RPC response reports. -/
def rpcResult (id : String) (response : Value) :
    Except MediationError Value :=
  if response["jsonrpc"] ≠ .str "2.0" ∨ response["id"] ≠ .str id then
    .error .interrupted
  else
    match response.get? "error" with
    | some error =>
        match error["message"].asStr?.bind safeFailureCode with
        | some code => .error (.workerRejected code)
        | none => .error .interrupted
    | none =>
        match response.get? "result" with
        | some result => .ok result
        | none => .error .validation

/-- The second half of `rpc`. -/
def rpcReceive (id : String) (r : WorkerRequest) : Mediation Value := do
  let response ← receive r
  let response ← checked response
  ofExcept (rpcResult id response)

/-- What `rpc` makes of the reply to its request. -/
def rpcAnswer (id : String) (reply : Reply) : Except MediationError Value :=
  match workerResponse .rpc reply with
  | .error e => .error e
  | .ok none => .error .validation
  | .ok (some response) => rpcResult id response

/-- `rpc` -/
def rpc (method : String) (params : Value) : Mediation Value := do
  let id ← perform .newUuid
  perform (.workerSend (rpcRequest id method params))
  rpcReceive id (rpcRequest id method params)

/-- `cancel` -/
def cancel (id : String) : Mediation Unit := do
  let _ ← attempt (rpc "CancelTask" (.object [("id", .str id)]))

def ackRequest (id : String) (ack : Value) : WorkerRequest :=
  ⟨.post, .receiptAck id, some ack⟩

/-- `ack` -/
def ack (id : String) (ack : Value) : Mediation Unit := do
  let _ ← request (ackRequest id ack)

/-! ## Card and catalog -/

/-- `codex_card` of the registry. -/
def codexCard : Value := .object
  [("name", .str "ThoughtKhoral Codex Agent"),
    ("description", .str "Explicitly addressed shared room participant"),
    ("version", .str "0.1.0"),
    ("supportedInterfaces", .arr [.object
      [("url", .str "http://thought-khoral-codex-agent:9091"),
        ("protocolBinding", .str "JSONRPC"),
        ("protocolVersion", .str "1.0")]]),
    ("capabilities", .object
      [("streaming", .bool false),
        ("pushNotifications", .bool false),
        ("extensions", .arr [.object
          [("uri", .str "thought-khoral.agent-conversation.v1"),
            ("required", .bool true),
            ("params", .object
              [("agentId", .str "74686f75-6768-746b-686f-72616c000004"),
                ("conversationScope", .str "room"),
                ("invocation", .str "explicitly-addressed"),
                ("delivery", .str "room"),
                ("roomHistory", .str "baseline-and-delta"),
                ("modelSelection", .bool true),
                ("reasoningEffort", .bool true),
                ("usageReporting", .bool true)])]])]),
    ("defaultInputModes", .arr [.str "application/json"]),
    ("defaultOutputModes", .arr [.str "application/json"]),
    ("skills", .arr [.object
      [("id", .str "chat"),
        ("name", .str "Room chat"),
        ("description", .str "Answer an authorized room discussion"),
        ("tags", .arr [.str "chat"])]]),
    ("securitySchemes", .object
      [("invocation", .object
        [("httpAuthSecurityScheme", .object
          [("scheme", .str "bearer")])])]),
    ("securityRequirements", .arr [.object [("invocation", .arr [])]])]

def validateCard (v : Value) : Checked Unit := guard (v = codexCard)

/-- `admit` -/
def admitCodex : Mediation Unit := do
  let card ← request ⟨.get, .card, none⟩
  let card ← checked card
  checked (validateCard card)

/-- The loop over the reasoning efforts of one model. -/
def catalogEfforts (allowed : List String) :
    List Value → List String → Checked (List String)
  | [], efforts => some efforts
  | e :: es, efforts => do
      let id ← e["id"].asStr?
      guard (id ∈ allowed ∧ id ∉ efforts)
      catalogEfforts allowed es (id :: efforts)

/-- The loop over the models of a page. -/
def catalogModels (a : Admission) : List Value → List String → Checked Unit
  | [], _ => some ()
  | model :: models, ids => do
      let id ← model["id"].asStr?
      let allowed ← a.models.lookup id
      guard (id ∉ ids)
      let es ← model["supportedReasoningEfforts"].asArray?
      let efforts ← catalogEfforts allowed es []
      if model["defaultReasoningEffort"].isNull then some ()
      else do
        let effort ← model["defaultReasoningEffort"].asStr?
        guard (effort ∈ efforts)
      catalogModels a models (id :: ids)

def catalogPage (K : Crates) (a : Admission) (page : Value) :
    Checked Unit := do
  schema K Contracts.catalog page
  let b ← canonicalBytes page
  guard (b.length ≤ 1048576)
  guard (page["catalogRevision"] = .str a.catalogRevision)
  guard (page["nextCursor"].isNull = true)
  let models ← page["data"].asArray?
  catalogModels a models []

/-- `catalog` -/
def catalog (K : Crates) (a : Admission) : Mediation Value := do
  let page ← request ⟨.get, .models, none⟩
  let page ← checked page
  checked (catalogPage K a page)
  return page

end Worker

end AgentGateway
