import AgentGateway.Library.Handlers
import AgentGateway.Task.Polling
import AgentGateway.Task.Wire

/-!
# The client of the task broker

The operations of the dispatcher on its broker are carried out by HTTP
requests, each with an access token of its own.
-/

namespace AgentGateway.Task

open Interaction
open Json (Value)
open Utf8 (Bytes)

/-! ## Requests and replies -/

/-- What the client asks of an error of its HTTP library. -/
structure HttpError where
  isDecode : Bool
  status : Option ℕ
deriving DecidableEq

inductive RoomClientError where
  | invalidConfiguredOrigin
  | emptyServiceToken
  | http (error : HttpError)
deriving DecidableEq

inductive Method where
  | get
  | post
deriving DecidableEq

inductive Authorization where
  | basic (clientId clientSecret : String)
  | bearer (token : String)
deriving DecidableEq

inductive HttpBody where
  | none
  | form (fields : List (String × String))
  | json (bytes : Bytes)
deriving DecidableEq

structure HttpRequest where
  method : Method
  url : String
  authorization : Authorization
  /-- The header `x-thought-khoral-lease-token`. -/
  leaseToken : Option String
  body : HttpBody
deriving DecidableEq

inductive HttpReply where
  | failed (error : HttpError)
  | response (status : ℕ) (body : Except HttpError Bytes)

namespace HttpReply

variable {β : Type}

/-- `error_for_status`, and the body of the response. -/
def body : HttpReply → Except RoomClientError Bytes
  | .failed error => .error (.http error)
  | .response status body =>
      if 400 ≤ status ∧ status < 600 then .error (.http ⟨false, some status⟩)
      else body.mapError .http

def json (decode : Bytes → Option β) (reply : HttpReply) :
    Except RoomClientError β :=
  match reply.body with
  | .error e => .error e
  | .ok bytes =>
      match decode bytes with
      | none => .error (.http ⟨true, none⟩)
      | some x => .ok x

end HttpReply

/-! ## Decoders -/

/-- A `TokenResponse`; fields that it does not know are passed over. -/
def tokenResponse (bytes : Bytes) : Option String :=
  (syntaxTree bytes).bind fun v =>
    match v with
    | .obj fs =>
        match fs.filter fun f => f.1 = "access_token" with
        | [f] => f.2.asStr?
        | _ => none
    | .arr [x] => x.asStr?
    | _ => none

section Decoders

variable (F : Formats) (R : Reader)

/-- A packet as it is read from a text: only its events become values. -/
def readPacket (v : Value) : Option RoomContextPacket := do
  let fields ← Json.Struct.decode packetKeys v
  let fields ← (packetKeys.zip fields).mapM fun f =>
    if f.1 = "events" then collect R f.2 else some f.2
  packetOfFields F R fields

def contextResponse (bytes : Bytes) : Option ContextResponse := do
  let v ← syntaxTree bytes
  let [packet, leaseToken] ← Json.Struct.decode ["packet", "leaseToken"] v
    | none
  let packet ← readPacket F R packet
  let leaseToken ← decodeUuid F leaseToken
  return ⟨packet, leaseToken⟩

/-- A `TaskUpdateResponse`, of which only its form matters. -/
def taskUpdateResponse (bytes : Bytes) : Option Unit := do
  let v ← syntaxTree bytes
  let [events] ← Json.Struct.decode ["events"] v | none
  let events ← events.asArray?
  let _ ← events.mapM (collect R)
  return ()

end Decoders

def HttpReply.token (reply : HttpReply) : Except RoomClientError String :=
  match reply.json tokenResponse with
  | .error e => .error e
  | .ok token => if token = "" then .error .emptyServiceToken else .ok token

/-- The reply to a claim; there may be nothing to claim. -/
def HttpReply.claimed (F : Formats) (R : Reader) :
    HttpReply → Except RoomClientError (Option ContextResponse)
  | .response 204 _ => .ok none
  | reply => (reply.json (contextResponse F R)).map some

/-! ## The client -/

/-- A request, under the time limit of its attempt. -/
structure HttpOp where
  request : HttpRequest
  limit : Option ℤ

/-- No reply comes where a time limit ends first. -/
abbrev Http : Signature := ⟨HttpOp, fun _ => Option HttpReply⟩

abbrev Network : Signature := Http.sum PollingRoom

def send (limit : Option ℤ) (request : HttpRequest) :
    Prog Network (Option HttpReply) :=
  Prog.perform (S := Network) (.inl ⟨request, limit⟩)

structure RoomGatewayClient where
  /-- `Url::join` of the configured origin. -/
  endpoint : String → Option String
  tokenUrl : String
  clientId : String
  clientSecret : String

/-- The requests of the broker, by the address and the access token. -/
abbrev Requests := String → String → HttpRequest

section Requests

variable (F : Formats)

def claimPath : String := "internal/v1/agent-tasks/claim"

def contextPath (taskId : Uuid) : String :=
  "internal/v1/agent-tasks/" ++ F.showUuid taskId ++ "/context"

def updatesPath (taskId : Uuid) : String :=
  "internal/v1/agent-tasks/" ++ F.showUuid taskId ++ "/updates"

def claimRequest (leaseOwner : Uuid) : Requests := fun url token =>
  { method := .post
    url := url
    authorization := .bearer token
    leaseToken := none
    body := .json (toVec (.obj [("leaseOwner", uuid F leaseOwner)])) }

def contextRequest (leaseToken : Uuid) : Requests := fun url token =>
  { method := .get
    url := url
    authorization := .bearer token
    leaseToken := some (F.showUuid leaseToken)
    body := .none }

def TaskUpdateRequest.value (r : TaskUpdateRequest) : Value :=
  .obj [("updateId", uuid F r.updateId),
    ("contextRevision", integer r.contextRevision),
    ("update", .obj [("eventType", .str r.eventType), ("payload", r.payload),
      ("occurredAt", .str (F.showTime r.occurredAt))])]

def updateRequest (leaseToken : Uuid) (r : TaskUpdateRequest) : Requests :=
  fun url token =>
    { method := .post
      url := url
      authorization := .bearer token
      leaseToken := some (F.showUuid leaseToken)
      body := .json (toVec (r.value F)) }

end Requests

namespace RoomGatewayClient

variable (c : RoomGatewayClient) (limit : Option ℤ) {β : Type}

def tokenRequest : HttpRequest where
  method := .post
  url := c.tokenUrl
  authorization := .basic c.clientId c.clientSecret
  leaseToken := none
  body := .form [("grant_type", "client_credentials")]

def serviceAccessToken :
    Prog Network (Option (Except RoomClientError String)) := do
  let reply ← send limit c.tokenRequest
  return reply.map HttpReply.token

/-- Send a request with an access token that is obtained for it. -/
def authorized (request : String → HttpRequest) :
    Prog Network (Option (Except RoomClientError HttpReply)) := do
  match ← c.serviceAccessToken limit with
  | none => return none
  | some (.error e) => return some (.error e)
  | some (.ok token) =>
      let reply ← send limit (request token)
      return reply.map .ok

/-- What the methods of the client have in common. -/
def exchange (path : String) (request : Requests)
    (answer : HttpReply → Except RoomClientError β) :
    Prog Network (Option (Except RoomClientError β)) :=
  match c.endpoint path with
  | none => return some (.error .invalidConfiguredOrigin)
  | some url => do
      let reply ← c.authorized limit (request url)
      return reply.map fun reply => reply.bind answer

variable (F : Formats) (R : Reader)

def claim (leaseOwner : Uuid) :
    Prog Network (Option (Except RoomClientError (Option ContextResponse))) :=
  c.exchange limit claimPath (claimRequest F leaseOwner) (·.claimed F R)

def fetchContext (taskId leaseToken : Uuid) :
    Prog Network (Option (Except RoomClientError ContextResponse)) :=
  c.exchange limit (contextPath F taskId) (contextRequest F leaseToken)
    (·.json (contextResponse F R))

def submitUpdate (taskId leaseToken : Uuid) (request : TaskUpdateRequest) :
    Prog Network (Option (Except RoomClientError Unit)) :=
  c.exchange limit (updatesPath F taskId) (updateRequest F leaseToken request)
    (·.json (taskUpdateResponse R))

end RoomGatewayClient

/-! ## Exchanges -/

/-- The event is a request. -/
def Asks (e : Event Network) (request : HttpRequest) : Prop :=
  ∃ limit reply, e = ⟨.inl ⟨request, limit⟩, reply⟩

/-- The event is a request that was replied to. -/
def Replied (e : Event Network) (reply : HttpReply) : Prop :=
  ∃ op, e = ⟨.inl op, some reply⟩

/-- What comes of an exchange: nothing where its time limit ends first, an
error before the request itself is sent, or the reply to that. -/
abbrev Outcome := Option (Except RoomClientError HttpReply)

/-- What the client sends for one operation, and what comes of it.  There is no
request without an access token, and always one with it. -/
inductive Exchange (c : RoomGatewayClient) (limit : Option ℤ) (path : String)
    (request : Requests) : List (Event Network) → Outcome → Prop
  | unformed : c.endpoint path = none →
      Exchange c limit path request [] (some (.error .invalidConfiguredOrigin))
  | unreplied {url : String} : c.endpoint path = some url →
      Exchange c limit path request [⟨.inl ⟨c.tokenRequest, limit⟩, none⟩] none
  | unauthorized {url : String} {reply : HttpReply} {e : RoomClientError} :
      c.endpoint path = some url → reply.token = .error e →
        Exchange c limit path request
          [⟨.inl ⟨c.tokenRequest, limit⟩, some reply⟩] (some (.error e))
  | sent {url token : String} {reply : HttpReply} {answer : Option HttpReply} :
      c.endpoint path = some url → reply.token = .ok token →
        Exchange c limit path request
          [⟨.inl ⟨c.tokenRequest, limit⟩, some reply⟩,
            ⟨.inl ⟨request url token, limit⟩, answer⟩] (answer.map .ok)

/-- Some event was replied to, with this outcome. -/
def Answered {β : Type} (answer : HttpReply → Except RoomClientError β)
    (x : β) (es : List (Event Network)) : Prop :=
  ∃ e ∈ es, ∃ reply, Replied e reply ∧ answer reply = .ok x

/-- What the client makes of a reply, where there is one. -/
def Outcome.read {β : Type} (answer : HttpReply → Except RoomClientError β)
    (outcome : Outcome) : Option (Except RoomClientError β) :=
  outcome.map fun reply => reply.bind answer

variable {F : Formats} {R : Reader} {c : RoomGatewayClient}

/-- A result that was read stands in a reply. -/
theorem Exchange.answered {β : Type} {limit : Option ℤ} {path : String}
    {request : Requests} {es : List (Event Network)} {outcome : Outcome}
    (h : Exchange c limit path request es outcome)
    {answer : HttpReply → Except RoomClientError β} {x : β}
    (hx : outcome.read answer = some (.ok x)) : Answered answer x es := by
  cases h with
  | unformed => cases hx
  | unreplied => cases hx
  | unauthorized => cases hx
  | @sent url token reply reply' hurl htoken =>
      cases reply' with
      | none => cases hx
      | some reply' =>
          refine ⟨_, List.mem_cons_of_mem _ (List.mem_singleton_self _), reply',
            ⟨_, rfl⟩, Option.some.inj hx⟩

/-! ## Carrying out the dispatcher's operations -/

section Answers

variable (F : Formats) (R : Reader) (outcome : Outcome)

end Answers

theorem Asks.unique {e : Event Network} {r r' : HttpRequest} (h : Asks e r)
    (h' : Asks e r') : r = r' := by
  obtain ⟨limit, reply, rfl⟩ := h
  obtain ⟨limit', reply', heq⟩ := h'
  cases heq
  rfl

end AgentGateway.Task
