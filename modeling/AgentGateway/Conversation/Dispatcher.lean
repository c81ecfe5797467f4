import AgentGateway.Conversation.Clients

/-!
# The conversation dispatcher

`ConversationDispatcher` of `conversation_dispatcher.rs`.  A record that the
source mutates in place is passed on here: the source changes a record only
right before the `save` that makes the change durable, and never uses it again
after an error in between.
-/

namespace AgentGateway

open Json (Value)
open Mediation

/-- The parts of a dispatcher that differ between mediators. -/
structure Dispatcher where
  owner : String
  admission : Admission

/-- `definitive_authority_loss` -/
def definitiveAuthorityLoss : MediationError → Bool
  | .authorityLost => true
  | _ => false

namespace Dispatcher

variable (K : Crates) (c : Dispatcher)

/-! ## Records on disk -/

def load (id : String) : Mediation (Option Record) := do
  checked (guard (K.uuidParses id = true))
  match ← perform (.read id) with
  | .bytes content => do
      let r ← checked (Record.read content)
      return some r
  | .missing => return none
  | .failed => throw .state

def save (id : String) (r : Record) : Mediation Unit := do
  checked (guard (K.uuidParses id = true))
  match ← perform (.save id r) with
  | .saved => return ()
  | .failed _ => throw .state

def readDir : Mediation (List DirEntry) := do
  match ← perform .readDir with
  | some entries => return entries
  | none => throw .state

/-- The task id of an entry; entries that are no records are passed over. -/
def entryId : DirEntry → Mediation (Option String)
  | .unreadable => throw .state
  | .file stem extension =>
      if extension ≠ some "json" then return none
      else do
        let id ← checked stem
        return some id

/-- Whether the sources of a record carry over to a packet. -/
def carriesOver (r : Record) (p : Value) : Prop :=
  r.phase = "acknowledged" ∧ r.ack.isSome = true ∧
    r.binding["roomId"] = p["roomId"] ∧
    r.binding["agentId"] = p["agentId"] ∧
    r.binding["conversation"]["id"] = p["conversation"]["id"] ∧
    r.binding["conversation"]["generation"] =
      p["conversation"]["generation"] ∧
    r.binding["context"]["policyRevision"] = p["context"]["policyRevision"]

instance (r : Record) (p : Value) : Decidable (carriesOver r p) := by
  unfold carriesOver
  infer_instance

/-- The loop of `prior_sources`. -/
def gatherSources (p : Value) :
    List DirEntry → StringSet → Mediation StringSet
  | [], sources => return sources
  | entry :: entries, sources => do
      match ← entryId entry with
      | none => gatherSources p entries sources
      | some id =>
          match ← load K id with
          | none => gatherSources p entries sources
          | some r =>
              gatherSources p entries
                (if carriesOver r p then sources.union r.sources else sources)

/-- `prior_sources` -/
def priorSources (p : Value) : Mediation StringSet := do
  let entries ← readDir
  gatherSources K p entries .empty

/-! ## Authority -/

/-- The checks on the broker's statement of authority. -/
def authorityMatches (a p : Value) : Checked Unit := do
  guard (closed a ["profileVersion", "taskId", "generation", "contextDigest",
    "expiresAt", "authorizationExpiresAt"] = true)
  guard (a["profileVersion"] = .str profile)
  guard (a["taskId"] = p["taskId"])
  guard (a["generation"] = p["conversation"]["generation"])
  guard (a["contextDigest"] = p["context"]["digest"])
  guard (a["expiresAt"] = p["expiresAt"])
  guard (a["authorizationExpiresAt"] = p["authorizationExpiresAt"])

/-- Compare an expiry with the clock. -/
def notElapsed (v : Value) : Mediation Unit := do
  let now : ℤ ← perform .clock
  let expires ← checked (timestamp K v)
  if now ≥ expires then throw .authorityLost else return ()

/-- The answers that `authority` takes for a loss of authority. -/
def authorityError : MediationError → MediationError
  | .broker (.http (some status)) =>
      if status = 403 ∨ status = 409 ∨ status = 410 then .authorityLost
      else .broker (.http (some status))
  | e => e

def authority (p : Value) (lease : String) : Mediation Unit := do
  let id ← checked p["taskId"].asStr?
  let answer ← attempt (broker id "authority" (some lease) none)
  let a ← ofExcept (answer.mapError authorityError)
  checked (authorityMatches a p)
  notElapsed K a["expiresAt"]
  notElapsed K a["authorizationExpiresAt"]

/-! ## Updates and acknowledgements -/

def updateValue (p : Value) (kind : String) (data : Value)
    (updateId : String) : Value :=
  .object
    [("profileVersion", .str profile),
      ("updateId", .str updateId),
      ("ordinal", .num (.posInt 1)),
      ("taskId", p["taskId"]),
      ("generation", p["conversation"]["generation"]),
      ("contextDigest", p["context"]["digest"]),
      ("kind", .str kind),
      ("data", data)]

def update (p : Value) (kind : String) (data : Value) : Mediation Value := do
  let updateId ← perform .newUuid
  return updateValue p kind data updateId

/-- The checks of `accept_ack`. -/
def ackMatches (r : Record) (ack : Value) : Checked Unit := do
  schema K Contracts.ack ack
  let p := r.binding
  let result ← r.result
  guard (ack["taskId"] = p["taskId"])
  guard (ack["conversationId"] = p["conversation"]["id"])
  guard (ack["generation"] = p["conversation"]["generation"])
  guard (ack["consumedRevision"] = p["context"]["revision"])
  guard (ack["contextDigest"] = p["context"]["digest"])
  let text ← result["assistantText"].asStr?
  guard (ack["textDigest"] = .str (K.sha256Hex (Utf8.encode text.toList)))
  guard (r.ack.all fun a => decide (a = ack))

def acceptAck (id : String) (r : Record) (ack : Value) :
    Mediation Record := do
  checked (ackMatches K r ack)
  Worker.ack id ack
  let r := { r with ack := some ack, phase := "acknowledged" }
  save K id r
  return r

def quarantine (id : String) (r : Record) : Mediation Record := do
  Worker.cancel id
  let r := { r with phase := "quarantined" }
  save K id r
  return r

/-- The checks on the broker's receipt. -/
def brokerReceiptMatches (receipt binding : Value) : Checked Unit := do
  guard (closed receipt ["profileVersion", "taskId", "conversationId",
    "generation", "state", "acknowledgement", "result"] = true)
  guard (receipt["profileVersion"] = .str profile)
  guard (receipt["taskId"] = binding["taskId"])
  guard (receipt["conversationId"] = binding["conversation"]["id"])
  guard (receipt["generation"] = binding["conversation"]["generation"])

/-- `reconcile_broker`: whether the broker's receipt settles the task. -/
def reconcileBroker (id : String) (r : Record) :
    Mediation (Bool × Record) := do
  let receipt ← broker id "receipt" none none
  checked (brokerReceiptMatches receipt r.binding)
  if receipt["state"] = .str "failed" then do
    checked (guard (receipt["acknowledgement"].isNull = true ∧
      receipt["result"].isNull = true))
    let r ← quarantine K id r
    return (true, r)
  else if receipt["state"] = .str "completed" then do
    checked (guard (r.result = some receipt["result"]))
    let r ← acceptAck K id r receipt["acknowledgement"]
    return (true, r)
  else return (false, r)

/-! ## Recovery -/

def recoverPending (id : String) (r : Record) : Mediation Bool := do
  let (settled, r) ← reconcileBroker K id r
  if settled then return r.phase ≠ "quarantined"
  else if r.phase ≠ "completed" then return false
  else do
    -- Only the stored output is replayed, under the stored lease.
    authority K r.binding r.lease
    let result ← checked r.result
    checked (validateResultWithAdmission K result r.binding r.sources
      c.admission)
    let update ← checked r.update
    checked (schema K Contracts.update update)
    let ack ← broker id "updates" (some r.lease) (some update)
    let _ ← acceptAck K id r ack
    return true

/-- The records that the scan of `run_once` tries to finish. -/
def pending (r : Record) : Prop :=
  r.result.isSome = true ∧ r.ack = none ∧ r.phase ≠ "quarantined"

instance (r : Record) : Decidable (pending r) := by
  unfold pending
  infer_instance

/-- One record of the scan: whether it was finished. -/
def recover (id : String) (r : Record) : Mediation Bool := do
  match ← attempt (recoverPending K c id r) with
  | .ok finished => return finished
  | .error .state => throw .state
  | .error e =>
      if definitiveAuthorityLoss e then do
        let _ ← quarantine K id r
        return false
      -- Uncertainty about one task does not starve others.
      else return false

/-- One step of the scan. -/
def visit (entry : DirEntry) : Mediation Bool := do
  match ← entryId entry with
  | none => return false
  | some id =>
      match ← load K id with
      | none => return false
      | some r => if pending r then recover K c id r else return false

/-- The scan of `run_once` over the state directory.  It ends with the first
record that is finished. -/
def scan : List DirEntry → Mediation Bool
  | [] => return false
  | entry :: entries => do
      let finished ← visit K c entry
      if finished then return true else scan entries

/-! ## A claimed task -/

def failWithCode (id : String) (p : Value) (lease : String) (r : Record)
    (code : String) : Mediation Bool := do
  let code ← checked (safeFailureCode code)
  let failed ← update p "failed" (.object [("code", .str code)])
  let r := { r with phase := "interrupted", update := some failed }
  save K id r
  checked (schema K Contracts.update failed)
  let _ ← broker id "updates" (some lease) (some failed)
  return true

def fail (id : String) (p : Value) (lease : String) (r : Record) :
    Mediation Bool :=
  failWithCode K id p lease r "conversation_interrupted"

/-- An authority check whose failure cancels the worker's task. -/
def authorityOrCancel (id : String) (p : Value) (lease : String) :
    Mediation Unit := do
  match ← attempt (authority K p lease) with
  | .ok _ => return ()
  | .error e => do
      Worker.cancel id
      throw e

/-- The update of a completed record, built where there is none yet. -/
def completedUpdate (p : Value) (r : Record) : Mediation Value :=
  match r.update with
  | some update => return update
  | none => do
      let result ← checked r.result
      update p "completed" result

/-- The end of `run_once`, for a record that holds a result. -/
def complete (id : String) (p : Value) (lease : String) (r : Record) :
    Mediation Bool := do
  authorityOrCancel K id p lease
  let update ← completedUpdate p r
  let r := { r with phase := "completed", update := some update }
  save K id r
  checked (schema K Contracts.update update)
  let ack ← broker id "updates" (some lease) (some update)
  let _ ← acceptAck K id r ack
  return true

/-- A completed receipt for a claimed task: its result becomes the record's,
unless the record holds another one. -/
def acceptReceipt (r : Record) (p receipt : Value) : Checked Record := do
  validateRuntime receipt["runtimeBinding"]
  validateResultWithAdmission K receipt["result"] p r.sources c.admission
  guard (r.result.all fun v => decide (v = receipt["result"]))
  guard (r.runtimeBinding.all fun v => decide (v = receipt["runtimeBinding"]))
  return { r with
    result := some receipt["result"]
    runtimeBinding := some receipt["runtimeBinding"] }

/-- Whether the catalog offers the model and the effort of a packet. -/
def catalogOffers (catalog p : Value) : Checked Unit := do
  let models ← catalog["data"].asArray?
  guard (models.any fun m => decide (m["id"] = p["model"]) &&
    m["supportedReasoningEfforts"].asArray?.any fun es =>
      es.any fun e => decide (e["id"] = p["reasoningEffort"]))

/-- The parameters of `SendMessage`. -/
def sendParams (id : String) (p : Value) : Value :=
  .object
    [("message", .object
      [("messageId", .str ("thought-khoral-" ++ id)),
        ("taskId", p["taskId"]),
        ("contextId", p["conversation"]["id"]),
        ("role", .str "ROLE_USER"),
        ("parts", .arr [.object
          [("data", .object
            [("profileVersion", .str profile), ("packet", p)])]])]),
      ("configuration", .object
        [("acceptedOutputModes", .arr [.str "application/json"]),
          ("returnImmediately", .bool false),
          ("historyLength", .num (.posInt 0))])]

/-- Authority checks while `SendMessage` is under way: `n` of them. -/
def ticks (id : String) (p : Value) (lease : String) (r : Record) :
    ℕ → Mediation Unit
  | 0 => return ()
  | n + 1 => do
      match ← attempt (authority K p lease) with
      | .ok _ => ticks id p lease r n
      | .error e => do
          Worker.cancel id
          save K id { r with phase := "interrupted" }
          throw e

/-- Send the packet to the worker and wait, checking authority meanwhile. -/
def sendMessage (id : String) (p : Value) (lease : String) (r : Record) :
    Mediation (Except MediationError Value) := do
  let (before, during) ← perform .interval
  ticks K id p lease r before
  let rpcId ← perform .newUuid
  let request := Worker.rpcRequest rpcId "SendMessage" (sendParams id p)
  perform (.workerSend request)
  ticks K id p lease r during
  attempt (Worker.rpcReceive rpcId request)

/-- Whether the worker's receipt confirms the code of a rejection. -/
def rejectionConfirmed (id : String) (p : Value) :
    MediationError → Mediation (Option String)
  | .workerRejected code => do
      match ← attempt (Worker.receipt id) with
      | .ok (some receipt) =>
          return if receiptFailure receipt p = some code then some code
            else none
      | _ => return none
  | _ => return none

/-- `SendMessage` failed.  Only a matching receipt of the worker can confirm a
safe code; otherwise the execution is uncertain. -/
def sendFailed (id : String) (p : Value) (lease : String) (r : Record)
    (e : MediationError) : Mediation Bool := do
  match ← rejectionConfirmed id p e with
  | some code => failWithCode K id p lease r code
  | none => do
      Worker.cancel id
      let r := { r with phase := "interrupted" }
      save K id r
      let _ ← attempt (fail K id p lease r)
      throw e

/-- The data part of the output of `SendMessage`. -/
def replyData (output p : Value) : Checked Value := do
  guard (closed output ["task"] = true)
  let task := output["task"]
  guard (closed task ["id", "contextId", "status", "artifacts"] = true)
  guard (closed task["status"] ["state"] = true)
  let artifacts ← task["artifacts"].asArray?
  guard (task["id"] = p["taskId"])
  guard (task["contextId"] = p["conversation"]["id"])
  guard (task["status"]["state"] = .str "TASK_STATE_COMPLETED")
  match artifacts with
  | [artifact] => do
      guard (closed artifact ["artifactId", "parts"] = true)
      guard (artifact["artifactId"] = .str "reply")
      let parts ← artifact["parts"].asArray?
      match parts with
      | [part] => do
          guard (closed part ["data"] = true)
          guard (closed part["data"] ["reply", "runtimeBinding"] = true)
          return part["data"]
      | _ => none
  | _ => none

/-- The reply of `SendMessage` against the worker's receipt. -/
def acceptReply (r : Record) (p data receipt : Value) : Checked Record := do
  validateReceipt receipt p
  validateRuntime data["runtimeBinding"]
  guard (receipt["phase"] = .str "completed")
  guard (receipt["runtimeBinding"] = data["runtimeBinding"])
  guard (receipt["result"] = data["reply"])
  validateResultWithAdmission K data["reply"] p r.sources c.admission
  return { r with
    result := some data["reply"]
    runtimeBinding := some data["runtimeBinding"] }

/-- The worker knows nothing of the task: submit it, once. -/
def submit (id : String) (p : Value) (lease : String) (r : Record) :
    Mediation Bool := do
  Worker.admitCodex
  let catalog ← Worker.catalog K c.admission
  checked (catalogOffers catalog p)
  save K id r
  let r := { r with phase := "submission-intent" }
  save K id r
  match ← sendMessage K id p lease r with
  | .error e => sendFailed K id p lease r e
  | .ok output => do
      let data ← checked (replyData output p)
      let receipt ← Worker.receipt id
      let receipt ← checked receipt
      let r ← checked (acceptReply K c r p data receipt)
      complete K id p lease r

/-- Go on with what the worker's receipt says. -/
def resume (id : String) (p : Value) (lease : String) (r : Record) :
    Except MediationError (Option Value) → Mediation Bool
  | .ok (some receipt) => do
      checked (validateReceipt receipt p)
      if receipt["phase"] = .str "completed" then do
        let r ← checked (acceptReceipt K c r p receipt)
        complete K id p lease r
      else do
        let code := (receiptFailure receipt p).getD "conversation_interrupted"
        Worker.cancel id
        failWithCode K id p lease r code
  | .error _ => do
      Worker.cancel id
      fail K id p lease r
  | .ok none =>
      if r.phase ≠ "reserved" ∨ r.result.isSome = true then do
        Worker.cancel id
        fail K id p lease r
      else submit K c id p lease r

/-- A record for a task that is claimed for the first time. -/
def freshRecord (p : Value) (lease : String) (prior : StringSet) : Record where
  lease := lease
  binding := binding p
  sources := (sources p).union prior
  phase := "reserved"
  result := none
  runtimeBinding := none
  update := none
  ack := none

/-- The record of a claimed task, under the lease of the claim. -/
def claimRecord (id : String) (p : Value) (lease : String)
    (prior : StringSet) : Mediation Record := do
  match ← load K id with
  | some r => do
      checked (guard (r.binding = binding p))
      return { r with lease := lease }
  | none => return freshRecord p lease prior

/-- The three readings of the clock in the validation of a packet. -/
def clockReadings : Mediation (ℤ × ℤ × ℤ) := do
  let t₁ ← perform .clock
  let t₂ ← perform .clock
  let t₃ ← perform .clock
  return (t₁, t₂, t₃)

/-- The validation of a claim: its packet, lease token and task id, and the
prior sources of the packet. -/
def admitClaim (claim : Value) :
    Mediation (Value × String × String × StringSet) := do
  checked (guard (closed claim ["packet", "leaseToken"] = true))
  let p := claim["packet"]
  let lease ← checked claim["leaseToken"].asStr?
  let id ← checked p["taskId"].asStr?
  let prior ← priorSources K p
  let now ← clockReadings
  checked (validatePacketWithSources K p c.admission (some now) prior)
  checked (guard (p["leaseOwner"] = .str c.owner))
  return (p, lease, id, prior)

/-- The part of `run_once` after a claim was received. -/
def runClaim (claim : Value) : Mediation Bool := do
  let (p, lease, id, prior) ← admitClaim K c claim
  let r ← claimRecord K id p lease prior
  -- The broker is asked before the worker: its acknowledgement may be lost.
  let (settled, r) ← reconcileBroker K id r
  if settled then return true
  else do
    authorityOrCancel K id p lease
    let receipt ← attempt (Worker.receipt id)
    resume K c id p lease r receipt

def claimRequest : RoomRequest where
  method := .post
  path := .claim
  lease := none
  body := some (.object
    [("agentId", .str codexId), ("leaseOwner", .str c.owner)])

/-- `run_once` -/
def runOnce : Mediation Bool := do
  let entries ← readDir
  let recovered ← scan K c entries
  if recovered then return true
  else do
    match ← conversationRequest c.claimRequest with
    | none => return false
    | some claim => runClaim K c claim

end Dispatcher

end AgentGateway
