import AgentGateway.Conversation.Record
import AgentGateway.Library.Interaction

/-!
# The effects of the mediator

The operations through which the mediator acts on its state directory, the
broker, the worker and the clock, and the environment that answers them.  The
broker, the worker and the clock may answer anything; the state directory
keeps what was written to it, one file for each task id.
-/

namespace AgentGateway

open Json (Value)
open Utf8 (Bytes)
open Interaction

/-! ## HTTP -/

inductive Method where
  | get
  | post
deriving DecidableEq

/-- A response: its status and the body as far as it was received. -/
structure Response where
  status : ℕ
  received : Bytes
  /-- The connection failed after these bytes. -/
  broken : Bool
deriving DecidableEq

/-- What a request comes back with; `none` where there was no response. -/
abbrev Reply := Option Response

/-- A response of the token endpoint, with its `access_token` if the body could
be decoded. -/
structure TokenResponse where
  status : ℕ
  accessToken : Option String
deriving DecidableEq

/-- The paths under `internal/agent-conversations/v1`. -/
inductive RoomPath where
  | claim
  /-- `tasks/{id}/{suffix}` -/
  | task (id suffix : String)
deriving DecidableEq

structure RoomRequest where
  method : Method
  path : RoomPath
  /-- The lease token header. -/
  lease : Option String
  body : Option Value
deriving DecidableEq

inductive WorkerPath where
  /-- `/` -/
  | rpc
  /-- `/.well-known/agent-card.json` -/
  | card
  /-- `/control/v1/models` -/
  | models
  /-- `/control/v1/receipts/{id}` -/
  | receipt (id : String)
  /-- `/control/v1/receipts/{id}/ack` -/
  | receiptAck (id : String)
deriving DecidableEq

/-- `path.starts_with("/control/v1/receipts/")` -/
def WorkerPath.isReceipt : WorkerPath → Bool
  | .receipt _ => true
  | .receiptAck _ => true
  | _ => false

structure WorkerRequest where
  method : Method
  path : WorkerPath
  body : Option Value
deriving DecidableEq

/-! ## The state directory -/

/-- The content of each file `{id}.json`. -/
abbrev Directory := String → Option Bytes

namespace Directory

def empty : Directory := fun _ => none

/-- Replace one file as a whole. -/
def write (d : Directory) (id : String) (bytes : Bytes) : Directory :=
  fun i => if i = id then some bytes else d i

/-- The durable record of a task: what its file stands for. -/
def record (d : Directory) (id : String) : Option Record :=
  (d id).bind Record.decode

@[simp] theorem write_self (d : Directory) (id : String) (bytes : Bytes) :
    d.write id bytes id = some bytes := if_pos rfl

theorem write_of_ne {i id : String} (h : i ≠ id) (d : Directory)
    (bytes : Bytes) : d.write id bytes i = d i := if_neg h

@[simp] theorem record_write_self {r : Record} (h : r.Safe) (d : Directory)
    (id : String) : (d.write id r.toVec).record id = some r := by
  rw [record, write_self, Option.bind_some, Record.decode_toVec h]

theorem record_write_of_ne {i id : String} (h : i ≠ id) (d : Directory)
    (bytes : Bytes) : (d.write id bytes).record i = d.record i := by
  rw [record, write_of_ne h, record]

theorem record_safe {d : Directory} {id : String} {r : Record}
    (h : d.record id = some r) : r.Safe := by
  obtain ⟨bytes, _, hdecode⟩ := Option.bind_eq_some_iff.mp h
  exact Record.Safe.of_decode hdecode

theorem record_eq_none_of {d : Directory} {id : String} (h : d id = none) :
    d.record id = none := by
  rw [record, h, Option.bind_none]

end Directory

/-- An entry of a directory listing, by the stem and the extension of its
name where these are UTF-8, or an entry that could not be read. -/
inductive DirEntry where
  | unreadable
  | file (stem extension : Option String)
deriving DecidableEq

inductive FileRead where
  | bytes (content : Bytes)
  | missing
  | failed

inductive FileWrite where
  | saved
  /-- An error, before or after the file was replaced. -/
  | failed (replaced : Bool)

/-! ## Operations -/

inductive Op where
  /-- The service token for a request. -/
  | serviceToken (request : RoomRequest)
  | roomRequest (request : RoomRequest)
  /-- The worker is sent a request. -/
  | workerSend (request : WorkerRequest)
  /-- The worker's reply to a request that was sent. -/
  | workerReceive (request : WorkerRequest)
  /-- How often the interval fires before `SendMessage` is first polled, and
  how often before its reply is there. -/
  | interval
  | clock
  | newUuid
  | readDir
  | read (id : String)
  /-- Write a temporary file, sync it and rename it over the old one. -/
  | save (id : String) (r : Record)

def Op.Answer : Op → Type
  | .serviceToken _ => Option TokenResponse
  | .roomRequest _ => Reply
  | .workerSend _ => Unit
  | .workerReceive _ => Reply
  | .interval => ℕ × ℕ
  | .clock => ℤ
  | .newUuid => String
  | .readDir => Option (List DirEntry)
  | .read _ => FileRead
  | .save _ _ => FileWrite

def effects : Signature := ⟨Op, Op.Answer⟩

abbrev Action := Event effects

/-- The task id that an entry stands for. -/
def DirEntry.task : DirEntry → Option String
  | .file (some id) (some "json") => some id
  | _ => none

/-- A listing shows the mediator's files, each once, and all of them unless an
entry could not be read. -/
structure Listing (d : Directory) (entries : List DirEntry) : Prop where
  known : ∀ stem, .file stem (some "json") ∈ entries →
    ∃ id, stem = some id ∧ d id ≠ none
  complete : .unreadable ∈ entries ∨
    ∀ id, d id ≠ none → .file (some id) (some "json") ∈ entries
  once : (entries.filterMap DirEntry.task).Nodup

def allowed (d : Directory) : Action → Prop
  | ⟨.readDir, answer⟩ => ∀ entries, answer = some entries → Listing d entries
  | ⟨.read id, .bytes content⟩ => d id = some content
  | ⟨.read id, .missing⟩ => d id = none
  | _ => True

def written (d : Directory) : Action → Directory
  | ⟨.save id r, .saved⟩ => d.write id r.toVec
  | ⟨.save id r, .failed true⟩ => d.write id r.toVec
  | _ => d

def world : Environment effects Directory := ⟨allowed, written⟩

/-- Operations that leave the directory alone. -/
def Op.Quiet : Op → Prop
  | .save _ _ => False
  | _ => True

theorem written_of_quiet {d : Directory} {e : Action} (h : e.op.Quiet) :
    written d e = d := by
  obtain ⟨op, answer⟩ := e
  cases op with
  | save => exact absurd h id
  | _ => rfl

/-- An operation on the directory that failed. -/
def IoError : Action → Prop
  | ⟨.readDir, answer⟩ => answer = none ∨
      ∃ entries, answer = some entries ∧ .unreadable ∈ entries
  | ⟨.read _, answer⟩ => answer = .failed
  | ⟨.save _ _, answer⟩ => ∃ replaced, answer = .failed replaced
  | _ => False

/-! ## Errors -/

inductive RoomClientError where
  | invalidConversationResponse
  | emptyServiceToken
  /-- An error of the HTTP client, with the status if it is about one. -/
  | http (status : Option ℕ)
deriving DecidableEq

inductive MediationError where
  | validation
  | http
  | broker (error : RoomClientError)
  | state
  | interrupted
  | authorityLost
  | workerRejected (code : String)
deriving DecidableEq

/-- Programs of the mediator. -/
abbrev Mediation (α : Type) := ExceptT MediationError (Prog effects) α

namespace Mediation

def perform (op : Op) : Mediation op.Answer :=
  ExceptT.lift (Prog.perform (S := effects) op)

/-- A check whose failure is `ValidationError`. -/
def checked {α : Type} : Checked α → Mediation α
  | some a => pure a
  | none => throw .validation

/-- Run a program and go on with its result, whatever it is. -/
def attempt {α : Type} (p : Mediation α) :
    Mediation (Except MediationError α) :=
  ExceptT.lift p.run

end Mediation

end AgentGateway
