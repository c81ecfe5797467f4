import AgentGateway.Conversation.Abandonment
import AgentGateway.Conversation.Alike
import Mathlib.Logic.Equiv.Basic

/-!
# Private identifiers do not cross the mediator

Two runs whose inputs differ only in the native identifiers of the runtime and
in the lease tokens send the same requests, up to the lease token in the header
of a request to the broker.
-/

namespace AgentGateway

open Json (Value)
open Interaction
open Dispatcher

namespace Renaming

variable {ρ : Renaming} {K : Crates} {d d' : Directory}

/-! ## Directories and inputs -/

/-- Each file of the second directory is the renamed copy of one of the first
directory. -/
def Directories (ρ : Renaming) (d d' : Directory) : Prop :=
  ∀ id, Option.Rel (Rereads Record.decode ρ.record) (d id) (d' id)

/-- Two answers from outside agree up to the renaming; what is in the files is
left to the directories. -/
abbrev Inputs (ρ : Renaming) : Action → Action → Prop :=
  ρ.Answers fun a b => a = .failed ↔ b = .failed

/-- Two calls of one mediator get the same answers up to the renaming, and both
return or both are cut off at the same moment. -/
structure SameInputs (ρ : Renaming) (x y : Call K) : Prop where
  param : x.param = y.param
  answers : ∀ (i : ℕ) e e', x.events[i]? = some e → y.events[i]? = some e' →
    ρ.Operations e.op e'.op → ρ.Inputs e e'
  cut : x.result = none ∨ y.result = none →
    x.result = none ∧ y.result = none ∧ x.events.length = y.events.length

theorem Directories.write (hd : ρ.Directories d d') (id : String) {r : Record}
    (hr : r.Safe) :
    ρ.Directories (d.write id r.toVec)
      (d'.write id (ρ.record r).toVec) := by
  intro i
  by_cases hi : i = id
  · subst hi
    rw [Directory.write_self, Directory.write_self]
    exact .some (rereads_toVec hr)
  · rw [Directory.write_of_ne hi, Directory.write_of_ne hi]
    exact hd i

theorem Directories.read (hd : ρ.Directories d d') {id : String}
    {a b : FileRead} (ha : allowed d ⟨.read id, a⟩)
    (hb : allowed d' ⟨.read id, b⟩) (hab : a = .failed ↔ b = .failed) :
    ρ.Files a b := by
  have hfile := hd id
  cases a with
  | failed =>
      rw [hab.mp rfl]
      exact .failed
  | missing =>
      have ha : d id = none := ha
      cases b with
      | failed => exact absurd (hab.mpr rfl) (by rintro ⟨⟩)
      | missing => exact .missing
      | bytes content =>
          have hb : d' id = some content := hb
          rw [ha, hb] at hfile
          cases hfile
  | bytes content =>
      have ha : d id = some content := ha
      cases b with
      | failed => exact absurd (hab.mpr rfl) (by rintro ⟨⟩)
      | missing =>
          have hb : d' id = none := hb
          rw [ha, hb] at hfile
          cases hfile
      | bytes content' =>
          have hb : d' id = some content' := hb
          rw [ha, hb] at hfile
          cases hfile with
          | some hbytes => exact .bytes hbytes

/-- An event that saves nothing but safe records. -/
def SafeSave (a : Action) : Prop := ∀ id r, a.op = .save id r → r.Safe

/-- One event of each call. -/
theorem Directories.step (hd : ρ.Directories d d') {e e' : Action}
    (he : allowed d e) (he' : allowed d' e')
    (hop : ρ.Operations e.op e'.op) (hin : ρ.Inputs e e')
    (hsafe : SafeSave e) :
    ρ.Answers ρ.Files e e' ∧ ρ.Directories (written d e) (written d' e') := by
  obtain ⟨op, a⟩ := e
  obtain ⟨op', b⟩ := e'
  cases op with
  | read id =>
      cases op' with
      | read id' =>
          have hid : id' = id := hop
          subst hid
          exact ⟨hd.read he he' hin, hd⟩
      | _ => exact hop.elim
  | save id r =>
      cases op' with
      | save id' r' =>
          obtain ⟨rfl, rfl⟩ : id' = id ∧ r' = ρ.record r := hop
          have hsame : b = a := hin
          subst hsame
          refine ⟨rfl, ?_⟩
          have hwrite := hd.write id' (hsafe id' r rfl)
          cases b with
          | saved => exact hwrite
          | failed replaced =>
              cases replaced with
              | true => exact hwrite
              | false => exact hd
      | _ => exact hop.elim
  | _ =>
      cases op' <;> first | exact hop.elim | exact ⟨hin, hd⟩

/-! ## Calls and runs -/

theorem safeSave_of_mem (x : Call K) {e : Action} (he : e ∈ x.events) :
    SafeSave e := by
  rintro id r hop
  obtain ⟨op, ans⟩ := e
  subst hop
  obtain ⟨h, rest, hevents⟩ := List.mem_iff_append.mp he
  have hobeys := (runOnce_obeys (K := K) (c := x.param) (d := x.before)
    (h := []) (by simp [Undecided])).exec x.exec
  have hguarantee : K.uuidParses id = true ∧
      SaveGuarantee K x.param _ _ id r := hobeys.2 h _ rest hevents
  exact hguarantee.2.safe

/-- Two calls perform the same operations, up to the renaming. -/
theorem SameInputs.operations {x y : Call K} (hxy : ρ.SameInputs x y)
    (hd : ρ.Directories x.before y.before) :
    List.Forall₂ (fun e e' => ρ.Operations e.op e'.op) x.events y.events ∧
      ρ.Directories x.after y.after := by
  have hy := y.exec
  rw [← hxy.param] at hy
  obtain ⟨hall, hafter, _⟩ := Prog.Relates.exec
    (G := SafeSave) (I := ρ.Inputs) (D := ρ.Directories)
    (fun s t e e' hs he he' hop hin hsafe => hs.step he he' hop hin hsafe)
    (alike_runOnce K x.param) x.exec hy hd hxy.answers
    (fun e he => safeSave_of_mem x he) hxy.cut
  exact ⟨hall, hafter⟩

end Renaming

/-! ## Requests -/

def RoomRequest.unleased (r : RoomRequest) : RoomRequest :=
  { r with lease := none }

def Op.toRoom : Op → Option RoomRequest
  | .roomRequest r => some r
  | _ => none

def Op.toWorker : Op → Option WorkerRequest
  | .workerSend r => some r
  | _ => none

/-- The requests to the broker, up to the lease token in their headers. -/
def roomRequests (t : List Action) : List RoomRequest :=
  (t.filterMap fun a => a.op.toRoom).map RoomRequest.unleased

/-- The requests to the worker. -/
def workerRequests (t : List Action) : List WorkerRequest :=
  t.filterMap fun a => a.op.toWorker

namespace Renaming

variable {ρ : Renaming} {K : Crates} {d d' e e' : Directory}

theorem requests_of_operation {op op' : Op} (hop : ρ.Operations op op') :
    op'.toRoom.map RoomRequest.unleased = op.toRoom.map RoomRequest.unleased ∧
      op'.toWorker = op.toWorker := by
  cases op with
  | roomRequest r =>
      cases op' with
      | roomRequest r' =>
          have hr : r' = ρ.request r := hop
          subst hr
          exact ⟨rfl, rfl⟩
      | _ => exact hop.elim
  | workerSend r =>
      cases op' with
      | workerSend r' =>
          have hr : r' = r := hop
          subst hr
          exact ⟨rfl, rfl⟩
      | _ => exact hop.elim
  | _ => cases op' <;> first | exact hop.elim | exact ⟨rfl, rfl⟩

theorem requests_of_operations {es fs : List Action}
    (h : List.Forall₂ (fun e e' => ρ.Operations e.op e'.op) es fs) :
    roomRequests fs = roomRequests es ∧
      workerRequests fs = workerRequests es := by
  have hcons : ∀ (a : Action) (es : List Action), roomRequests (a :: es) =
      (a.op.toRoom.map RoomRequest.unleased).toList ++ roomRequests es ∧
        workerRequests (a :: es) =
          a.op.toWorker.toList ++ workerRequests es := by
    intro a es
    rw [roomRequests, workerRequests, List.filterMap_cons, List.filterMap_cons]
    constructor
    · cases a.op.toRoom <;> rfl
    · cases a.op.toWorker <;> rfl
  induction h with
  | nil => exact ⟨rfl, rfl⟩
  | @cons a b es fs hop _ ih =>
      obtain ⟨hroom, hworker⟩ := requests_of_operation hop
      rw [(hcons a es).1, (hcons a es).2, (hcons b fs).1, (hcons b fs).2,
        hroom, hworker, ih.1, ih.2]
      exact ⟨rfl, rfl⟩

theorem operations_of_calls {run run' : List (Call K)}
    (h : List.Forall₂ (fun x y : Call K => List.Forall₂
      (fun e e' => ρ.Operations e.op e'.op) x.events y.events) run run') :
    List.Forall₂ (fun e e' => ρ.Operations e.op e'.op) (trace run)
      (trace run') := by
  induction h with
  | nil => exact .nil
  | cons hxy _ ih => exact List.rel_append hxy ih

end Renaming

/-- Over any directory and whatever the answers are: renaming the native
identifiers in the runtime bindings and the lease tokens of the broker changes
no request to the worker, and none to the broker but for the lease token in its
header. -/
theorem private_identifiers_confined {ρ : Renaming} {K : Crates}
    {d d' e e' : Directory} {run run' : List (Call K)}
    (hrun : Interaction.Run world (call K) d run e)
    (hrun' : Interaction.Run world (call K) d' run' e')
    (hd : ρ.Directories d d')
    (hinputs : List.Forall₂ ρ.SameInputs run run') :
    roomRequests (trace run') = roomRequests (trace run) ∧
      workerRequests (trace run') = workerRequests (trace run) := by
  have hcalls := (Run.pair (D := ρ.Directories)
    (fun x y hxy hd => hxy.operations hd) hrun hrun' hd hinputs).1
  exact Renaming.requests_of_operations (Renaming.operations_of_calls hcalls)

/-! ### The sample -/

namespace Sample

/-- Exchanging two texts that `g` does not tell apart. -/
theorem apply_swap {α β : Type} [DecidableEq α] {g : α → β} {a b : α}
    (hab : g a = g b) (x : α) : g (Equiv.swap a b x) = g x := by
  rw [Equiv.swap_apply_def]
  split_ifs with ha hb
  · rw [ha, hab]
  · rw [hb, hab]
  · rfl

/-- Another thread, and another lease. -/
def others : Renaming where
  native := Equiv.swap "thread-1" "thread-2"
  lease := Equiv.swap "lease-1" "lease-2"
  native_injective := Equiv.injective _
  lease_injective := Equiv.injective _
  native_size := apply_swap (g := fun s => Json.size (.str s))
    (by decide +kernel)
  lease_size := apply_swap (g := fun s => Json.size (.str s))
    (by decide +kernel)
  native_valid s := iff_of_eq (apply_swap (g := ValidNative)
    (propext (by decide +kernel)) s)

/-- The completed record of the sample, under other private identifiers. -/
def renamed : Record := others.record completed

theorem renamed_stored :
    Stored Reference.crates (directoryOf renamed) task₁ renamed where
  uuid := admissible.task_uuid
  file := Directory.write_self _ _ _
  safe := Renaming.safe_record completed_stored.safe
  length := by
    rw [renamed, Renaming.length_toVec_record]
    exact recoverable.completed_length

/-- The events of the recovery of a record. -/
def recoveryEvents (r : Record) : List Action :=
  ⟨.readDir, some (oneFile task₁)⟩ :: ⟨.read task₁, .bytes r.toVec⟩ ::
    recoverEvents task₁ r (brokerReceipt packet₁) (authorityOf packet₁)
      completion (ack packet₁) now

/-- The recovery of the completed turn, under other private identifiers. -/
def renamedCall : Call Reference.crates where
  param := mediator
  before := directoryOf renamed
  after := directoryOf (renamed.acknowledged (ack packet₁))
  events := recoveryEvents renamed
  result := some (.ok true)
  exec := by
    have h : Exec world (directoryOf renamed)
        (recover Reference.crates mediator task₁ renamed).run _ _ _ :=
      exec_recover_acknowledged admissible.task_uuid admissible.unsettling
        recoverable.completed_task recoverable.authorizes
        ⟨rfl, rfl, rfl, recoverable.replay_valid, answered.completion_valid⟩
        recoverable.ack_sendable recoverable.ack_matches
    have hscan := exec_scan_pending renamed_stored
      recoverable.completed_pending h
    rw [directoryOf, write_write] at hscan
    exact exec_runOnce_finished listing_oneFile hscan

/-- Answers that no renaming changes. -/
theorem inputs_exchange {req req' : RoomRequest} (hreq : req.path ≠ .claim)
    (reply : Reply) :
    List.Forall₂ others.Inputs (exchange req reply) (exchange req' reply) := by
  have hreply : others.Inputs ⟨.roomRequest req, reply⟩
      ⟨.roomRequest req', reply⟩ := by
    show if req.path = .claim then Renaming.Replies parseJson others.claim
      reply reply else reply = reply
    rw [if_neg hreq]
  exact .cons rfl (.cons hreply .nil)

theorem inputs_renamed : List.Forall₂ others.Inputs recoveryCall.events
    renamedCall.events := by
  have hreply : Renaming.Replies (workerBody (.receiptAck task₁))
      others.message noContent noContent :=
    .some ⟨rfl, by decide +kernel⟩
  have hread : others.Inputs ⟨.read task₁, .bytes completed.toVec⟩
      ⟨.read task₁, .bytes renamed.toVec⟩ :=
    iff_of_false (by rintro ⟨⟩) (by rintro ⟨⟩)
  have hack : List.Forall₂ others.Inputs
      (ackEvents task₁ (ack packet₁) completed)
      (ackEvents task₁ (ack packet₁) renamed) :=
    .cons trivial (.cons hreply (.cons rfl .nil))
  refine .cons rfl (.cons hread ?_)
  refine List.rel_append (inputs_exchange (by rintro ⟨⟩) _) ?_
  refine List.rel_append ?_ ?_
  · exact List.rel_append (inputs_exchange (by rintro ⟨⟩) _)
      (.cons rfl (.cons rfl .nil))
  · exact List.rel_append (inputs_exchange (by rintro ⟨⟩) _) hack

theorem sameInputs_renamed : others.SameInputs recoveryCall renamedCall where
  param := rfl
  answers i e e' he he' _ := by
    obtain ⟨hi, rfl⟩ := List.getElem?_eq_some_iff.mp he
    obtain ⟨hj, rfl⟩ := List.getElem?_eq_some_iff.mp he'
    exact (List.forall₂_iff_get.mp inputs_renamed).2 i hi hj
  cut := by
    rintro (hcut | hcut)
    · cases hcut
    · cases hcut

end Sample

/-- A stored completion is recovered under one lease and thread, and under
others. -/
theorem private_identifiers_confined_recoveryCall :
    Sample.renamed ≠ Sample.completed ∧
      roomRequests (trace [Sample.renamedCall]) =
        roomRequests (trace [Sample.recoveryCall]) ∧
      workerRequests (trace [Sample.renamedCall]) =
        workerRequests (trace [Sample.recoveryCall]) := by
  have hne : Sample.renamed ≠ Sample.completed := by
    decide +kernel
  have hd : Sample.others.Directories (Sample.directoryOf Sample.completed)
      (Sample.directoryOf Sample.renamed) :=
    Renaming.Directories.write (fun _ => .none) Sample.task₁
      Sample.completed_stored.safe
  exact ⟨hne, private_identifiers_confined
    (.snoc Sample.recoveryCall .nil rfl) (.snoc Sample.renamedCall .nil rfl)
    hd (.cons Sample.sameInputs_renamed .nil)⟩

end AgentGateway
