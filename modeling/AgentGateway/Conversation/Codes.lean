import AgentGateway.Conversation.Failures

/-!
# Failure codes

A failure that is sent to the broker consists of fixed texts, fields of the
broker's own packet, an identifier that the mediator drew, and a code.  The
worker contributes at most the code, which a receipt of the same call confirms.
The one exception is a failure over which a completed turn was accepted: it is
sent again by calls that know nothing of its receipt.
-/

namespace AgentGateway

open Json (Value)
open Interaction
open Dispatcher

variable {K : Crates} {c : Dispatcher} {d : Directory} {h : List Action}
  {id lease code : String} {p u v : Value} {r : Record}

/-! ## Receipts of failed turns -/

/-- The receipt of a turn that failed with a code. -/
structure FailedReceipt (p v : Value) (code : String) : Prop where
  closed : closed v ["taskId", "conversationId", "generation", "phase",
    "result", "acknowledgement", "error", "runtimeBinding"] = true
  task : v["taskId"] = p["taskId"]
  conversation : v["conversationId"] = p["conversation"]["id"]
  generation : v["generation"] = p["conversation"]["generation"]
  phase : v["phase"] = .str "failed" ∨ v["phase"] = .str "interrupted"
  result : v["result"] = .null
  acknowledgement : v["acknowledgement"] = .null
  runtimeBinding : v["runtimeBinding"] = .null
  error : v["error"] = .str code

theorem failedReceipt_of_receiptFailure (hv : receiptFailure v p = some code) :
    FailedReceipt p v code := by
  obtain ⟨⟨⟩, hagrees, hv⟩ := Option.bind_eq_some_iff.mp hv
  obtain ⟨phase, hphase, hv⟩ := Option.bind_eq_some_iff.mp hv
  obtain ⟨⟨⟩, hfailed, hv⟩ := Option.bind_eq_some_iff.mp hv
  obtain ⟨⟨⟩, hresult, hv⟩ := Option.bind_eq_some_iff.mp hv
  obtain ⟨⟨⟩, hack, hv⟩ := Option.bind_eq_some_iff.mp hv
  obtain ⟨⟨⟩, hruntime, hv⟩ := Option.bind_eq_some_iff.mp hv
  obtain ⟨error, herror, hv⟩ := Option.bind_eq_some_iff.mp hv
  obtain ⟨⟨⟩, hclosed, hagrees⟩ := Option.bind_eq_some_iff.mp hagrees
  obtain ⟨⟨⟩, htask, hagrees⟩ := Option.bind_eq_some_iff.mp hagrees
  obtain ⟨⟨⟩, hconversation, hagrees⟩ := Option.bind_eq_some_iff.mp hagrees
  obtain ⟨⟨⟩, hgeneration, _⟩ := Option.bind_eq_some_iff.mp hagrees
  obtain ⟨hcode, _⟩ := safeFailureCode_eq_some hv
  have hphases : phase = "failed" ∨ phase = "interrupted" := by
    simpa using guard_eq_some.mp hfailed
  rw [Value.asStr?_eq_some] at hphase
  constructor
  · exact guard_eq_some.mp hclosed
  · exact guard_eq_some.mp htask
  · exact guard_eq_some.mp hconversation
  · exact guard_eq_some.mp hgeneration
  · rw [hphase]
    exact hphases.imp (congrArg Value.str) (congrArg Value.str)
  · exact (Value.isNull_iff _).mp (guard_eq_some.mp hresult)
  · exact (Value.isNull_iff _).mp (guard_eq_some.mp hack)
  · exact (Value.isNull_iff _).mp (guard_eq_some.mp hruntime)
  · rw [Value.asStr?_eq_some.mp herror, hcode]

/-- The code of a failed receipt is a known one. -/
theorem known_of_receiptFailure (hv : receiptFailure v p = some code) :
    code ∈ failureCodes ∧ safeFailureCode code = some code := by
  obtain ⟨⟨⟩, _, hv⟩ := Option.bind_eq_some_iff.mp hv
  obtain ⟨_, _, hv⟩ := Option.bind_eq_some_iff.mp hv
  obtain ⟨⟨⟩, _, hv⟩ := Option.bind_eq_some_iff.mp hv
  obtain ⟨⟨⟩, _, hv⟩ := Option.bind_eq_some_iff.mp hv
  obtain ⟨⟨⟩, _, hv⟩ := Option.bind_eq_some_iff.mp hv
  obtain ⟨⟨⟩, _, hv⟩ := Option.bind_eq_some_iff.mp hv
  obtain ⟨error, _, hv⟩ := Option.bind_eq_some_iff.mp hv
  obtain ⟨rfl, hmem⟩ := safeFailureCode_eq_some hv
  exact ⟨hmem, hv⟩

/-! ## Failures and where their parts come from -/

/-- The broker answered a request with a claim of this packet. -/
def Disclosed (t : List Action) (p : Value) : Prop :=
  ∃ req reply claim, (⟨.roomRequest req, reply⟩ : Action) ∈ t ∧
    roomResponse reply = .ok (some claim) ∧ claim["packet"] = p

/-- A failure for a packet that the broker disclosed, with a drawn identifier
and a known code. -/
structure Composed (t : List Action) (p : Value) (code updateId : String)
    (u : Value) : Prop where
  update : u = updateValue p "failed" (failureData code) updateId
  disclosed : Disclosed t p
  drawn : ⟨.newUuid, updateId⟩ ∈ t
  known : code ∈ failureCodes

theorem Disclosed.mono {t t' : List Action} (ht : Disclosed t p)
    (hsub : t ⊆ t') : Disclosed t' p := by
  obtain ⟨req, reply, claim, hmem, hclaim⟩ := ht
  exact ⟨req, reply, claim, hsub hmem, hclaim⟩

theorem Composed.mono {t t' : List Action} {updateId : String}
    (hu : Composed t p code updateId u) (hsub : t ⊆ t') :
    Composed t' p code updateId u :=
  ⟨hu.update, hu.disclosed.mono hsub, hsub hu.drawn, hu.known⟩

theorem Claimed.disclosed (hclaim : Claimed K c h id p lease) :
    Disclosed h p := by
  obtain ⟨reply, claim, hmem, hanswer, hp, _⟩ := hclaim.answered
  exact ⟨_, reply, claim, hmem, hanswer, hp⟩

/-- An update that is saved was stored before, or it is built now. -/
theorem SaveGuarantee.update_cases (hs : SaveGuarantee K c d h id r)
    (hu : r.update = some u) :
    (∃ q, d.record id = some q ∧ q.update = some u) ∨
      (∃ p code updateId, p["taskId"] = .str id ∧
        Composed h p code updateId u) ∨
      ∃ p x updateId, u = updateValue p "completed" x updateId := by
  rcases hs.update_built hu with hstored | ⟨p, lease, q, hclaim, _, hbuilt⟩
  · exact .inl hstored
  · cases hbuilt with
    | @failed code updateId hcode hdrawn =>
        exact .inr (.inl ⟨p, code, updateId, hclaim.task, rfl,
          hclaim.disclosed, hdrawn, hcode⟩)
    | completed _ _ _ => exact .inr (.inr ⟨_, _, _, rfl⟩)

/-- A stored failure was composed for the task at some earlier moment. -/
theorem Run.composed {run : List (Call K)} (hrun : Run K run d)
    {t : List Action} (ht : t <+: trace run)
    (hr : (directory t).record id = some r) (hu : r.update = some u)
    (hkind : u["kind"] = .str "failed") :
    ∃ p code updateId, p["taskId"] = .str id ∧
      Composed t p code updateId u := by
  refine Run.forall_trace (P := fun t => ∀ id r,
    (directory t).record id = some r → r.update = some u →
      ∃ p code updateId, p["taskId"] = .str id ∧
        Composed t p code updateId u) ?_ ?_ ht id r hr hu
  · rintro id r ⟨⟩
  · rintro past x future h e rest rfl hevents hinv id r hr hu
    have hgrows : trace past ++ h ⊆ trace past ++ h ++ [e] :=
      List.subset_append_left _ _
    have hstored : ∀ q : Record,
        (directory (trace past ++ h)).record id = some q →
        q.update = some u → ∃ p code updateId, p["taskId"] = .str id ∧
          Composed (trace past ++ h ++ [e]) p code updateId u := by
      intro q hq hv
      obtain ⟨p, code, updateId, htask, hcomposed⟩ := hinv id q hq hv
      exact ⟨p, code, updateId, htask, hcomposed.mono hgrows⟩
    rw [directory_snoc] at hr
    rcases record_step (hrun.guarantee hevents) id with
      hsame | ⟨q, ans, _, hsave, hnew⟩
    · exact hstored r (hsame ▸ hr) hu
    · rw [hnew] at hr
      cases hr
      rcases hsave.update_cases hu with
        ⟨q, hq, hv⟩ | ⟨p, code, updateId, htask, hcomposed⟩ |
          ⟨p, x, updateId, rfl⟩
      · exact hstored q hq hv
      · exact ⟨p, code, updateId, htask, hcomposed.mono
          (List.Subset.trans (List.subset_append_right _ _) hgrows)⟩
      · exact absurd hkind (ne_failed_of_completed (updateValue_kind _ _ _ _))

/-! ## Failures that are sent -/

/-- No call of a run accepts a completed turn over a stored failure that has
another code than `conversation_interrupted`. -/
def NeverOverturned (run : List (Call K)) : Prop :=
  ∀ past x future h rest f, run = past ++ x :: future → x.events = h ++ rest →
    Overturns K x.param (directory (trace past ++ h)) h f →
      f["data"] = failureData "conversation_interrupted"

/-- A code other than `conversation_interrupted` stands in a receipt that the
call read, and, where the call submitted the turn, in the answer to that. -/
structure Confirmed (h : List Action) (id : String) (p : Value)
    (code : String) : Prop where
  receipt : ∃ reply v,
    (⟨.workerReceive (Worker.receiptRequest id), reply⟩ : Action) ∈ h ∧
      workerResponse (.receipt id) reply = .ok (some v) ∧
      FailedReceipt p v code
  rejection : ∀ a ∈ h, Sends a → ∃ rpcId reply v error,
    a.op = .workerSend (Worker.rpcRequest rpcId "SendMessage"
      (sendParams id p)) ∧
    (⟨.workerReceive (Worker.rpcRequest rpcId "SendMessage"
      (sendParams id p)), reply⟩ : Action) ∈ h ∧
    workerResponse .rpc reply = .ok (some v) ∧
    v.get? "error" = some error ∧ error["message"] = .str code

theorem not_sends_of_unsent_mem {a : Action} (hh : Unsent h) (ha : a ∈ h) :
    ¬Sends a := not_sends_of_unsent (hh a ha)

theorem FailureReported.receipt (hf : FailureReported h id p code) :
    ∃ reply v,
      (⟨.workerReceive (Worker.receiptRequest id), reply⟩ : Action) ∈ h ∧
        workerResponse (.receipt id) reply = .ok (some v) ∧
        FailedReceipt p v code := by
  obtain ⟨reply, v, hmem, hv, hfailure⟩ := hf
  exact ⟨reply, v, hmem, hv, failedReceipt_of_receiptFailure hfailure⟩

theorem Rejected.rejection (hr : Rejected h id p code) {a : Action}
    (ha : a ∈ h) (hsends : Sends a) : ∃ rpcId reply v error,
      a.op = .workerSend (Worker.rpcRequest rpcId "SendMessage"
        (sendParams id p)) ∧
      (⟨.workerReceive (Worker.rpcRequest rpcId "SendMessage"
        (sendParams id p)), reply⟩ : Action) ∈ h ∧
      workerResponse .rpc reply = .ok (some v) ∧
      v.get? "error" = some error ∧ error["message"] = .str code := by
  obtain ⟨h₁, rpcId, h₂, reply, v, error, rfl, hbefore, hafter, hmem, hv, _,
    herror, hmessage⟩ := hr
  refine ⟨rpcId, reply, v, error, ?_, by simp [hmem], hv, herror, hmessage⟩
  rcases List.mem_append.mp ha with ha | ha
  · exact absurd hsends (not_sends_of_unsent_mem hbefore ha)
  · rcases List.mem_cons.mp ha with rfl | ha
    · rfl
    · exact absurd hsends (not_sends_of_unsent_mem hafter ha)

theorem Fails.confirmed (hf : Fails h id p r code)
    (hcode : code ≠ "conversation_interrupted") : Confirmed h id p code := by
  cases hf with
  | receipt _ hunsent hreported =>
      constructor
      · exact (hreported hcode).receipt
      · intro a ha hsends
        exact absurd hsends (not_sends_of_unsent_mem hunsent ha)
  | rejection _ _ hrejected =>
      obtain ⟨hreported, hrejected⟩ := hrejected hcode
      constructor
      · exact hreported.receipt
      · intro a ha hsends
        exact hrejected.rejection ha hsends

/-- A failure that is sent was given up in this call, or it is the update of a
completed record. -/
theorem PostGuarantee.cause (hpost : PostGuarantee K c d h id lease u) :
    (∃ r, d.record id = some r ∧ r.phase = "completed" ∧
        r.update = some u) ∨
      ∃ p r code updateId, Claimed K c h id p lease ∧
        Composed h p code updateId u ∧ Fails h id p r code := by
  cases hpost with
  | replay hr _ _ hreplay _ =>
      exact .inl ⟨_, hr, hreplay.phase, hreplay.update⟩
  | publish _ hr _ _ _ _ _ _ _ => exact .inl ⟨_, hr, rfl, rfl⟩
  | @failed p r code updateId hclaim hcode hdrawn _ _ _ _ hcause _ =>
      exact .inr ⟨p, r, code, updateId, hclaim,
        ⟨rfl, hclaim.disclosed, hdrawn, hcode⟩, hcause⟩

theorem failureData_inj {code' : String}
    (heq : failureData code = failureData code') : code = code' := by
  have hcode := congrArg (fun v : Value => v["code"]) heq
  simp only [failureData, Value.getElem_object] at hcode
  exact Value.str.inj hcode

theorem Composed.data {t : List Action} {updateId : String}
    (hu : Composed t p code updateId u) : u["data"] = failureData code := by
  rw [hu.update, updateValue, Value.getElem_object]
  rfl

/-- Every failure that is sent for a task was composed of the broker's packet
of that task and a known code, which a receipt of the same call confirms where
it is not the one for interruptions. -/
theorem failed_updates_confirmed {run : List (Call K)} (hrun : Run K run d)
    (hnever : NeverOverturned run) {past future : List (Call K)} {x : Call K}
    (hsplit : run = past ++ x :: future) {h rest : List Action} {a : Action}
    (hevents : x.events = h ++ a :: rest) (hpost : Posts a id lease u)
    (hkind : u["kind"] = .str "failed") :
    ∃ p code updateId, p["taskId"] = .str id ∧
      Composed (trace past ++ h) p code updateId u ∧
      (code ≠ "conversation_interrupted" → Confirmed h id p code) := by
  subst hsplit
  have hinitial : trace past ++ h <+: trace (past ++ x :: future) :=
    ⟨a :: rest ++ trace future, by simp [hevents]⟩
  rcases (postGuarantee_of_posts (hrun.guarantee hevents) hpost).cause with
    ⟨r, hr, hphase, hu⟩ | ⟨p, r, code, updateId, hclaim, hcomposed, hfails⟩
  · obtain ⟨p, code, updateId, htask, hcomposed⟩ :=
      hrun.composed hinitial hr hu hkind
    refine ⟨p, code, updateId, htask, hcomposed, fun hcode => ?_⟩
    rcases hrun.completion_or hnever hinitial hr hphase hu with
      hcompleted | hinterrupted
    · exact absurd hkind (ne_failed_of_completed hcompleted)
    · rw [hcomposed.data] at hinterrupted
      exact absurd (failureData_inj hinterrupted) hcode
  · exact ⟨p, code, updateId, hclaim.task,
      hcomposed.mono (List.subset_append_right _ _), hfails.confirmed⟩

/-! ### The sample -/

namespace Sample

/-- The worker's receipt of a turn that failed. -/
def failedReceipt (p : Value) (code : String) : Value := .object
  [("taskId", p["taskId"]), ("conversationId", p["conversation"]["id"]),
    ("generation", p["conversation"]["generation"]),
    ("phase", .str "failed"), ("result", .null),
    ("acknowledgement", .null), ("error", .str code),
    ("runtimeBinding", .null)]

/-- The failure that the receipt confirms. -/
def rejection : Value :=
  updateValue packet₁ "failed" (failureData "execution_failed")
    (ident "0000001e")

/-- The record of a turn that failed with a code. -/
def refused : Record := reserved.failed rejection

/-- What the mediator checks in these calls. -/
structure Outcomes : Prop where
  receipt_sendable :
    Sendable maxJsonBytes (failedReceipt packet₁ "execution_failed")
  receipt_agrees :
    validateReceipt (failedReceipt packet₁ "execution_failed") packet₁ =
      some ()
  receipt_phase :
    (failedReceipt packet₁ "execution_failed")["phase"] ≠ .str "completed"
  receipt_failure :
    receiptFailure (failedReceipt packet₁ "execution_failed") packet₁ =
      some "execution_failed"
  rejection_valid :
    schema Reference.crates Contracts.update rejection = some ()
  refused_length : refused.toVec.length ≤ maxJsonBytes

theorem outcomes : Outcomes where
  receipt_sendable := .of_strict (by decide +kernel) (by decide +kernel)
    (by decide +kernel)
  receipt_agrees := by decide +kernel
  receipt_phase := by decide +kernel
  receipt_failure := by decide +kernel
  rejection_valid := by decide +kernel
  refused_length := by decide +kernel

def failedEvents (r : Record) : List Action :=
  receiptEvents task₁ (response (failedReceipt packet₁ "execution_failed")) ++
    (cancelEvents task₁ (ident "0000001d") ++
      (⟨.newUuid, ident "0000001e"⟩ :: saved task₁ (r.failed rejection) ::
        exchange (updateRequest task₁ Sample.lease rejection) none))

/-- The worker reports that the turn failed. -/
def failedCall : Call Reference.crates where
  param := mediator
  before := Directory.empty
  after := directoryOf refused
  events := firstClaim ++ failedEvents reserved
  result := some (.error (.broker (.http none)))
  exec := exec_firstClaim (exec_settle_failed admissible.task_uuid
    outcomes.receipt_sendable outcomes.receipt_agrees outcomes.receipt_phase
    outcomes.receipt_failure (by decide) outcomes.rejection_valid)

/-- The events of the failed turn up to its update. -/
def beforeRejection : List Action :=
  firstClaim ++
    (receiptEvents task₁ (response (failedReceipt packet₁ "execution_failed"))
      ++ (cancelEvents task₁ (ident "0000001d") ++
        [⟨.newUuid, ident "0000001e"⟩, saved task₁ refused,
          ⟨.serviceToken (updateRequest task₁ Sample.lease rejection),
            serviceToken⟩]))

theorem failedCall_events : failedCall.events = beforeRejection ++
    [⟨.roomRequest (updateRequest task₁ Sample.lease rejection), none⟩] := by
  simp [failedCall, failedEvents, beforeRejection, exchange, refused]

theorem run_failedCall :
    Run Reference.crates [failedCall] (directoryOf refused) :=
  .snoc failedCall .nil rfl

theorem refused_stored :
    Stored Reference.crates (directoryOf refused) task₁ refused :=
  stored run_failedCall (by simp [failedCall, failedEvents, refused])
    outcomes.refused_length

/-- The record of the failed turn, completed all the same. -/
def overturned : Record := refused.completed reply runtime rejection

/-- The task is claimed again, and the worker has completed it. -/
def overturnedCall : Call Reference.crates where
  param := mediator
  before := directoryOf refused
  after := directoryOf overturned
  events := laterClaim refused [⟨.read task₁, .bytes refused.toVec⟩] ++
    completedEvents refused reply rejection []
  result := some (.error (.broker (.http none)))
  exec := by
    have h := exec_laterClaim refused_stored rfl rfl (by decide)
      (exec_scan_skipped refused_stored (not_pending_of_result rfl))
      (exec_settled rfl rfl rfl answered.reply_completed
        answered.reply_valid (.stored rfl) outcomes.rejection_valid)
    rwa [directoryOf, write_write] at h

/-- The events of the late completion up to its update. -/
def beforeOverturned : List Action :=
  laterClaim refused [⟨.read task₁, .bytes refused.toVec⟩] ++
    (receiptEvents task₁ (response (completedReceipt packet₁ reply)) ++
      (authorityEvents task₁ Sample.lease (authorityOf packet₁) now ++
        [saved task₁ overturned,
          ⟨.serviceToken (updateRequest task₁ Sample.lease rejection),
            serviceToken⟩]))

theorem overturnedCall_events : overturnedCall.events = beforeOverturned ++
    [⟨.roomRequest (updateRequest task₁ Sample.lease rejection), none⟩] := by
  simp [overturnedCall, completedEvents, beforeOverturned, exchange,
    overturned]

theorem run_overturnedCall : Run Reference.crates
    [failedCall, overturnedCall] (directoryOf overturned) :=
  .snoc overturnedCall run_failedCall rfl

end Sample

theorem receiptReads_failedCall :
    (trace [Sample.failedCall]).filterMap receiptRead =
      [(Sample.task₁, response
        (Sample.failedReceipt Sample.packet₁ "execution_failed"))] := rfl

theorem neverOverturned_failedCall : NeverOverturned [Sample.failedCall] := by
  rintro past x future h rest f hsplit hevents
    ⟨id, p, lease, r, y, z, _, _, _, _, _, hcompletes, _⟩
  obtain ⟨reply, v, hmem, hv, _, hphase, _⟩ := hcompletes.reported
  have htrace : (⟨.workerReceive (Worker.receiptRequest id), reply⟩ : Action) ∈
      trace [Sample.failedCall] := by
    rw [hsplit, trace_append, trace_cons, hevents]
    simp [hmem]
  have hread : (id, reply) ∈ [(Sample.task₁, response
      (Sample.failedReceipt Sample.packet₁ "execution_failed"))] := by
    rw [← receiptReads_failedCall]
    exact List.mem_filterMap.mpr ⟨_, htrace, rfl⟩
  obtain ⟨rfl, rfl⟩ := Prod.mk.inj (List.mem_singleton.mp hread)
  rw [workerResponse_response (by rintro ⟨⟩)
    Sample.outcomes.receipt_sendable] at hv
  cases hv
  exact absurd hphase Sample.outcomes.receipt_phase

theorem failed_updates_confirmed_failedCall :
    ∃ p code updateId, p["taskId"] = .str Sample.task₁ ∧
      Composed Sample.beforeRejection p code updateId Sample.rejection ∧
      (code ≠ "conversation_interrupted" →
        Confirmed Sample.beforeRejection Sample.task₁ p code) := by
  have hsplit : [Sample.failedCall] = [] ++ Sample.failedCall :: [] := rfl
  have hpost : Posts ⟨.roomRequest (updateRequest Sample.task₁ Sample.lease
      Sample.rejection), none⟩ Sample.task₁ Sample.lease Sample.rejection :=
    rfl
  exact failed_updates_confirmed Sample.run_failedCall
    neverOverturned_failedCall hsplit Sample.failedCall_events hpost
    (updateValue_kind _ _ _ _)

theorem receiptReads_overturnedCall :
    Sample.overturnedCall.events.filterMap receiptRead =
      [(Sample.task₁, response
        (Sample.completedReceipt Sample.packet₁ Sample.reply))] := rfl

/-- A turn fails with a code; the next call finds it completed, and sends the
failure with its code again. -/
theorem failed_update_unconfirmed :
    Run Reference.crates [Sample.failedCall, Sample.overturnedCall]
        (Sample.directoryOf Sample.overturned) ∧
      Sample.overturnedCall.events = Sample.beforeOverturned ++
        [⟨.roomRequest (updateRequest Sample.task₁ Sample.lease
          Sample.rejection), none⟩] ∧
      Sample.rejection["kind"] = .str "failed" ∧
      ¬∃ p code updateId,
        Composed (trace [Sample.failedCall] ++ Sample.beforeOverturned) p code
          updateId Sample.rejection ∧
        (code ≠ "conversation_interrupted" →
          Confirmed Sample.beforeOverturned Sample.task₁ p code) := by
  refine ⟨Sample.run_overturnedCall, Sample.overturnedCall_events,
    updateValue_kind _ _ _ _, ?_⟩
  rintro ⟨p, code, updateId, hcomposed, hconfirmed⟩
  have hcode : failureData "execution_failed" = failureData code := by
    rw [← hcomposed.data, Sample.rejection, updateValue,
      Value.getElem_object]
    rfl
  have hcode : code = "execution_failed" := (failureData_inj hcode).symm
  have hother : code ≠ "conversation_interrupted" := by
    rw [hcode]
    decide
  obtain ⟨reply, v, hmem, hv, hfailed⟩ := (hconfirmed hother).receipt
  have hevent : (⟨.workerReceive (Worker.receiptRequest Sample.task₁),
      reply⟩ : Action) ∈ Sample.overturnedCall.events := by
    rw [Sample.overturnedCall_events]
    exact List.mem_append_left _ hmem
  have hread : (Sample.task₁, reply) ∈ [(Sample.task₁, response
      (Sample.completedReceipt Sample.packet₁ Sample.reply))] := by
    rw [← receiptReads_overturnedCall]
    exact List.mem_filterMap.mpr ⟨_, hevent, rfl⟩
  rw [(Prod.mk.inj (List.mem_singleton.mp hread)).2, workerResponse_response
    (by rintro ⟨⟩) Sample.answered.reply_completed.sendable] at hv
  cases hv
  have hphase := Sample.answered.reply_completed.phase
  rcases hfailed.phase with hfailure | hfailure <;> rw [hphase] at hfailure
  · exact absurd (Value.str.inj hfailure) (by decide)
  · exact absurd (Value.str.inj hfailure) (by decide)

end AgentGateway
