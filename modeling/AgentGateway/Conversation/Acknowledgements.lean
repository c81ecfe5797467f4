import AgentGateway.Conversation.Codes
import AgentGateway.Conversation.Retention

/-!
# Acknowledgements

A record is saved as acknowledged right after the worker answered the
acknowledgement.  The answer counts as accepted if its status is a success, and
also if the worker says that it does not know the task: the client treats that
answer, meant for receipts, in the same way on the path of acknowledgements.
After any other answer the record stays as it is.
-/

namespace AgentGateway

open Json (Value)
open Interaction
open Dispatcher

variable {K : Crates} {c : Dispatcher} {d : Directory} {h : List Action}
  {id lease : String} {a : Value} {r : Record} {reply : Reply}

/-! ## Answers -/

/-- The status of an answer is a success. -/
def Succeeded (reply : Reply) : Prop :=
  ∃ response, reply = some response ∧ isSuccess response.status = true

/-- The worker answers that the task is invalid. -/
def Refused (reply : Reply) : Prop :=
  ∃ response, reply = some response ∧ response.status = 400 ∧
    parseJson response.received =
      some (.object [("code", .str "invalid_task_input")])

/-- Exactly one of the two holds of an answer that is taken as acceptance. -/
theorem succeeded_iff_not_refused {v : Option Value}
    (hv : workerResponse (.receiptAck id) reply = .ok v) :
    Succeeded reply ↔ ¬Refused reply := by
  cases reply with
  | none => cases hv
  | some response =>
      have hbody : ∀ {w : Value},
          workerBody (.receiptAck id) response.received = some w →
            parseJson response.received = some w := by
        intro w hw
        rwa [workerBody, if_neg (by rintro ⟨⟩)] at hw
      have hexclusive : isSuccess response.status = true →
          response.status ≠ 400 := by
        intro hsuccess hstatus
        rw [hstatus] at hsuccess
        cases hsuccess
      constructor
      · rintro ⟨_, ⟨⟩, hsuccess⟩ ⟨_, ⟨⟩, hstatus, _⟩
        exact hexclusive hsuccess hstatus
      · intro hrefused
        refine ⟨response, rfl, ?_⟩
        by_cases hempty : response.status = 204
        · rw [hempty]; rfl
        · rw [workerResponse] at hv
          cases hw : workerBody (.receiptAck id) response.received with
          | none =>
              rw [hw, if_neg hempty] at hv
              split_ifs at hv
          | some w =>
              simp only [hw, if_neg hempty, workerValue] at hv
              split_ifs at hv with _ _ hcode hsuccess
              · obtain ⟨hstatus, _, rfl⟩ := hcode
                exact absurd ⟨response, rfl, hstatus, hbody hw⟩ hrefused
              · exact hsuccess

/-! ## Saves -/

/-- A record is saved as acknowledged right after an accepted answer. -/
theorem SaveGuarantee.ack_answered (hs : SaveGuarantee K c d h id r)
    (hphase : r.phase = "acknowledged") :
    ∃ a, r.ack = some a ∧ AckAnswered id a h := by
  have hsettled : ∀ {q : Record}, SettledBy h id q r →
      ∃ a, r.ack = some a ∧ AckAnswered id a h := by
    intro q hq
    cases hq with
    | quarantined _ => simp [Record.quarantined] at hphase
    | acknowledged hanswered => exact ⟨_, rfl, hanswered⟩
  cases hs with
  | recovery _ _ _ hby => exact hsettled hby
  | claim _ _ hchange =>
      cases hchange with
      | settle _ hby => exact hsettled hby
      | reserve hreserved _ => simp [hreserved] at hphase
      | intend _ _ => simp at hphase
      | interrupt _ _ => simp [Record.interrupted] at hphase
      | fail _ _ _ _ => simp [Record.failed] at hphase
      | complete _ _ _ _ => simp [Record.completed] at hphase

/-- Every answer that is neither of the two is not accepted. -/
theorem declines_of_not {a : Value} (hsucceeded : ¬Succeeded reply)
    (hrefused : ¬Refused reply) :
    Declines id ⟨.workerReceive (Worker.ackRequest id a), reply⟩ := by
  cases hreply : workerResponse (.receiptAck id) reply with
  | error err => exact ⟨a, reply, err, rfl, hreply⟩
  | ok v =>
      exact absurd ((succeeded_iff_not_refused hreply).mpr hrefused) hsucceeded

/-- A record becomes acknowledged with an acknowledgement right after the worker
answered its POST in the same call; the answer was a success unless it was the
answer that the task is invalid.  After any other answer, in the recovery and to
a claimed task, the record stays as it is until its file is read again. -/
theorem acknowledged_iff_succeeded {run : List (Call K)} (hrun : Run K run d)
    {past future : List (Call K)} {x : Call K}
    (hsplit : run = past ++ x :: future) :
    (∀ id r h e rest, x.events = h ++ e :: rest →
      (directory (trace past ++ h)).record id ≠ some r →
      (directory (trace past ++ h ++ [e])).record id = some r →
      r.phase = "acknowledged" →
        ∃ a h₁ reply, r.ack = some a ∧
          h = h₁ ++ [⟨.workerSend (Worker.ackRequest id a), ()⟩,
            ⟨.workerReceive (Worker.ackRequest id a), reply⟩] ∧
          (Succeeded reply ↔ ¬Refused reply)) ∧
    ∀ id a reply h es rest,
      x.events = h ++ ⟨.workerReceive (Worker.ackRequest id a), reply⟩ ::
        (es ++ rest) →
      ¬Succeeded reply → ¬Refused reply → (∀ e ∈ es, e.op ≠ .read id) →
        (directory (trace past ++ h ++
          ⟨.workerReceive (Worker.ackRequest id a), reply⟩ :: es)).record id =
            (directory (trace past ++ h)).record id := by
  subst hsplit
  constructor
  · intro id r h e rest hevents hbefore hafter hphase
    rw [directory_snoc] at hafter
    rcases record_step (hrun.guarantee hevents) id with
      hsame | ⟨q, ans, _, hsave, hnew⟩
    · exact absurd (hsame ▸ hafter) hbefore
    · rw [hnew] at hafter
      cases hafter
      obtain ⟨a, hack, h₁, reply, v, hh, hv⟩ := hsave.ack_answered hphase
      exact ⟨a, h₁, reply, hack, hh, succeeded_iff_not_refused hv⟩
  · intro id a reply h es rest hevents hsucceeded hrefused hread
    exact record_of_declined x hevents (declines_of_not hsucceeded hrefused)
      hread

/-- The events of the recovery up to the last save. -/
def Sample.beforeAcknowledged : List Action :=
  Sample.beforeReplay ++
    [⟨.roomRequest (updateRequest Sample.task₁ Sample.lease
      Sample.completion), response (Sample.ack Sample.packet₁)⟩,
    ⟨.workerSend (Worker.ackRequest Sample.task₁ (Sample.ack Sample.packet₁)),
      ()⟩,
    ⟨.workerReceive (Worker.ackRequest Sample.task₁
      (Sample.ack Sample.packet₁)), noContent⟩]

namespace Sample

/-- The worker does not answer the acknowledgement; the call goes on to its
claim. -/
def declinedCall : Call Reference.crates where
  param := mediator
  before := directoryOf completed
  after := directoryOf completed
  events := ⟨.readDir, some (oneFile task₁)⟩ ::
    ((⟨.read task₁, .bytes completed.toVec⟩ ::
      (replayEvents task₁ completed (brokerReceipt packet₁)
        (authorityOf packet₁) completion (ack packet₁) now ++
          workerExchange (Worker.ackRequest task₁ (ack packet₁)) none)) ++
      [(⟨.serviceToken mediator.claimRequest, none⟩ : Action)])
  result := none
  exec := exec_runOnce_claims listing_oneFile
    (exec_scan_pending completed_stored recoverable.completed_pending
      (exec_recover_unanswered admissible.unsettling recoverable.completed_task
        recoverable.authorizes ⟨rfl, rfl, rfl, recoverable.replay_valid,
          answered.completion_valid⟩ recoverable.ack_sendable
        recoverable.ack_matches)) none

theorem run_declinedCall :
    Run Reference.crates [completedCall, declinedCall]
      (directoryOf completed) :=
  .snoc declinedCall run_completedCall rfl

/-- The events of the recovery up to the worker's answer. -/
def beforeDeclined : List Action :=
  beforeReplay ++
    [⟨.roomRequest (updateRequest task₁ Sample.lease completion),
      response (ack packet₁)⟩,
    ⟨.workerSend (Worker.ackRequest task₁ (ack packet₁)), ()⟩]

theorem declinedCall_events : declinedCall.events = beforeDeclined ++
    ⟨.workerReceive (Worker.ackRequest task₁ (ack packet₁)), none⟩ ::
      ([⟨.serviceToken mediator.claimRequest, none⟩] ++ []) := by
  simp only [declinedCall, replayEvents, beforeDeclined, beforeReplay, exchange,
    workerExchange, List.cons_append, List.nil_append, List.append_assoc]
  rfl

end Sample

theorem acknowledged_iff_succeeded_conversation :
    (∃ a h₁ reply, Sample.acknowledged.ack = some a ∧
      Sample.beforeAcknowledged = h₁ ++
        [⟨.workerSend (Worker.ackRequest Sample.task₁ a), ()⟩,
          ⟨.workerReceive (Worker.ackRequest Sample.task₁ a), reply⟩] ∧
      (Succeeded reply ↔ ¬Refused reply)) ∧
    (directory (trace [Sample.completedCall] ++ Sample.beforeDeclined ++
      [⟨.workerReceive (Worker.ackRequest Sample.task₁
          (Sample.ack Sample.packet₁)), none⟩,
        ⟨.serviceToken Sample.mediator.claimRequest, none⟩])).record
          Sample.task₁ =
      (directory (trace [Sample.completedCall] ++
        Sample.beforeDeclined)).record Sample.task₁ := by
  have hsplit : Sample.conversation =
      [Sample.completedCall] ++ Sample.recoveryCall :: [] := rfl
  have hevents : Sample.recoveryCall.events = Sample.beforeAcknowledged ++
      [saved Sample.task₁ Sample.acknowledged] := by
    rw [Sample.recoveryCall_events, Sample.beforeAcknowledged,
      List.append_assoc]
    rfl
  have hstill : directory (trace [Sample.completedCall] ++
      Sample.beforeAcknowledged) =
        directory (trace [Sample.completedCall]) := by
    rw [directory, Environment.after_append]
    rfl
  have hafter : trace [Sample.completedCall] ++ Sample.beforeAcknowledged ++
      [saved Sample.task₁ Sample.acknowledged] = trace Sample.conversation := by
    rw [List.append_assoc, ← hevents]
    simp [Sample.conversation]
  constructor
  · refine (acknowledged_iff_succeeded Sample.run_conversation hsplit).1 _ _ _ _
      _ hevents ?_ ?_ rfl
    · rw [hstill, Sample.record_completedCall]
      intro heq
      exact absurd (congrArg Record.phase (Option.some.inj heq)) (by decide)
    · rw [hafter]
      exact Sample.record_conversation
  · have hdeclined : [Sample.completedCall, Sample.declinedCall] =
        [Sample.completedCall] ++ Sample.declinedCall :: [] := rfl
    refine (acknowledged_iff_succeeded Sample.run_declinedCall hdeclined).2
      _ _ _ _ _ _ Sample.declinedCall_events ?_ ?_ ?_
    · rintro ⟨_, ⟨⟩, _⟩
    · rintro ⟨_, ⟨⟩, _⟩
    · intro e he
      rw [List.mem_singleton.mp he]
      rintro ⟨⟩

namespace Sample

/-- What the worker says where it knows nothing of a task. -/
def invalidTaskInput : Value :=
  .object [("code", .str "invalid_task_input")]

/-- The worker's answer to an acknowledgement that it does not accept. -/
def refusal : Reply := some ⟨400, toVec invalidTaskInput, false⟩

theorem workerResponse_refusal :
    workerResponse (.receiptAck task₁) refusal = .ok none := by
  have hlength : ¬(toVec invalidTaskInput).length > maxJsonBytes := by decide
  have hbody : workerBody (.receiptAck task₁) (toVec invalidTaskInput) =
      some invalidTaskInput := by decide +kernel
  rw [refusal, workerResponse, if_neg hlength]
  simp only [hbody]
  rfl

/-- The completion is sent again; the worker refuses the broker's
acknowledgement. -/
def refusedAckCall : Call Reference.crates where
  param := mediator
  before := directoryOf completed
  after := directoryOf acknowledged
  events := ⟨.readDir, some (oneFile task₁)⟩ ::
    ⟨.read task₁, .bytes completed.toVec⟩ ::
      (replayEvents task₁ completed (brokerReceipt packet₁)
        (authorityOf packet₁) completion (ack packet₁) now ++
          answeredAckEvents task₁ (ack packet₁) refusal completed)
  result := some (.ok true)
  exec := by
    refine exec_runOnce_finished listing_oneFile
      (exec_scan_pending completed_stored recoverable.completed_pending ?_)
    have h : Exec world (directoryOf completed)
        (recover Reference.crates mediator task₁ completed).run _ _ _ :=
      exec_recover_replayed admissible.unsettling
        recoverable.completed_task recoverable.authorizes
        ⟨rfl, rfl, rfl, recoverable.replay_valid, answered.completion_valid⟩
        recoverable.ack_sendable
        (exec_acceptAck_answered admissible.task_uuid recoverable.ack_matches
          workerResponse_refusal)
    rwa [directoryOf, write_write] at h

theorem run_refusedAckCall : Run Reference.crates
    [completedCall, refusedAckCall] (directoryOf acknowledged) :=
  .snoc refusedAckCall run_completedCall rfl

end Sample

def ackReply : Action → Option Reply
  | ⟨.workerReceive ⟨_, .receiptAck _, _⟩, reply⟩ => some reply
  | _ => none

theorem ackReplies_refusedAckCall :
    Sample.refusedAckCall.events.filterMap ackReply = [Sample.refusal] := rfl

/-- The worker refuses an acknowledgement, and the record is acknowledged. -/
theorem acknowledged_of_refusal :
    Run Reference.crates [Sample.completedCall, Sample.refusedAckCall]
        (Sample.directoryOf Sample.acknowledged) ∧
      (directory (trace [Sample.completedCall])).record Sample.task₁ =
        some Sample.completed ∧
      (directory (trace [Sample.completedCall, Sample.refusedAckCall])).record
        Sample.task₁ = some Sample.acknowledged ∧
      Sample.acknowledged.phase = "acknowledged" ∧
      ∀ a reply, (⟨.workerReceive (Worker.ackRequest Sample.task₁ a), reply⟩ :
        Action) ∈ Sample.refusedAckCall.events → ¬Succeeded reply := by
  refine ⟨Sample.run_refusedAckCall, Sample.record_completedCall,
    Sample.record_of_run Sample.run_refusedAckCall ?_, rfl, ?_⟩
  · simp [Sample.refusedAckCall, answeredAckEvents, Sample.acknowledged]
  · intro a reply hmem
    have hreply : reply ∈ [Sample.refusal] := by
      rw [← ackReplies_refusedAckCall]
      exact List.mem_filterMap.mpr ⟨_, hmem, rfl⟩
    rw [List.mem_singleton.mp hreply]
    rintro ⟨_, ⟨⟩, hsuccess⟩
    cases hsuccess

end AgentGateway
