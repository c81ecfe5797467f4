import AgentGateway.Conversation.Invariants

/-!
# At most one provider turn

The task of every submission has a durable record that is no longer reserved,
and between the save of the reserved record and the submission nothing is sent.
Together these exclude a second submission of a task.
-/

namespace AgentGateway

open Json (Value)
open Interaction
open Dispatcher

variable {K : Crates}

/-- The task id in a `SendMessage` request. -/
def WorkerRequest.sentTask (req : WorkerRequest) : Option String :=
  match req.body with
  | some b =>
      if req.path = .rpc ∧ b["method"] = .str "SendMessage" then
        b["params"]["message"]["taskId"].asStr?
      else none
  | none => none

def sentTask : Action → Option String
  | ⟨.workerSend req, _⟩ => req.sentTask
  | _ => none

theorem WorkerRequest.sentTask_eq_none {req : WorkerRequest}
    (hreq : ¬req.IsSend) : req.sentTask = none := by
  unfold WorkerRequest.sentTask
  cases hb : req.body with
  | none => rfl
  | some b => exact if_neg fun hsend => hreq ⟨hsend.1, b, hb, hsend.2⟩

theorem sentTask_eq_none {a : Action} (ha : ¬Sends a) : sentTask a = none := by
  obtain ⟨op, ans⟩ := a
  cases op with
  | workerSend req =>
      exact WorkerRequest.sentTask_eq_none fun hreq => ha ⟨req, rfl, hreq⟩
  | _ => rfl

theorem sentTask_rpcRequest {rpcId id : String} {p : Value} {a : Action}
    (ha : a.op = .workerSend
      (Worker.rpcRequest rpcId "SendMessage" (sendParams id p))) :
    sentTask a = p["taskId"].asStr? := by
  obtain ⟨op, ans⟩ := a
  subst ha
  obtain ⟨b, hb, hmethod, hparams⟩ :=
    Worker.rpcRequest_method rpcId "SendMessage" (sendParams id p)
  have htask : (sendParams id p)["message"]["taskId"] = p["taskId"] := by
    rw [sendParams, Value.getElem_object]
    show (Value.object _)["taskId"] = _
    rw [Value.getElem_object]
    rfl
  show (Worker.rpcRequest rpcId "SendMessage" (sendParams id p)).sentTask = _
  rw [WorkerRequest.sentTask, hb]
  simp only [hmethod, hparams, htask]
  exact if_pos ⟨rfl, trivial⟩

/-- The submissions of some events, by task. -/
def sentTasks (t : List Action) : List String := t.filterMap sentTask

theorem sentTasks_append (t u : List Action) :
    sentTasks (t ++ u) = sentTasks t ++ sentTasks u :=
  List.filterMap_append

/-- Whether an event submits is decided by the operation. -/
theorem guarantee_of_sends {c : Dispatcher} {d : Directory} {h : List Action}
    {a : Action} (hG : Guarantee K c d h a) (ha : Sends a) :
    ∃ req, a.op = .workerSend req ∧ SendGuarantee K c d h req := by
  obtain ⟨req, hop, hsend⟩ := ha
  obtain ⟨op, ans⟩ := a
  subst hop
  exact ⟨req, rfl, hG hsend⟩

/-- A record that is not reserved never becomes reserved again. -/
theorem SaveGuarantee.phase_ne {c : Dispatcher} {d : Directory}
    {h : List Action} {id : String} {r r' : Record}
    (hsave : SaveGuarantee K c d h id r') (hr : d.record id = some r)
    (hphase : r.phase ≠ "reserved") : r'.phase ≠ "reserved" := by
  have hsettles : ∀ {q q' : Record}, Settles K q q' →
      q'.phase ≠ "reserved" := by
    rintro q q' (_ | _)
    · simp [Record.quarantined]
    · simp [Record.acknowledged]
  cases hsave with
  | recovery _ _ hs => exact hsettles hs
  | @claim p lease q _ _ hheld hchange =>
      have hq : q.phase ≠ "reserved" := by
        cases hheld with
        | stored hq _ =>
            rw [hr] at hq
            cases hq
            exact hphase
        | fresh hnone _ _ =>
            rw [Directory.record_eq_none_of hnone] at hr
            cases hr
      cases hchange with
      | settle hs => exact hsettles hs
      | reserve hreserved _ => exact absurd hreserved hq
      | intend hreserved _ => exact absurd hreserved hq
      | interrupt _ _ => simp [Record.interrupted]
      | fail _ _ _ _ => simp [Record.failed]
      | complete _ _ _ _ => simp [Record.completed]

/-- The invariant of a run, after the events `t` before the call and the events
`h` of the call. -/
structure SubmissionInvariant (t h : List Action) (d : Directory) :
    Prop where
  started : ∀ id ∈ sentTasks (t ++ h),
    ∃ r, d.record id = some r ∧ r.phase ≠ "reserved"
  once : (sentTasks (t ++ h)).Nodup
  reserved : ∀ id r h₁ h₂, h = h₁ ++ saved id r :: h₂ →
    r.phase = "reserved" → (∀ a ∈ h₂, ¬Sends a) → id ∉ sentTasks (t ++ h)

theorem started_step {c : Dispatcher} {t h : List Action} {d : Directory}
    {e : Action} (hG : Guarantee K c d h e) (hinv : SubmissionInvariant t h d)
    {id : String} (hid : id ∈ sentTasks (t ++ h)) :
    ∃ r, (written d e).record id = some r ∧ r.phase ≠ "reserved" := by
  obtain ⟨r, hr, hphase⟩ := hinv.started id hid
  rcases record_step hG id with hsame | ⟨r', ans, _, hsave, hnew⟩
  · exact ⟨r, by rw [hsame, hr], hphase⟩
  · exact ⟨r', hnew, hsave.phase_ne hr hphase⟩

theorem split_snoc {h k₁ k₂ : List Action} {e a : Action}
    (hk : h ++ [e] = k₁ ++ a :: k₂) :
    (k₂ = [] ∧ e = a) ∨ ∃ k₃, k₂ = k₃ ++ [e] ∧ h = k₁ ++ a :: k₃ := by
  rcases List.eq_nil_or_concat k₂ with rfl | ⟨k₃, b, rfl⟩
  · obtain ⟨_, heq⟩ := List.append_inj' hk rfl
    exact .inl ⟨rfl, by simpa using heq⟩
  · rw [List.concat_eq_append, ← List.cons_append, ← List.append_assoc] at hk
    obtain ⟨hsame, heq⟩ := List.append_inj' hk rfl
    obtain rfl : e = b := by simpa using heq
    exact .inr ⟨k₃, by simp, hsame⟩

/-- A submission: its task was not submitted before, and no reserved record is
saved after it. -/
theorem submissionInvariant_sends {c : Dispatcher} {t h : List Action}
    {d : Directory} {e : Action} (hG : Guarantee K c d h e) (hsends : Sends e)
    (hinv : SubmissionInvariant t h d) :
    SubmissionInvariant t (h ++ [e]) (written d e) := by
  obtain ⟨req, hop, hsend⟩ := guarantee_of_sends hG hsends
  cases hsend with
  | @intro id rpcId lease p r r₁ h₁ h₂ hclaim hrecord hphase _ _ hreserved
      hr₁ hunsent =>
    have hsent : sentTasks (t ++ (h ++ [e])) = sentTasks (t ++ h) ++ [id] := by
      have htask : sentTask e = some id := by
        rw [sentTask_rpcRequest hop, hclaim.task]
        rfl
      rw [← List.append_assoc, sentTasks_append]
      simp [sentTasks, htask]
    have hfresh : id ∉ sentTasks (t ++ h) :=
      hinv.reserved id r₁ h₁ h₂ hreserved hr₁ hunsent
    have hquiet : e.op.Quiet := by
      rw [hop]
      trivial
    constructor
    · intro i hi
      rw [hsent] at hi
      rcases List.mem_append.mp hi with hi | hi
      · exact started_step hG hinv hi
      · rw [List.mem_singleton.mp hi, written_of_quiet hquiet]
        exact ⟨r, hrecord, by simp [hphase]⟩
    · rw [hsent]
      exact List.nodup_append.mpr ⟨hinv.once, by simp, by
        rintro a ha b hb rfl
        exact hfresh (List.mem_singleton.mp hb ▸ ha)⟩
    · intro i q k₁ k₂ hk hq hun
      rcases split_snoc hk with ⟨_, hsave⟩ | ⟨k₃, rfl, _⟩
      · rw [hsave] at hop
        cases hop
      · exact absurd hsends (hun e (by simp))

theorem submissionInvariant_step {c : Dispatcher} {t h : List Action}
    {d : Directory} {e : Action} (hG : Guarantee K c d h e)
    (hinv : SubmissionInvariant t h d) :
    SubmissionInvariant t (h ++ [e]) (written d e) := by
  by_cases hsends : Sends e
  · exact submissionInvariant_sends hG hsends hinv
  have hsent : sentTasks (t ++ (h ++ [e])) = sentTasks (t ++ h) := by
    rw [← List.append_assoc, sentTasks_append]
    simp [sentTasks, sentTask_eq_none hsends]
  constructor
  · intro id hid
    rw [hsent] at hid
    exact started_step hG hinv hid
  · rw [hsent]
    exact hinv.once
  · intro i q k₁ k₂ hk hq hun
    rw [hsent]
    rcases split_snoc hk with ⟨_, hsave⟩ | ⟨k₃, rfl, hh⟩
    · -- A reserved record is saved, so the old one was reserved, if any.
      intro hi
      obtain ⟨r, hr, hphase⟩ := hinv.started i hi
      have hsave' : SaveGuarantee K c d h i q := by
        rw [hsave] at hG
        exact hG.2
      exact hsave'.phase_ne hr hphase hq
    · exact hinv.reserved i q k₁ k₃ hh hq fun a ha => hun a (by simp [ha])

theorem Run.submissionInvariant {past future : List (Call K)} {x : Call K}
    {h rest : List Action} {d : Directory}
    (hrun : Run K (past ++ x :: future) d) (hevents : x.events = h ++ rest) :
    SubmissionInvariant (trace past) h (directory (trace past ++ h)) := by
  refine Run.induct (J := fun past _ h d =>
    SubmissionInvariant (trace past) h d) ?_ ?_ ?_ hrun hevents
  · intro c
    exact ⟨by simp [sentTasks], by simp [sentTasks], by simp⟩
  · exact fun _ _ _ _ _ hG hinv => submissionInvariant_step hG hinv
  · intro past x c hinv
    refine ⟨?_, ?_, by simp⟩
    · simpa using hinv.started
    · simpa using hinv.once

/-- Over a whole run, each task is submitted to the worker at most once; and
when it is, its durable record says that the submission is intended, holds no
result, and is bound to the packet that is sent. -/
theorem provider_turn_at_most_once {run : List (Call K)} {d : Directory}
    (hrun : Run K run d) :
    (sentTasks (trace run)).Nodup ∧
      ∀ past x future h a rest, run = past ++ x :: future →
        x.events = h ++ a :: rest → Sends a →
          ∃ id rpcId p r,
            a.op = .workerSend
              (Worker.rpcRequest rpcId "SendMessage" (sendParams id p)) ∧
            sentTask a = some id ∧
            (directory (trace past ++ h)).record id = some r ∧
            r.phase = "submission-intent" ∧ r.result = none ∧
            r.binding = binding p := by
  constructor
  · refine Run.forall_prefix (T := fun t => (sentTasks t).Nodup)
      (by simp [sentTasks]) ?_ hrun (List.prefix_refl _)
    intro past x future h rest d hrun hevents
    exact (hrun.submissionInvariant hevents).once
  · rintro past x future h a rest rfl hevents hsends
    obtain ⟨req, hop, hsend⟩ :=
      guarantee_of_sends (hrun.guarantee hevents) hsends
    cases hsend with
    | @intro id rpcId lease p r r₁ h₁ h₂ hclaim hrecord hphase hresult
        hbinding _ _ _ =>
      refine ⟨id, rpcId, p, r, hop, ?_, hrecord, hphase, hresult, hbinding⟩
      rw [sentTask_rpcRequest hop, hclaim.task]
      rfl

/-! ### The sample -/

namespace Sample

/-- The worker is asked to run the turn and answers without a task. -/
def rejectedCall : Call Reference.crates where
  param := mediator
  before := Directory.empty
  after := directoryOf intended
  events := firstClaim ++ (submitEvents task₁ (ident "0000001a") packet₁
    reserved catalog (response emptyOutput) ++ [])
  result := some (.error .validation)
  exec := by
    have hsubmitted : Exec world Directory.empty (settleWithWorker
        Reference.crates mediator task₁ packet₁ lease reserved).run
        (submitEvents task₁ (ident "0000001a") packet₁ reserved catalog
          (response emptyOutput) ++ []) _ (some (.error .validation)) :=
      exec_settle_submitted admissible.task_uuid rfl rfl admissible.offer
        answered.emptyOutput_reply
        (exec_afterSend_malformed answered.emptyOutput_data)
    rw [write_write] at hsubmitted
    exact exec_firstClaim hsubmitted

theorem run_rejectedCall :
    Run Reference.crates [rejectedCall] (directoryOf intended) :=
  .snoc rejectedCall .nil rfl

theorem intended_stored :
    Stored Reference.crates (directoryOf intended) task₁ intended :=
  stored run_rejectedCall (by simp [rejectedCall, submitEvents, intended,
    saved]) (by decide +kernel)

/-- The task of a rejected output is claimed again; the worker reports the turn
as completed. -/
def acceptedCall : Call Reference.crates where
  param := mediator
  before := directoryOf intended
  after := directoryOf (intended.completed reply runtime completion)
  events := laterClaim intended [⟨.read task₁, .bytes intended.toVec⟩] ++
    completedEvents intended reply completion [⟨.newUuid, ident "0000001b"⟩]
  result := some (.error (.broker (.http none)))
  exec := by
    have h := exec_laterClaim intended_stored rfl rfl (by decide)
      (exec_scan_skipped intended_stored (not_pending_of_result rfl))
      (exec_settled rfl rfl rfl answered.reply_completed
        answered.reply_valid (.fresh (ident "0000001b") rfl rfl)
        answered.completion_valid)
    rwa [directoryOf, write_write] at h

theorem run_acceptedCall : Run Reference.crates [rejectedCall, acceptedCall]
    (directoryOf (intended.completed reply runtime completion)) :=
  .snoc acceptedCall run_rejectedCall rfl

/-- The events of the call with the rejected output, up to its submission. -/
def beforeSubmission : List Action :=
  firstClaim ++ (receiptEvents task₁ noContent ++ (offerEvents catalog ++
    [saved task₁ reserved, saved task₁ intended, ⟨.interval, (0, 0)⟩,
      ⟨.newUuid, ident "0000001a"⟩]))

theorem rejectedCall_events : rejectedCall.events = beforeSubmission ++
    ⟨.workerSend (sendRequest task₁ (ident "0000001a") packet₁), ()⟩ ::
      [⟨.workerReceive (sendRequest task₁ (ident "0000001a") packet₁),
        response emptyOutput⟩] := by
  simp [rejectedCall, submitEvents, beforeSubmission, workerExchange, intended]

end Sample

/-- The task is claimed again after a restart, and nothing is submitted for it
once more. -/
theorem provider_turn_at_most_once_acceptedCall :
    sentTasks (trace [Sample.rejectedCall, Sample.acceptedCall]) =
        [Sample.task₁] ∧
      (sentTasks (trace [Sample.rejectedCall, Sample.acceptedCall])).Nodup ∧
      ∃ id rpcId p r,
        Op.workerSend (sendRequest Sample.task₁ (Sample.ident "0000001a")
          Sample.packet₁) = .workerSend
            (Worker.rpcRequest rpcId "SendMessage" (sendParams id p)) ∧
        (directory Sample.beforeSubmission).record id = some r ∧
        r.phase = "submission-intent" ∧ r.result = none ∧
        r.binding = binding p := by
  obtain ⟨honce, hsends⟩ := provider_turn_at_most_once Sample.run_acceptedCall
  constructor
  · decide +kernel
  constructor
  · exact honce
  · obtain ⟨id, rpcId, p, r, hop, _, hrecord⟩ := hsends []
      Sample.rejectedCall [Sample.acceptedCall] Sample.beforeSubmission _ _ rfl
      Sample.rejectedCall_events
      ⟨_, rfl, Worker.isSend_rpcRequest.mpr rfl⟩
    exact ⟨id, rpcId, p, r, hop, hrecord⟩

end AgentGateway
