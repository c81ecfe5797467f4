import AgentGateway.Conversation.Publication

/-!
# Stored failures and late completions

A stored failure is overwritten by nothing: a call that then completes the
task keeps it as the update of the completed record and sends it.  Conversely, a
call gives up a task whose reply is stored if the worker does not report the
turn again.  Apart from these two moments, completed records are paired with
their own completions, and an accepted reply is never turned into a failure.
-/

namespace AgentGateway

open Json (Value)
open Interaction
open Dispatcher

variable {K : Crates} {c : Dispatcher} {d : Directory} {h : List Action}
  {id lease : String} {u : Value} {r : Record}

/-! ## The two moments -/

/-- The durable record of a claimed task holds a failure, and the call accepts
a completed turn for it. -/
def Stale (K : Crates) (c : Dispatcher) (d : Directory) (h : List Action) :
    Prop :=
  ∃ id p lease r f x y, Claimed K c h id p lease ∧ d.record id = some r ∧
    r.binding = binding p ∧ r.update = some f ∧
    f["kind"] = .str "failed" ∧ Completes K c h id p r x y ∧
    AuthorityLately K p lease h

/-- The durable record of a task holds a result, and a receipt of the worker is
read that does not report the turn as completed. -/
def Misreported (d : Directory) (a : Action) : Prop :=
  ∃ id p r reply, a = ⟨.workerReceive (Worker.receiptRequest id), reply⟩ ∧
    d.record id = some r ∧ r.result ≠ none ∧ r.binding = binding p ∧
    FailingAnswer p (workerResponse (.receipt id) reply)

/-- No call of a run accepts a completed turn over a stored failure. -/
def NeverStale (run : List (Call K)) : Prop :=
  ∀ past x future h rest, run = past ++ x :: future →
    x.events = h ++ rest →
      ¬Stale K x.param (directory (trace past ++ h)) h

/-- The worker reports every turn again whose result is stored. -/
def NeverMisreported (run : List (Call K)) : Prop :=
  ∀ t a, t ++ [a] <+: trace run → ¬Misreported (directory t) a

theorem neverStale_of_saved {run : List (Call K)} (hrun : Run K run d)
    (h : ∀ id r ans u, (⟨.save id r, ans⟩ : Action) ∈ trace run →
      r.update = some u → u["kind"] ≠ .str "failed") : NeverStale run := by
  rintro past x future t rest rfl hevents
    ⟨id, p, lease, r, f, _, _, _, hr, _, hf, hkind, _⟩
  have hinitial : trace past ++ t <+: trace (past ++ x :: future) :=
    ⟨rest ++ trace future, by simp [hevents]⟩
  obtain ⟨ans, hmem⟩ := hrun.saved_of_record hinitial hr
  exact h id r ans f (hinitial.subset hmem) hf hkind

theorem neverMisreported_of_read {run : List (Call K)}
    (h : ∀ id reply, (⟨.workerReceive (Worker.receiptRequest id), reply⟩ :
      Action) ∈ trace run → ∃ v, workerResponse (.receipt id) reply =
        .ok (some v) ∧ v["phase"] = .str "completed") :
    NeverMisreported run := by
  rintro t a ht ⟨id, p, r, reply, rfl, _, _, _, hfailing⟩
  obtain ⟨v, hv, hphase⟩ := h id reply (ht.subset (by simp))
  rw [hv] at hfailing
  exact hfailing.2 hphase

/-! ## Completed records -/

/-- Only the end of a claim call saves a record as completed. -/
theorem SaveGuarantee.completed_cases (hs : SaveGuarantee K c d h id r)
    (hphase : r.phase = "completed") :
    ∃ p lease q x y u, Claimed K c h id p lease ∧
      Held K c d id p lease q ∧ Completes K c h id p q x y ∧
      AuthorityLately K p lease h ∧ Unsaved "interrupted" h ∧
      (q.update = some u ∨ (q.update = none ∧
        ∃ updateId, u = updateValue p "completed" x updateId)) ∧
      r = q.completed x y u := by
  have hsettles : ∀ {q q' : Record}, Settles K q q' →
      q'.phase ≠ "completed" := by
    rintro q q' (_ | _)
    · simp [Record.quarantined]
    · simp [Record.acknowledged]
  cases hs with
  | recovery _ _ hsettle => exact absurd hphase (hsettles hsettle)
  | @claim p lease q _ hclaim hheld hchange =>
      cases hchange with
      | settle hsettle => exact absurd hphase (hsettles hsettle)
      | reserve hreserved _ => simp [hreserved] at hphase
      | intend _ _ => simp at hphase
      | interrupt _ _ => simp [Record.interrupted] at hphase
      | fail _ _ _ _ => simp [Record.failed] at hphase
      | @complete x y u hx hlately hunsaved hu =>
          exact ⟨p, lease, q, x, y, u, hclaim, hheld, hx, hlately, hunsaved,
            hu, rfl⟩

/-- A completed turn is accepted over this stored failure. -/
def Overturns (K : Crates) (c : Dispatcher) (d : Directory) (h : List Action)
    (f : Value) : Prop :=
  ∃ id p lease r x y, Claimed K c h id p lease ∧ d.record id = some r ∧
    r.binding = binding p ∧ r.update = some f ∧
    f["kind"] = .str "failed" ∧ Completes K c h id p r x y ∧
    AuthorityLately K p lease h

theorem Overturns.stale {f : Value} (hf : Overturns K c d h f) :
    Stale K c d h := by
  obtain ⟨id, p, lease, r, x, y, hrest⟩ := hf
  exact ⟨id, p, lease, r, f, x, y, hrest⟩

/-- A completed record is saved with a completion, unless the record before
holds a failure. -/
theorem SaveGuarantee.completion (hs : SaveGuarantee K c d h id r)
    (hwell : ∀ q, d.record id = some q → q.WellFormed K id)
    (hphase : r.phase = "completed") (hu : r.update = some u) :
    u["kind"] = .str "completed" ∨ Overturns K c d h u := by
  obtain ⟨p, lease, q, x, y, v, hclaim, hheld, hx, hlately, _, hv, rfl⟩ :=
    hs.completed_cases hphase
  cases hu
  rcases hv with hv | ⟨_, updateId, rfl⟩
  · cases hheld with
    | @stored q hstored hbinding =>
        cases (hwell q hstored).update u hv with
        | completed _ => exact .inl (updateValue_kind _ _ _ _)
        | failed _ =>
            have hcompletes : Completes K c h id p q x y :=
              ⟨hx.agrees, hx.reported, hx.runtime, hx.valid⟩
            exact .inr ⟨id, p, lease, q, x, y, hclaim, hstored, hbinding,
              hv, updateValue_kind _ _ _ _, hcompletes, hlately⟩
    | fresh _ _ _ => cases hv
  · exact .inl (updateValue_kind _ _ _ _)

/-- The update of a completed record is a completion, or a failure over which a
completed turn was accepted. -/
theorem Run.completion_or {P : Value → Prop} {run : List (Call K)}
    (hrun : Run K run d)
    (hoverturns : ∀ past x future h rest f, run = past ++ x :: future →
      x.events = h ++ rest →
        Overturns K x.param (directory (trace past ++ h)) h f → P f)
    {t : List Action} (ht : t <+: trace run)
    (hr : (directory t).record id = some r) (hphase : r.phase = "completed")
    (hu : r.update = some u) : u["kind"] = .str "completed" ∨ P u := by
  refine Run.forall_directory (P := fun d =>
    (∀ id r, d.record id = some r → r.WellFormed K id) ∧
      ∀ id r u, d.record id = some r → r.phase = "completed" →
        r.update = some u → u["kind"] = .str "completed" ∨ P u) ?_ ?_ ht |>.2
    id r u hr hphase hu
  · constructor
    · rintro id r ⟨⟩
    · rintro id r u ⟨⟩
  · rintro past x future h e rest rfl hevents ⟨hwell, hinv⟩
    have hG := hrun.guarantee hevents
    constructor
    · intro id r hr
      rcases record_step hG id with hsame | ⟨q, ans, _, hsave, hnew⟩
      · exact hwell id r (hsame ▸ hr)
      · rw [hnew] at hr
        cases hr
        exact hsave.wellFormed (hwell id)
    · intro id r u hr hphase hu
      rcases record_step hG id with hsame | ⟨q, ans, _, hsave, hnew⟩
      · exact hinv id r u (hsame ▸ hr) hphase hu
      · rw [hnew] at hr
        cases hr
        exact (hsave.completion (hwell id) hphase hu).imp_right
          (hoverturns past x future h (e :: rest) u rfl hevents)

theorem Run.completion {run : List (Call K)} (hrun : Run K run d)
    (hstale : NeverStale run) {t : List Action} (ht : t <+: trace run)
    (hr : (directory t).record id = some r) (hphase : r.phase = "completed")
    (hu : r.update = some u) : u["kind"] = .str "completed" := by
  have hnever : ∀ past (x : Call K) future h rest f,
      run = past ++ x :: future → x.events = h ++ rest →
        Overturns K x.param (directory (trace past ++ h)) h f → False :=
    fun past x future h rest f hsplit hevents hf =>
      hstale past x future h rest hsplit hevents hf.stale
  exact (hrun.completion_or hnever ht hr hphase hu).resolve_right not_false

/-- What it means that a completed record is paired with its own completion. -/
structure Record.Paired (r : Record) (x u : Value) : Prop where
  result : r.result = some x
  update : r.update = some u
  kind : u["kind"] = .str "completed"
  data : u["data"] = x
  task : u["taskId"] = r.binding["taskId"]
  generation : u["generation"] = r.binding["conversation"]["generation"]
  digest : u["contextDigest"] = r.binding["context"]["digest"]

theorem Record.WellFormed.paired (hr : r.WellFormed K id)
    (hphase : r.phase = "completed")
    (hkind : ∀ u, r.update = some u → u["kind"] = .str "completed") :
    ∃ x u, r.Paired x u := by
  obtain ⟨hresult, hupdate⟩ := hr.completed hphase
  obtain ⟨x, hx⟩ := Option.ne_none_iff_exists'.mp hresult
  obtain ⟨u, hu⟩ := Option.ne_none_iff_exists'.mp hupdate
  have hkind := hkind u hu
  have hdata := hr.data hu hkind hx
  cases hr.update u hu with
  | completed _ =>
      refine ⟨x, _, hx, hu, hkind, hdata, ?_, ?_, ?_⟩ <;>
        rw [updateValue, Value.getElem_object] <;> rfl
  | failed _ =>
      exact absurd (updateValue_kind _ _ _ _) (ne_failed_of_completed hkind)

/-! ## Calls that complete a task -/

/-- An update that is sent for a task is a failure of the call itself, or it is
the update of a completed record. -/
theorem PostGuarantee.failed_cases (hpost : PostGuarantee K c d h id lease u) :
    (∃ r, d.record id = some r ∧ r.phase = "completed" ∧
        r.update = some u) ∨
      ∃ (p : Value) (r : Record), d.record id = some (r.failed u) ∧
        r.binding = binding p ∧
        saved id (r.failed u) ∈ h ∧
        (r.result ≠ none → FailingReceipt h id p) ∧
        Unsaved "completed" h := by
  cases hpost with
  | replay hr _ _ hreplay _ =>
      exact .inl ⟨_, hr, hreplay.phase, hreplay.update⟩
  | publish _ hr _ _ _ _ _ _ _ => exact .inl ⟨_, hr, rfl, rfl⟩
  | failed _ _ _ hr hbinding _ hmem hcause hunsaved =>
      exact .inr ⟨_, _, hr, hbinding, hmem, hcause.failing, hunsaved⟩

/-- In a run in which no completed turn is accepted over a stored failure, every
completed record is paired with its own completion, and a call that records a
task as completed sends no failure for it. -/
theorem completed_records_paired {run : List (Call K)} (hrun : Run K run d)
    (hstale : NeverStale run) :
    (∀ t id r, t <+: trace run → (directory t).record id = some r →
      r.phase = "completed" → ∃ x u, r.Paired x u) ∧
    ∀ x ∈ run, ∀ id r ans, ⟨.save id r, ans⟩ ∈ x.events →
      r.phase = "completed" → ∀ a ∈ x.events, ∀ lease u,
        Posts a id lease u → u["kind"] ≠ .str "failed" := by
  refine ⟨fun t id r ht hr hphase => ?_, ?_⟩
  · exact (hrun.wellFormed ht hr).paired hphase
      fun u hu => hrun.completion hstale ht hr hphase hu
  · intro x hx id r ans hsave hphase a ha lease u hpost
    obtain ⟨past, future, rfl⟩ := List.mem_iff_append.mp hx
    obtain ⟨h₁, rest₁, hevents₁⟩ := List.mem_iff_append.mp ha
    obtain ⟨h₂, rest₂, hevents₂⟩ := List.mem_iff_append.mp hsave
    have hinitial : trace past ++ h₁ <+: trace (past ++ x :: future) :=
      ⟨a :: rest₁ ++ trace future, by simp [hevents₁]⟩
    rcases (postGuarantee_of_posts (hrun.guarantee hevents₁)
      hpost).failed_cases with
      ⟨q, hq, hcompleted, hu⟩ | ⟨p, q, _, _, hfailed, _, hunsaved⟩
    · exact ne_failed_of_completed
        (hrun.completion hstale hinitial hq hcompleted hu)
    · have hsaves : SaveGuarantee K x.param _ h₂ id r :=
        (hrun.guarantee hevents₂).2
      obtain ⟨_, _, _, _, _, _, _, _, _, _, hundone, _, _⟩ :=
        hsaves.completed_cases hphase
      -- Whichever of the two events comes first excludes the other one.
      have heq : h₁ ++ a :: rest₁ = h₂ ++ ⟨.save id r, ans⟩ :: rest₂ := by
        rw [← hevents₁, hevents₂]
      rcases List.append_eq_append_iff.mp heq with
        ⟨v, rfl, _⟩ | ⟨v, rfl, hv⟩
      · exact absurd rfl (hundone _ (List.mem_append_left v hfailed))
      · cases v with
        | nil =>
            cases hv
            cases hpost
        | cons b v =>
            cases hv
            exact absurd hphase (hunsaved ⟨.save id r, ans⟩ (by simp))

def savedRecord : Action → Option Record
  | ⟨.save _ r, _⟩ => some r
  | _ => none

theorem savedRecords_conversation :
    (trace Sample.conversation).filterMap savedRecord =
      [Sample.completed, Sample.acknowledged] := rfl

theorem neverStale_conversation : NeverStale Sample.conversation := by
  refine neverStale_of_saved Sample.run_conversation ?_
  intro id r ans u hmem hu
  have hrecord : r ∈ [Sample.completed, Sample.acknowledged] := by
    rw [← savedRecords_conversation]
    exact List.mem_filterMap.mpr ⟨_, hmem, rfl⟩
  rw [List.mem_pair] at hrecord
  have hupdate : u = Sample.completion := by
    rcases hrecord with rfl | rfl <;> exact (Option.some.inj hu).symm
  rw [hupdate]
  exact ne_failed_of_completed (updateValue_kind _ _ _ _)

theorem completed_records_paired_conversation :
    ∃ x u, Sample.completed.Paired x u :=
  (completed_records_paired Sample.run_conversation
    neverStale_conversation).1 (trace [Sample.completedCall]) Sample.task₁
      Sample.completed (by simp [Sample.conversation])
      Sample.record_completedCall rfl

namespace Sample

/-- The worker's receipt cannot be read. -/
def unansweredCall : Call Reference.crates where
  param := mediator
  before := Directory.empty
  after := directoryOf failed
  events := firstClaim ++ unansweredEvents reserved
  result := some (.error (.broker (.http none)))
  exec := exec_firstClaim exec_unanswered

theorem run_unansweredCall :
    Run Reference.crates [unansweredCall] (directoryOf failed) :=
  .snoc unansweredCall .nil rfl

theorem failed_stored :
    Stored Reference.crates (directoryOf failed) task₁ failed :=
  stored run_unansweredCall
    (by simp [unansweredCall, unansweredEvents, failed])
    recoverable.failed_length

/-- The record of a failed turn that the worker completed all the same. -/
def late : Record := failed.completed reply runtime failure

/-- The task is claimed again, and its receipt is there. -/
def lateCall : Call Reference.crates where
  param := mediator
  before := directoryOf failed
  after := directoryOf late
  events := laterClaim failed [⟨.read task₁, .bytes failed.toVec⟩] ++
    completedEvents failed reply failure []
  result := some (.error (.broker (.http none)))
  exec := by
    have h := exec_laterClaim failed_stored rfl rfl (by decide)
      (exec_scan_skipped failed_stored recoverable.failed_not_pending)
      (exec_settled rfl rfl rfl answered.reply_completed
        answered.reply_valid (.stored rfl) answered.failure_valid)
    rwa [directoryOf, write_write] at h

theorem run_lateCall :
    Run Reference.crates [unansweredCall, lateCall] (directoryOf late) :=
  .snoc lateCall run_unansweredCall rfl

end Sample

/-- The receipt of a turn cannot be read, so a failure is stored; the next call
finds the turn completed, and stores and sends the old failure with it. -/
theorem completed_record_holds_failure :
    Run Reference.crates [Sample.unansweredCall, Sample.lateCall]
        (Sample.directoryOf Sample.late) ∧
      (directory (trace [Sample.unansweredCall, Sample.lateCall])).record
        Sample.task₁ = some Sample.late ∧
      Sample.late.phase = "completed" ∧
      Sample.late.update = some Sample.failure ∧
      Sample.failure["kind"] = .str "failed" ∧
      saved Sample.task₁ Sample.late ∈ Sample.lateCall.events ∧
      ∃ a ∈ Sample.lateCall.events,
        Posts a Sample.task₁ Sample.lease Sample.failure := by
  refine ⟨Sample.run_lateCall, ?_, rfl, rfl, updateValue_kind _ _ _ _, ?_, ?_⟩
  · refine Sample.record_of_run Sample.run_lateCall ?_
    simp [Sample.lateCall, Sample.completedEvents, Sample.late]
  · simp [Sample.lateCall, Sample.completedEvents, Sample.late]
  · refine ⟨⟨.roomRequest (updateRequest Sample.task₁ Sample.lease
      Sample.failure), none⟩, ?_, rfl⟩
    simp [Sample.lateCall, Sample.completedEvents, exchange]

/-! ## Accepted replies -/

/-- In a run in which the worker reports every turn again whose result is
stored, and no completed turn is accepted over a stored failure, no call sends a
failure for a task whose result an earlier call made durable. -/
theorem accepted_reply_never_failed {run : List (Call K)} (hrun : Run K run d)
    (hstale : NeverStale run) (hreports : NeverMisreported run)
    {past future : List (Call K)} {x : Call K}
    (hsplit : run = past ++ x :: future) {t : List Action}
    (ht : t <+: trace past) (hr : (directory t).record id = some r)
    (hresult : r.result.isSome = true) {a : Action} (ha : a ∈ x.events)
    (hpost : Posts a id lease u) : u["kind"] ≠ .str "failed" := by
  subst hsplit
  obtain ⟨h, rest, hevents⟩ := List.mem_iff_append.mp ha
  have hinitial : trace past ++ h <+: trace (past ++ x :: future) :=
    ⟨a :: rest ++ trace future, by simp [hevents]⟩
  -- From the earlier moment on, the record holds the result.
  have hholds : ∀ h', t <+: h' → h' <+: trace (past ++ x :: future) →
      ∃ q, (directory h').record id = some q ∧ q.binding = r.binding ∧
        q.result ≠ none := by
    intro h' hle hh'
    obtain ⟨q, hq, hext⟩ := hrun.extends hle hh' hr
    obtain ⟨y, hy⟩ := Option.isSome_iff_exists.mp hresult
    exact ⟨q, hq, hext.binding, by simp [hext.result y hy]⟩
  rcases (postGuarantee_of_posts (hrun.guarantee hevents)
    hpost).failed_cases with
    ⟨q, hq, hcompleted, hu⟩ | ⟨p, q, hq, hbinding, _, hcause, _⟩
  · exact ne_failed_of_completed
      (hrun.completion hstale hinitial hq hcompleted hu)
  · obtain ⟨q', hq', hsame, hne⟩ :=
      hholds _ (ht.trans (List.prefix_append _ h)) hinitial
    rw [hq] at hq'
    cases hq'
    obtain ⟨reply, hmem, hfailing⟩ := hcause hne
    obtain ⟨h₁, h₂, rfl⟩ := List.mem_iff_append.mp hmem
    have hread : trace past ++ h₁ ++
        [⟨.workerReceive (Worker.receiptRequest id), reply⟩] <+:
          trace (past ++ x :: future) :=
      ⟨h₂ ++ a :: rest ++ trace future, by simp [hevents]⟩
    obtain ⟨q₁, hq₁, hbinding₁, hne₁⟩ :=
      hholds _ (ht.trans (List.prefix_append _ h₁))
        ((List.prefix_append _ _).trans hread)
    refine absurd ⟨id, p, q₁, reply, rfl, hq₁, hne₁, ?_, hfailing⟩
      (hreports _ _ hread)
    rw [hbinding₁, ← hsame]
    exact hbinding

def receiptRead : Action → Option (String × Reply)
  | ⟨.workerReceive ⟨_, .receipt id, _⟩, reply⟩ => some (id, reply)
  | _ => none

theorem receiptReads_conversation :
    (trace Sample.conversation).filterMap receiptRead =
      [(Sample.task₁, response
        (Sample.completedReceipt Sample.packet₁ Sample.reply))] := rfl

theorem neverMisreported_conversation :
    NeverMisreported Sample.conversation := by
  refine neverMisreported_of_read ?_
  intro id reply hmem
  have hread : (id, reply) ∈ [(Sample.task₁, response
      (Sample.completedReceipt Sample.packet₁ Sample.reply))] := by
    rw [← receiptReads_conversation]
    exact List.mem_filterMap.mpr ⟨_, hmem, rfl⟩
  obtain ⟨rfl, rfl⟩ := Prod.mk.inj (List.mem_singleton.mp hread)
  exact ⟨_, workerResponse_response (by rintro ⟨⟩)
    Sample.answered.reply_completed.sendable, Sample.answered.reply_completed.phase⟩

theorem accepted_reply_never_failed_conversation :
    Sample.completion["kind"] ≠ .str "failed" := by
  have hsplit : Sample.conversation =
      [Sample.completedCall] ++ Sample.recoveryCall :: [] := rfl
  have hpost : Posts ⟨.roomRequest (updateRequest Sample.task₁ Sample.lease
      Sample.completion), response (Sample.ack Sample.packet₁)⟩ Sample.task₁
      Sample.lease Sample.completion := rfl
  refine accepted_reply_never_failed Sample.run_conversation
    neverStale_conversation neverMisreported_conversation hsplit
    (List.prefix_refl _) Sample.record_completedCall rfl ?_ hpost
  simp [Sample.recoveryCall_events]

namespace Sample

/-- The record of a completed turn that was given up. -/
def abandoned : Record := completed.failed failure

/-- The broker does not answer the recovery, and the worker does not answer
when the task is claimed again. -/
def abandonedCall : Call Reference.crates where
  param := mediator
  before := directoryOf completed
  after := directoryOf abandoned
  events := laterClaim completed (⟨.read task₁, .bytes completed.toVec⟩ ::
      exchange (brokerReceiptRequest task₁) none) ++
    unansweredEvents completed
  result := some (.error (.broker (.http none)))
  exec := by
    have h := exec_laterClaim completed_stored rfl rfl (by decide)
      (exec_scan_pending completed_stored recoverable.completed_pending
        exec_recover_lost) exec_unanswered
    rwa [directoryOf, write_write] at h

theorem run_abandonedCall : Run Reference.crates
    [completedCall, abandonedCall] (directoryOf abandoned) :=
  .snoc abandonedCall run_completedCall rfl

end Sample

/-- A reply is stored; the recovery does not reach the broker, and when the task
is claimed again the worker's receipt cannot be read.  The call sends a
failure. -/
theorem accepted_reply_failed :
    Run Reference.crates [Sample.completedCall, Sample.abandonedCall]
        (Sample.directoryOf Sample.abandoned) ∧
      (directory (trace [Sample.completedCall])).record Sample.task₁ =
        some Sample.completed ∧
      Sample.completed.result = some Sample.reply ∧
      Sample.completed.phase ≠ "quarantined" ∧
      Sample.failure["kind"] = .str "failed" ∧
      ∃ a ∈ Sample.abandonedCall.events,
        Posts a Sample.task₁ Sample.lease Sample.failure := by
  refine ⟨Sample.run_abandonedCall, Sample.record_completedCall, rfl,
    by decide, updateValue_kind _ _ _ _,
    ⟨.roomRequest (updateRequest Sample.task₁ Sample.lease Sample.failure),
      none⟩, ?_, rfl⟩
  simp [Sample.abandonedCall, Sample.unansweredEvents, exchange]

end AgentGateway
