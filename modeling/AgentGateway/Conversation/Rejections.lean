import AgentGateway.Conversation.Terminal
import AgentGateway.Conversation.Submission

/-!
# Turns that were submitted without a result

The record of a submitted turn that brought no result holds no completion.  A
later call can complete it only with the worker's own report of the turn, under
a new claim and a new authority check, and only as long as no failure is stored.
-/

namespace AgentGateway

open Json (Value)
open Interaction
open Dispatcher

variable {K : Crates} {c : Dispatcher} {d : Directory} {h : List Action}
  {id lease : String} {p u : Value} {r r' : Record}

/-- A save of this call completes a task, whose record held no update, with a
turn that the worker reported to the call. -/
structure CompletesAnew (K : Crates) (c : Dispatcher) (d : Directory)
    (h : List Action) (id : String) (p : Value) (lease : String) (x : Value)
    (r : Record) : Prop where
  claimed : Claimed K c h id p lease
  held : Held K c d id p lease r
  fresh : r.update = none
  completes : ∃ y, Completes K c h id p r x y
  authority : AuthorityLately K p lease h

/-- A completion that is saved was stored before, or the task is completed
anew. -/
theorem SaveGuarantee.completes_anew (hs : SaveGuarantee K c d h id r')
    (hu : r'.update = some u) (hkind : u["kind"] = .str "completed") :
    (∃ q, d.record id = some q ∧ q.update = some u) ∨
      ∃ p lease x q updateId, CompletesAnew K c d h id p lease x q ∧
        u = updateValue p "completed" x updateId := by
  rcases hs.update_built hu with hstored | ⟨p, lease, q, hclaim, hheld, hbuilt⟩
  · exact .inl hstored
  · cases hbuilt with
    | failed _ _ =>
        exact absurd (updateValue_kind _ _ _ _) (ne_failed_of_completed hkind)
    | @completed x y updateId hnone hx hlately =>
        exact .inr ⟨p, lease, x, q, updateId,
          ⟨hclaim, hheld, hnone, ⟨y, hx⟩, hlately⟩, rfl⟩

/-- Some call of these completes a task anew, with this completion. -/
def CompletedAnew (K : Crates) (past later : List (Call K)) (id : String)
    (u : Value) : Prop :=
  ∃ mid y future h rest p lease x r updateId, later = mid ++ y :: future ∧
    y.events = h ++ rest ∧
    CompletesAnew K y.param (directory (trace (past ++ mid) ++ h)) h id p lease
      x r ∧
    u = updateValue p "completed" x updateId

/-- A completion that is durable at some moment after some calls was durable
after these calls, or the task was completed anew since. -/
theorem Run.completed_anew {past later : List (Call K)}
    (hrun : Run K (past ++ later) d) {es : List Action}
    (hes : es <+: trace later)
    (hr : (directory (trace past ++ es)).record id = some r)
    (hu : r.update = some u) (hkind : u["kind"] = .str "completed") :
    (∃ q, (directory (trace past)).record id = some q ∧
        q.update = some u) ∨
      CompletedAnew K past later id u := by
  induction es using List.reverseRecOn generalizing r with
  | nil =>
      rw [List.append_nil] at hr
      exact .inl ⟨r, hr, hu⟩
  | append_singleton es e ih =>
      have hinitial := (List.prefix_append es [e]).trans hes
      obtain ⟨mid, y, future, h, rest, rfl, hevents, rfl⟩ :=
        exists_session_of_event hes
      have hmoment : trace past ++ (trace mid ++ h) =
          trace (past ++ mid) ++ h := by simp
      have hG : Guarantee K y.param
          (directory (trace past ++ (trace mid ++ h))) h e := by
        have hrun' : Run K ((past ++ mid) ++ y :: future) d := by
          rwa [List.append_assoc]
        rw [hmoment]
        exact hrun'.guarantee hevents
      rw [← List.append_assoc, directory_snoc] at hr
      rcases record_step hG id with hsame | ⟨q, ans, _, hsave, hnew⟩
      · rw [hsame] at hr
        exact ih hinitial hr hu
      · rw [hnew] at hr
        cases hr
        rcases hsave.completes_anew hu hkind with
          ⟨q, hq, hv⟩ | ⟨p, lease, x, q, updateId, hanew, hupdate⟩
        · exact ih hinitial hq hv
        · rw [hmoment] at hanew
          exact .inr ⟨mid, y, future, h, e :: rest, p, lease, x, q, updateId,
            rfl, hevents, hanew, hupdate⟩

/-- A task that was submitted has a record at the end of the call. -/
theorem Run.record_of_sent {past future : List (Call K)} {x : Call K}
    (hrun : Run K (past ++ x :: future) d) (hsent : id ∈ sentTasks x.events) :
    ∃ r, (directory (trace (past ++ [x]))).record id = some r := by
  have hinv := hrun.submissionInvariant (List.append_nil x.events).symm
  have hall : id ∈ sentTasks (trace past ++ x.events) := by
    rw [sentTasks_append]
    exact List.mem_append_right _ hsent
  obtain ⟨r, hr, _⟩ := hinv.started id hall
  exact ⟨r, by simpa using hr⟩

/-- The update of a record without a result is a failure. -/
theorem Record.WellFormed.update_failed (hwell : r.WellFormed K id)
    (hresult : r.result = none) (hu : r.update = some u) :
    u["kind"] = .str "failed" := by
  cases hwell.update u hu with
  | completed hx =>
      rw [hresult] at hx
      cases hx
  | failed _ => exact updateValue_kind _ _ _ _

/-- A call submits a task and leaves it without a result.  Every completion that
a later call sends for the task was built by a later call from the worker's
report of the turn, over a record without an update; in particular, if the call
stored a failure, there is none. -/
theorem completed_anew_after_rejection {past mid future : List (Call K)}
    {x y : Call K} (hrun : Run K (past ++ x :: (mid ++ y :: future)) d)
    (hsent : id ∈ sentTasks x.events)
    (hresult : ∀ r, (directory (trace (past ++ [x]))).record id = some r →
      r.result = none)
    {rest : List Action} {a : Action} (hevents : y.events = h ++ a :: rest)
    (hpost : Posts a id lease u) (hkind : u["kind"] = .str "completed") :
    (∃ r, (directory (trace (past ++ [x]))).record id = some r ∧
      r.update = none) ∧
    CompletedAnew K (past ++ [x]) (mid ++ y :: future) id u := by
  obtain ⟨r, hr⟩ := hrun.record_of_sent hsent
  have hnone := hresult r hr
  have hsplit : past ++ x :: (mid ++ y :: future) =
      (past ++ [x]) ++ (mid ++ y :: future) := by simp
  rw [hsplit] at hrun
  -- When it is sent, the completion is durable.
  have hlater : trace mid ++ h <+: trace (mid ++ y :: future) :=
    ⟨a :: rest ++ trace future, by simp [hevents]⟩
  have hmoment : trace (past ++ [x]) ++ (trace mid ++ h) ++ [a] <+:
      trace ((past ++ [x]) ++ (mid ++ y :: future)) :=
    ⟨rest ++ trace future, by simp [hevents]⟩
  obtain ⟨q, hq, hu⟩ := hrun.durable_of_posts hmoment hpost
  have hinitial := (List.prefix_append _ [a]).trans hmoment
  have hended := (List.prefix_append (trace (past ++ [x]))
    (trace mid ++ h)).trans hinitial
  have hwell := hrun.wellFormed hended hr
  have hfailed : ∀ v, r.update = some v → v["kind"] = .str "failed" :=
    fun v hv => hwell.update_failed hnone hv
  constructor
  · refine ⟨r, hr, Option.eq_none_iff_forall_ne_some.mpr fun v hv => ?_⟩
    obtain ⟨q', hq', hext⟩ :=
      hrun.extends (List.prefix_append _ _) hinitial hr
    rw [hq] at hq'
    cases hq'
    rcases hext.update v hv with hsame | ⟨f, hf, hfailure⟩
    · rw [hu] at hsame
      cases hsame
      exact ne_failed_of_completed hkind (hfailed u hv)
    · rw [hu] at hf
      cases hf
      exact ne_failed_of_completed hkind hfailure
  · rcases hrun.completed_anew hlater hq hu hkind with ⟨q', hq', hv⟩ | hanew
    · rw [hr] at hq'
      cases hq'
      exact absurd (hfailed u hv) (ne_failed_of_completed hkind)
    · exact hanew

/-! ### The sample -/

theorem sentTasks_rejectedCall :
    Sample.task₁ ∈ sentTasks Sample.rejectedCall.events := by
  have hsent : sentTasks Sample.rejectedCall.events = [Sample.task₁] := by
    decide +kernel
  rw [hsent]
  exact List.mem_singleton_self _

theorem record_rejectedCall :
    (directory (trace ([] ++ [Sample.rejectedCall]))).record Sample.task₁ =
      some Sample.intended :=
  Sample.record_of_run Sample.run_rejectedCall
    (by simp [Sample.rejectedCall, submitEvents, Sample.intended, saved])

/-- The events of the call that completes the turn, up to its update. -/
def Sample.beforeAccepted : List Action :=
  Sample.laterClaim Sample.intended
      [⟨.read Sample.task₁, .bytes Sample.intended.toVec⟩] ++
    (receiptEvents Sample.task₁
        (response (Sample.completedReceipt Sample.packet₁ Sample.reply)) ++
      (authorityEvents Sample.task₁ Sample.lease
          (Sample.authorityOf Sample.packet₁) Sample.now ++
        [⟨.newUuid, Sample.ident "0000001b"⟩,
          saved Sample.task₁ (Sample.intended.completed Sample.reply
            Sample.runtime Sample.completion),
          ⟨.serviceToken (updateRequest Sample.task₁ Sample.lease
            Sample.completion), serviceToken⟩]))

theorem acceptedCall_events : Sample.acceptedCall.events =
    Sample.beforeAccepted ++ [⟨.roomRequest (updateRequest Sample.task₁
      Sample.lease Sample.completion), none⟩] := by
  simp [Sample.acceptedCall, Sample.completedEvents, Sample.beforeAccepted,
    exchange]

theorem completed_anew_after_rejection_acceptedCall :
    CompletedAnew Reference.crates ([] ++ [Sample.rejectedCall])
      ([] ++ Sample.acceptedCall :: []) Sample.task₁ Sample.completion := by
  have hrun : Run Reference.crates ([] ++ Sample.rejectedCall ::
      ([] ++ Sample.acceptedCall :: [])) _ := Sample.run_acceptedCall
  have hresult : ∀ r, (directory (trace ([] ++
      [Sample.rejectedCall]))).record Sample.task₁ = some r →
        r.result = none := by
    intro r hr
    rw [record_rejectedCall] at hr
    cases hr
    rfl
  have hpost : Posts ⟨.roomRequest (updateRequest Sample.task₁ Sample.lease
      Sample.completion), none⟩ Sample.task₁ Sample.lease Sample.completion :=
    rfl
  exact (completed_anew_after_rejection hrun sentTasks_rejectedCall hresult
    acceptedCall_events hpost (updateValue_kind _ _ _ _)).2

/-- The output of a submitted turn is rejected; the task is claimed again, and
the completion of the turn is sent. -/
theorem rejected_output_completed :
    Run Reference.crates [Sample.rejectedCall, Sample.acceptedCall]
        (Sample.directoryOf (Sample.intended.completed Sample.reply
          Sample.runtime Sample.completion)) ∧
      Sample.task₁ ∈ sentTasks Sample.rejectedCall.events ∧
      Sample.rejectedCall.result = some (.error .validation) ∧
      (directory (trace [Sample.rejectedCall])).record Sample.task₁ =
        some Sample.intended ∧
      Sample.intended.result = none ∧
      Sample.completion["kind"] = .str "completed" ∧
      ∃ a ∈ Sample.acceptedCall.events,
        Posts a Sample.task₁ Sample.lease Sample.completion := by
  refine ⟨Sample.run_acceptedCall, sentTasks_rejectedCall, rfl,
    record_rejectedCall, rfl, updateValue_kind _ _ _ _,
    ⟨.roomRequest (updateRequest Sample.task₁ Sample.lease
      Sample.completion), none⟩, ?_, rfl⟩
  rw [acceptedCall_events]
  exact List.mem_append_right _ (List.mem_singleton_self _)

end AgentGateway
