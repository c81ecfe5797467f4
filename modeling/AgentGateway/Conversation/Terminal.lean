import AgentGateway.Conversation.Acknowledgements
import AgentGateway.Conversation.Scanning

/-!
# Terminal phases

The scan leaves a quarantined or an acknowledged record alone, and no update is
sent for its task.  A claim of the task is not held back in the same way: it goes
on from the record, and answers of the broker and the worker can take it to
another phase.
-/

namespace AgentGateway

open Json (Value)
open Interaction
open Dispatcher

variable {K : Crates} {c : Dispatcher} {d : Directory} {h : List Action}
  {id lease : String} {p u : Value} {r r' : Record}

def Record.Terminal (r : Record) : Prop :=
  r.phase = "quarantined" ∨ r.phase = "acknowledged"

theorem Record.WellFormed.not_pending (hwell : r.WellFormed K id)
    (hr : r.Terminal) : ¬pending r := by
  rintro ⟨_, hack, hphase⟩
  rcases hr with hr | hr
  · exact hphase hr
  · exact hwell.acknowledged hr hack

/-! ## Revived tasks -/

/-- The answers with which a claim call leaves a terminal phase: the worker does
not report the turn as completed, or it does and authority is there, the broker
gives up an acknowledged task, or a quarantined one is acknowledged. -/
inductive Revived (K : Crates) (c : Dispatcher) (h : List Action)
    (id : String) (p : Value) (lease : String) (r : Record) : Prop
  | failing : FailingReceipt h id p → Revived K c h id p lease r
  | completed {x y : Value} : Completes K c h id p r x y →
      AuthorityLately K p lease h → Revived K c h id p lease r
  | givenUp : r.phase = "acknowledged" → FailureReceived id r h →
      Revived K c h id p lease r
  | accepted {a : Value} : r.phase = "quarantined" → AckAnswered id a h →
      Revived K c h id p lease r

/-- A call claims a task whose durable record is terminal, and revives it. -/
def Revives (K : Crates) (c : Dispatcher) (d : Directory) (h : List Action)
    (id : String) : Prop :=
  ∃ p lease r, Claimed K c h id p lease ∧ d.record id = some r ∧
    r.binding = binding p ∧ r.Terminal ∧ Revived K c h id p lease r

/-- No call of a run revives a task. -/
def NeverRevived (run : List (Call K)) : Prop :=
  ∀ past x future h rest, run = past ++ x :: future → x.events = h ++ rest →
    ∀ id, ¬Revives K x.param (directory (trace past ++ h)) h id

/-- A lease is no part of what revives a record. -/
theorem Revived.relet (hr : Revived K c h id p lease { r with lease := lease }) :
    Revived K c h id p lease r := by
  cases hr with
  | failing hfailing => exact .failing hfailing
  | completed hx hlately =>
      exact .completed ⟨hx.agrees, hx.reported, hx.runtime, hx.valid⟩ hlately
  | givenUp hphase hreceived =>
      obtain ⟨h₁, es, h₂, hh, hfailed⟩ := hreceived
      cases hfailed with
      | intro hex hv hmatch hstate hack hresult =>
          exact .givenUp hphase ⟨h₁, es, h₂, hh,
            .intro hex hv hmatch hstate hack hresult⟩
  | accepted hphase hanswered => exact .accepted hphase hanswered

/-- A change of a terminal record keeps its phase, or revives it. -/
theorem Change.terminal (hc : Change K c h id p lease r r')
    (hr : r.Terminal) (hpending : ¬pending r) :
    r'.phase = r.phase ∨ Revived K c h id p lease r := by
  have hother : r.phase ≠ "reserved" ∧ r.phase ≠ "submission-intent" ∧
      r.phase ≠ "interrupted" := by
    rcases hr with hr | hr <;> simp [hr]
  cases hc with
  | settle _ hby =>
      cases hby with
      | quarantined hreceived =>
          rcases hr with hr | hr
          · exact .inl hr.symm
          · exact .inr (.givenUp hr (hreceived.resolve_left hpending))
      | acknowledged hanswered =>
          rcases hr with hr | hr
          · exact .inr (.accepted hr hanswered)
          · exact .inl hr.symm
  | reserve hphase _ => exact absurd hphase hother.1
  | intend hphase _ => exact absurd hphase hother.1
  | interrupt hphase _ => exact absurd hphase hother.2.1
  | fail _ _ hfails _ =>
      cases hfails with
      | receipt hfailing _ _ => exact .inr (.failing hfailing)
      | rejection _ hphase _ =>
          rcases hphase with hphase | hphase
          · exact absurd hphase hother.2.1
          · exact absurd hphase hother.2.2
  | complete hx hlately _ _ => exact .inr (.completed hx hlately)

/-- A save over a terminal record keeps its phase, unless the call revives the
task. -/
theorem SaveGuarantee.terminal (hs : SaveGuarantee K c d h id r')
    (hstored : d.record id = some r) (hwell : r.WellFormed K id)
    (hr : r.Terminal) (hnever : ¬Revives K c d h id) :
    r'.phase = r.phase := by
  have hpending := hwell.not_pending hr
  cases hs with
  | recovery hq hq' _ _ =>
      rw [hstored] at hq
      cases hq
      exact absurd hq' hpending
  | @claim p lease q _ hclaim hheld hchange =>
      cases hheld with
      | @stored q hq hbinding =>
          rw [hstored] at hq
          cases hq
          rcases hchange.terminal hr hpending with hphase | hrevived
          · exact hphase
          · exact absurd ⟨p, lease, r, hclaim, hstored, hbinding, hr,
              hrevived.relet⟩ hnever
      | fresh hnone _ _ =>
          rw [Directory.record_eq_none_of hnone] at hstored
          cases hstored

/-- No update is sent for a task whose record is terminal. -/
theorem PostGuarantee.not_terminal (hpost : PostGuarantee K c d h id lease u)
    (hstored : d.record id = some r) (hwell : r.WellFormed K id) :
    ¬r.Terminal := by
  intro hr
  have hphase : ∀ q : Record, d.record id = some q → q.phase = r.phase := by
    intro q hq
    rw [hstored] at hq
    cases hq
    rfl
  have hother : r.phase ≠ "completed" ∧ r.phase ≠ "interrupted" := by
    rcases hr with hr | hr <;> simp [hr]
  cases hpost with
  | replay hq hpending _ _ _ =>
      rw [hstored] at hq
      cases hq
      exact hwell.not_pending hr hpending
  | publish _ hq _ _ _ _ _ _ _ => exact hother.1 (hphase _ hq).symm
  | failed _ _ _ hq _ _ _ _ _ => exact hother.2 (hphase _ hq).symm

/-- In a run that revives no task, a terminal record stays in its phase. -/
theorem Run.terminal {run : List (Call K)} (hrun : Run K run d)
    (hnever : NeverRevived run) {t t' : List Action} (htt' : t <+: t')
    (ht' : t' <+: trace run) (hr : (directory t).record id = some r)
    (hterminal : r.Terminal) :
    ∃ r', (directory t').record id = some r' ∧ r'.phase = r.phase := by
  obtain ⟨es, rfl⟩ := htt'
  induction es using List.reverseRecOn with
  | nil => exact ⟨r, by rwa [List.append_nil], rfl⟩
  | append_singleton es e ih =>
      rw [← List.append_assoc] at ht'
      have hinitial := (List.prefix_append _ [e]).trans ht'
      obtain ⟨q, hq, hphase⟩ := ih hinitial
      have hwell := hrun.wellFormed hinitial hq
      have hq' : q.Terminal := by
        rwa [Record.Terminal, hphase]
      obtain ⟨past, x, future, h, rest, hsplit, hevents, hmoment⟩ :=
        exists_session_of_event ht'
      subst hsplit
      rw [← List.append_assoc, directory_snoc]
      rw [hmoment] at hq ⊢
      rcases record_step (hrun.guarantee hevents) id with
        hsame | ⟨q', ans, _, hsave, hnew⟩
      · exact ⟨q, by rw [hsame, hq], hphase⟩
      · refine ⟨q', hnew, ?_⟩
        rw [← hphase]
        exact hsave.terminal hq hwell hq'
          (hnever past x future h (e :: rest) rfl hevents id)

/-- In a run that revives no task, a record that is quarantined or acknowledged
stays in its phase, and nothing is sent for its task. -/
theorem terminal_phases_absorbing {run : List (Call K)} (hrun : Run K run d)
    (hnever : NeverRevived run) {t : List Action} (ht : t <+: trace run)
    (hr : (directory t).record id = some r)
    (hterminal : r.phase = "quarantined" ∨ r.phase = "acknowledged") :
    (∀ t', t <+: t' → t' <+: trace run →
      ∃ r', (directory t').record id = some r' ∧ r'.phase = r.phase) ∧
    ∀ t' a lease u, t <+: t' → t' ++ [a] <+: trace run →
      ¬Posts a id lease u := by
  have hphase : ∀ t', t <+: t' → t' <+: trace run →
      ∃ r', (directory t').record id = some r' ∧ r'.phase = r.phase :=
    fun t' htt' ht' => hrun.terminal hnever htt' ht' hr hterminal
  refine ⟨hphase, fun t' a lease u htt' ht' hpost => ?_⟩
  have hinitial := (List.prefix_append t' [a]).trans ht'
  obtain ⟨q, hq, hsame⟩ := hphase t' htt' hinitial
  obtain ⟨past, x, future, h, rest, rfl, hevents, rfl⟩ :=
    exists_session_of_event ht'
  have hnot := (postGuarantee_of_posts (hrun.guarantee hevents)
    hpost).not_terminal hq (hrun.wellFormed hinitial hq)
  rw [Record.Terminal, hsame] at hnot
  exact hnot hterminal

/-! ### The sample -/

namespace Sample

/-- The recovery loses the authority for the completion; the call ends before
it claims a task. -/
def quarantinedCall : Call Reference.crates where
  param := mediator
  before := directoryOf completed
  after := directoryOf completed.quarantined
  events := ⟨.readDir, some (oneFile task₁)⟩ :: (refusedScan ++
    [(⟨.serviceToken mediator.claimRequest, none⟩ : Action)])
  result := none
  exec := exec_runOnce_claims listing_oneFile exec_refusedScan none

theorem run_quarantinedCall : Run Reference.crates
    [completedCall, quarantinedCall] (directoryOf completed.quarantined) :=
  .snoc quarantinedCall run_completedCall rfl

theorem saved_quarantined : saved task₁ completed.quarantined ∈
    trace [completedCall, quarantinedCall] := by
  simp [quarantinedCall, refusedScan, refusedEvents]

end Sample

theorem savedRecords_completedCall :
    Sample.completedCall.events.filterMap savedRecord = [Sample.completed] :=
  rfl

theorem roomReplies_quarantinedCall :
    Sample.quarantinedCall.events.filterMap roomReply =
      [(brokerReceiptRequest Sample.task₁,
        response (Sample.brokerReceipt Sample.packet₁))] := rfl

/-- The first call stores no terminal record, and the second one claims
nothing. -/
theorem neverRevived_quarantinedCall :
    NeverRevived [Sample.completedCall, Sample.quarantinedCall] := by
  rintro past x future h rest hsplit hevents id
    ⟨p, lease, r, hclaim, hr, _, hterminal, _⟩
  rcases past with _ | ⟨y, past⟩
  · obtain ⟨rfl, rfl⟩ := List.cons_eq_cons.mp hsplit
    rw [trace_nil, List.nil_append] at hr
    have hinitial : h <+: trace [Sample.completedCall] :=
      ⟨rest, by simp [hevents]⟩
    obtain ⟨ans, hmem⟩ := Sample.run_completedCall.saved_of_record hinitial hr
    have hsaved : r ∈ [Sample.completed] := by
      rw [← savedRecords_completedCall]
      refine List.mem_filterMap.mpr ⟨⟨.save id r, ans⟩, ?_, rfl⟩
      rw [hevents]
      exact List.mem_append_left _ hmem
    rw [List.mem_singleton.mp hsaved] at hterminal
    rcases hterminal with hphase | hphase
    · exact absurd hphase (by decide)
    · exact absurd hphase (by decide)
  · obtain ⟨_, hsplit⟩ := List.cons_eq_cons.mp hsplit
    obtain ⟨rfl, hcall⟩ : past = [] ∧ x = Sample.quarantinedCall := by
      rcases past with _ | ⟨z, past⟩
      · exact ⟨rfl, (List.cons_eq_cons.mp hsplit).1.symm⟩
      · obtain ⟨_, hsplit⟩ := List.cons_eq_cons.mp hsplit
        simp at hsplit
    subst hcall
    obtain ⟨reply, claim, hmem, _⟩ := hclaim.answered
    have hasked : (Sample.quarantinedCall.param.claimRequest, reply) ∈
        [(brokerReceiptRequest Sample.task₁,
          response (Sample.brokerReceipt Sample.packet₁))] := by
      rw [← roomReplies_quarantinedCall, hevents]
      exact List.mem_filterMap.mpr
        ⟨_, List.mem_append_left rest hmem, rfl⟩
    have hrequest := (Prod.mk.inj (List.mem_singleton.mp hasked)).1
    cases congrArg RoomRequest.path hrequest

/-- The events of the second call up to its claim. -/
def Sample.beforeClaim : List Action :=
  ⟨.readDir, some (oneFile Sample.task₁)⟩ :: Sample.refusedScan

theorem terminal_phases_absorbing_quarantinedCall :
    ∃ r, (directory (trace [Sample.completedCall] ++
        Sample.beforeClaim)).record Sample.task₁ = some r ∧
      r.phase = "quarantined" ∧
      ∃ r', (directory (trace [Sample.completedCall,
          Sample.quarantinedCall])).record Sample.task₁ = some r' ∧
        r'.phase = r.phase := by
  have hinitial : trace [Sample.completedCall] ++ Sample.beforeClaim ++
      [⟨.serviceToken Sample.mediator.claimRequest, none⟩] =
        trace [Sample.completedCall, Sample.quarantinedCall] := by
    simp [Sample.quarantinedCall, Sample.beforeClaim]
  have hrecord : (directory (trace [Sample.completedCall] ++
      Sample.beforeClaim)).record Sample.task₁ =
        some Sample.completed.quarantined := by
    have hend := Sample.record_of_run Sample.run_quarantinedCall
      Sample.saved_quarantined
    rwa [← hinitial, directory_snoc] at hend
  refine ⟨_, hrecord, rfl, ?_⟩
  exact (terminal_phases_absorbing Sample.run_quarantinedCall
    neverRevived_quarantinedCall ⟨_, hinitial⟩ hrecord (.inl rfl)).1 _
    ⟨_, hinitial⟩ (List.prefix_refl _)

namespace Sample

theorem quarantined_stored : Stored Reference.crates
    (directoryOf completed.quarantined) task₁ completed.quarantined :=
  stored run_quarantinedCall saved_quarantined (by decide +kernel)

theorem not_pending_quarantined : ¬pending completed.quarantined :=
  fun hpending => hpending.2.2 rfl

/-- The quarantined task is claimed again, and the worker does not answer. -/
def revivedCall : Call Reference.crates where
  param := mediator
  before := directoryOf completed.quarantined
  after := directoryOf (completed.quarantined.failed failure)
  events := laterClaim completed.quarantined
      [⟨.read task₁, .bytes completed.quarantined.toVec⟩] ++
    unansweredEvents completed.quarantined
  result := some (.error (.broker (.http none)))
  exec := by
    have h := exec_laterClaim quarantined_stored rfl rfl (by decide)
      (exec_scan_skipped quarantined_stored not_pending_quarantined)
      exec_unanswered
    rwa [directoryOf, write_write] at h

theorem run_revivedCall : Run Reference.crates
    [completedCall, quarantinedCall, revivedCall]
    (directoryOf (completed.quarantined.failed failure)) :=
  .snoc revivedCall run_quarantinedCall rfl

end Sample

/-- A quarantined task is claimed again, and its worker does not answer: the
call saves it as interrupted and sends a failure. -/
theorem quarantined_record_revived :
    Run Reference.crates [Sample.completedCall, Sample.quarantinedCall,
        Sample.revivedCall]
        (Sample.directoryOf (Sample.completed.quarantined.failed
          Sample.failure)) ∧
      (directory (trace [Sample.completedCall,
        Sample.quarantinedCall])).record Sample.task₁ =
          some Sample.completed.quarantined ∧
      Sample.completed.quarantined.phase = "quarantined" ∧
      (directory (trace [Sample.completedCall, Sample.quarantinedCall,
        Sample.revivedCall])).record Sample.task₁ =
          some (Sample.completed.quarantined.failed Sample.failure) ∧
      (Sample.completed.quarantined.failed Sample.failure).phase ≠
        "quarantined" ∧
      ∃ a ∈ Sample.revivedCall.events,
        Posts a Sample.task₁ Sample.lease Sample.failure := by
  have hquarantined := Sample.record_of_run Sample.run_quarantinedCall
    Sample.saved_quarantined
  refine ⟨Sample.run_revivedCall, hquarantined, rfl, ?_, by decide,
    ⟨.roomRequest (updateRequest Sample.task₁ Sample.lease Sample.failure),
      none⟩, ?_, rfl⟩
  · refine Sample.record_of_run Sample.run_revivedCall ?_
    simp [Sample.revivedCall, Sample.unansweredEvents]
  · simp [Sample.revivedCall, Sample.unansweredEvents, exchange]

end AgentGateway
