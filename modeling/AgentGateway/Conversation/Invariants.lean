import AgentGateway.Conversation.Turns

/-!
# Invariants of durable records

Every record that a run makes durable is well formed, and a later record of the
same task extends it: the binding and the sources stay, and a result, a runtime
binding and an acknowledgement are written once.
-/

namespace AgentGateway

open Json (Value)
open Interaction
open Dispatcher

variable {K : Crates} {c : Dispatcher} {d : Directory} {h : List Action}
  {id lease : String} {p : Value} {r r' : Record}

/-! ## Well-formed records -/

/-- An acknowledgement that is bound to a record. -/
structure AckBound (K : Crates) (r : Record) (a : Value) : Prop where
  schema : schema K Contracts.ack a = some ()
  task : a["taskId"] = r.binding["taskId"]
  conversation : a["conversationId"] = r.binding["conversation"]["id"]
  generation : a["generation"] = r.binding["conversation"]["generation"]
  revision : a["consumedRevision"] = r.binding["context"]["revision"]
  digest : a["contextDigest"] = r.binding["context"]["digest"]
  text : ∃ x text, r.result = some x ∧ x["assistantText"] = .str text ∧
    a["textDigest"] = .str (K.sha256Hex (Utf8.encode text.toList))

/-- The updates that a record may hold: the completion with its own result, or
a failure. -/
inductive UpdateOf (r : Record) : Value → Prop
  | completed {x : Value} {updateId : String} : r.result = some x →
      UpdateOf r (updateValue r.binding "completed" x updateId)
  | failed {code updateId : String} : code ∈ failureCodes →
      UpdateOf r (updateValue r.binding "failed" (failureData code) updateId)

namespace Record

structure WellFormed (K : Crates) (id : String) (r : Record) : Prop where
  task : r.binding["taskId"] = .str id
  runtime : r.result = none ↔ r.runtimeBinding = none
  ack : ∀ a, r.ack = some a → AckBound K r a
  acknowledged : r.phase = "acknowledged" → r.ack ≠ none
  update : ∀ u, r.update = some u → UpdateOf r u
  completed : r.phase = "completed" → r.result ≠ none ∧ r.update ≠ none

/-- What a later record keeps of an earlier one.  An update may only be
replaced by a failure. -/
structure Extends (r r' : Record) : Prop where
  binding : r'.binding = r.binding
  sources : r'.sources = r.sources
  result : ∀ x, r.result = some x → r'.result = some x
  runtimeBinding : ∀ y, r.runtimeBinding = some y → r'.runtimeBinding = some y
  ack : ∀ a, r.ack = some a → r'.ack = some a
  update : ∀ u, r.update = some u → r'.update = some u ∨
    ∃ f, r'.update = some f ∧ f["kind"] = .str "failed"

/-- A change of the lease or of the phase. -/
theorem Extends.relabel (r : Record) (lease phase : String) :
    Extends r { r with lease := lease, phase := phase } :=
  ⟨rfl, rfl, fun _ hx => hx, fun _ hy => hy, fun _ ha => ha,
    fun _ hu => .inl hu⟩

theorem Extends.refl (r : Record) : Extends r r :=
  .relabel r r.lease r.phase

theorem Extends.trans {q r s : Record} (hqr : Extends q r)
    (hrs : Extends r s) : Extends q s where
  binding := hrs.binding.trans hqr.binding
  sources := hrs.sources.trans hqr.sources
  result x hx := hrs.result x (hqr.result x hx)
  runtimeBinding y hy := hrs.runtimeBinding y (hqr.runtimeBinding y hy)
  ack a ha := hrs.ack a (hqr.ack a ha)
  update u hu := by
    rcases hqr.update u hu with hu | ⟨f, hf, hkind⟩
    · exact hrs.update u hu
    · rcases hrs.update f hf with hf | hf
      · exact .inr ⟨f, hf, hkind⟩
      · exact .inr hf

end Record

theorem AckBound.extends {a : Value} (ha : AckBound K r a)
    (hr : r.Extends r') : AckBound K r' a := by
  obtain ⟨x, text, hx, htext⟩ := ha.text
  exact ⟨ha.schema, by rw [hr.binding]; exact ha.task,
    by rw [hr.binding]; exact ha.conversation,
    by rw [hr.binding]; exact ha.generation,
    by rw [hr.binding]; exact ha.revision,
    by rw [hr.binding]; exact ha.digest,
    x, text, hr.result x hx, htext⟩

theorem UpdateOf.extends {u : Value} (hu : UpdateOf r u)
    (hr : r.Extends r') : UpdateOf r' u := by
  cases hu with
  | completed hx =>
      rw [← hr.binding]
      exact .completed (hr.result _ hx)
  | failed hcode =>
      rw [← hr.binding]
      exact .failed hcode

theorem updateValue_kind (p : Value) (kind : String) (data : Value)
    (updateId : String) :
    (updateValue p kind data updateId)["kind"] = .str kind := by
  rw [updateValue, Value.getElem_object]
  rfl

/-! ## Changes -/

theorem ackMatches_bound {a : Value} (ha : ackMatches K r a = some ()) :
    AckBound K r a ∧ ∀ b, r.ack = some b → b = a := by
  obtain ⟨⟨⟩, hschema, ha⟩ := Option.bind_eq_some_iff.mp ha
  obtain ⟨x, hx, ha⟩ := Option.bind_eq_some_iff.mp ha
  obtain ⟨⟨⟩, htask, ha⟩ := Option.bind_eq_some_iff.mp ha
  obtain ⟨⟨⟩, hconversation, ha⟩ := Option.bind_eq_some_iff.mp ha
  obtain ⟨⟨⟩, hgeneration, ha⟩ := Option.bind_eq_some_iff.mp ha
  obtain ⟨⟨⟩, hrevision, ha⟩ := Option.bind_eq_some_iff.mp ha
  obtain ⟨⟨⟩, hdigest, ha⟩ := Option.bind_eq_some_iff.mp ha
  obtain ⟨text, htext, ha⟩ := Option.bind_eq_some_iff.mp ha
  obtain ⟨⟨⟩, hhex, hack⟩ := Option.bind_eq_some_iff.mp ha
  refine ⟨⟨hschema, guard_eq_some.mp htask, guard_eq_some.mp hconversation,
    guard_eq_some.mp hgeneration, guard_eq_some.mp hrevision,
    guard_eq_some.mp hdigest, x, text, hx, Value.asStr?_eq_some.mp htext,
    guard_eq_some.mp hhex⟩, ?_⟩
  intro b hb
  have hall := guard_eq_some.mp hack
  rw [hb] at hall
  simpa using hall

theorem Settles.extends (hs : Settles K r r') : r.Extends r' := by
  cases hs with
  | quarantined => exact .relabel r r.lease _
  | acknowledged _ hmatch =>
      refine ⟨rfl, rfl, fun _ hx => hx, fun _ hy => hy, ?_,
        fun _ hu => .inl hu⟩
      intro b hb
      exact congrArg some ((ackMatches_bound hmatch).2 b hb).symm

theorem Settles.wellFormed (hs : Settles K r r') (hr : r.WellFormed K id) :
    r'.WellFormed K id := by
  have hext := hs.extends
  have hupdate : ∀ u, r.update = some u → UpdateOf r' u :=
    fun u hu => (hr.update u hu).extends hext
  have hack : ∀ a, r.ack = some a → AckBound K r' a :=
    fun a ha => (hr.ack a ha).extends hext
  cases hs with
  | quarantined =>
      exact ⟨hr.task, hr.runtime, hack, by simp [Record.quarantined], hupdate,
        by simp [Record.quarantined]⟩
  | acknowledged _ hmatch =>
      refine ⟨hr.task, hr.runtime, ?_, by simp [Record.acknowledged], hupdate,
        by simp [Record.acknowledged]⟩
      rintro b ⟨⟩
      exact (ackMatches_bound hmatch).1.extends hext

theorem Completes.extends {x y u : Value} (hc : Completes K c h id p r x y)
    (hr : r.WellFormed K id)
    (hu : r.update = some u ∨ (r.update = none ∧
      ∃ updateId, u = updateValue p "completed" x updateId)) :
    r.Extends (r.completed x y u) := by
  refine ⟨rfl, rfl, ?_, ?_, fun _ ha => ha, ?_⟩
  · intro z hz
    rcases hc.agrees with hnone | ⟨hx, _⟩
    · rw [hnone] at hz
      cases hz
    · rw [hx] at hz
      exact hz
  · intro z hz
    rcases hc.agrees with hnone | ⟨_, hy⟩
    · rw [hr.runtime.mp hnone] at hz
      cases hz
    · rcases hy with hy | hy
      · rw [hy] at hz
        cases hz
      · rw [hy] at hz
        exact hz
  · intro v hv
    rcases hu with hu | ⟨hu, _⟩
    · rw [hu] at hv
      exact .inl hv
    · rw [hu] at hv
      cases hv

theorem Change.extends (hc : Change K c h id p lease r r')
    (hr : r.WellFormed K id) : r.Extends r' := by
  cases hc with
  | settle hs => exact hs.extends
  | reserve _ _ => exact .refl r
  | intend _ _ => exact .relabel r r.lease _
  | interrupt _ _ => exact .relabel r r.lease _
  | fail _ _ _ _ =>
      exact ⟨rfl, rfl, fun _ hx => hx, fun _ hy => hy, fun _ ha => ha,
        fun _ _ => .inr ⟨_, rfl, updateValue_kind _ _ _ _⟩⟩
  | complete hx _ _ hu => exact hx.extends hr hu

theorem Change.wellFormed (hc : Change K c h id p lease r r')
    (hr : r.WellFormed K id) (hp : r.binding = binding p) :
    r'.WellFormed K id := by
  have hext := hc.extends hr
  have hupdate : ∀ u, r.update = some u → UpdateOf r' u :=
    fun u hu => (hr.update u hu).extends hext
  have hack : ∀ a, r.ack = some a → AckBound K r' a :=
    fun a ha => (hr.ack a ha).extends hext
  cases hc with
  | settle hs => exact hs.wellFormed hr
  | reserve _ _ => exact hr
  | intend _ _ => exact ⟨hr.task, hr.runtime, hack, by simp, hupdate, by simp⟩
  | interrupt _ _ =>
      exact ⟨hr.task, hr.runtime, hack, by simp [Record.interrupted], hupdate,
        by simp [Record.interrupted]⟩
  | fail hcode _ _ _ =>
      refine ⟨hr.task, hr.runtime, hack, by simp [Record.failed], ?_,
        by simp [Record.failed]⟩
      rintro u ⟨⟩
      rw [← updateValue_binding, ← hp]
      exact .failed hcode
  | @complete x y u _ _ _ hu =>
      refine ⟨hr.task, by simp [Record.completed], hack,
        by simp [Record.completed], ?_, by simp [Record.completed]⟩
      rintro v ⟨⟩
      rcases hu with hu | ⟨_, updateId, rfl⟩
      · exact hupdate u hu
      · rw [← updateValue_binding, ← hp]
        exact .completed (r := r.completed x y _) rfl

theorem freshRecord_wellFormed (hp : p["taskId"] = .str id)
    (prior : StringSet) : (freshRecord p lease prior).WellFormed K id := by
  refine ⟨?_, by simp [freshRecord], by simp [freshRecord],
    by simp [freshRecord], by simp [freshRecord], by simp [freshRecord]⟩
  show (binding p)["taskId"] = _
  rw [binding_getElem (by decide) (by decide) (by decide), hp]

/-- A lease is no part of what a record has to keep. -/
theorem Record.WellFormed.relet (hr : r.WellFormed K id) (lease : String) :
    ({ r with lease := lease } : Record).WellFormed K id := by
  have hext : r.Extends { r with lease := lease } :=
    .relabel r lease r.phase
  exact ⟨hr.task, hr.runtime, fun a ha => (hr.ack a ha).extends hext,
    hr.acknowledged, fun u hu => (hr.update u hu).extends hext, hr.completed⟩

/-! ## Saves -/

/-- What is saved over a stored record extends it. -/
theorem SaveGuarantee.extends (hs : SaveGuarantee K c d h id r')
    (hr : d.record id = some r) (hwell : r.WellFormed K id) :
    r.Extends r' := by
  cases hs with
  | recovery hstored _ hsettles =>
      rw [hr] at hstored
      cases hstored
      exact hsettles.extends
  | claim _ hheld hchange =>
      cases hheld with
      | @stored q hstored _ =>
          rw [hr] at hstored
          cases hstored
          exact (Record.Extends.relabel r _ r.phase).trans
            (hchange.extends (hwell.relet _))
      | fresh hnone _ _ =>
          rw [Directory.record_eq_none_of hnone] at hr
          cases hr

theorem SaveGuarantee.wellFormed (hs : SaveGuarantee K c d h id r')
    (hd : ∀ r, d.record id = some r → r.WellFormed K id) :
    r'.WellFormed K id := by
  cases hs with
  | recovery hstored _ hsettles => exact hsettles.wellFormed (hd _ hstored)
  | claim hclaim hheld hchange =>
      refine hchange.wellFormed ?_ hheld.binding_eq
      cases hheld with
      | stored hstored _ => exact (hd _ hstored).relet _
      | fresh _ _ _ => exact freshRecord_wellFormed hclaim.task _

/-! ## Calls of the sample conversation -/

namespace Sample

/-- The directory with the record of the first turn. -/
def directoryOf (r : Record) : Directory :=
  Directory.empty.write task₁ r.toVec

section Calls

variable {d : Directory} {r : Record} {es : List Action}
  {res : Option (Except MediationError Bool)}

theorem exec_admitted {d : Directory} {es : List Action}
    (hprior : Exec world d (priorSources Reference.crates packet₁).run es d
      (some (.ok .empty))) :
    Exec world d (admitClaim Reference.crates mediator
      (claim packet₁ Sample.lease)).run (es ++ clocks now) d
      (some (.ok (packet₁, Sample.lease, task₁, .empty))) :=
  exec_admitClaim admissible.claimOf hprior admissible.packet_valid
    admissible.owner

/-- The events of a first claim. -/
def firstClaim : List Action :=
  claimEvents mediator [] [] ([⟨.readDir, some []⟩] ++ clocks now)
    [⟨.read task₁, .missing⟩] task₁ Sample.lease (claim packet₁ Sample.lease)
    (brokerReceipt packet₁) (authorityOf packet₁) now

theorem exec_firstClaim
    (hrest : Exec world Directory.empty (settleWithWorker Reference.crates
      mediator task₁ packet₁ Sample.lease reserved).run es d res) :
    Exec world Directory.empty (runOnce Reference.crates mediator).run
      (firstClaim ++ es) d res :=
  exec_runOnce_claimed listing_empty exec_scan_empty admissible.claimOf
    (exec_admitted exec_priorSources_empty)
    (exec_claimRecord_fresh admissible.task_uuid rfl .empty)
    admissible.unsettling admissible.authorizes hrest

/-- The events of a claim over a stored record, after a scan. -/
def laterClaim (r : Record) (scanned : List Action) : List Action :=
  claimEvents mediator (oneFile task₁) scanned
    ([⟨.readDir, some (oneFile task₁)⟩, ⟨.read task₁, .bytes r.toVec⟩] ++
      clocks now)
    [⟨.read task₁, .bytes r.toVec⟩] task₁ Sample.lease
    (claim packet₁ Sample.lease) (brokerReceipt packet₁) (authorityOf packet₁)
    now

theorem exec_laterClaim {scanned : List Action}
    (hr : Stored Reference.crates (directoryOf r) task₁ r)
    (hbinding : r.binding = binding packet₁) (hlease : r.lease = Sample.lease)
    (hphase : r.phase ≠ "acknowledged")
    (hscan : Exec world (directoryOf r)
      (scan Reference.crates mediator (oneFile task₁)).run scanned
      (directoryOf r) (some (.ok false)))
    (hrest : Exec world (directoryOf r) (settleWithWorker Reference.crates
      mediator task₁ packet₁ Sample.lease r).run es d res) :
    Exec world (directoryOf r) (runOnce Reference.crates mediator).run
      (laterClaim r scanned ++ es) d res := by
  have hnone : StringSet.empty = if carriesOver r packet₁ then
      StringSet.empty.union r.sources else .empty := by
    rw [if_neg fun hcarries => hphase hcarries.1]
  have hprior := exec_priorSources_oneFile hr listing_oneFile hnone
  have hsame : ({ r with lease := Sample.lease } : Record) = r := by
    rw [← hlease]
  have hrecord : Exec world (directoryOf r) (claimRecord Reference.crates
      task₁ packet₁ Sample.lease .empty).run [⟨.read task₁, .bytes r.toVec⟩]
      (directoryOf r) (some (.ok { r with lease := Sample.lease })) :=
    exec_claimRecord_stored hr hbinding .empty
  rw [hsame] at hrecord
  exact exec_runOnce_claimed listing_oneFile hscan admissible.claimOf
    (exec_admitted hprior) hrecord (hbinding ▸ admissible.unsettling)
    admissible.authorizes hrest

/-- The worker has completed the turn; the answer to the update is lost. -/
def completedEvents (r : Record) (x u : Value) (drawn : List Action) :
    List Action :=
  receiptEvents task₁ (response (completedReceipt packet₁ x)) ++
    (authorityEvents task₁ Sample.lease (authorityOf packet₁) now ++ (drawn ++
      (saved task₁ (r.completed x runtime u) ::
        exchange (updateRequest task₁ Sample.lease u) none)))

theorem exec_settled {x u : Value} {drawn : List Action}
    (hsources : r.sources = reserved.sources) (hresult : r.result = none)
    (hruntime : r.runtimeBinding = none)
    (hx : CompletedReceipt (completedReceipt packet₁ x) packet₁)
    (hvalid : validateResultWithAdmission Reference.crates x packet₁
      reserved.sources mediator.admission = some ())
    (hdrawn : Drawn packet₁ { r with
      result := some x
      runtimeBinding := some runtime } drawn u)
    (hu : schema Reference.crates Contracts.update u = some ()) :
    Exec world d (settleWithWorker Reference.crates mediator task₁ packet₁
      Sample.lease r).run (completedEvents r x u drawn)
      (d.write task₁ (r.completed x runtime u).toVec)
      (some (.error (.broker (.http none)))) := by
  have hfields : (completedReceipt packet₁ x)["result"] = x ∧
      (completedReceipt packet₁ x)["runtimeBinding"] = runtime := by
    rw [completedReceipt, Value.getElem_object, Value.getElem_object]
    exact ⟨rfl, rfl⟩
  have haccept : acceptReceipt Reference.crates mediator r packet₁
      (completedReceipt packet₁ x) = some { r with
        result := some (completedReceipt packet₁ x)["result"]
        runtimeBinding :=
          some (completedReceipt packet₁ x)["runtimeBinding"] } := by
    refine acceptReceipt_of_none ?_ ?_ hresult hruntime
    · rw [hfields.2]
      exact answered.runtime_valid
    · rw [hfields.1, hsources]
      exact hvalid
  rw [hfields.1, hfields.2] at haccept
  exact exec_settle_completed hx haccept
    (exec_complete_lost admissible.task_uuid admissible.claimOf.task
      admissible.authorizes hdrawn hu)

/-- The worker's receipt cannot be read; the answer to the failure is lost. -/
def unansweredEvents (r : Record) : List Action :=
  receiptEvents task₁ none ++ (cancelEvents task₁ (ident "0000001d") ++
    (⟨.newUuid, ident "0000001e"⟩ :: saved task₁ (r.failed failure) ::
      exchange (updateRequest task₁ Sample.lease failure) none))

theorem exec_unanswered :
    Exec world d (settleWithWorker Reference.crates mediator task₁ packet₁
      Sample.lease r).run (unansweredEvents r)
      (d.write task₁ (r.failed failure).toVec)
      (some (.error (.broker (.http none)))) :=
  exec_settle_unanswered admissible.task_uuid answered.failure_valid

end Calls

/-- A record that a run saved is loaded again. -/
theorem stored {run : List (Call Reference.crates)} {d : Directory}
    {r : Record} (hrun : Run Reference.crates run d)
    (hsaved : saved task₁ r ∈ trace run)
    (hlength : r.toVec.length ≤ maxJsonBytes) :
    Stored Reference.crates (directoryOf r) task₁ r where
  uuid := admissible.task_uuid
  file := Directory.write_self _ _ _
  safe := (hrun.safe_of_saved hsaved).1
  length := hlength

theorem record_of_run {run : List (Call Reference.crates)} {r : Record}
    (hrun : Run Reference.crates run (directoryOf r))
    (hsaved : saved task₁ r ∈ trace run) :
    (directory (trace run)).record task₁ = some r := by
  have hstate : directoryOf r = directory (trace run) := hrun.state_eq
  rw [← hstate]
  exact Directory.record_write_self (hrun.safe_of_saved hsaved).1 _ _

theorem not_pending_of_result {r : Record} (hr : r.result = none) :
    ¬pending r := by
  rintro ⟨hresult, _⟩
  rw [hr] at hresult
  cases hresult

/-! ### The first turn and its recovery -/

/-- The worker has completed the turn; the answer to its completion is lost. -/
def completedCall : Call Reference.crates where
  param := mediator
  before := Directory.empty
  after := directoryOf completed
  events := firstClaim ++ completedEvents reserved reply completion
    [⟨.newUuid, ident "0000001b"⟩]
  result := some (.error (.broker (.http none)))
  exec := exec_firstClaim (exec_settled rfl rfl rfl
    answered.reply_completed answered.reply_valid
    (.fresh (ident "0000001b") rfl rfl) answered.completion_valid)

theorem run_completedCall :
    Run Reference.crates [completedCall] (directoryOf completed) :=
  .snoc completedCall .nil rfl

theorem saved_completed : saved task₁ completed ∈ trace [completedCall] := by
  simp [completedCall, completedEvents, completed]

theorem completed_stored :
    Stored Reference.crates (directoryOf completed) task₁ completed :=
  stored run_completedCall saved_completed recoverable.completed_length

/-- The events of the completed turn up to its update. -/
def beforeCompletion : List Action :=
  firstClaim ++ (receiptEvents task₁
      (response (completedReceipt packet₁ reply)) ++
    (authorityEvents task₁ Sample.lease (authorityOf packet₁) now ++
      [⟨.newUuid, ident "0000001b"⟩, saved task₁ completed,
        ⟨.serviceToken (updateRequest task₁ Sample.lease completion),
          serviceToken⟩]))

theorem completedCall_events : completedCall.events = beforeCompletion ++
    [⟨.roomRequest (updateRequest task₁ Sample.lease completion), none⟩] := by
  simp [completedCall, completedEvents, beforeCompletion, exchange, completed]

/-- The events of the scan that recovers the completed turn. -/
def recoveryScan : List Action :=
  ⟨.read task₁, .bytes completed.toVec⟩ ::
    recoverEvents task₁ completed (brokerReceipt packet₁)
      (authorityOf packet₁) completion (ack packet₁) now

theorem exec_recoveryScan :
    Exec world (directoryOf completed)
      (scan Reference.crates mediator (oneFile task₁)).run recoveryScan
      (directoryOf acknowledged) (some (.ok true)) := by
  refine exec_scan_pending completed_stored recoverable.completed_pending ?_
  have h : Exec world (directoryOf completed)
      (recover Reference.crates mediator task₁ completed).run _ _ _ :=
    exec_recover_acknowledged admissible.task_uuid admissible.unsettling
      recoverable.completed_task recoverable.authorizes
      ⟨rfl, rfl, rfl, recoverable.replay_valid, answered.completion_valid⟩
      recoverable.ack_sendable recoverable.ack_matches
  rwa [directoryOf, write_write] at h

/-- The scan of the completed turn, where the token for its authority check is
refused. -/
def refusedScan : List Action :=
  ⟨.read task₁, .bytes completed.toVec⟩ ::
    refusedEvents task₁ (ident "0000001d") completed (brokerReceipt packet₁)
      403

theorem exec_refusedScan :
    Exec world (directoryOf completed)
      (scan Reference.crates mediator (oneFile task₁)).run refusedScan
      (directoryOf completed.quarantined) (some (.ok false)) := by
  refine exec_scan_pending completed_stored recoverable.completed_pending ?_
  have h : Exec world (directoryOf completed)
      (recover Reference.crates mediator task₁ completed).run _ _ _ :=
    exec_recover_refused (ident "0000001d") admissible.task_uuid
      admissible.unsettling recoverable.completed_task rfl (.inl rfl)
  rwa [directoryOf, write_write] at h

/-- The next call sends the completion again; the broker acknowledges it. -/
def recoveryCall : Call Reference.crates where
  param := mediator
  before := directoryOf completed
  after := directoryOf acknowledged
  events := ⟨.readDir, some (oneFile task₁)⟩ :: recoveryScan
  result := some (.ok true)
  exec := exec_runOnce_finished listing_oneFile exec_recoveryScan

/-- The events of the recovery up to the update. -/
def beforeReplay : List Action :=
  ⟨.readDir, some (oneFile task₁)⟩ :: ⟨.read task₁, .bytes completed.toVec⟩ ::
    (exchange (brokerReceiptRequest task₁) (response (brokerReceipt packet₁)) ++
      (authorityEvents task₁ Sample.lease (authorityOf packet₁) now ++
        [⟨.serviceToken (updateRequest task₁ Sample.lease completion),
          serviceToken⟩]))

theorem recoveryCall_events : recoveryCall.events = beforeReplay ++
    ⟨.roomRequest (updateRequest task₁ Sample.lease completion),
      response (ack packet₁)⟩ :: ackEvents task₁ (ack packet₁) completed := by
  simp only [recoveryCall, recoveryScan, recoverEvents, beforeReplay, exchange,
    List.cons_append, List.nil_append, List.append_assoc]
  rfl

def conversation : List (Call Reference.crates) :=
  [completedCall, recoveryCall]

theorem run_conversation :
    Run Reference.crates conversation (directoryOf acknowledged) :=
  .snoc recoveryCall run_completedCall rfl

theorem saved_acknowledged : saved task₁ acknowledged ∈ trace conversation := by
  simp [conversation, recoveryCall, recoveryScan, recoverEvents, ackEvents,
    acknowledged]

theorem record_conversation :
    (directory (trace conversation)).record task₁ = some acknowledged :=
  record_of_run run_conversation saved_acknowledged

theorem record_completedCall :
    (directory (trace [completedCall])).record task₁ = some completed :=
  record_of_run run_completedCall saved_completed

theorem acknowledged_stored :
    Stored Reference.crates (directoryOf acknowledged) task₁ acknowledged :=
  stored run_conversation saved_acknowledged recoverable.acknowledged_length

/-- The second turn is admitted after the first one. -/
theorem exec_admitted₂ :
    Exec world (directoryOf acknowledged) (admitClaim Reference.crates mediator
      (claim packet₂ Sample.lease)).run
      ([⟨.readDir, some (oneFile task₁)⟩,
        ⟨.read task₁, .bytes acknowledged.toVec⟩] ++ clocks now)
      (directoryOf acknowledged)
      (some (.ok (packet₂, Sample.lease, ident "00000016", firstSources))) := by
  have hprior : firstSources = if carriesOver acknowledged packet₂ then
      StringSet.empty.union acknowledged.sources else .empty := by
    rw [if_pos continues.carriesOver]
    rfl
  exact exec_admitClaim continues.claimOf
    (exec_priorSources_oneFile acknowledged_stored listing_oneFile hprior)
    continues.packet_valid continues.owner

end Sample

/-! ## Runs -/

/-- Every record that is durable at some moment of a run is well formed. -/
theorem Run.wellFormed {run : List (Call K)} (hrun : Run K run d)
    {t : List Action} (ht : t <+: trace run)
    (hr : (directory t).record id = some r) : r.WellFormed K id := by
  refine Run.forall_directory (P := fun d => ∀ id r,
    d.record id = some r → r.WellFormed K id) ?_ ?_ ht id r hr
  · rintro id r ⟨⟩
  · rintro past x future h e rest rfl hevents hinv id r hr
    rcases record_step (hrun.guarantee hevents) id with
      hsame | ⟨q, ans, _, hsave, hnew⟩
    · rw [hsame] at hr
      exact hinv id r hr
    · rw [hnew] at hr
      cases hr
      exact hsave.wellFormed (hinv id)

/-- One event of a run extends every record. -/
theorem Run.extends_step {run : List (Call K)} (hrun : Run K run d)
    {t : List Action} {e : Action} (ht : t ++ [e] <+: trace run)
    (hr : (directory t).record id = some r) :
    ∃ r', (directory (t ++ [e])).record id = some r' ∧ r.Extends r' := by
  have hwell := hrun.wellFormed ((List.prefix_append t [e]).trans ht) hr
  obtain ⟨past, x, future, h, rest, rfl, hevents, rfl⟩ :=
    exists_session_of_event ht
  have hG := hrun.guarantee hevents
  rw [directory_snoc]
  rcases record_step hG id with hsame | ⟨q, ans, _, hsave, hnew⟩
  · exact ⟨r, hsame.trans hr, .refl r⟩
  · exact ⟨q, hnew, hsave.extends hr hwell⟩

theorem Run.extends {run : List (Call K)} (hrun : Run K run d)
    {t t' : List Action} (htt' : t <+: t') (ht' : t' <+: trace run)
    (hr : (directory t).record id = some r) :
    ∃ r', (directory t').record id = some r' ∧ r.Extends r' := by
  obtain ⟨u, rfl⟩ := htt'
  induction u using List.reverseRecOn with
  | nil => exact ⟨r, by rwa [List.append_nil], .refl r⟩
  | append_singleton u e ih =>
      rw [← List.append_assoc] at ht'
      obtain ⟨q, hq, hrq⟩ := ih ((List.prefix_append _ [e]).trans ht')
      obtain ⟨s, hs, hqs⟩ := hrun.extends_step ht' hq
      exact ⟨s, by rwa [← List.append_assoc], hrq.trans hqs⟩

/-- At every moment of a run, the record under a task id is bound to that task,
holds a result exactly if it holds a runtime binding, and an acknowledgement
only with the result that it is bound to.  Its binding and its sources never
change again, and a result, a runtime binding and an acknowledgement stay as
they are. -/
theorem records_bound_and_write_once {run : List (Call K)}
    (hrun : Run K run d) {t : List Action} (ht : t <+: trace run)
    (hr : (directory t).record id = some r) :
    (r.binding["taskId"] = .str id ∧
      (r.result.isSome = r.runtimeBinding.isSome) ∧
      (∀ a, r.ack = some a → AckBound K r a) ∧
      (r.phase = "acknowledged" → r.ack.isSome = true)) ∧
    ∀ t', t <+: t' → t' <+: trace run →
      ∃ r', (directory t').record id = some r' ∧
        r'.binding = r.binding ∧ r'.sources = r.sources ∧
        (∀ x, r.result = some x → r'.result = some x) ∧
        (∀ y, r.runtimeBinding = some y → r'.runtimeBinding = some y) ∧
        (∀ a, r.ack = some a → r'.ack = some a) := by
  have hwell := hrun.wellFormed ht hr
  refine ⟨⟨hwell.task, ?_, hwell.ack, ?_⟩, fun t' htt' ht' => ?_⟩
  · have hruntime := hwell.runtime
    cases hx : r.result <;> cases hy : r.runtimeBinding <;>
      simp_all
  · exact fun hphase => Option.isSome_iff_ne_none.mpr
      (hwell.acknowledged hphase)
  · obtain ⟨r', hr', hext⟩ := hrun.extends htt' ht' hr
    exact ⟨r', hr', hext.binding, hext.sources, hext.result,
      hext.runtimeBinding, hext.ack⟩

theorem records_bound_and_write_once_conversation :
    (directory (trace Sample.conversation)).record Sample.task₁ =
        some Sample.acknowledged ∧
      AckBound Reference.crates Sample.acknowledged
        (Sample.ack Sample.packet₁) ∧
      Sample.acknowledged.binding["taskId"] = .str Sample.task₁ := by
  have hrecord := Sample.record_conversation
  obtain ⟨⟨htask, _, hack, _⟩, _⟩ := records_bound_and_write_once
    Sample.run_conversation (List.prefix_refl _) hrecord
  exact ⟨hrecord, hack _ rfl, htask⟩

end AgentGateway
