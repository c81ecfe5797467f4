import AgentGateway.Conversation.Progress
import AgentGateway.Library.Sha256

/-!
# Turns

Executions of whole calls: a claim that is admitted, a turn that the worker has
completed, a turn that it is asked to run, a turn whose receipt cannot be read,
and the recovery of a completed record.  They are put together to a
conversation with the packet of a contract fixture in its first turn, under the
crates that the mediator calls, as far as their inputs go here.
-/

namespace AgentGateway

open Json (Value)
open Interaction
open Mediation
open Dispatcher

section

variable {K : Crates} {c : Dispatcher} {d d' : Directory}
  {id lease : String} {p : Value} {r : Record}

/-! ## Claims -/

/-- A claim of a task as the broker answers it. -/
structure ClaimOf (claim p : Value) (lease id : String) : Prop where
  sendable : Sendable roomLimit claim
  closed : closed claim ["packet", "leaseToken"] = true
  packet : claim["packet"] = p
  lease : claim["leaseToken"] = .str lease
  task : p["taskId"] = .str id

def clocks (now : ℤ) : List Action :=
  [⟨.clock, now⟩, ⟨.clock, now⟩, ⟨.clock, now⟩]

theorem exec_clockReadings (now : ℤ) :
    Exec world d clockReadings.run (clocks now) d
      (some (.ok (now, now, now))) :=
  exec_perform_bind trivial (exec_perform_bind trivial
    (exec_perform_bind trivial (.ret _ _)))

theorem exec_admitClaim {claim : Value} {now : ℤ} {prior : StringSet}
    {es : List Action} (hclaim : ClaimOf claim p lease id)
    (hprior : Exec world d (priorSources K p).run es d (some (.ok prior)))
    (hvalid : validatePacketWithSources K p c.admission
      (some (now, now, now)) prior = some ())
    (howner : p["leaseOwner"] = .str c.owner) :
    Exec world d (admitClaim K c claim).run (es ++ clocks now) d
      (some (.ok (p, lease, id, prior))) := by
  obtain ⟨_, hclosed, rfl, hlease, htask⟩ := hclaim
  refine exec_guard_bind hclosed ?_
  refine exec_checked_bind (Value.asStr?_eq_some.mpr hlease) ?_
  refine exec_checked_bind (Value.asStr?_eq_some.mpr htask) ?_
  refine Exec.bindOk hprior ?_
  have h : Exec world d (do
      let now ← clockReadings
      checked (validatePacketWithSources K claim["packet"] c.admission
        (some now) prior)
      checked (guard (claim["packet"]["leaseOwner"] = Value.str c.owner))
      return (claim["packet"], lease, id, prior)).run
      (clocks now ++ []) d
      (some (.ok (claim["packet"], lease, id, prior))) :=
    Exec.bindOk (exec_clockReadings now) (exec_checked_bind hvalid
      (exec_guard_bind howner (.ret _ _)))
  rwa [List.append_nil] at h

theorem exec_claimRecord_fresh (huuid : K.uuidParses id = true)
    (hnone : d id = none) (prior : StringSet) :
    Exec world d (claimRecord K id p lease prior).run [⟨.read id, .missing⟩] d
      (some (.ok (freshRecord p lease prior))) :=
  Exec.bindOk (exec_load_missing huuid hnone) (.ret _ _)

theorem exec_claimRecord_stored (hr : Stored K d id r)
    (hbinding : r.binding = binding p) (prior : StringSet) :
    Exec world d (claimRecord K id p lease prior).run
      [⟨.read id, .bytes r.toVec⟩] d (some (.ok { r with lease := lease })) :=
  Exec.bindOk (exec_load hr) (exec_guard_bind hbinding (.ret _ _))

/-- The part of a claim call after the broker has been asked. -/
def settleWithWorker (K : Crates) (c : Dispatcher) (id : String) (p : Value)
    (lease : String) (r : Record) : Mediation Bool := do
  let receipt ← attempt (Worker.receipt id)
  resume K c id p lease r receipt

/-- The events of a claim call before the worker is asked. -/
def claimEvents (c : Dispatcher) (entries : List DirEntry)
    (scanned admitted read : List Action) (id lease : String)
    (claim receipt a : Value) (now : ℤ) : List Action :=
  ⟨.readDir, some entries⟩ :: (scanned ++
    (exchange c.claimRequest (response claim) ++ (admitted ++ (read ++
      (exchange (brokerReceiptRequest id) (response receipt) ++
        authorityEvents id lease a now)))))

/-- A claim call comes to the worker with the record that it holds. -/
theorem exec_runOnce_claimed {entries : List DirEntry}
    {es₀ es₁ es₂ es₃ : List Action} {claim receipt a : Value} {now : ℤ}
    {prior : StringSet} {res : Option (Except MediationError Bool)}
    (hlist : Listing d entries)
    (hscan : Exec world d (scan K c entries).run es₀ d (some (.ok false)))
    (hclaim : ClaimOf claim p lease id)
    (hadmitted : Exec world d (admitClaim K c claim).run es₁ d
      (some (.ok (p, lease, id, prior))))
    (hrecord : Exec world d (claimRecord K id p lease prior).run es₂ d
      (some (.ok r)))
    (hreceipt : Unsettling receipt r.binding) (ha : Authorizes K now p a)
    (hrest : Exec world d (settleWithWorker K c id p lease r).run es₃ d' res) :
    Exec world d (runOnce K c).run
      (claimEvents c entries es₀ es₁ es₂ id lease claim receipt a now ++ es₃)
      d' res := by
  have hrequest : (roomResponse (response claim)).mapError
      MediationError.broker = .ok (some claim) := by
    rw [roomResponse_response hclaim.sendable]
    rfl
  have h : Exec world d (runOnce K c).run
      ([⟨.readDir, some entries⟩] ++ (es₀ ++
        (exchange c.claimRequest (response claim) ++ (es₁ ++ (es₂ ++
          (exchange (brokerReceiptRequest id) (response receipt) ++
            (authorityEvents id lease a now ++ es₃))))))) d' res :=
    Exec.bindOk (exec_readDir hlist) (Exec.bindOk hscan
      (Exec.bindOk (exec_conversationRequest hrequest) (Exec.bindOk hadmitted
        (Exec.bindOk hrecord (Exec.bindOk (exec_reconcileBroker hreceipt)
          (Exec.bindOk (exec_authorityOrCancel hclaim.task ha) hrest))))))
  simpa [claimEvents] using h

/-! ## A turn that the worker has completed -/

/-- How the completion of a record comes about: it is stored, or drawn. -/
inductive Drawn (p : Value) (r : Record) : List Action → Value → Prop
  | stored {u : Value} : r.update = some u → Drawn p r [] u
  | fresh {x : Value} (updateId : String) : r.update = none →
      r.result = some x → Drawn p r [⟨.newUuid, updateId⟩]
        (updateValue p "completed" x updateId)

theorem exec_completedUpdate {es : List Action} {u : Value}
    (hu : Drawn p r es u) :
    Exec world d (completedUpdate p r).run es d (some (.ok u)) := by
  cases hu with
  | stored hupdate =>
      rw [completedUpdate, hupdate]
      exact .ret _ _
  | fresh updateId hupdate hresult =>
      rw [completedUpdate, hupdate]
      exact exec_checked_bind hresult
        (exec_perform_bind (o := .newUuid) (a := updateId) trivial
          (.ret _ _))

/-- The completion is stored; the broker's answer to it is lost. -/
theorem exec_complete_lost {es : List Action} {u a : Value} {now : ℤ}
    (huuid : K.uuidParses id = true) (htask : p["taskId"] = .str id)
    (ha : Authorizes K now p a) (hu : Drawn p r es u)
    (hschema : schema K Contracts.update u = some ()) :
    Exec world d (complete K id p lease r).run
      (authorityEvents id lease a now ++ (es ++
        (saved id { r with phase := "completed", update := some u } ::
          exchange (updateRequest id lease u) none)))
      (d.write id
        ({ r with phase := "completed", update := some u } : Record).toVec)
      (some (.error (.broker (.http none)))) := by
  refine Exec.bindOk (exec_authorityOrCancel htask ha)
    (Exec.bindOk (exec_completedUpdate hu) ?_)
  exact Exec.bindOk (exec_save huuid _)
    (exec_checked_bind hschema (Exec.bindError exec_broker_lost))

def receiptEvents (id : String) (reply : Reply) : List Action :=
  workerExchange (Worker.receiptRequest id) reply

/-- The worker's receipt of a completed turn. -/
structure CompletedReceipt (receipt p : Value) : Prop where
  sendable : Sendable maxJsonBytes receipt
  agrees : validateReceipt receipt p = some ()
  phase : receipt["phase"] = .str "completed"

theorem acceptReceipt_of_none {receipt : Value}
    (hruntime : validateRuntime receipt["runtimeBinding"] = some ())
    (hvalid : validateResultWithAdmission K receipt["result"] p r.sources
      c.admission = some ())
    (hresult : r.result = none) (hbinding : r.runtimeBinding = none) :
    acceptReceipt K c r p receipt = some { r with
      result := some receipt["result"]
      runtimeBinding := some receipt["runtimeBinding"] } := by
  simp [acceptReceipt, hruntime, hvalid, hresult, hbinding, guard]

theorem exec_settle_completed {q : Record} {receipt : Value}
    {es : List Action} {res : Option (Except MediationError Bool)}
    (hreceipt : CompletedReceipt receipt p)
    (haccept : acceptReceipt K c r p receipt = some q)
    (hrest : Exec world d (complete K id p lease q).run es d' res) :
    Exec world d (settleWithWorker K c id p lease r).run
      (receiptEvents id (response receipt) ++ es) d' res := by
  have hanswer : workerResponse (Worker.receiptRequest id).path
      (response receipt) = .ok (some receipt) :=
    workerResponse_response (by rintro ⟨⟩) hreceipt.sendable
  have hread := exec_workerRequest (d := d) (Worker.receiptRequest id)
    (response receipt)
  rw [hanswer] at hread
  refine exec_attempt_bind hread (exec_checked_bind hreceipt.agrees ?_)
  rw [if_pos hreceipt.phase]
  exact exec_checked_bind haccept hrest

/-! ## A turn whose receipt cannot be read -/

/-- The worker is asked to cancel a task and does not answer. -/
def cancelEvents (id rpcId : String) : List Action :=
  ⟨.newUuid, rpcId⟩ :: workerExchange
    (Worker.rpcRequest rpcId "CancelTask" (.object [("id", .str id)])) none

theorem exec_cancel (rpcId : String) :
    Exec world d (Worker.cancel id).run (cancelEvents id rpcId) d
      (some (.ok ())) := by
  have hreply := exec_ofExcept (d := d) (workerResponse .rpc none)
  have hrpc : Exec world d
      (Worker.rpc "CancelTask" (.object [("id", .str id)])).run
      (cancelEvents id rpcId) d (some (.error .http)) :=
    exec_perform_bind (o := .newUuid) (a := rpcId) trivial
      (exec_perform_bind trivial
        (Exec.bindError (exec_perform_bind trivial hreply)))
  have h : Exec world d (Worker.cancel id).run (cancelEvents id rpcId ++ []) d
      (some (.ok ())) := exec_attempt_bind hrpc (.ret _ _)
  rwa [List.append_nil] at h

def failedUpdate (p : Value) (updateId : String) : Value :=
  updateValue p "failed" (failureData "conversation_interrupted") updateId

/-- The failure is stored; the broker's answer to it is lost. -/
theorem exec_failWithCode_lost {code updateId : String}
    (huuid : K.uuidParses id = true)
    (hcode : safeFailureCode code = some code)
    (hschema : schema K Contracts.update
      (updateValue p "failed" (failureData code) updateId) = some ()) :
    Exec world d (failWithCode K id p lease r code).run
      (⟨.newUuid, updateId⟩ ::
        saved id (r.failed
          (updateValue p "failed" (failureData code) updateId)) ::
        exchange (updateRequest id lease
          (updateValue p "failed" (failureData code) updateId)) none)
      (d.write id (r.failed
        (updateValue p "failed" (failureData code) updateId)).toVec)
      (some (.error (.broker (.http none)))) := by
  refine exec_checked_bind hcode ?_
  refine exec_perform_bind (o := .newUuid) (a := updateId) trivial ?_
  exact Exec.bindOk (exec_save huuid (r.failed
      (updateValue p "failed" (failureData code) updateId)))
    (exec_checked_bind hschema (Exec.bindError exec_broker_lost))

theorem exec_fail_lost {updateId : String} (huuid : K.uuidParses id = true)
    (hschema : schema K Contracts.update (failedUpdate p updateId) =
      some ()) :
    Exec world d (fail K id p lease r).run
      (⟨.newUuid, updateId⟩ :: saved id (r.failed (failedUpdate p updateId)) ::
        exchange (updateRequest id lease (failedUpdate p updateId)) none)
      (d.write id (r.failed (failedUpdate p updateId)).toVec)
      (some (.error (.broker (.http none)))) := by
  apply exec_failWithCode_lost huuid ?_ hschema
  decide

theorem exec_settle_unanswered {rpcId updateId : String}
    (huuid : K.uuidParses id = true)
    (hschema : schema K Contracts.update (failedUpdate p updateId) =
      some ()) :
    Exec world d (settleWithWorker K c id p lease r).run
      (receiptEvents id none ++ (cancelEvents id rpcId ++
        (⟨.newUuid, updateId⟩ ::
          saved id (r.failed (failedUpdate p updateId)) ::
            exchange (updateRequest id lease (failedUpdate p updateId))
              none)))
      (d.write id (r.failed (failedUpdate p updateId)).toVec)
      (some (.error (.broker (.http none)))) :=
  exec_attempt_bind (exec_workerRequest _ _)
    (Exec.bindOk (exec_cancel rpcId) (exec_fail_lost huuid hschema))

/-- The worker reports that the turn failed. -/
theorem exec_settle_failed {receipt : Value} {code rpcId updateId : String}
    (huuid : K.uuidParses id = true) (hsendable : Sendable maxJsonBytes receipt)
    (hagrees : validateReceipt receipt p = some ())
    (hphase : receipt["phase"] ≠ .str "completed")
    (hfailure : receiptFailure receipt p = some code)
    (hcode : safeFailureCode code = some code)
    (hschema : schema K Contracts.update
      (updateValue p "failed" (failureData code) updateId) = some ()) :
    Exec world d (settleWithWorker K c id p lease r).run
      (receiptEvents id (response receipt) ++ (cancelEvents id rpcId ++
        (⟨.newUuid, updateId⟩ ::
          saved id (r.failed
            (updateValue p "failed" (failureData code) updateId)) ::
            exchange (updateRequest id lease
              (updateValue p "failed" (failureData code) updateId)) none)))
      (d.write id (r.failed
        (updateValue p "failed" (failureData code) updateId)).toVec)
      (some (.error (.broker (.http none)))) := by
  have hanswer : workerResponse (Worker.receiptRequest id).path
      (response receipt) = .ok (some receipt) :=
    workerResponse_response (by rintro ⟨⟩) hsendable
  have hread := exec_workerRequest (d := d) (Worker.receiptRequest id)
    (response receipt)
  rw [hanswer] at hread
  refine exec_attempt_bind hread (exec_checked_bind hagrees ?_)
  rw [if_neg hphase]
  refine Exec.bindOk (exec_cancel rpcId) ?_
  rw [hfailure]
  exact exec_failWithCode_lost huuid hcode hschema

/-! ## A turn that the worker is asked to run -/

/-- A response without a body. -/
def noContent : Reply := some ⟨204, [], false⟩

theorem workerResponse_noContent (path : WorkerPath) :
    workerResponse path noContent = .ok none := by
  simp [workerResponse, noContent]

/-- The worker's card and its catalog. -/
structure Offer (K : Crates) (c : Dispatcher) (p catalog : Value) : Prop where
  card : Sendable maxJsonBytes Worker.codexCard
  sendable : Sendable maxJsonBytes catalog
  page : Worker.catalogPage K c.admission catalog = some ()
  offers : catalogOffers catalog p = some ()

def offerEvents (catalog : Value) : List Action :=
  workerExchange ⟨.get, .card, none⟩ (response Worker.codexCard) ++
    workerExchange ⟨.get, .models, none⟩ (response catalog)

def sendRequest (id rpcId : String) (p : Value) : WorkerRequest :=
  Worker.rpcRequest rpcId "SendMessage" (sendParams id p)

/-- The submission of a reserved record, without authority checks while the
worker runs. -/
def submitEvents (id rpcId : String) (p : Value) (r : Record)
    (catalog : Value) (reply : Reply) : List Action :=
  receiptEvents id noContent ++ (offerEvents catalog ++ ([saved id r,
    saved id { r with phase := "submission-intent" }, ⟨.interval, (0, 0)⟩,
    ⟨.newUuid, rpcId⟩] ++ workerExchange (sendRequest id rpcId p) reply))

theorem exec_admitCodex {catalog : Value} (hoffer : Offer K c p catalog) :
    Exec world d Worker.admitCodex.run
      (workerExchange ⟨.get, .card, none⟩ (response Worker.codexCard)) d
      (some (.ok ())) := by
  have hread := exec_workerRequest (d := d) ⟨.get, .card, none⟩
    (response Worker.codexCard)
  rw [workerResponse_response (by rintro ⟨⟩) hoffer.card] at hread
  have h : Exec world d Worker.admitCodex.run
      (workerExchange ⟨.get, .card, none⟩ (response Worker.codexCard) ++ [])
      d (some (.ok ())) :=
    Exec.bindOk hread (exec_checked_bind rfl
      (exec_checked (guard_eq_some.mpr rfl)))
  rwa [List.append_nil] at h

theorem exec_catalog {catalog : Value} (hoffer : Offer K c p catalog) :
    Exec world d (Worker.catalog K c.admission).run
      (workerExchange ⟨.get, .models, none⟩ (response catalog)) d
      (some (.ok catalog)) := by
  have hread := exec_workerRequest (d := d) ⟨.get, .models, none⟩
    (response catalog)
  rw [workerResponse_response (by rintro ⟨⟩) hoffer.sendable] at hread
  have h : Exec world d (Worker.catalog K c.admission).run
      (workerExchange ⟨.get, .models, none⟩ (response catalog) ++ []) d
      (some (.ok catalog)) :=
    Exec.bindOk hread (exec_checked_bind rfl
      (exec_checked_bind hoffer.page (.ret _ _)))
  rwa [List.append_nil] at h

/-- The worker's reply to a submission, of whatever kind. -/
theorem exec_sendMessage {rpcId : String} {reply : Reply}
    {x : Except MediationError Value}
    (hx : (do
      let response ← workerResponse .rpc reply
      match response with
      | some response => Worker.rpcResult rpcId response
      | none => .error .validation) = x) :
    Exec world d (sendMessage K id p lease r).run
      ([⟨.interval, (0, 0)⟩, ⟨.newUuid, rpcId⟩] ++
        workerExchange (sendRequest id rpcId p) reply) d
      (some (.ok x)) := by
  have hreceive : Exec world d
      (Worker.rpcReceive rpcId (sendRequest id rpcId p)).run
      [⟨.workerReceive (sendRequest id rpcId p), reply⟩] d (some x) := by
    have hanswer : Exec world d (Worker.receive (sendRequest id rpcId p)).run
        [⟨.workerReceive (sendRequest id rpcId p), reply⟩] d
        (some (workerResponse .rpc reply)) :=
      exec_perform_bind trivial (exec_ofExcept _)
    subst hx
    cases hresponse : workerResponse .rpc reply with
    | error e =>
        rw [hresponse] at hanswer
        exact Exec.bindError hanswer
    | ok response =>
        rw [hresponse] at hanswer
        cases response with
        | none => exact Exec.bindOk hanswer (.ret _ _)
        | some v =>
            exact Exec.bindOk hanswer (exec_ofExcept (Worker.rpcResult rpcId v))
  have hattempt : Exec world d
      (attempt (Worker.rpcReceive rpcId (sendRequest id rpcId p))).run
      [⟨.workerReceive (sendRequest id rpcId p), reply⟩] d
      (some (.ok x)) := by
    rw [attempt_run]
    exact Exec.bind hreceive (.ret _ _)
  exact exec_perform_bind (o := .interval) (a := (0, 0)) trivial
    (exec_perform_bind (o := .newUuid) (a := rpcId) trivial
      (exec_perform_bind trivial hattempt))

/-- The part of a submission after the worker's reply. -/
def afterSend (K : Crates) (c : Dispatcher) (id : String) (p : Value)
    (lease : String) (r : Record) :
    Except MediationError Value → Mediation Bool
  | .error e => sendFailed K id p lease r e
  | .ok output => do
      let data ← checked (replyData output p)
      let receipt ← Worker.receipt id
      let receipt ← checked receipt
      let r ← checked (acceptReply K c r p data receipt)
      complete K id p lease r

/-- A reserved record is submitted, once the worker knows nothing of it. -/
theorem exec_settle_submitted {rpcId : String} {catalog : Value}
    {reply : Reply} {x : Except MediationError Value} {es : List Action}
    {res : Option (Except MediationError Bool)}
    (huuid : K.uuidParses id = true) (hphase : r.phase = "reserved")
    (hresult : r.result = none) (hoffer : Offer K c p catalog)
    (hx : (do
      let response ← workerResponse .rpc reply
      match response with
      | some response => Worker.rpcResult rpcId response
      | none => .error .validation) = x)
    (hrest : Exec world ((d.write id r.toVec).write id
        ({ r with phase := "submission-intent" } : Record).toVec)
      (afterSend K c id p lease { r with phase := "submission-intent" } x).run
      es d' res) :
    Exec world d (settleWithWorker K c id p lease r).run
      (submitEvents id rpcId p r catalog reply ++ es) d' res := by
  have hread := exec_workerRequest (d := d) (Worker.receiptRequest id)
    noContent
  rw [workerResponse_noContent] at hread
  have hfresh : ¬(r.phase ≠ "reserved" ∨ r.result.isSome = true) := by
    simp [hphase, hresult]
  have hsubmit : Exec world d (resume K c id p lease r (.ok none)).run
      (workerExchange ⟨.get, .card, none⟩ (response Worker.codexCard) ++
        (workerExchange ⟨.get, .models, none⟩ (response catalog) ++
          ([saved id r] ++ ([saved id { r with phase := "submission-intent" }]
            ++ (([⟨.interval, (0, 0)⟩, ⟨.newUuid, rpcId⟩] ++
              workerExchange (sendRequest id rpcId p) reply) ++ es)))))
      d' res := by
    rw [resume, if_neg hfresh]
    refine Exec.bindOk (exec_admitCodex hoffer)
      (Exec.bindOk (exec_catalog hoffer)
        (exec_checked_bind hoffer.offers
          (Exec.bindOk (exec_save huuid r)
            (Exec.bindOk (exec_save huuid _)
              (Exec.bindOk (exec_sendMessage hx) ?_)))))
    cases x with
    | error e => exact hrest
    | ok output => exact hrest
  have h : Exec world d (settleWithWorker K c id p lease r).run _ d' res :=
    exec_attempt_bind hread hsubmit
  simpa [submitEvents, receiptEvents, offerEvents] using h

/-- An output of the wrong form ends the call. -/
theorem exec_afterSend_malformed {output : Value}
    (hdata : replyData output p = none) :
    Exec world d (afterSend K c id p lease r (.ok output)).run [] d
      (some (.error .validation)) :=
  exec_checked_none hdata

/-- The value of an envelope with a result. -/
theorem workerResponse_rpc {v w : Value} (hv : Sendable maxJsonBytes v)
    (hw : (envelope v).bind Envelope.value = some w) :
    workerResponse .rpc (response v) = .ok (some w) := by
  have hlength : ¬(toVec v).length > maxJsonBytes := Nat.not_lt.mpr hv.length
  have htree : syntaxTree (toVec v) = some v :=
    syntaxTree_toVec hv.safe.integers hv.depth
  have hbody : parseRpcJson (toVec v) = some w := by
    rw [parseRpcJson, if_neg hlength, htree]
    exact hw
  simp [workerResponse, response, workerBody, workerValue, isSuccess, hlength,
    hbody]

/-! ## Scans of one record -/

theorem exec_scan_empty :
    Exec world d (scan K c []).run [] d (some (.ok false)) :=
  .ret _ _

theorem exec_entryId :
    Exec world d (entryId (.file (some id) (some "json"))).run [] d
      (some (.ok (some id))) := by
  rw [entryId, if_neg (by decide)]
  exact exec_checked_bind rfl (.ret _ _)

theorem exec_visit {es : List Action} {finished : Bool}
    (hr : Stored K d id r)
    (hrest : Exec world d (if pending r then recover K c id r
      else return false : Mediation Bool).run es d' (some (.ok finished))) :
    Exec world d (visit K c (.file (some id) (some "json"))).run
      ([] ++ ([⟨.read id, .bytes r.toVec⟩] ++ es)) d'
      (some (.ok finished)) :=
  Exec.bindOk exec_entryId (Exec.bindOk (exec_load hr) hrest)

/-- A record that is not pending is passed over. -/
theorem exec_scan_skipped (hr : Stored K d id r) (hskip : ¬pending r) :
    Exec world d (scan K c (oneFile id)).run [⟨.read id, .bytes r.toVec⟩] d
      (some (.ok false)) := by
  have hrest : Exec world d (if pending r then recover K c id r
      else return false : Mediation Bool).run [] d (some (.ok false)) := by
    rw [if_neg hskip]
    exact .ret _ _
  exact Exec.bindOk (exec_visit hr hrest) (.ret _ _)

/-- A pending record is visited. -/
theorem exec_scan_pending {es : List Action} {finished : Bool}
    (hr : Stored K d id r) (hpending : pending r)
    (hrecover : Exec world d (recover K c id r).run es d'
      (some (.ok finished))) :
    Exec world d (scan K c (oneFile id)).run
      (⟨.read id, .bytes r.toVec⟩ :: es) d' (some (.ok finished)) := by
  have hrest : Exec world d (if pending r then recover K c id r
      else return false : Mediation Bool).run es d' (some (.ok finished)) := by
    rwa [if_pos hpending]
  have h : Exec world d (scan K c (oneFile id)).run
      (([] ++ ([⟨.read id, .bytes r.toVec⟩] ++ es)) ++ []) d'
      (some (.ok finished)) := by
    refine Exec.bindOk (exec_visit hr hrest) ?_
    cases finished <;> exact .ret _ _
  simpa using h

/-- The broker does not answer for a pending record. -/
theorem exec_recover_lost :
    Exec world d (recover K c id r).run
      (exchange (brokerReceiptRequest id) none) d (some (.ok false)) := by
  have h : Exec world d (recover K c id r).run
      (exchange (brokerReceiptRequest id) none ++ []) d (some (.ok false)) :=
    exec_attempt_bind (Exec.bindError exec_reconcileBroker_lost) (.ret _ _)
  rwa [List.append_nil] at h

def ackEvents (id : String) (ack : Value) (r : Record) : List Action :=
  workerExchange ⟨.post, .receiptAck id, some ack⟩ noContent ++
    [saved id (r.acknowledged ack)]

/-- The acknowledgement of a record, whatever the worker answers that counts as
accepted. -/
def answeredAckEvents (id : String) (ack : Value) (reply : Reply)
    (r : Record) : List Action :=
  workerExchange (Worker.ackRequest id ack) reply ++
    [saved id (r.acknowledged ack)]

theorem exec_acceptAck_answered {ack : Value} {reply : Reply}
    {answer : Option Value} (huuid : K.uuidParses id = true)
    (hack : ackMatches K r ack = some ())
    (hreply : workerResponse (.receiptAck id) reply = .ok answer) :
    Exec world d (acceptAck K id r ack).run (answeredAckEvents id ack reply r)
      (d.write id (r.acknowledged ack).toVec)
      (some (.ok (r.acknowledged ack))) := by
  have hread := exec_workerRequest (d := d) (Worker.ackRequest id ack) reply
  rw [show workerResponse (Worker.ackRequest id ack).path reply = .ok answer
    from hreply] at hread
  have hpost : Exec world d (Worker.ack id ack).run
      (workerExchange (Worker.ackRequest id ack) reply ++ []) d
      (some (.ok ())) := Exec.bindOk hread (.ret _ _)
  rw [List.append_nil] at hpost
  exact exec_checked_bind hack (Exec.bindOk hpost
    (Exec.bindOk (exec_save huuid (r.acknowledged ack)) (.ret _ _)))

theorem exec_acceptAck {ack : Value} (huuid : K.uuidParses id = true)
    (hack : ackMatches K r ack = some ()) :
    Exec world d (acceptAck K id r ack).run (ackEvents id ack r)
      (d.write id (r.acknowledged ack).toVec)
      (some (.ok (r.acknowledged ack))) :=
  exec_acceptAck_answered huuid hack (workerResponse_noContent _)

/-- The events of a recovery up to the answer of the broker. -/
def replayEvents (id : String) (r : Record) (receipt a u ack : Value)
    (now : ℤ) : List Action :=
  exchange (brokerReceiptRequest id) (response receipt) ++
    (authorityEvents id r.lease a now ++
      exchange (updateRequest id r.lease u) (response ack))

/-- A completed record is sent again, and the broker answers. -/
theorem exec_recoverPending_replayed {receipt a x u ack : Value} {now : ℤ}
    {res : Except MediationError Record} {es : List Action}
    (hreceipt : Unsettling receipt r.binding)
    (htask : r.binding["taskId"] = .str id)
    (ha : Authorizes K now r.binding a) (hu : Replay K c r x u)
    (hsendable : Sendable roomLimit ack)
    (hack : Exec world d (acceptAck K id r ack).run es d' (some res)) :
    Exec world d (recoverPending K c id r).run
      (replayEvents id r receipt a u ack now ++ es) d'
      (some (res.map fun _ => true)) := by
  have hphase : ¬r.phase ≠ "completed" := not_not.mpr hu.phase
  have haccepted : Exec world d
      (acceptAck K id r ack >>= fun _ => pure true : Mediation Bool).run es d'
      (some (res.map fun _ => true)) := by
    cases res with
    | error e => exact Exec.bindError hack
    | ok q =>
        rw [← List.append_nil es]
        exact Exec.bindOk hack (.ret _ _)
  have hpending : Exec world d (recoverPending K c id r).run
      (exchange (brokerReceiptRequest id) (response receipt) ++
        (authorityEvents id r.lease a now ++
          (exchange (updateRequest id r.lease u) (response ack) ++ es))) d'
      (some (res.map fun _ => true)) := by
    refine Exec.bindOk (exec_reconcileBroker hreceipt) ?_
    show Exec world d (if r.phase ≠ "completed" then _ else _ :
      Mediation Bool).run _ _ _
    rw [if_neg hphase]
    exact Exec.bindOk (exec_authority htask ha)
      (exec_checked_bind hu.result (exec_checked_bind hu.valid
        (exec_checked_bind hu.update (exec_checked_bind hu.schema
          (Exec.bindOk (exec_broker hsendable) haccepted)))))
  simpa [replayEvents] using hpending

/-- A completed record is sent again, and the broker's answer is accepted. -/
theorem exec_recover_replayed {receipt a x u ack : Value} {now : ℤ}
    {q : Record} {es : List Action} (hreceipt : Unsettling receipt r.binding)
    (htask : r.binding["taskId"] = .str id)
    (ha : Authorizes K now r.binding a) (hu : Replay K c r x u)
    (hsendable : Sendable roomLimit ack)
    (hack : Exec world d (acceptAck K id r ack).run es d' (some (.ok q))) :
    Exec world d (recover K c id r).run
      (replayEvents id r receipt a u ack now ++ es) d' (some (.ok true)) := by
  have h : Exec world d (recover K c id r).run _ _ (some (.ok true)) :=
    exec_attempt_bind
      (exec_recoverPending_replayed hreceipt htask ha hu hsendable hack)
      (.ret _ _)
  rwa [List.append_nil] at h

/-- A completed record is sent again, and the worker does not answer the
acknowledgement of the broker. -/
theorem exec_recover_unanswered {receipt a x u ack : Value} {now : ℤ}
    (hreceipt : Unsettling receipt r.binding)
    (htask : r.binding["taskId"] = .str id)
    (ha : Authorizes K now r.binding a) (hu : Replay K c r x u)
    (hsendable : Sendable roomLimit ack)
    (hack : ackMatches K r ack = some ()) :
    Exec world d (recover K c id r).run
      (replayEvents id r receipt a u ack now ++
        workerExchange (Worker.ackRequest id ack) none) d
      (some (.ok false)) := by
  have hlost : Exec world d (acceptAck K id r ack).run
      (workerExchange (Worker.ackRequest id ack) none) d
      (some (.error .http)) :=
    exec_checked_bind hack (Exec.bindError (Exec.bindError
      (exec_workerRequest (Worker.ackRequest id ack) none)))
  have h : Exec world d (recover K c id r).run _ _ (some (.ok false)) :=
    exec_attempt_bind
      (exec_recoverPending_replayed hreceipt htask ha hu hsendable hlost)
      (.ret _ _)
  rwa [List.append_nil] at h

/-- A completed record is sent again and acknowledged. -/
def recoverEvents (id : String) (r : Record) (receipt a u ack : Value)
    (now : ℤ) : List Action :=
  exchange (brokerReceiptRequest id) (response receipt) ++
    (authorityEvents id r.lease a now ++
      (exchange (updateRequest id r.lease u) (response ack) ++
        ackEvents id ack r))

theorem exec_recover_acknowledged {receipt a x u ack : Value} {now : ℤ}
    (huuid : K.uuidParses id = true)
    (hreceipt : Unsettling receipt r.binding)
    (htask : r.binding["taskId"] = .str id)
    (ha : Authorizes K now r.binding a) (hu : Replay K c r x u)
    (hsendable : Sendable roomLimit ack)
    (hack : ackMatches K r ack = some ()) :
    Exec world d (recover K c id r).run
      (recoverEvents id r receipt a u ack now)
      (d.write id (r.acknowledged ack).toVec) (some (.ok true)) := by
  have h := exec_recover_replayed hreceipt htask ha hu hsendable
    (exec_acceptAck (d := d) huuid hack)
  simpa [replayEvents, recoverEvents] using h

/-- The token for the authority check of a completed record is refused. -/
def refusedEvents (id rpcId : String) (r : Record) (receipt : Value)
    (status : ℕ) : List Action :=
  exchange (brokerReceiptRequest id) (response receipt) ++
    (⟨.serviceToken (authorityRequest id r.lease), some ⟨status, none⟩⟩ ::
      (cancelEvents id rpcId ++ [saved id r.quarantined]))

theorem exec_recover_refused {receipt : Value} (rpcId : String) {status : ℕ}
    (huuid : K.uuidParses id = true)
    (hreceipt : Unsettling receipt r.binding)
    (htask : r.binding["taskId"] = .str id) (hphase : r.phase = "completed")
    (hstatus : lossStatus status) :
    Exec world d (recover K c id r).run
      (refusedEvents id rpcId r receipt status)
      (d.write id r.quarantined.toVec) (some (.ok false)) := by
  have htoken : (serviceAccessToken (some ⟨status, none⟩)).mapError
      MediationError.broker = .error (.broker (.http (some status))) := by
    have herror : isErrorStatus status = true := by
      rcases hstatus with rfl | rfl | rfl <;> rfl
    simp [serviceAccessToken, herror, Except.mapError]
  have hrequest : Exec world d
      (broker id "authority" (some r.lease) none).run
      [⟨.serviceToken (authorityRequest id r.lease), some ⟨status, none⟩⟩] d
      (some (.error (.broker (.http (some status))))) := by
    refine Exec.bindError (exec_perform_bind
      (o := .serviceToken (authorityRequest id r.lease)) trivial ?_)
    have hstop := exec_ofExcept (d := d) ((serviceAccessToken
      (some ⟨status, none⟩)).mapError MediationError.broker)
    rw [htoken] at hstop ⊢
    exact Exec.bindError hstop
  have hlost : (authorityError (.broker (.http (some status)))) =
      .authorityLost := if_pos hstatus
  have hauthority : Exec world d (authority K r.binding r.lease).run
      ([⟨.serviceToken (authorityRequest id r.lease), some ⟨status, none⟩⟩]
        ++ []) d (some (.error .authorityLost)) := by
    refine exec_checked_bind (Value.asStr?_eq_some.mpr htask) ?_
    refine exec_attempt_bind hrequest (Exec.bindError ?_)
    rw [Except.mapError, hlost]
    exact exec_ofExcept _
  have hpending : Exec world d (recoverPending K c id r).run
      (exchange (brokerReceiptRequest id) (response receipt) ++
        ([⟨.serviceToken (authorityRequest id r.lease), some ⟨status, none⟩⟩]
          ++ [])) d (some (.error .authorityLost)) := by
    refine Exec.bindOk (exec_reconcileBroker hreceipt) ?_
    show Exec world d (if r.phase ≠ "completed" then _ else _ :
      Mediation Bool).run _ _ _
    rw [if_neg (not_not.mpr hphase)]
    exact Exec.bindError hauthority
  have hquarantine : Exec world d (quarantine K id r).run
      (cancelEvents id rpcId ++ ([saved id r.quarantined] ++ []))
      (d.write id r.quarantined.toVec) (some (.ok r.quarantined)) :=
    Exec.bindOk (exec_cancel rpcId)
      (Exec.bindOk (exec_save huuid r.quarantined) (.ret _ _))
  have h : Exec world d (recover K c id r).run _ _ (some (.ok false)) :=
    exec_attempt_bind hpending (Exec.bindOk hquarantine (.ret _ _))
  simpa [refusedEvents] using h

theorem exec_runOnce_finished {entries : List DirEntry} {es : List Action}
    (hlist : Listing d entries)
    (hscan : Exec world d (scan K c entries).run es d'
      (some (.ok true))) :
    Exec world d (runOnce K c).run (⟨.readDir, some entries⟩ :: es) d'
      (some (.ok true)) := by
  refine Exec.bindOk (exec_readDir hlist) ?_
  rw [← List.append_nil es]
  exact Exec.bindOk hscan (.ret d' _)

theorem exec_runOnce_claims {entries : List DirEntry} {es : List Action}
    (hlist : Listing d entries)
    (hscan : Exec world d (scan K c entries).run es d' (some (.ok false)))
    (t : Option TokenResponse) :
    Exec world d (runOnce K c).run (⟨.readDir, some entries⟩ ::
      (es ++ [⟨.serviceToken c.claimRequest, t⟩])) d' none := by
  refine Exec.bindOk (exec_readDir hlist) (Exec.bindOk hscan ?_)
  exact exec_perform_bind trivial (.cut _ _)

end

/-! ## The other crates -/

namespace Reference

def digits (cs : List Char) : ℕ :=
  cs.foldl (fun n c => n * 10 + (c.toNat - 48)) 0

/-- Days from the epoch to a date of the Gregorian calendar. -/
def days (y m d : ℕ) : ℤ :=
  let y' : ℕ := if m ≤ 2 then y - 1 else y
  let m' : ℕ := if m ≤ 2 then m + 9 else m - 3
  (365 * y' + y' / 4 - y' / 100 + y' / 400 + (153 * m' + 2) / 5 + d : ℕ) -
    719469

/-- The fraction of a second and the zone `Z`; digits after the ninth are
dropped. -/
def nanoseconds : List Char → Option ℕ
  | ['Z'] => some 0
  | '.' :: cs =>
      let fraction := cs.takeWhile Char.isDigit
      if fraction ≠ [] ∧ cs.dropWhile Char.isDigit = ['Z'] then
        some (digits ((fraction ++ List.replicate 9 '0').take 9))
      else none
  | _ => none

/-- Times of the form `2026-01-01T00:00:00.000Z`. -/
def parseFromRfc3339 (s : String) : Option ℤ :=
  match s.toList with
  | y₁ :: y₂ :: y₃ :: y₄ :: '-' :: m₁ :: m₂ :: '-' :: d₁ :: d₂ :: 'T' ::
      h₁ :: h₂ :: ':' :: n₁ :: n₂ :: ':' :: s₁ :: s₂ :: rest => do
      guard ([y₁, y₂, y₃, y₄, m₁, m₂, d₁, d₂, h₁, h₂, n₁, n₂, s₁, s₂].all
        Char.isDigit = true)
      let month := digits [m₁, m₂]
      let day := digits [d₁, d₂]
      guard (1 ≤ month ∧ month ≤ 12 ∧ 1 ≤ day ∧ day ≤ 31)
      guard (digits [h₁, h₂] < 24 ∧ digits [n₁, n₂] < 60 ∧
        digits [s₁, s₂] < 60)
      let ns ← nanoseconds rest
      let seconds := days (digits [y₁, y₂, y₃, y₄]) month day * 86400 +
        (digits [h₁, h₂] * 3600 + digits [n₁, n₂] * 60 + digits [s₁, s₂] : ℕ)
      return seconds * 1000000000 + (ns : ℤ)
  | _ => none

/-- The characters of a URI. -/
def isUriCharacter (a : Char) : Bool :=
  a.isAlphanum || a.toNat = 39 || a ∈ "-._~:/?#[]@!$&()*+,;=%".toList

def crates : Crates where
  sha256Hex := Sha256.hex
  parseFromRfc3339 := parseFromRfc3339
  isFormat
    | .dateTime, s => (parseFromRfc3339 s).isSome
    | .uri, s => s.toList.all isUriCharacter
    | .uuid, s => Contracts.uuidPattern.test s.toList
  uuidParses s := Contracts.uuidPattern.test s.toList

end Reference

/-! ## Values -/

namespace Sample

def ident (n : String) : String := n ++ "-1111-4111-8111-0000" ++ n

def mediator : Dispatcher where
  owner := "mediator-test"
  admission :=
    { catalogRevision := "catalog-1"
      guidanceRevision := "fixed-1"
      models := [("model-a", ["effort-medium"])] }

/-- 2026-10-05T12:00:04Z -/
def now : ℤ := 1791201604000000000

def number (n : ℕ) : Value := .num (.posInt n)

def message (id : String) (sequence : ℕ) (author occurredAt text : String) :
    Value := .object
  [("eventId", .str id), ("sequence", number sequence),
    ("authorId", .str author), ("authorRole", .str "human"),
    ("occurredAt", .str occurredAt), ("text", .str text)]

def decision (id summary : String) (sourceEvents : List String) : Value :=
  .object
    [("decisionId", .str id), ("title", .str "Example color"),
      ("summary", .str summary),
      ("sourceEventIds", .arr (sourceEvents.map .str))]

def context (kind : String) (base revision : ℕ)
    (entries decisions : List Value) (digest : String) : Value := .object
  [("kind", .str kind), ("baseRevision", number base),
    ("revision", number revision), ("policyRevision", .str "policy-1"),
    ("entries", .arr entries), ("activeDecisions", .arr decisions),
    ("nativeReplyBindings", .arr []), ("digest", .str digest)]

def packet (task mode trigger : String) (context : Value) : Value := .object
  [("profileVersion", .str profile), ("taskId", .str task),
    ("roomId", .str (ident "00000002")),
    ("requesterId", .str (ident "00000004")),
    ("agentId", .str codexId), ("skillId", .str "chat"),
    ("conversation", .object
      [("id", .str (ident "00000005")), ("generation", number 1),
        ("mode", .str mode)]),
    ("triggerEventId", .str trigger), ("context", context),
    ("guidanceRevision", .str "fixed-1"),
    ("issuedAt", .str "2026-10-05T12:00:03Z"),
    ("expiresAt", .str "2026-10-05T12:03:03Z"),
    ("authorizationExpiresAt", .str "2026-10-05T12:05:00Z"),
    ("leaseOwner", .str "mediator-test"),
    ("leaseExpiresAt", .str "2026-10-05T12:05:00Z"),
    ("model", .str "model-a"), ("reasoningEffort", .str "effort-medium"),
    ("catalogRevision", .str "catalog-1")]

def task₁ : String := ident "00000006"

def packet₁ : Value :=
  packet task₁ "new" (ident "00000007")
    (context "baseline" 0 5
      [(message (ident "0000000a") 1 (ident "00000003")
          "2026-10-05T12:00:00Z" "Use the blue example.").set
          "displayName" (.str "Maya"),
        message (ident "0000000b") 3 (ident "00000004")
          "2026-10-05T12:00:01Z" "The example is green.",
        message (ident "00000007") 5 (ident "00000004")
          "2026-10-05T12:00:02Z" "@codex-agent What did Maya propose?"]
      [decision (ident "0000000c") "Use green."
        [ident "0000000a", ident "0000000b"]]
      "d72f81e3da10a0b3f0c9f1bafc32bc1f6afea94875ab0e7ee2b0d6f31c157e62")

def packet₂ : Value :=
  packet (ident "00000016") "continue" (ident "00000017")
    (context "delta" 5 7
      [message (ident "00000017") 7 (ident "00000004")
        "2026-10-05T12:00:04Z" "@codex-agent Is that settled?"]
      [decision (ident "0000001c") "Green is settled." [ident "0000000c"]]
      "d5c429895675aae56543862a5e267859faaf302caf58d276573b7ffa8a75ab82")

/-! ### Broker and worker -/

def claim (p : Value) (lease : String) : Value :=
  .object [("packet", p), ("leaseToken", .str lease)]

def brokerReceipt (p : Value) : Value := .object
  [("profileVersion", .str profile), ("taskId", p["taskId"]),
    ("conversationId", p["conversation"]["id"]),
    ("generation", p["conversation"]["generation"]),
    ("state", .str "running"), ("acknowledgement", .null), ("result", .null)]

def authorityOf (p : Value) : Value := .object
  [("profileVersion", .str profile), ("taskId", p["taskId"]),
    ("generation", p["conversation"]["generation"]),
    ("contextDigest", p["context"]["digest"]),
    ("expiresAt", p["expiresAt"]),
    ("authorizationExpiresAt", p["authorizationExpiresAt"])]

def result (p usage : Value) : Value := .object
  [("kind", .str "conversation-reply.v1"),
    ("conversationId", p["conversation"]["id"]),
    ("generation", p["conversation"]["generation"]),
    ("assistantText", .str "Maya proposed the blue example."),
    ("consumedRevision", p["context"]["revision"]),
    ("contextDigest", p["context"]["digest"]),
    ("citations", .arr [.str (ident "0000000a")]),
    ("effectiveSettings", .null), ("usage", usage)]

def runtime : Value :=
  .object [("threadId", .str "thread-1"), ("turnId", .str "turn-1")]

def completedReceipt (p result : Value) : Value := .object
  [("taskId", p["taskId"]), ("conversationId", p["conversation"]["id"]),
    ("generation", p["conversation"]["generation"]),
    ("phase", .str "completed"), ("result", result),
    ("acknowledgement", .null), ("error", .null),
    ("runtimeBinding", runtime)]

def catalog : Value := .object
  [("profileVersion", .str profile), ("catalogRevision", .str "catalog-1"),
    ("data", .arr [.object
      [("id", .str "model-a"), ("displayName", .str "Model A"),
        ("defaultReasoningEffort", .null),
        ("supportedReasoningEfforts", .arr [.object
          [("id", .str "effort-medium"), ("description", .str "Medium")]])]]),
    ("nextCursor", .null)]

/-- An answer to `SendMessage` without a task. -/
def emptyOutput : Value := .object
  [("jsonrpc", .str "2.0"), ("id", .str (ident "0000001a")),
    ("result", .object [])]

def ack (p : Value) : Value := .object
  [("profileVersion", .str profile), ("taskId", p["taskId"]),
    ("conversationId", p["conversation"]["id"]),
    ("generation", p["conversation"]["generation"]),
    ("replyEventId", .str (ident "0000000e")), ("replySequence", number 6),
    ("textDigest", .str
      "fd11bccf7d27431cfe9556b271b931cfab202c1dd83520563014c066eb9b8748"),
    ("consumedRevision", p["context"]["revision"]),
    ("contextDigest", p["context"]["digest"])]

/-! ## The first turn -/

def lease : String := "lease-1"

def reply : Value := result packet₁ .null

def completion : Value :=
  updateValue packet₁ "completed" reply (ident "0000001b")

def failure : Value := failedUpdate packet₁ (ident "0000001e")

/-- The record of the first turn, as it is claimed. -/
def reserved : Record := freshRecord packet₁ lease .empty

/-- The record of a turn that was submitted. -/
def intended : Record := { reserved with phase := "submission-intent" }

/-- The record of the completed turn. -/
def completed : Record := reserved.completed reply runtime completion

/-- The record at the end. -/
def acknowledged : Record := completed.acknowledged (ack packet₁)

/-- The record of a failed turn. -/
def failed : Record := reserved.failed failure

/-- The sources of the first turn. -/
def firstSources : StringSet := StringSet.empty.union reserved.sources

/-- What the mediator checks before the worker is asked. -/
structure Admissible : Prop where
  task_uuid : Reference.crates.uuidParses task₁ = true
  claimOf : ClaimOf (claim packet₁ lease) packet₁ lease task₁
  packet_valid : validatePacketWithSources Reference.crates packet₁
    mediator.admission (some (now, now, now)) .empty = some ()
  owner : packet₁["leaseOwner"] = .str mediator.owner
  unsettling : Unsettling (brokerReceipt packet₁) (binding packet₁)
  authorizes :
    Authorizes Reference.crates now packet₁ (authorityOf packet₁)
  offer : Offer Reference.crates mediator packet₁ catalog

theorem admissible : Admissible where
  task_uuid := by decide +kernel
  claimOf :=
    { sendable := .of_strict (by decide +kernel) (by decide +kernel)
        (by decide +kernel)
      closed := by decide +kernel
      packet := by decide +kernel
      lease := by decide +kernel
      task := by decide +kernel }
  packet_valid := by decide +kernel
  owner := by decide +kernel
  unsettling :=
    { sendable := .of_strict (by decide +kernel) (by decide +kernel)
        (by decide +kernel)
      agrees := by decide +kernel
      not_failed := by decide +kernel
      not_completed := by decide +kernel }
  authorizes :=
    { sendable := .of_strict (by decide +kernel) (by decide +kernel)
        (by decide +kernel)
      agrees := by decide +kernel
      expires := ⟨1791201783000000000, by decide +kernel, by decide⟩
      authorization := ⟨1791201900000000000, by decide +kernel, by decide⟩ }
  offer :=
    { card := .of_strict (by decide +kernel) (by decide +kernel)
        (by decide +kernel)
      sendable := .of_strict (by decide +kernel) (by decide +kernel)
        (by decide +kernel)
      page := by decide +kernel
      offers := by decide +kernel }

/-- What it checks of the worker's answers and of its own updates. -/
structure Answered : Prop where
  reply_completed :
    CompletedReceipt (completedReceipt packet₁ reply) packet₁
  reply_valid : validateResultWithAdmission Reference.crates reply packet₁
    reserved.sources mediator.admission = some ()
  runtime_valid : validateRuntime runtime = some ()
  completion_valid :
    schema Reference.crates Contracts.update completion = some ()
  failure_valid : schema Reference.crates Contracts.update failure = some ()
  emptyOutput_reply : (do
    let response ← workerResponse .rpc (response emptyOutput)
    match response with
    | some response => Worker.rpcResult (ident "0000001a") response
    | none => .error .validation) = .ok (.obj [])
  emptyOutput_data : replyData (.obj []) packet₁ = none

theorem answered : Answered where
  reply_completed :=
    { sendable := .of_strict (by decide +kernel) (by decide +kernel)
        (by decide +kernel)
      agrees := by decide +kernel
      phase := by decide +kernel }
  reply_valid := by decide +kernel
  runtime_valid := by decide +kernel
  completion_valid := by decide +kernel
  failure_valid := by decide +kernel
  emptyOutput_reply := by
    have hvalue : workerResponse .rpc (response emptyOutput) =
        .ok (some emptyOutput) :=
      workerResponse_rpc (.of_strict (by decide +kernel) (by decide +kernel)
        (by decide +kernel)) (by decide +kernel)
    rw [hvalue]
    decide +kernel
  emptyOutput_data := by decide +kernel

/-- What it finds in its records afterwards. -/
structure Recoverable : Prop where
  completed_length : completed.toVec.length ≤ maxJsonBytes
  completed_pending : pending completed
  completed_task : completed.binding["taskId"] = .str task₁
  authorizes :
    Authorizes Reference.crates now completed.binding (authorityOf packet₁)
  replay_valid : validateResultWithAdmission Reference.crates reply
    completed.binding completed.sources mediator.admission = some ()
  ack_sendable : Sendable roomLimit (ack packet₁)
  ack_matches :
    ackMatches Reference.crates completed (ack packet₁) = some ()
  acknowledged_length : acknowledged.toVec.length ≤ maxJsonBytes
  failed_length : failed.toVec.length ≤ maxJsonBytes
  failed_not_pending : ¬pending failed

theorem recoverable : Recoverable where
  completed_length := by decide +kernel
  completed_pending := by decide +kernel
  completed_task := by decide +kernel
  authorizes :=
    { admissible.authorizes with agrees := by decide +kernel }
  replay_valid := by decide +kernel
  ack_sendable := .of_strict (by decide +kernel) (by decide +kernel)
    (by decide +kernel)
  ack_matches := by decide +kernel
  acknowledged_length := by decide +kernel
  failed_length := by decide +kernel
  failed_not_pending := by decide +kernel

theorem safe_packet₁ : Safe packet₁ := by
  have hclaim := admissible.claimOf.sendable.safe.getElem trivial "packet"
  rwa [admissible.claimOf.packet] at hclaim

/-! ## The second turn -/

structure Continues : Prop where
  claimOf : ClaimOf (claim packet₂ lease) packet₂ lease (ident "00000016")
  packet_valid : validatePacketWithSources Reference.crates packet₂
    mediator.admission (some (now, now, now)) firstSources = some ()
  owner : packet₂["leaseOwner"] = .str mediator.owner
  carriesOver : carriesOver acknowledged packet₂

theorem continues : Continues where
  claimOf :=
    { sendable := .of_strict (by decide +kernel) (by decide +kernel)
        (by decide +kernel)
      closed := by decide +kernel
      packet := by decide +kernel
      lease := by decide +kernel
      task := by decide +kernel }
  packet_valid := by decide +kernel
  owner := by decide +kernel
  carriesOver := by decide +kernel

end Sample

end AgentGateway
