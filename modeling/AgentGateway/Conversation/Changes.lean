import AgentGateway.Conversation.Recovery

/-!
# Changes of a record

The abstract view of the mediator: what it holds in memory for a claimed task,
the changes that a save may make durable, and what stands behind an update or a
submission when it is sent.  `Guarantee` collects these for all operations of a
call.
-/

namespace AgentGateway

open Json (Value)
open Interaction
open Mediation
open Dispatcher

variable {K : Crates} {c : Dispatcher} {d : Directory} {h : List Action}
  {id lease : String} {p : Value} {r r' : Record}

/-! ## Bindings -/

theorem binding_getElem {k : String} (hcontext : k ≠ "context")
    (howner : k ≠ "leaseOwner") (hexpires : k ≠ "leaseExpiresAt") (p : Value) :
    (binding p)[k] = p[k] := by
  rw [binding, Value.getElem_remove_of_ne hexpires,
    Value.getElem_remove_of_ne howner]
  cases p with
  | obj fs => rw [Value.getElem_set rfl, if_neg hcontext]
  | _ => rfl

theorem binding_context {k : String} (hentries : k ≠ "entries")
    (hdecisions : k ≠ "activeDecisions")
    (hbindings : k ≠ "nativeReplyBindings") (p : Value) :
    (binding p)["context"][k] = p["context"][k] := by
  rw [binding, Value.getElem_remove_of_ne (by decide),
    Value.getElem_remove_of_ne (by decide)]
  cases p with
  | obj fs =>
      rw [Value.getElem_set rfl, if_pos rfl,
        Value.getElem_remove_of_ne hbindings,
        Value.getElem_remove_of_ne hdecisions,
        Value.getElem_remove_of_ne hentries]
  | _ => rfl

theorem updateValue_binding (p : Value) (kind : String) (data : Value)
    (updateId : String) :
    updateValue (binding p) kind data updateId =
      updateValue p kind data updateId := by
  rw [updateValue, updateValue,
    binding_getElem (by decide) (by decide) (by decide),
    binding_getElem (by decide) (by decide) (by decide),
    binding_context (by decide) (by decide) (by decide)]

/-! ## Claims -/

/-- The broker answered a claim of this call with a packet and a lease. -/
def ClaimAnswered (c : Dispatcher) (h : List Action) (p : Value)
    (lease : String) : Prop :=
  ∃ reply claim, (⟨.roomRequest c.claimRequest, reply⟩ : Action) ∈ h ∧
    roomResponse reply = .ok (some claim) ∧ claim["packet"] = p ∧
    claim["leaseToken"] = .str lease

/-- The sources that earlier turns contribute to a packet. -/
def PriorOf (d : Directory) (p : Value) (prior : StringSet) : Prop :=
  ∀ x, x ∈ prior ↔
    ∃ i r, d.record i = some r ∧ carriesOver r p ∧ x ∈ r.sources

def PacketValid (K : Crates) (c : Dispatcher) (p : Value)
    (prior : StringSet) : Prop :=
  ∃ now, validatePacketWithSources K p c.admission (some now) prior = some ()

/-- A claim of this call that was validated. -/
structure Claimed (K : Crates) (c : Dispatcher) (h : List Action)
    (id : String) (p : Value) (lease : String) : Prop where
  answered : ClaimAnswered c h p lease
  task : p["taskId"] = .str id
  valid : ∃ prior, PacketValid K c p prior
  uuid : K.uuidParses id = true

/-- What the mediator holds in memory for a claimed task, as far as it is
durable: the stored record under the new lease, or a record that it creates. -/
inductive Held (K : Crates) (c : Dispatcher) (d : Directory) (id : String)
    (p : Value) (lease : String) : Record → Prop
  | stored {r : Record} : d.record id = some r → r.binding = binding p →
      Held K c d id p lease { r with lease := lease }
  | fresh {prior : StringSet} : d id = none → PriorOf d p prior →
      PacketValid K c p prior → Held K c d id p lease (freshRecord p lease prior)

theorem ClaimAnswered.mono {h' : List Action} (hh : h ⊆ h')
    (hp : ClaimAnswered c h p lease) : ClaimAnswered c h' p lease := by
  obtain ⟨reply, claim, hmem, hclaim⟩ := hp
  exact ⟨reply, claim, hh hmem, hclaim⟩

theorem Claimed.append (hp : Claimed K c h id p lease) (es : List Action) :
    Claimed K c (h ++ es) id p lease :=
  ⟨hp.answered.mono (List.subset_append_left h es), hp.task, hp.valid,
    hp.uuid⟩

theorem Held.binding_eq (hr : Held K c d id p lease r) :
    r.binding = binding p := by
  cases hr with
  | stored _ hb => exact hb
  | fresh _ _ _ => rfl

theorem Held.lease_eq (hr : Held K c d id p lease r) : r.lease = lease := by
  cases hr with
  | stored _ _ => rfl
  | fresh _ _ _ => rfl

/-- A record that was just saved is held. -/
theorem Held.of_write (hsafe : r.Safe) (hbinding : r.binding = binding p)
    (hlease : r.lease = lease) :
    Held K c (d.write id r.toVec) id p lease r := by
  have hstored : Held K c (d.write id r.toVec) id p lease
      { r with lease := lease } :=
    .stored (Directory.record_write_self hsafe d id) hbinding
  subst hlease
  exact hstored

/-! ## Evidence of the worker -/

/-- A receipt of the worker for a task reports a completed turn. -/
def WorkerReported (h : List Action) (id : String) (p x y : Value) : Prop :=
  ∃ reply v,
    (⟨.workerReceive (Worker.receiptRequest id), reply⟩ : Action) ∈ h ∧
    workerResponse (.receipt id) reply = .ok (some v) ∧
    validateReceipt v p = some () ∧ v["phase"] = .str "completed" ∧
    v["result"] = x ∧ v["runtimeBinding"] = y

/-- Answers to a receipt read that do not let a turn continue. -/
def FailingAnswer (p : Value) :
    Except MediationError (Option Value) → Prop
  | .error _ => True
  | .ok none => True
  | .ok (some v) =>
      validateReceipt v p = some () ∧ v["phase"] ≠ .str "completed"

/-- A receipt read of this call was answered so. -/
def FailingReceipt (h : List Action) (id : String) (p : Value) : Prop :=
  ∃ reply, (⟨.workerReceive (Worker.receiptRequest id), reply⟩ : Action) ∈ h ∧
    FailingAnswer p (workerResponse (.receipt id) reply)

theorem WorkerReported.append {x y : Value}
    (hx : WorkerReported h id p x y) (es : List Action) :
    WorkerReported (h ++ es) id p x y := by
  obtain ⟨reply, v, hmem, hv⟩ := hx
  exact ⟨reply, v, List.mem_append_left es hmem, hv⟩

theorem FailingReceipt.append (hf : FailingReceipt h id p)
    (es : List Action) : FailingReceipt (h ++ es) id p := by
  obtain ⟨reply, hmem, hfailing⟩ := hf
  exact ⟨reply, List.mem_append_left es hmem, hfailing⟩

/-- A receipt of the worker for a task reports a failure with this code. -/
def FailureReported (h : List Action) (id : String) (p : Value)
    (code : String) : Prop :=
  ∃ reply v,
    (⟨.workerReceive (Worker.receiptRequest id), reply⟩ : Action) ∈ h ∧
    workerResponse (.receipt id) reply = .ok (some v) ∧
    receiptFailure v p = some code

theorem FailureReported.append {code : String}
    (hf : FailureReported h id p code) (es : List Action) :
    FailureReported (h ++ es) id p code := by
  obtain ⟨reply, v, hmem, hv⟩ := hf
  exact ⟨reply, v, List.mem_append_left es hmem, hv⟩

/-- A turn was submitted, and the answer was a JSON-RPC error with this code. -/
def Rejected (h : List Action) (id : String) (p : Value) (code : String) :
    Prop :=
  ∃ h₁ rpcId h₂ reply v error,
    h = h₁ ++ ⟨.workerSend (Worker.rpcRequest rpcId "SendMessage"
      (sendParams id p)), ()⟩ :: h₂ ∧ Unsent h₁ ∧ Unsent h₂ ∧
    (⟨.workerReceive (Worker.rpcRequest rpcId "SendMessage"
      (sendParams id p)), reply⟩ : Action) ∈ h₂ ∧
    workerResponse .rpc reply = .ok (some v) ∧
    v["id"] = .str rpcId ∧ v.get? "error" = some error ∧
    error["message"] = .str code

theorem Rejected.append {code : String} (hr : Rejected h id p code)
    {es : List Action} (hes : Unsent es) : Rejected (h ++ es) id p code := by
  obtain ⟨h₁, rpcId, h₂, reply, v, error, rfl, hh₁, hh₂, hmem, hv⟩ := hr
  exact ⟨h₁, rpcId, h₂ ++ es, reply, v, error, by simp, hh₁,
    hh₂.append hes, List.mem_append_left es hmem, hv⟩

/-- Why a turn is given up with a code: a receipt read does not let it go on, or
it was submitted in this call and failed there.  Any other code than
`conversation_interrupted` comes from a receipt. -/
inductive Fails (h : List Action) (id : String) (p : Value) (r : Record)
    (code : String) : Prop
  | receipt : FailingReceipt h id p → Unsent h →
      (code ≠ "conversation_interrupted" → FailureReported h id p code) →
        Fails h id p r code
  | rejection : r.result = none →
      r.phase = "submission-intent" ∨ r.phase = "interrupted" →
      (code ≠ "conversation_interrupted" →
        FailureReported h id p code ∧ Rejected h id p code) →
        Fails h id p r code

theorem Fails.failing {code : String} (hf : Fails h id p r code)
    (hr : r.result ≠ none) : FailingReceipt h id p := by
  cases hf with
  | receipt hfailing _ _ => exact hfailing
  | rejection hresult _ _ => exact absurd hresult hr

theorem Fails.append {code : String} (hf : Fails h id p r code)
    {es : List Action} (hes : Unsent es) : Fails (h ++ es) id p r code := by
  cases hf with
  | receipt hfailing hunsent hreported =>
      exact .receipt (hfailing.append es) (hunsent.append hes)
        fun hcode => (hreported hcode).append es
  | rejection hresult hphase hrejected =>
      refine .rejection hresult hphase fun hcode => ?_
      obtain ⟨hreported, hrejected⟩ := hrejected hcode
      exact ⟨hreported.append es, hrejected.append hes⟩

/-- A completed turn that fits the record. -/
structure Completes (K : Crates) (c : Dispatcher) (h : List Action)
    (id : String) (p : Value) (r : Record) (x y : Value) : Prop where
  agrees : r.result = none ∨
    (r.result = some x ∧ (r.runtimeBinding = none ∨ r.runtimeBinding = some y))
  reported : WorkerReported h id p x y
  runtime : validateRuntime y = some ()
  valid : validateResultWithAdmission K x p r.sources c.admission = some ()

/-! ## Changes -/

def failureData (code : String) : Value := .object [("code", .str code)]

namespace Record

def interrupted (r : Record) : Record := { r with phase := "interrupted" }

def failed (r : Record) (u : Value) : Record :=
  { r with phase := "interrupted", update := some u }

def completed (r : Record) (x y u : Value) : Record :=
  { r with
    phase := "completed"
    result := some x
    runtimeBinding := some y
    update := some u }

end Record

/-- The changes that a claim call makes to the record it holds. -/
inductive Change (K : Crates) (c : Dispatcher) (h : List Action)
    (id : String) (p : Value) (lease : String) (r : Record) : Record → Prop
  | settle {r' : Record} : Settles K r r' → SettledBy h id r r' →
      Change K c h id p lease r r'
  | reserve : r.phase = "reserved" → r.result = none →
      Change K c h id p lease r r
  | intend : r.phase = "reserved" → r.result = none →
      Change K c h id p lease r { r with phase := "submission-intent" }
  | interrupt : r.phase = "submission-intent" → r.result = none →
      Change K c h id p lease r r.interrupted
  | fail {code updateId : String} : code ∈ failureCodes →
      ⟨.newUuid, updateId⟩ ∈ h → Fails h id p r code → Unsaved "completed" h →
        Change K c h id p lease r
          (r.failed (updateValue p "failed" (failureData code) updateId))
  | complete {x y u : Value} : Completes K c h id p r x y →
      AuthorityLately K p lease h → Unsaved "interrupted" h →
      (r.update = some u ∨ (r.update = none ∧
        ∃ updateId, u = updateValue p "completed" x updateId)) →
        Change K c h id p lease r (r.completed x y u)

/-- What a save makes durable. -/
inductive SaveGuarantee (K : Crates) (c : Dispatcher) (d : Directory)
    (h : List Action) (id : String) : Record → Prop
  | recovery {r r' : Record} : d.record id = some r → pending r →
      Settles K r r' → SettledBy h id r r' → SaveGuarantee K c d h id r'
  | claim {p : Value} {lease : String} {r r' : Record} :
      Claimed K c h id p lease → Held K c d id p lease r →
      Change K c h id p lease r r' → SaveGuarantee K c d h id r'

/-- The updates that a call builds for a record. -/
inductive Builds (K : Crates) (c : Dispatcher) (h : List Action) (id : String)
    (p : Value) (lease : String) (r : Record) : Value → Prop
  | failed {code updateId : String} : code ∈ failureCodes →
      ⟨.newUuid, updateId⟩ ∈ h →
        Builds K c h id p lease r
          (updateValue p "failed" (failureData code) updateId)
  | completed {x y : Value} {updateId : String} : r.update = none →
      Completes K c h id p r x y → AuthorityLately K p lease h →
        Builds K c h id p lease r (updateValue p "completed" x updateId)

/-- What stands behind an update that is sent. -/
inductive PostGuarantee (K : Crates) (c : Dispatcher) (d : Directory)
    (h : List Action) (id lease : String) : Value → Prop
  | replay {r : Record} {x u : Value} : d.record id = some r → pending r →
      r.lease = lease → Replay K c r x u →
      AuthorityLately K r.binding lease h → PostGuarantee K c d h id lease u
  | publish {p : Value} {r : Record} {x y u : Value} :
      Claimed K c h id p lease →
      d.record id = some (r.completed x y u) → r.lease = lease →
      r.binding = binding p → saved id (r.completed x y u) ∈ h →
      WorkerReported h id p x y →
      validateResultWithAdmission K x p r.sources c.admission = some () →
      schema K Contracts.update u = some () →
      AuthorityLately K p lease h → PostGuarantee K c d h id lease u
  | failed {p : Value} {r : Record} {code updateId : String} :
      Claimed K c h id p lease → code ∈ failureCodes →
      ⟨.newUuid, updateId⟩ ∈ h →
      d.record id = some (r.failed
        (updateValue p "failed" (failureData code) updateId)) →
      r.binding = binding p → r.lease = lease →
      saved id (r.failed
        (updateValue p "failed" (failureData code) updateId)) ∈ h →
      Fails h id p r code → Unsaved "completed" h →
        PostGuarantee K c d h id lease
          (updateValue p "failed" (failureData code) updateId)

/-- A submission of a provider turn. -/
def Sends (a : Action) : Prop :=
  ∃ req, a.op = .workerSend req ∧ req.IsSend

/-- What stands behind a submission. -/
inductive SendGuarantee (K : Crates) (c : Dispatcher) (d : Directory)
    (h : List Action) : WorkerRequest → Prop
  | intro {id rpcId lease : String} {p : Value} {r r₁ : Record}
      {h₁ h₂ : List Action} :
      Claimed K c h id p lease → d.record id = some r →
      r.phase = "submission-intent" → r.result = none →
      r.binding = binding p → h = h₁ ++ saved id r₁ :: h₂ →
      r₁.phase = "reserved" → (∀ a ∈ h₂, ¬Sends a) →
        SendGuarantee K c d h
          (Worker.rpcRequest rpcId "SendMessage" (sendParams id p))

/-- What every operation of a call obeys. -/
def Guarantee (K : Crates) (c : Dispatcher) : Guarantees := fun d h a =>
  match a with
  | ⟨.save id r, _⟩ => K.uuidParses id = true ∧ SaveGuarantee K c d h id r
  | ⟨.roomRequest req, _⟩ => req.IsUpdate →
      ∃ id lease u, req = updateRequest id lease u ∧
        PostGuarantee K c d h id lease u
  | ⟨.workerSend req, _⟩ => req.IsSend → SendGuarantee K c d h req
  | _ => True

theorem guarantee_lenient : (Guarantee K c).Lenient := by
  rintro d h ⟨op, ans⟩ hop
  cases op with
  | save _ _ => exact hop.elim
  | roomRequest req => exact fun hupdate => absurd hupdate hop
  | workerSend req => exact fun hsend => absurd hsend hop
  | _ => trivial

/-! ## Changes keep records safe -/

theorem safe_of_workerResponse {reply : Reply} {v : Value}
    (hv : workerResponse (.receipt id) reply = .ok (some v)) :
    Safe v ∧ v.depth ≤ maxJsonDepth := by
  cases reply with
  | none => cases hv
  | some response =>
      rw [workerResponse] at hv
      cases hbody : workerBody (.receipt id) response.received with
      | none =>
          rw [hbody] at hv
          split_ifs at hv
          cases hv
      | some w =>
          rw [hbody] at hv
          have hw : parseJson response.received = some w := by
            simpa [workerBody] using hbody
          simp only [workerValue] at hv
          split_ifs at hv <;> cases hv
          exact parseJson_eq_some hw

theorem safeField_getElem {v : Value} (hsafe : Safe v)
    (hdepth : v.depth ≤ maxJsonDepth) (k : String) :
    Record.SafeField v[k] := by
  refine ⟨hsafe.getElem trivial k, ?_⟩
  have hle := Value.depth_getElem v k
  have hmax : maxJsonDepth = 127 := rfl
  omega

/-- The packet of a claim fits into a record. -/
theorem ClaimAnswered.safe (hp : ClaimAnswered c h p lease) :
    Record.SafeField p := by
  obtain ⟨reply, claim, _, hclaim, rfl, _⟩ := hp
  exact safeField_getElem (safe_of_roomResponse hclaim)
    (depth_of_roomResponse hclaim) "packet"

theorem safeField_binding (hp : Record.SafeField p) :
    Record.SafeField (binding p) := by
  obtain ⟨hsafe, hdepth⟩ := hp
  have hmax : maxJsonDepth = 127 := rfl
  refine ⟨?_, ?_⟩
  · have hcontext : Safe p["context"] := hsafe.getElem trivial _
    exact (((hsafe.set _ (((hcontext.remove _).remove _).remove _)).remove
      _).remove _)
  · have hcontext := Value.depth_getElem p "context"
    have hremoved : (((p["context"].remove "entries").remove
        "activeDecisions").remove "nativeReplyBindings").depth ≤ 124 + 1 :=
      ((Value.depth_remove_le _ _).trans ((Value.depth_remove_le _ _).trans
        (Value.depth_remove_le _ _))).trans (by omega)
    have hset : (p.set "context" (((p["context"].remove "entries").remove
        "activeDecisions").remove "nativeReplyBindings")).depth ≤ 125 + 1 :=
      Value.depth_set_le _ (by omega) hremoved
    have hbinding : (binding p).depth ≤ 125 + 1 :=
      ((Value.depth_remove_le _ _).trans (Value.depth_remove_le _ _)).trans
        hset
    omega

theorem safe_updateValue (hp : Safe p) {data : Value} (hdata : Safe data)
    (kind updateId : String) : Safe (updateValue p kind data updateId) := by
  refine safe_object fun f hf => ?_
  simp only [List.mem_cons, List.not_mem_nil, or_false] at hf
  rcases hf with rfl | rfl | rfl | rfl | rfl | rfl | rfl | rfl
  · exact .str trivial
  · exact .str trivial
  · exact .num (show 1 ≤ maxSafeInteger by decide)
  · exact hp.getElem trivial _
  · exact (hp.getElem trivial _).getElem trivial _
  · exact (hp.getElem trivial _).getElem trivial _
  · exact .str trivial
  · exact hdata

/-- An update built from a packet fits into a record. -/
theorem safeField_updateValue (hp : Record.SafeField p) {data : Value}
    (hdata : Safe data) (hdepth : data.depth ≤ 125) (kind updateId : String) :
    Record.SafeField (updateValue p kind data updateId) := by
  obtain ⟨hsafe, hp⟩ := hp
  have hmax : maxJsonDepth = 127 := rfl
  have htask := Value.depth_getElem p "taskId"
  have hconversation := Value.depth_getElem p "conversation"
  have hgeneration := Value.depth_getElem p["conversation"] "generation"
  have hcontext := Value.depth_getElem p "context"
  have hdigest := Value.depth_getElem p["context"] "digest"
  refine ⟨safe_updateValue hsafe hdata kind updateId,
    Nat.succ_le_succ (Value.depth_object_le (n := 125) ?_)⟩
  intro f hf
  simp only [List.mem_cons, List.not_mem_nil, or_false] at hf
  rcases hf with rfl | rfl | rfl | rfl | rfl | rfl | rfl | rfl <;>
    simp only [Value.depth] <;> omega

theorem safe_failureData (code : String) : Safe (failureData code) := by
  refine safe_object fun f hf => ?_
  rw [List.mem_singleton] at hf
  subst hf
  exact .str trivial

theorem depth_failureData (code : String) :
    (failureData code).depth ≤ 125 := by
  refine (Value.depth_object_le (n := 0) fun f hf => ?_).trans (by decide)
  rw [List.mem_singleton] at hf
  subst hf
  simp [Value.depth]

theorem safeOption_some {v : Value} (hv : Record.SafeField v)
    (hnull : v ≠ .null) : Record.SafeOption (some v) := by
  refine ⟨fun w hw => ?_, fun heq => hnull (Option.some.inj heq)⟩
  cases hw
  exact hv

theorem ne_null_of_object {v : Value} (hv : ∃ fs, v = .obj fs) :
    v ≠ .null := by
  obtain ⟨fs, rfl⟩ := hv
  rintro ⟨⟩

theorem schema_of_validateResult {x q : Value} {prior : StringSet}
    {a : Admission} (hx : validateResultWithAdmission K x q prior a = some ()) :
    schema K Contracts.result x = some () := by
  obtain ⟨⟨⟩, hschema, _⟩ := Option.bind_eq_some_iff.mp hx
  exact hschema

theorem result_depth {x : Value} (hx : schema K Contracts.result x = some ()) :
    x.depth ≤ 2 :=
  Json.Schema.depth_le_of_valid _ Contracts.depthBound_result
    (valid_of_schema hx)

theorem result_object {x : Value} (hx : schema K Contracts.result x = some ()) :
    ∃ fs, x = .obj fs := by
  obtain ⟨fs, hfs, _⟩ :=
    Json.Schema.exists_fields_of_valid (valid_of_schema hx)
  exact ⟨fs, hfs⟩

theorem ackMatches_schema {a : Value} (ha : ackMatches K r a = some ()) :
    schema K Contracts.ack a = some () := by
  obtain ⟨⟨⟩, hschema, _⟩ := Option.bind_eq_some_iff.mp ha
  exact hschema

theorem closed_object {v : Value} {names : List String}
    (hv : closed v names = true) : ∃ fs, v = .obj fs := by
  cases v with
  | obj fs => exact ⟨fs, rfl⟩
  | _ => simp [closed] at hv

theorem validateRuntime_object {y : Value} (hy : validateRuntime y = some ()) :
    ∃ fs, y = .obj fs := by
  obtain ⟨⟨⟩, hguard, _⟩ := Option.bind_eq_some_iff.mp hy
  exact closed_object (by simpa [guard] using hguard)

theorem Settles.safe (hs : Settles K r r') (hr : r.Safe) : r'.Safe := by
  cases hs with
  | quarantined => exact ⟨hr.binding, hr.result, hr.runtimeBinding, hr.update,
      hr.ack⟩
  | @acknowledged a ha hmatch =>
      have hschema := ackMatches_schema hmatch
      have hdepth : a.depth ≤ 1 :=
        Json.Schema.depth_le_of_valid _ Contracts.depthBound_ack
          (valid_of_schema hschema)
      obtain ⟨fs, hfs, _⟩ :=
        Json.Schema.exists_fields_of_valid (valid_of_schema hschema)
      have hmax : maxJsonDepth = 127 := rfl
      exact ⟨hr.binding, hr.result, hr.runtimeBinding, hr.update,
        safeOption_some ⟨ha, by omega⟩ (ne_null_of_object ⟨fs, hfs⟩)⟩

theorem Held.safe (hr : Held K c d id p lease r)
    (hp : Record.SafeField p) : r.Safe := by
  cases hr with
  | stored hstored _ =>
      have hr := Directory.record_safe hstored
      exact ⟨hr.binding, hr.result, hr.runtimeBinding, hr.update, hr.ack⟩
  | fresh _ _ _ =>
      exact ⟨safeField_binding hp, .none, .none, .none, .none⟩

theorem WorkerReported.safe {x y : Value} (hx : WorkerReported h id p x y) :
    Record.SafeField x ∧ Record.SafeField y := by
  obtain ⟨reply, v, _, hv, _, _, rfl, rfl⟩ := hx
  obtain ⟨hsafe, hdepth⟩ := safe_of_workerResponse hv
  exact ⟨safeField_getElem hsafe hdepth _, safeField_getElem hsafe hdepth _⟩

theorem updateValue_object (p : Value) (kind : String) (data : Value)
    (updateId : String) : ∃ fs, updateValue p kind data updateId = .obj fs :=
  ⟨_, rfl⟩

theorem Change.safe (hc : Change K c h id p lease r r') (hr : r.Safe)
    (hp : Record.SafeField p) : r'.Safe := by
  cases hc with
  | settle hs _ => exact hs.safe hr
  | reserve _ _ => exact hr
  | intend _ _ => exact ⟨hr.binding, hr.result, hr.runtimeBinding, hr.update,
      hr.ack⟩
  | interrupt _ _ => exact ⟨hr.binding, hr.result, hr.runtimeBinding,
      hr.update, hr.ack⟩
  | @fail code updateId _ _ _ _ =>
      have hupdate := safeField_updateValue hp (safe_failureData code)
        (depth_failureData code) "failed" updateId
      exact ⟨hr.binding, hr.result, hr.runtimeBinding,
        safeOption_some hupdate
          (ne_null_of_object (updateValue_object _ _ _ _)), hr.ack⟩
  | @complete x y u hx _ _ hu =>
      obtain ⟨hsafex, hsafey⟩ := hx.reported.safe
      have hschema := schema_of_validateResult hx.valid
      have hu : Record.SafeOption (some u) := by
        rcases hu with hu | ⟨_, updateId, rfl⟩
        · rw [← hu]
          exact hr.update
        · exact safeOption_some
            (safeField_updateValue hp hsafex.safe
              ((result_depth hschema).trans (by decide)) _ _)
            (ne_null_of_object (updateValue_object _ _ _ _))
      exact ⟨hr.binding,
        safeOption_some hsafex (ne_null_of_object (result_object hschema)),
        safeOption_some hsafey
          (ne_null_of_object (validateRuntime_object hx.runtime)),
        hu, hr.ack⟩

/-- Everything that is saved reads back, up to its size. -/
theorem SaveGuarantee.safe (hs : SaveGuarantee K c d h id r) : r.Safe := by
  cases hs with
  | recovery hr _ hsettles _ =>
      exact hsettles.safe (Directory.record_safe hr)
  | claim hclaim hheld hchange =>
      have hp := hclaim.answered.safe
      exact hchange.safe (hheld.safe hp) hp

/-- An update that is saved was stored before, or the call has built it. -/
theorem SaveGuarantee.update_built {u : Value}
    (hs : SaveGuarantee K c d h id r) (hu : r.update = some u) :
    (∃ q, d.record id = some q ∧ q.update = some u) ∨
      ∃ p lease q, Claimed K c h id p lease ∧ Held K c d id p lease q ∧
        Builds K c h id p lease q u := by
  have hsettles : ∀ {q : Record}, Settles K q r → q.update = some u := by
    intro q hq
    cases hq with
    | quarantined => exact hu
    | acknowledged _ _ => exact hu
  cases hs with
  | recovery hr _ hsettle _ => exact .inl ⟨_, hr, hsettles hsettle⟩
  | @claim p lease q _ hclaim hheld hchange =>
      have hstored : q.update = some u →
          ∃ q, d.record id = some q ∧ q.update = some u := by
        intro hq
        cases hheld with
        | stored hstored _ => exact ⟨_, hstored, hq⟩
        | fresh _ _ _ => cases hq
      cases hchange with
      | settle hsettle _ => exact .inl (hstored (hsettles hsettle))
      | reserve _ _ => exact .inl (hstored hu)
      | intend _ _ => exact .inl (hstored hu)
      | interrupt _ _ => exact .inl (hstored hu)
      | fail hcode hdrawn _ _ =>
          cases hu
          exact .inr ⟨p, lease, q, hclaim, hheld, .failed hcode hdrawn⟩
      | complete hx hlately _ hv =>
          cases hu
          rcases hv with hv | ⟨hnone, updateId, rfl⟩
          · exact .inl (hstored hv)
          · exact .inr ⟨p, lease, q, hclaim, hheld,
              .completed hnone hx hlately⟩

end AgentGateway
