import AgentGateway.Conversation.Reasoning

/-!
# What the clients do

The events of a request to the broker and of a receipt read are given exactly.
Of the other requests to the worker it is only said that they are requests to
the worker and that their errors are not definitive.
-/

namespace AgentGateway

open Json (Value)
open Interaction
open Mediation

variable {G : Guarantees} {d : Directory} {h : List Action}

/-! ## The broker -/

/-- A value that arrives from the broker was read from the text of a reply. -/
theorem parse_of_roomResponse {reply : Reply} {v : Value}
    (hv : roomResponse reply = .ok (some v)) :
    ∃ r, reply = some r ∧ parseJson r.received = some v := by
  cases reply with
  | none => cases hv
  | some r =>
      rw [roomResponse] at hv
      cases hparse : parseJson r.received with
      | none =>
          rw [hparse] at hv
          split_ifs at hv
          cases hv
      | some w =>
          rw [hparse] at hv
          split_ifs at hv <;> cases hv
          exact ⟨r, rfl, hparse⟩

theorem safe_of_roomResponse {reply : Reply} {v : Value}
    (hv : roomResponse reply = .ok (some v)) : Safe v := by
  obtain ⟨r, _, hparse⟩ := parse_of_roomResponse hv
  exact (parseJson_eq_some hparse).1

theorem depth_of_roomResponse {reply : Reply} {v : Value}
    (hv : roomResponse reply = .ok (some v)) : v.depth ≤ maxJsonDepth := by
  obtain ⟨r, _, hparse⟩ := parse_of_roomResponse hv
  exact (parseJson_eq_some hparse).2

/-- A status error of the token endpoint. -/
theorem serviceAccessToken_http {t : Option TokenResponse} {status : ℕ}
    (ht : serviceAccessToken t = .error (.http (some status))) :
    ∃ r, t = some r ∧ r.status = status := by
  cases t with
  | none => cases ht
  | some r =>
      refine ⟨r, rfl, ?_⟩
      rw [serviceAccessToken] at ht
      cases htoken : r.accessToken with
      | none =>
          rw [htoken] at ht
          split_ifs at ht <;> cases ht
          rfl
      | some token =>
          rw [htoken] at ht
          dsimp only at ht
          split_ifs at ht <;> cases ht
          rfl

/-- A status error of the broker. -/
theorem roomResponse_http {reply : Reply} {status : ℕ}
    (hr : roomResponse reply = .error (.http (some status))) :
    ∃ r, reply = some r ∧ r.status = status := by
  cases reply with
  | none => cases hr
  | some r =>
      refine ⟨r, rfl, ?_⟩
      rw [roomResponse] at hr
      cases hparse : parseJson r.received with
      | none =>
          rw [hparse] at hr
          split_ifs at hr <;> cases hr
          rfl
      | some v =>
          rw [hparse] at hr
          split_ifs at hr <;> cases hr
          rfl

theorem isUpdate_taskRequest {id suffix : String} {lease : Option String}
    {body : Option Value} :
    (taskRequest id suffix lease body).IsUpdate ↔ suffix = "updates" := by
  constructor
  · rintro ⟨i, hi⟩
    exact (RoomPath.task.inj hi).2
  · rintro rfl
    exact ⟨id, rfl⟩

/-- The events of a request that was sent and answered. -/
inductive Exchange (req : RoomRequest) (reply : Reply) : List Action → Prop
  | intro {t : Option TokenResponse} {token : String} :
      serviceAccessToken t = .ok token →
        Exchange req reply [⟨.serviceToken req, t⟩, ⟨.roomRequest req, reply⟩]

/-- A request to the broker for a value fails with `e` through the events
`es`: without a token, with an error, or with an empty answer. -/
inductive BrokerError (req : RoomRequest) :
    List Action → MediationError → Prop
  | refused {t : Option TokenResponse} {e : RoomClientError} :
      serviceAccessToken t = .error e →
        BrokerError req [⟨.serviceToken req, t⟩] (.broker e)
  | failed {reply : Reply} {e : RoomClientError} {es : List Action} :
      Exchange req reply es → roomResponse reply = .error e →
        BrokerError req es (.broker e)
  | empty {reply : Reply} {es : List Action} :
      Exchange req reply es → roomResponse reply = .ok none →
        BrokerError req es .validation

theorem BrokerError.uncertain {req : RoomRequest} {es : List Action}
    {e : MediationError} (he : BrokerError req es e) : e.Uncertain := by
  cases he <;> constructor <;> rintro ⟨⟩

/-- Either kind of events is about the one request. -/
theorem Exchange.op {req : RoomRequest} {reply : Reply} {es : List Action}
    (hes : Exchange req reply es) {a : Action} (ha : a ∈ es) :
    a.op = .serviceToken req ∨ a.op = .roomRequest req := by
  cases hes
  simp only [List.mem_cons, List.not_mem_nil, or_false] at ha
  rcases ha with rfl | rfl
  · exact .inl rfl
  · exact .inr rfl

theorem BrokerError.op {req : RoomRequest} {es : List Action}
    {e : MediationError} (he : BrokerError req es e) {a : Action}
    (ha : a ∈ es) :
    a.op = .serviceToken req ∨ a.op = .roomRequest req := by
  cases he with
  | refused _ =>
      rw [List.mem_singleton] at ha
      subst ha
      exact .inl rfl
  | failed hes _ => exact hes.op ha
  | empty hes _ => exact hes.op ha

theorem room_of_op {req : RoomRequest} (hreq : ¬req.IsUpdate) {op : Op}
    (hop : op = .serviceToken req ∨ op = .roomRequest req) : op.Room := by
  rcases hop with rfl | rfl
  · trivial
  · exact hreq

theorem conversationRequest_ensures {req : RoomRequest}
    {Q : Post (Option Value)} (hG : G.Lenient)
    (hrequest : ∀ t reply,
      G d (h ++ [⟨.serviceToken req, t⟩]) ⟨.roomRequest req, reply⟩)
    (hrefused : ∀ t e, serviceAccessToken t = .error e →
      Q d (h ++ [⟨.serviceToken req, t⟩]) (.error (.broker e)))
    (hanswered : ∀ es reply, Exchange req reply es →
      Q d (h ++ es) ((roomResponse reply).mapError .broker)) :
    Ensures G (conversationRequest req) Q d h := by
  refine ensures_quiet_bind trivial (fun t _ => hG d h _ trivial) ?_
  intro t _
  refine ensures_bind.mpr (ensures_ofExcept.mpr ?_)
  cases htoken : serviceAccessToken t with
  | error e => exact hrefused t e htoken
  | ok token =>
      refine ensures_quiet_bind trivial (fun reply _ => hrequest t reply) ?_
      intro reply _
      rw [List.append_assoc]
      exact ensures_ofExcept.mpr (hanswered _ reply (.intro htoken))

theorem broker_ensures {id suffix : String} {lease : Option String}
    {body : Option Value} {Q : Post Value} (hG : G.Lenient)
    (hrequest : ∀ t reply,
      G d (h ++ [⟨.serviceToken (taskRequest id suffix lease body), t⟩])
        ⟨.roomRequest (taskRequest id suffix lease body), reply⟩)
    (hok : ∀ es reply v,
      Exchange (taskRequest id suffix lease body) reply es →
      roomResponse reply = .ok (some v) → Q d (h ++ es) (.ok v))
    (herr : ∀ es e, BrokerError (taskRequest id suffix lease body) es e →
      Q d (h ++ es) (.error e)) :
    Ensures G (broker id suffix lease body) Q d h := by
  refine ensures_bind.mpr (conversationRequest_ensures hG hrequest ?_ ?_)
  · exact fun t e ht => herr _ _ (.refused ht)
  · intro es reply hes
    cases hreply : roomResponse reply with
    | error e => exact herr _ _ (.failed hes hreply)
    | ok v =>
        refine ensures_checked.mpr ⟨?_, ?_⟩
        · rintro v rfl
          exact hok es reply v hes hreply
        · rintro rfl
          exact herr _ _ (.empty hes hreply)

/-- A request that is no update needs no guarantee. -/
theorem ask_ensures {id suffix : String} {lease : Option String}
    {Q : Post Value} (hG : G.Lenient) (hsuffix : suffix ≠ "updates")
    (hok : ∀ es reply v, Exchange (taskRequest id suffix lease none) reply es →
      roomResponse reply = .ok (some v) → Q d (h ++ es) (.ok v))
    (herr : ∀ es e, BrokerError (taskRequest id suffix lease none) es e →
      Q d (h ++ es) (.error e)) :
    Ensures G (broker id suffix lease none) Q d h := by
  refine broker_ensures hG (fun t reply => hG _ _ _ ?_) hok herr
  exact fun hupdate => hsuffix (isUpdate_taskRequest.mp hupdate)

/-! ## The worker -/

theorem uncertain_validation : MediationError.Uncertain .validation := by
  constructor <;> rintro ⟨⟩

namespace Worker

theorem workerValue_uncertain {path : WorkerPath} {status : ℕ}
    {value : Value} {e : MediationError}
    (h : workerValue path status value = .error e) : e.Uncertain := by
  unfold workerValue at h
  split_ifs at h
  cases h
  constructor <;> rintro ⟨⟩

theorem workerResponse_uncertain {path : WorkerPath} {reply : Reply}
    {e : MediationError} (h : workerResponse path reply = .error e) :
    e.Uncertain := by
  cases reply with
  | none =>
      cases h
      constructor <;> rintro ⟨⟩
  | some r =>
      rw [workerResponse] at h
      cases hbody : workerBody path r.received with
      | none =>
          rw [hbody] at h
          split_ifs at h <;> cases h <;> constructor <;> rintro ⟨⟩
      | some value =>
          rw [hbody] at h
          split_ifs at h
          · cases h
            constructor <;> rintro ⟨⟩
          · cases h
            constructor <;> rintro ⟨⟩
          · exact workerValue_uncertain h

theorem rpcResult_uncertain {id : String} {response : Value}
    {e : MediationError} (h : rpcResult id response = .error e) :
    e.Uncertain := by
  unfold rpcResult at h
  split_ifs at h
  · cases h
    constructor <;> rintro ⟨⟩
  · split at h <;> split at h <;> cases h <;> constructor <;> rintro ⟨⟩

/-- The reply that rejects a request with a known code. -/
theorem rpcResult_rejected {id code : String} {response : Value}
    (h : rpcResult id response = .error (.workerRejected code)) :
    response["id"] = .str id ∧ ∃ error, response.get? "error" = some error ∧
      error["message"] = .str code := by
  unfold rpcResult at h
  split_ifs at h with hid
  · cases h
  rw [not_or, not_not, not_not] at hid
  refine ⟨hid.2, ?_⟩
  cases herror : response.get? "error" with
  | none =>
      rw [herror] at h
      cases hresult : response.get? "result" with
      | none =>
          rw [hresult] at h
          cases h
      | some v =>
          rw [hresult] at h
          cases h
  | some error =>
      rw [herror] at h
      dsimp only at h
      cases hcode : error["message"].asStr?.bind safeFailureCode with
      | none =>
          rw [hcode] at h
          cases h
      | some known =>
          rw [hcode] at h
          cases h
          obtain ⟨s, hs, hknown⟩ := Option.bind_eq_some_iff.mp hcode
          obtain ⟨rfl, _⟩ := safeFailureCode_eq_some hknown
          exact ⟨error, rfl, Value.asStr?_eq_some.mp hs⟩

theorem workerValue_ne_rejected {path : WorkerPath} {status : ℕ}
    {value : Value} {code : String} :
    workerValue path status value ≠ .error (.workerRejected code) := by
  intro h
  unfold workerValue at h
  split_ifs at h
  cases h

theorem workerResponse_ne_rejected {path : WorkerPath} {reply : Reply}
    {code : String} :
    workerResponse path reply ≠ .error (.workerRejected code) := by
  intro h
  cases reply with
  | none => cases h
  | some r =>
      rw [workerResponse] at h
      cases hbody : workerBody path r.received with
      | none =>
          rw [hbody] at h
          split_ifs at h <;> cases h
      | some value =>
          rw [hbody] at h
          split_ifs at h
          · cases h
          · cases h
          · exact workerValue_ne_rejected h

theorem rpcAnswer_rejected {id code : String} {reply : Reply}
    (h : rpcAnswer id reply = .error (.workerRejected code)) :
    ∃ v error, workerResponse .rpc reply = .ok (some v) ∧
      v["id"] = .str id ∧ v.get? "error" = some error ∧
      error["message"] = .str code := by
  unfold rpcAnswer at h
  cases hres : workerResponse .rpc reply with
  | error e =>
      rw [hres] at h
      cases h
      exact absurd hres workerResponse_ne_rejected
  | ok v =>
      rw [hres] at h
      cases v with
      | none => cases h
      | some v =>
          obtain ⟨hid, error, herror, hmessage⟩ := rpcResult_rejected h
          exact ⟨v, error, rfl, hid, herror, hmessage⟩

theorem within_receive (r : WorkerRequest) :
    Within Op.Worker MediationError.Uncertain (receive r) :=
  (within_perform trivial).bind fun _ =>
    within_ofExcept fun _ => workerResponse_uncertain

theorem within_request {r : WorkerRequest} (hr : ¬r.IsSend) :
    Within Op.Worker MediationError.Uncertain (request r) :=
  (within_perform hr).bind fun _ => within_receive r

theorem within_rpcReceive (id : String) (r : WorkerRequest) :
    Within Op.Worker MediationError.Uncertain (rpcReceive id r) :=
  (within_receive r).bind fun response =>
    (within_checked uncertain_validation response).bind fun _ =>
      within_ofExcept fun _ => rpcResult_uncertain

/-- A request to another path than `/` is no submission. -/
theorem not_isSend_of_path {r : WorkerRequest} (h : r.path ≠ .rpc) :
    ¬r.IsSend := fun hr => h hr.1

theorem rpcRequest_method (id method : String) (params : Value) :
    ∃ b, (rpcRequest id method params).body = some b ∧
      b["method"] = .str method ∧ b["params"] = params := by
  refine ⟨_, rfl, ?_, ?_⟩ <;> rw [Value.getElem_object] <;> rfl

theorem isSend_rpcRequest {id method : String} {params : Value} :
    (rpcRequest id method params).IsSend ↔ method = "SendMessage" := by
  obtain ⟨b, hb, hmethod, _⟩ := rpcRequest_method id method params
  constructor
  · rintro ⟨_, b', hb', hsend⟩
    rw [hb] at hb'
    cases hb'
    rw [hmethod] at hsend
    exact Value.str.inj hsend
  · rintro rfl
    exact ⟨rfl, b, hb, hmethod⟩

theorem within_rpc {method : String} (hmethod : method ≠ "SendMessage")
    (params : Value) :
    Within Op.Worker MediationError.Uncertain (rpc method params) := by
  have hsend : ∀ id, ¬(rpcRequest id method params).IsSend :=
    fun id hr => hmethod (isSend_rpcRequest.mp hr)
  exact (within_perform trivial).bind fun id =>
    (within_perform (hsend id)).bind fun _ => within_rpcReceive id _

/-- Whether a cancellation went well is not asked. -/
theorem within_cancel {E : MediationError → Prop} (id : String) :
    Within Op.Worker E (cancel id) :=
  (within_rpc (by decide) _).attempt.bind fun _ => within_pure ()

theorem within_ack (id : String) (a : Value) :
    Within Op.Worker MediationError.Uncertain (ack id a) :=
  (within_request (not_isSend_of_path (by rintro ⟨⟩))).bind fun _ =>
    within_pure ()

theorem within_admitCodex : Within Op.Worker MediationError.Uncertain
    admitCodex :=
  (within_request (not_isSend_of_path (by rintro ⟨⟩))).bind fun card =>
    (within_checked uncertain_validation card).bind fun _ =>
      within_checked uncertain_validation _

theorem within_catalog (K : Crates) (a : Admission) :
    Within Op.Worker MediationError.Uncertain (catalog K a) :=
  (within_request (not_isSend_of_path (by rintro ⟨⟩))).bind fun page =>
    (within_checked uncertain_validation page).bind fun _ =>
      (within_checked uncertain_validation _).bind fun _ => within_pure _

variable {α : Type}

/-- Programs of the worker client, as far as most proofs need to know. -/
theorem ensures_of_within {p : Mediation α} {Q : Post α}
    (hp : Within Op.Worker MediationError.Uncertain p) (hG : G.Lenient)
    (hQ : ∀ es r, (∀ a ∈ es, a.op.Worker) →
      (∀ e, r = .error e → e.Uncertain) → Q d (h ++ es) r) :
    Ensures G p Q d h := by
  refine (hp.ensures (fun _ ho => ho.harmless.quiet)
    fun h' a ha => hG d h' a ha.harmless).mono ?_
  rintro d' h' r ⟨rfl, ⟨es, rfl, hes⟩, hr⟩
  exact hQ es r hes hr

theorem cancel_ensures {id : String} {Q : Post Unit} (hG : G.Lenient)
    (hQ : ∀ es, (∀ a ∈ es, a.op.Worker) → Q d (h ++ es) (.ok ())) :
    Ensures G (cancel id) Q d h := by
  have hcancel := (within_cancel (E := fun _ => False) id).ensures
    (d := d) (h := h) (fun _ ho => ho.harmless.quiet)
    fun h' a ha => hG d h' a ha.harmless
  refine hcancel.mono ?_
  rintro d' h' (e | _) ⟨rfl, ⟨es, rfl, hes⟩, hr⟩
  · exact (hr e rfl).elim
  · exact hQ es hes

/-- A receipt read, with its two events. -/
theorem receipt_ensures {id : String} {Q : Post (Option Value)}
    (hG : G.Lenient)
    (hQ : ∀ reply, Q d
      (h ++ [⟨.workerSend (receiptRequest id), ()⟩,
        ⟨.workerReceive (receiptRequest id), reply⟩])
      (workerResponse (.receipt id) reply)) :
    Ensures G (receipt id) Q d h := by
  have hsend : ¬(receiptRequest id).IsSend :=
    not_isSend_of_path (by rintro ⟨⟩)
  refine ensures_quiet_bind trivial (fun _ _ => hG _ _ _ hsend) ?_
  intro _ _
  refine ensures_quiet_bind trivial (fun _ _ => hG _ _ _ trivial) ?_
  intro reply _
  rw [List.append_assoc]
  exact ensures_ofExcept.mpr (hQ reply)

/-- The reply to a JSON-RPC request, with its event. -/
theorem rpcReceive_ensures {id : String} {r : WorkerRequest} {Q : Post Value}
    (hr : r.path = .rpc) (hG : G.Lenient)
    (hQ : ∀ reply, Q d (h ++ [⟨.workerReceive r, reply⟩])
      (rpcAnswer id reply)) :
    Ensures G (rpcReceive id r) Q d h := by
  refine ensures_bind.mpr
    (ensures_quiet_bind trivial (fun _ _ => hG _ _ _ trivial) ?_)
  intro reply _
  refine ensures_ofExcept.mpr ?_
  have hreply := hQ reply
  unfold rpcAnswer at hreply
  rw [hr]
  cases hres : workerResponse .rpc reply with
  | error e =>
      rw [hres] at hreply
      exact hreply
  | ok v =>
      rw [hres] at hreply
      cases v with
      | none => exact hreply
      | some v => exact ensures_ofExcept.mpr hreply

/-- An acknowledgement, with its two events. -/
theorem ack_ensures {id : String} {a : Value} {Q : Post Unit}
    (hG : G.Lenient)
    (hQ : ∀ reply, Q d
      (h ++ [⟨.workerSend (ackRequest id a), ()⟩,
        ⟨.workerReceive (ackRequest id a), reply⟩])
      ((workerResponse (.receiptAck id) reply).map fun _ => ())) :
    Ensures G (ack id a) Q d h := by
  have hsend : ¬(ackRequest id a).IsSend :=
    not_isSend_of_path (by rintro ⟨⟩)
  refine ensures_bind.mpr
    (ensures_quiet_bind trivial (fun _ _ => hG _ _ _ hsend) ?_)
  intro _ _
  refine ensures_quiet_bind trivial (fun _ _ => hG _ _ _ trivial) ?_
  intro reply _
  rw [List.append_assoc]
  refine ensures_ofExcept.mpr ?_
  have hreply := hQ reply
  cases hres : workerResponse (.receiptAck id) reply with
  | error e =>
      rw [hres] at hreply
      rw [ackRequest, hres]
      exact hreply
  | ok v =>
      rw [hres] at hreply
      rw [ackRequest, hres]
      exact hreply

end Worker

end AgentGateway
