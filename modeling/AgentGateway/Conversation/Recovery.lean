import AgentGateway.Conversation.Authority
import AgentGateway.Conversation.Phases

/-!
# Recovery

What an acknowledgement, a reconciliation and a whole visit of the recovery
scan do to the directory, and on which evidence.  Each function has an outcome
relation with one case for each way in which it can end.
-/

namespace AgentGateway

open Json (Value)
open Interaction
open Mediation
open Dispatcher

namespace Record

def acknowledged (r : Record) (a : Value) : Record :=
  { r with ack := some a, phase := "acknowledged" }

def quarantined (r : Record) : Record := { r with phase := "quarantined" }

end Record

/-- A save of a record that went well, and one that did not. -/
def saved (id : String) (r : Record) : Action := ⟨.save id r, .saved⟩

def saveFailed (id : String) (r : Record) (replaced : Bool) : Action :=
  ⟨.save id r, .failed replaced⟩

theorem unsaved_saved {phase id : String} {r : Record} (h : r.phase ≠ phase) :
    Unsaved phase [saved id r] := by
  intro a ha
  rw [List.mem_singleton] at ha
  subst ha
  exact h

theorem undecided_saved {id : String} {r : Record}
    (h : r.phase ≠ "completed") (h' : r.phase ≠ "interrupted") :
    Undecided [saved id r] := by
  intro a ha
  rw [List.mem_singleton] at ha
  subst ha
  exact ⟨h, h'⟩

variable {K : Crates} {c : Dispatcher} {G : Guarantees} {d : Directory}
  {h : List Action} {id : String} {r : Record}

/-! ## Acknowledgements and quarantine -/

/-- How a program ends that asks the worker and then saves `r`. -/
inductive SaveOutcome (d : Directory) (id : String) (r : Record) :
    List Action → Directory → Except MediationError Record → Prop
  | saved {es : List Action} :
      (∀ a ∈ es, a.op.Worker) →
        SaveOutcome d id r (es ++ [saved id r]) (d.write id r.toVec) (.ok r)
  | failed {es : List Action} {replaced : Bool} :
      (∀ a ∈ es, a.op.Worker) →
        SaveOutcome d id r (es ++ [saveFailed id r replaced])
          (written d (saveFailed id r replaced)) (.error .state)

/-- Saving a record as the last step. -/
theorem save_return_ensures {es : List Action} {Q : Post Record}
    (huuid : K.uuidParses id = true) (hes : ∀ a ∈ es, a.op.Worker)
    (hG : ∀ ans, G d (h ++ es) ⟨.save id r, ans⟩)
    (hQ : ∀ fs d' res, SaveOutcome d id r fs d' res → Q d' (h ++ fs) res) :
    Ensures G (save K id r >>= fun _ => pure r) Q d (h ++ es) := by
  refine ensures_bind.mpr (save_ensures huuid hG ?_ ?_)
  · rw [List.append_assoc]
    exact hQ _ _ _ (.saved hes)
  · intro replaced
    rw [List.append_assoc]
    exact hQ _ _ _ (.failed hes)

/-- The worker answered the acknowledgement of a task, and the answer was
accepted; nothing happened since. -/
def AckAnswered (id : String) (a : Value) (h : List Action) : Prop :=
  ∃ h₁ reply v, h = h₁ ++ [⟨.workerSend (Worker.ackRequest id a), ()⟩,
    ⟨.workerReceive (Worker.ackRequest id a), reply⟩] ∧
      workerResponse (.receiptAck id) reply = .ok v

theorem acceptAck_ensures {a : Value} {Q : Post Record} (hG : G.Lenient)
    (huuid : K.uuidParses id = true)
    (hsave : ackMatches K r a = some () → ∀ es ans,
      AckAnswered id a (h ++ es) →
        G d (h ++ es) ⟨.save id (r.acknowledged a), ans⟩)
    (hQ : ackMatches K r a = some () → ∀ es d' res,
      SaveOutcome d id (r.acknowledged a) es d' res → Q d' (h ++ es) res)
    (herr : ∀ es e, (∀ x ∈ es, x.op.Worker) → e.Uncertain →
      Q d (h ++ es) (.error e)) :
    Ensures G (acceptAck K id r a) Q d h := by
  refine ensures_checked_bind (fun _ hmatch => ?_) (fun _ => ?_)
  · refine ensures_bind.mpr (Worker.ack_ensures hG fun reply => ?_)
    have hsend : ¬(Worker.ackRequest id a).IsSend :=
      Worker.not_isSend_of_path (by rintro ⟨⟩)
    have hworker : ∀ x ∈ ([⟨.workerSend (Worker.ackRequest id a), ()⟩,
        ⟨.workerReceive (Worker.ackRequest id a), reply⟩] : List Action),
        x.op.Worker := by
      simp only [List.mem_cons, List.not_mem_nil, or_false]
      rintro x (rfl | rfl)
      · exact hsend
      · trivial
    cases hreply : workerResponse (.receiptAck id) reply with
    | error e =>
        exact herr _ e hworker (Worker.workerResponse_uncertain hreply)
    | ok v =>
        exact save_return_ensures huuid hworker
          (fun ans => hsave hmatch _ ans ⟨h, reply, v, rfl, hreply⟩)
          (hQ hmatch)
  · simpa using herr [] _ (by simp) uncertain_validation

theorem quarantine_ensures {Q : Post Record} (hG : G.Lenient)
    (huuid : K.uuidParses id = true)
    (hsave : ∀ es ans, G d (h ++ es) ⟨.save id r.quarantined, ans⟩)
    (hQ : ∀ es d' res, SaveOutcome d id r.quarantined es d' res →
      Q d' (h ++ es) res) :
    Ensures G (quarantine K id r) Q d h := by
  refine ensures_bind.mpr (Worker.cancel_ensures hG fun es hes => ?_)
  exact save_return_ensures huuid hes (hsave es) hQ

theorem SaveOutcome.clean {es : List Action} {d' : Directory}
    {res : Except MediationError Record} (ho : SaveOutcome d id r es d' res) :
    Clean es := by
  have hsave : ∀ ans, Clean [⟨.save id r, ans⟩] := by
    intro ans
    refine clean_of_op fun a ha i l => ?_
    rw [List.mem_singleton] at ha
    subst ha
    rintro ⟨⟩
  cases ho with
  | saved hes => exact (clean_of_worker hes).append (hsave .saved)
  | failed hes => exact (clean_of_worker hes).append (hsave (.failed _))

/-! ## The broker's receipt -/

/-- The broker's receipt says that the task failed, without a reply. -/
inductive ReceiptFailed (id : String) (r : Record) : List Action → Prop
  | intro {es : List Action} {reply : Reply} {v : Value} :
      Exchange (brokerReceiptRequest id) reply es →
      roomResponse reply = .ok (some v) →
      brokerReceiptMatches v r.binding = some () →
      v["state"] = .str "failed" → v["acknowledgement"] = .null →
      v["result"] = .null → ReceiptFailed id r es

/-- The broker's receipt is there and does not say that the task failed. -/
inductive Unsettled (id : String) : List Action → Prop
  | intro {es : List Action} {reply : Reply} {v : Value} :
      Exchange (brokerReceiptRequest id) reply es →
      roomResponse reply = .ok (some v) → v["state"] ≠ .str "failed" →
        Unsettled id es

inductive ReconcileOutcome (K : Crates) (d : Directory) (id : String)
    (r : Record) :
    List Action → Directory → Except MediationError (Bool × Record) → Prop
  | stopped {es : List Action} {e : MediationError} :
      Clean es → e.Uncertain → ReconcileOutcome K d id r es d (.error e)
  | unsettled {es : List Action} :
      Unsettled id es → ReconcileOutcome K d id r es d (.ok (false, r))
  | quarantined {es fs : List Action} {d' : Directory}
      {res : Except MediationError Record} :
      ReceiptFailed id r es → SaveOutcome d id r.quarantined fs d' res →
        ReconcileOutcome K d id r (es ++ fs) d' (res.map (true, ·))
  | acknowledged {es fs : List Action} {a : Value} {d' : Directory}
      {res : Except MediationError Record} :
      Clean es → Safe a → ackMatches K r a = some () →
      SaveOutcome d id (r.acknowledged a) fs d' res →
        ReconcileOutcome K d id r (es ++ fs) d' (res.map (true, ·))

/-- The broker's receipt said that the task failed. -/
def FailureReceived (id : String) (r : Record) (h : List Action) : Prop :=
  ∃ h₁ es h₂, h = h₁ ++ es ++ h₂ ∧ ReceiptFailed id r es

/-- The answers behind the settlement of a task: a record is given up on the
word of the broker or in its recovery, and acknowledged with the worker. -/
inductive SettledBy (h : List Action) (id : String) (r : Record) :
    Record → Prop
  | quarantined : pending r ∨ FailureReceived id r h →
      SettledBy h id r r.quarantined
  | acknowledged {a : Value} : AckAnswered id a h →
      SettledBy h id r (r.acknowledged a)

/-- The changes by which a broker settles a task. -/
inductive Settles (K : Crates) (r : Record) : Record → Prop
  | quarantined : Settles K r r.quarantined
  | acknowledged {a : Value} :
      Safe a → ackMatches K r a = some () → Settles K r (r.acknowledged a)

theorem not_isUpdate_receipt (id : String) :
    ¬(brokerReceiptRequest id).IsUpdate := by
  simp [brokerReceiptRequest, isUpdate_taskRequest]

theorem Unsettled.room {es : List Action} (hes : Unsettled id es) :
    ∀ a ∈ es, a.op.Room := by
  cases hes with
  | intro hex _ _ => exact hex.room (not_isUpdate_receipt id)

theorem Unsettled.clean {es : List Action} (hes : Unsettled id es) :
    Clean es := by
  cases hes with
  | intro hex _ _ => exact hex.clean

theorem ReceiptFailed.clean {es : List Action} (hes : ReceiptFailed id r es) :
    Clean es := by
  cases hes with
  | intro hex _ _ _ _ _ => exact hex.clean

theorem ensures_map {α β : Type} {p : Mediation α} {f : α → β} {Q : Post β}
    (hp : Ensures G p (fun d' h' res => Q d' h' (res.map f)) d h) :
    Ensures G (p >>= fun x => pure (f x)) Q d h := by
  refine ensures_bind.mpr (hp.mono fun d' h' res hres => ?_)
  cases res with
  | ok x => exact hres
  | error e => exact hres

theorem reconcileBroker_ensures {Q : Post (Bool × Record)} (hG : G.Lenient)
    (huuid : K.uuidParses id = true)
    (hsave : ∀ es r' ans, Settles K r r' → SettledBy (h ++ es) id r r' →
      G d (h ++ es) ⟨.save id r', ans⟩)
    (hQ : ∀ es d' res, ReconcileOutcome K d id r es d' res →
      Q d' (h ++ es) res) :
    Ensures G (reconcileBroker K id r) Q d h := by
  refine ensures_bind.mpr (ask_ensures hG (by decide) ?_ ?_)
  · intro es reply v hex hv
    have hstop : Q d (h ++ es) (.error .validation) :=
      hQ es d _ (.stopped hex.clean uncertain_validation)
    refine ensures_checked_bind (fun _ hmatch => ?_) (fun _ => hstop)
    split_ifs with hfailed hcompleted
    · refine ensures_checked_bind (fun _ hguard => ?_) (fun _ => hstop)
      obtain ⟨hack, hresult⟩ : v["acknowledgement"] = .null ∧
          v["result"] = .null := by
        simpa [guard, Value.isNull_iff] using hguard
      refine ensures_map (quarantine_ensures hG huuid ?_ ?_)
      · intro fs ans
        have hreceived : FailureReceived id r (h ++ es ++ fs) :=
          ⟨h, es, fs, rfl, .intro hex hv hmatch hfailed hack hresult⟩
        rw [List.append_assoc] at hreceived ⊢
        exact hsave _ _ _ .quarantined (.quarantined (.inr hreceived))
      · intro fs d' res hres
        rw [List.append_assoc]
        exact hQ _ _ _
          (.quarantined (.intro hex hv hmatch hfailed hack hresult) hres)
    · refine ensures_checked_bind (fun _ _ => ?_) (fun _ => hstop)
      have hsafe : Safe v["acknowledgement"] :=
        (safe_of_roomResponse hv).getElem trivial _
      refine ensures_map (acceptAck_ensures hG huuid ?_ ?_ ?_)
      · intro hack fs ans hanswered
        rw [List.append_assoc] at hanswered ⊢
        exact hsave _ _ _ (.acknowledged hsafe hack) (.acknowledged hanswered)
      · intro hack fs d' res hres
        rw [List.append_assoc]
        exact hQ _ _ _ (.acknowledged hex.clean hsafe hack hres)
      · intro fs e hfs he
        rw [List.append_assoc]
        exact hQ _ _ _
          (.stopped (hex.clean.append (clean_of_worker hfs)) he)
    · exact hQ _ _ _ (.unsettled (.intro hex hv hfailed))
  · intro es e he
    exact hQ _ _ _ (.stopped (he.clean (by decide)) he.uncertain)

/-! ## Replay of a stored completion -/

/-- A stored record is fit to have its update sent again. -/
structure Replay (K : Crates) (c : Dispatcher) (r : Record) (x u : Value) :
    Prop where
  phase : r.phase = "completed"
  result : r.result = some x
  update : r.update = some u
  valid : validateResultWithAdmission K x r.binding r.sources c.admission =
    some ()
  schema : schema K Contracts.update u = some ()

/-- Operations that reach the worker. -/
def Op.ContactsWorker : Op → Prop
  | .workerSend _ => True
  | .workerReceive _ => True
  | _ => False

/-- An authority check succeeded, and the worker was not contacted since. -/
def AuthorityLately (K : Crates) (p : Value) (lease : String)
    (h : List Action) : Prop :=
  ∃ h₁ es h₂, h = h₁ ++ es ++ h₂ ∧ AuthorityShown K p lease es ∧
    ∀ a ∈ h₂, ¬a.op.ContactsWorker

theorem AuthorityShown.lately {p : Value} {lease : String}
    {es : List Action} (hes : AuthorityShown K p lease es)
    (h₁ : List Action) : AuthorityLately K p lease (h₁ ++ es) :=
  ⟨h₁, es, [], by simp, hes, by simp⟩

theorem AuthorityLately.append {p : Value} {lease : String}
    {es : List Action} (hes : AuthorityLately K p lease es)
    {fs : List Action} (hfs : ∀ a ∈ fs, ¬a.op.ContactsWorker) :
    AuthorityLately K p lease (es ++ fs) := by
  obtain ⟨h₁, es, h₂, rfl, hshown, hh₂⟩ := hes
  refine ⟨h₁, es, h₂ ++ fs, by simp, hshown, fun a ha => ?_⟩
  rcases List.mem_append.mp ha with ha | ha
  · exact hh₂ a ha
  · exact hfs a ha

inductive RecoverOutcome (K : Crates) (d : Directory) (id : String)
    (r : Record) :
    List Action → Directory → Except MediationError Bool → Prop
  | stopped {es : List Action} {e : MediationError} :
      Clean es → e.Uncertain → RecoverOutcome K d id r es d (.error e)
  | passed {es : List Action} :
      Clean es → RecoverOutcome K d id r es d (.ok false)
  | lost {es fs : List Action} :
      Unsettled id es → AuthorityError K r.binding r.lease fs .authorityLost →
        RecoverOutcome K d id r (es ++ fs) d (.error .authorityLost)
  | quarantined {es fs : List Action} {d' : Directory}
      {res : Except MediationError Record} :
      ReceiptFailed id r es → SaveOutcome d id r.quarantined fs d' res →
        RecoverOutcome K d id r (es ++ fs) d' (res.map fun _ => false)
  | acknowledged {es fs : List Action} {a : Value} {d' : Directory}
      {res : Except MediationError Record} :
      Clean es → Safe a → ackMatches K r a = some () →
      SaveOutcome d id (r.acknowledged a) fs d' res →
        RecoverOutcome K d id r (es ++ fs) d' (res.map fun _ => true)

/-- The saves and the updates of recovery satisfy a guarantee. -/
structure Guarantees.Recovers (K : Crates) (c : Dispatcher) (G : Guarantees) :
    Prop where
  lenient : G.Lenient
  save {d : Directory} {h : List Action} {id : String} {r r' : Record}
    (ans : FileWrite) : K.uuidParses id = true → d.record id = some r →
      pending r → Settles K r r' → SettledBy h id r r' →
        G d h ⟨.save id r', ans⟩
  post {d : Directory} {h : List Action} {id : String} {r : Record}
    {x u : Value} (reply : Reply) : d.record id = some r → pending r →
      Replay K c r x u → AuthorityLately K r.binding r.lease h →
        G d h ⟨.roomRequest (updateRequest id r.lease u), reply⟩

theorem clean_nil : Clean [] := by
  rintro a ⟨⟩

theorem recoverPending_ensures {Q : Post Bool} (hG : G.Recovers K c)
    (huuid : K.uuidParses id = true) (hr : d.record id = some r)
    (hpending : pending r)
    (hQ : ∀ es d' res, RecoverOutcome K d id r es d' res →
      Q d' (h ++ es) res) :
    Ensures G (recoverPending K c id r) Q d h := by
  refine ensures_bind.mpr (reconcileBroker_ensures hG.lenient huuid ?_ ?_)
  · exact fun _ _ ans hsettles hby =>
      hG.save ans huuid hr hpending hsettles hby
  intro es d' res hres
  cases hres with
  | stopped hes he => exact hQ _ _ _ (.stopped hes he)
  | quarantined hfailed hsave =>
      cases hsave with
      | saved hfs => exact hQ _ _ _ (.quarantined hfailed (.saved hfs))
      | failed hfs => exact hQ _ _ _ (.quarantined hfailed (.failed hfs))
  | acknowledged hes hsafe hack hsave =>
      cases hsave with
      | saved hfs => exact hQ _ _ _ (.acknowledged hes hsafe hack (.saved hfs))
      | failed hfs =>
          exact hQ _ _ _ (.acknowledged hes hsafe hack (.failed hfs))
  | unsettled hunsettled =>
      have hes := hunsettled.clean
      show Ensures G (if r.phase ≠ "completed" then _ else _) Q d (h ++ es)
      split_ifs with hphase
      · exact hQ _ _ _ (.passed hes)
      have hcompleted : r.phase = "completed" := not_not.mp hphase
      refine ensures_bind.mpr (authority_ensures hG.lenient ?_ ?_)
      · intro fs hshown
        have hclean := hes.append hshown.clean
        have hstop : Q d (h ++ es ++ fs) (.error .validation) := by
          rw [List.append_assoc]
          exact hQ _ _ _ (.stopped hclean uncertain_validation)
        refine ensures_checked_bind (fun x hx => ?_) (fun _ => hstop)
        refine ensures_checked_bind (fun _ hvalid => ?_) (fun _ => hstop)
        refine ensures_checked_bind (fun u hu => ?_) (fun _ => hstop)
        refine ensures_checked_bind (fun _ hschema => ?_) (fun _ => hstop)
        have hreplay : Replay K c r x u :=
          ⟨hcompleted, hx, hu, hvalid, hschema⟩
        have hlately := hshown.lately (h ++ es)
        refine ensures_bind.mpr (broker_ensures hG.lenient ?_ ?_ ?_)
        · intro t reply
          refine hG.post reply hr hpending hreplay (hlately.append ?_)
          intro a ha
          rw [List.mem_singleton] at ha
          subst ha
          rintro ⟨⟩
        · intro gs reply a hex ha
          have hgs := hclean.append hex.clean
          refine ensures_map (acceptAck_ensures hG.lenient huuid ?_ ?_ ?_)
          · exact fun hack _ ans hanswered => hG.save ans huuid hr hpending
              (.acknowledged (safe_of_roomResponse ha) hack)
              (.acknowledged hanswered)
          · intro hack ks d' res hsave
            have houtcome : RecoverOutcome K d id r (es ++ fs ++ gs ++ ks) d'
                (res.map fun _ => true) :=
              .acknowledged hgs (safe_of_roomResponse ha) hack hsave
            simpa only [List.append_assoc] using hQ _ _ _ houtcome
          · intro ks e hks he
            simpa only [List.append_assoc, Except.map] using
              hQ _ _ _ (.stopped (hgs.append (clean_of_worker hks)) he)
        · intro gs e he
          simpa only [List.append_assoc] using hQ _ _ _ (.stopped
            (hclean.append (he.clean (by decide))) he.uncertain)
      · intro fs e he
        rw [List.append_assoc]
        cases he with
        | answered hloss =>
            exact hQ _ _ _ (.lost hunsettled (.answered hloss))
        | refused hloss => exact hQ _ _ _ (.lost hunsettled (.refused hloss))
        | uncertain _ hfs he => exact hQ _ _ _ (.stopped (hes.append hfs) he)

/-! ## Visits -/

/-- An entry whose record cannot be loaded, whatever the disk does. -/
inductive Unloadable (K : Crates) (d : Directory) : DirEntry → Prop
  | stem : Unloadable K d (.file none (some "json"))
  | path {id : String} : K.uuidParses id ≠ true →
      Unloadable K d (.file (some id) (some "json"))
  | content {id : String} {content : Utf8.Bytes} :
      d id = some content → Record.read content = none →
        Unloadable K d (.file (some id) (some "json"))

/-- No event is an answer of the broker that could settle the task. -/
def Inconclusive (id : String) (es : List Action) : Prop :=
  ∀ a ∈ es,
    (∀ i lease reply, a ≠ ⟨.roomRequest (authorityRequest i lease), reply⟩) ∧
    ∀ reply v, a = ⟨.roomRequest (brokerReceiptRequest id), reply⟩ →
      roomResponse reply = .ok (some v) → v["state"] ≠ .str "failed"

theorem Inconclusive.append {es fs : List Action} (hes : Inconclusive id es)
    (hfs : Inconclusive id fs) : Inconclusive id (es ++ fs) := by
  intro a ha
  rcases List.mem_append.mp ha with ha | ha
  · exact hes a ha
  · exact hfs a ha

/-- Only answers of the broker are conclusive. -/
theorem inconclusive_of_op {es : List Action}
    (hes : ∀ a ∈ es, ∀ req, a.op ≠ .roomRequest req) : Inconclusive id es := by
  intro a ha
  refine ⟨?_, ?_⟩
  · rintro i lease reply rfl
    exact hes _ ha _ rfl
  · rintro reply v rfl
    exact absurd rfl (hes _ ha _)

theorem inconclusive_of_worker {es : List Action}
    (hes : ∀ a ∈ es, a.op.Worker) : Inconclusive id es := by
  refine inconclusive_of_op fun a ha req heq => ?_
  have hworker := hes a ha
  rw [heq] at hworker
  exact hworker

theorem Unsettled.inconclusive {es : List Action} (hes : Unsettled id es) :
    Inconclusive id es := by
  cases hes with
  | @intro reply v hex hv hstate =>
      intro a ha
      refine ⟨?_, ?_⟩
      · rintro i lease reply' rfl
        rcases hex.op ha with hop | hop
        · cases hop
        · injection hop with hreq
          have hsuffix := (RoomPath.task.inj
            (congrArg RoomRequest.path hreq)).2
          exact absurd hsuffix (by decide)
      · rintro reply' v' rfl hv'
        cases hex with
        | intro _ =>
            simp only [List.mem_cons, List.not_mem_nil, or_false] at ha
            rcases ha with heq | heq
            · cases heq
            · cases heq
              rw [hv] at hv'
              cases hv'
              exact hstate

inductive VisitOutcome (K : Crates) (d : Directory) (entry : DirEntry) :
    List Action → Directory → Except MediationError Bool → Prop
  | passed {es : List Action} :
      Clean es → VisitOutcome K d entry es d (.ok false)
  | finished {id : String} {r : Record} {a : Value} {es : List Action} :
      entry = .file (some id) (some "json") → d.record id = some r →
      pending r → Clean es → Safe a → ackMatches K r a = some () →
        VisitOutcome K d entry (es ++ [saved id (r.acknowledged a)])
          (d.write id (r.acknowledged a).toVec) (.ok true)
  | receiptFailed {id : String} {r : Record} {es fs gs : List Action} :
      entry = .file (some id) (some "json") → d.record id = some r →
      pending r → Clean es → ReceiptFailed id r fs → Clean gs →
        VisitOutcome K d entry (es ++ fs ++ gs ++ [saved id r.quarantined])
          (d.write id r.quarantined.toVec) (.ok false)
  | authorityLost {id : String} {r : Record} {es fs gs : List Action} :
      entry = .file (some id) (some "json") → d.record id = some r →
      pending r → Clean es → AuthorityAnsweredLoss K r.binding r.lease fs →
      Clean gs →
        VisitOutcome K d entry (es ++ fs ++ gs ++ [saved id r.quarantined])
          (d.write id r.quarantined.toVec) (.ok false)
  | tokenRefused {id : String} {r : Record} {a : Action}
      {es gs : List Action} :
      entry = .file (some id) (some "json") → d.record id = some r →
      pending r → Inconclusive id es → Refusal a → Inconclusive id gs →
        VisitOutcome K d entry (es ++ [a] ++ gs ++ [saved id r.quarantined])
          (d.write id r.quarantined.toVec) (.ok false)
  | ioError {es : List Action} {a : Action} {d' : Directory} :
      a ∈ es → IoError a → VisitOutcome K d entry es d' (.error .state)
  | unloadable {es : List Action} :
      Unloadable K d entry → VisitOutcome K d entry es d (.error .validation)

theorem clean_read (id : String) (ans : FileRead) :
    Clean [⟨.read id, ans⟩] := by
  refine clean_of_op fun a ha i l => ?_
  rw [List.mem_singleton] at ha
  subst ha
  rintro ⟨⟩

theorem inconclusive_read (id : String) (ans : FileRead) :
    Inconclusive id [⟨.read id, ans⟩] := by
  refine inconclusive_of_op fun a ha req => ?_
  rw [List.mem_singleton] at ha
  subst ha
  rintro ⟨⟩

/-- The visit of an entry, once its record is loaded. -/
theorem recover_ensures {es₀ : List Action} {Q : Post Bool}
    (hG : G.Recovers K c) (huuid : K.uuidParses id = true)
    (hr : d.record id = some r) (hpending : pending r) (hes₀ : Clean es₀)
    (hinc₀ : Inconclusive id es₀)
    (hQ : ∀ es d' res,
      VisitOutcome K d (.file (some id) (some "json")) es d' res →
        Q d' (h ++ es) res) :
    Ensures G (recover K c id r) Q d (h ++ es₀) := by
  refine ensures_bind.mpr (ensures_attempt.mpr
    (recoverPending_ensures hG huuid hr hpending ?_))
  intro es d' res hres
  rw [List.append_assoc]
  cases hres with
  | @stopped es e hes he =>
      cases e with
      | state => exact absurd rfl he.1
      | authorityLost => exact absurd rfl he.2
      | _ => exact hQ _ _ _ (.passed (hes₀.append hes))
  | passed hes => exact hQ _ _ _ (.passed (hes₀.append hes))
  | @lost es fs hunsettled hlost =>
      refine ensures_map (quarantine_ensures hG.lenient huuid ?_ ?_)
      · exact fun _ ans => hG.save ans huuid hr hpending .quarantined
          (.quarantined (.inl hpending))
      · intro gs d' res hsave
        rw [List.append_assoc]
        cases hsave with
        | @saved gs hgs =>
            have hclean := hes₀.append hunsettled.clean
            cases hlost with
            | answered hloss =>
                show Q _ _ (.ok false)
                simpa only [List.append_assoc] using hQ _ _ _
                  (.authorityLost rfl hr hpending hclean hloss
                    (clean_of_worker hgs))
            | refused hrefusal =>
                show Q _ _ (.ok false)
                simpa only [List.append_assoc] using hQ _ _ _
                  (.tokenRefused rfl hr hpending
                    (hinc₀.append hunsettled.inconclusive) hrefusal
                    (inconclusive_of_worker hgs))
            | uncertain _ _ he => exact absurd rfl he.2
        | @failed _ replaced _ =>
            exact hQ _ _ _ (.ioError
              (a := saveFailed id r.quarantined replaced) (by simp) ⟨_, rfl⟩)
  | quarantined hfailed hsave =>
      cases hsave with
      | saved hgs =>
          show Q _ _ (.ok false)
          simpa only [List.append_assoc] using hQ _ _ _
            (.receiptFailed rfl hr hpending hes₀ hfailed
              (clean_of_worker hgs))
      | @failed _ replaced _ =>
          exact hQ _ _ _ (.ioError
            (a := saveFailed id r.quarantined replaced) (by simp) ⟨_, rfl⟩)
  | @acknowledged _ _ a _ _ hes hsafe hack hsave =>
      cases hsave with
      | saved hgs =>
          show Q _ _ (.ok true)
          simpa only [List.append_assoc] using hQ _ _ _
            (.finished rfl hr hpending
              ((hes₀.append hes).append (clean_of_worker hgs)) hsafe hack)
      | @failed _ replaced _ =>
          exact hQ _ _ _ (.ioError
            (a := saveFailed id (r.acknowledged a) replaced) (by simp)
            ⟨_, rfl⟩)

theorem visit_ensures {entry : DirEntry} {Q : Post Bool}
    (hG : G.Recovers K c)
    (hunreadable : entry = .unreadable → Q d h (.error .state))
    (hQ : ∀ es d' res, VisitOutcome K d entry es d' res →
      Q d' (h ++ es) res) :
    Ensures G (visit K c entry) Q d h := by
  refine ensures_bind.mpr (entryId_ensures ?_ ?_ ?_ hunreadable)
  · intro _ _
    show Q d h (.ok false)
    simpa using hQ [] d _ (.passed clean_nil)
  · rintro id rfl
    refine ensures_bind.mpr (load_ensures hG.lenient ?_ ?_ ?_)
    · intro content r huuid hcontent hread
      have hr := record_of_read hcontent hread
      show Ensures G (if pending r then _ else _) Q d _
      split_ifs with hpending
      · exact recover_ensures hG huuid hr hpending (clean_read id _)
          (inconclusive_read id _) hQ
      · exact hQ _ _ _ (.passed (clean_read id _))
    · exact fun _ _ => hQ _ _ _ (.passed (clean_read id _))
    · intro es e he
      cases he with
      | path huuid => exact hQ _ _ _ (.unloadable (.path huuid))
      | unreadable hcontent hread =>
          exact hQ _ _ _ (.unloadable (.content hcontent hread))
      | io =>
          exact hQ _ _ _ (.ioError (a := ⟨.read id, .failed⟩) (by simp) rfl)
  · rintro rfl
    simpa using hQ [] d _ (.unloadable .stem)

/-! ## The scan -/

/-- The visits of a scan, one after the other. -/
inductive ScanTrace (K : Crates) :
    Directory → List DirEntry → List Action → Directory →
      Except MediationError Bool → Prop
  | nil {d : Directory} : ScanTrace K d [] [] d (.ok false)
  | unreadable {d : Directory} {entries : List DirEntry} :
      ScanTrace K d (.unreadable :: entries) [] d (.error .state)
  | last {d d' : Directory} {entry : DirEntry} {entries : List DirEntry}
      {es : List Action} {res : Except MediationError Bool} :
      VisitOutcome K d entry es d' res → res ≠ .ok false →
        ScanTrace K d (entry :: entries) es d' res
  | next {d d₁ d' : Directory} {entry : DirEntry} {entries : List DirEntry}
      {es fs : List Action} {res : Except MediationError Bool} :
      VisitOutcome K d entry es d₁ (.ok false) →
      ScanTrace K d₁ entries fs d' res →
        ScanTrace K d (entry :: entries) (es ++ fs) d' res

theorem scan_ensures {entries : List DirEntry} {Q : Post Bool}
    (hG : G.Recovers K c)
    (hQ : ∀ es d' res, ScanTrace K d entries es d' res →
      Q d' (h ++ es) res) :
    Ensures G (scan K c entries) Q d h := by
  induction entries generalizing d h with
  | nil =>
      show Q d h (.ok false)
      simpa using hQ [] d _ .nil
  | cons entry entries ih =>
      refine ensures_bind.mpr (visit_ensures hG ?_ ?_)
      · rintro rfl
        simpa using hQ [] d _ .unreadable
      · intro es d' res hvisit
        cases res with
        | error e => exact hQ _ _ _ (.last hvisit (by rintro ⟨⟩))
        | ok finished =>
            cases finished with
            | true => exact hQ _ _ _ (.last hvisit (by simp))
            | false =>
                refine ih fun fs d'' res htrace => ?_
                rw [List.append_assoc]
                exact hQ _ _ _ (.next hvisit htrace)

end AgentGateway
