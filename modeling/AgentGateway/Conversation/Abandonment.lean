import AgentGateway.Conversation.Rejections
import AgentGateway.Conversation.Traces

/-!
# What is done about a submitted turn

After a submission a call either sends an update for the task or has the worker
cancel it, unless the answer to the submission brings an output that is not
accepted: then the call just ends.
-/

namespace AgentGateway

open Json (Value Schema)
open Interaction
open Mediation
open Dispatcher

variable {K : Crates} {c : Dispatcher} {id lease rpcId : String} {p : Value}
  {r : Record} {es fs : List Action}

/-! ## Updates fit their contract -/

/-- A packet of the broker that fits its contract. -/
structure Fits (K : Crates) (id : String) (p : Value) : Prop where
  safe : Safe p
  task : p["taskId"] = .str id
  schema : schema K Contracts.input p = some ()

/-- What the last two fields of an update may be. -/
inductive Outcome (K : Crates) : String → Value → Prop
  | completed {x : Value} : Safe x → schema K Contracts.result x = some () →
      Outcome K "completed" x
  | failed {code : String} : code ∈ failureCodes →
      Outcome K "failed" (failureData code)

theorem Outcome.safe {kind : String} {data : Value}
    (ho : Outcome K kind data) : Safe data := by
  cases ho with
  | completed hsafe _ => exact hsafe
  | failed _ => exact safe_failureData _

/-- A branch of the update schema looks at two fields of an update. -/
theorem valid_updateCase {F : Json.Format → String → Bool} {kind k : String}
    {data : Value} {s : Schema} {fs : List (String × Value)}
    (hkind : ("kind", Value.str kind) ∈ fs) (hdata : ("data", data) ∈ fs)
    (hkinds : ∀ f ∈ fs, f.1 = "kind" → f.2 = .str kind)
    (hdatas : ∀ f ∈ fs, f.1 = "data" → f.2 = data) :
    Schema.valid F (Contracts.updateCase k s) (.obj fs) =
      (decide (kind = k) && Schema.valid F s data) := by
  rw [Contracts.updateCase, Schema.valid, Bool.eq_iff_iff, List.all_eq_true,
    Bool.and_eq_true, decide_eq_true_eq]
  constructor
  · intro hall
    have hfirst := hall _ hkind
    have hsecond := hall _ hdata
    simp only [Schema.validOpen, if_true, Contracts.const, Schema.valid,
      decide_eq_true_eq] at hfirst
    simp only [Schema.validOpen, if_true] at hsecond
    exact ⟨Value.str.inj hfirst, hsecond⟩
  · rintro ⟨rfl, hvalid⟩ f hf
    simp only [Schema.validOpen]
    split_ifs with hk hd
    · simp [hkinds f hf hk, Contracts.const, Schema.valid]
    · rw [hdatas f hf hd]
      exact hvalid
    · rfl

/-- Exactly one branch takes an update, the one of its kind. -/
theorem Outcome.valid_branches {kind : String} {data : Value}
    {fs : List (String × Value)} (ho : Outcome K kind data)
    (hkind : ("kind", Value.str kind) ∈ fs) (hdata : ("data", data) ∈ fs)
    (hkinds : ∀ f ∈ fs, f.1 = "kind" → f.2 = .str kind)
    (hdatas : ∀ f ∈ fs, f.1 = "data" → f.2 = data) :
    Schema.valid K.isFormat
      (.oneOf
        [Contracts.updateCase "progress" Contracts.progressData,
          Contracts.updateCase "settings" Contracts.effectiveSettings,
          Contracts.updateCase "usage" Contracts.usage,
          Contracts.updateCase "completed" Contracts.result,
          Contracts.updateCase "failed" Contracts.failedData])
      (.obj fs) = true := by
  rw [Schema.valid, decide_eq_true_eq]
  simp only [Schema.validCount, valid_updateCase hkind hdata hkinds hdatas]
  cases ho with
  | completed _ hx => simp [valid_of_schema hx]
  | @failed code hcode =>
      have hvalid : Schema.valid K.isFormat Contracts.failedData
          (failureData code) = true := by
        have hdata : failureData code = .obj [("code", .str code)] := rfl
        simp [hdata, Contracts.failedData, Contracts.enum, Schema.valid,
          Schema.keysPresent, Schema.hasKey, Schema.validField, hcode]
      simp [hvalid]

/-- The fields of an update fit its contract, and so does the update. -/
theorem updateValue_schema {kind updateId : String} {data : Value}
    (hp : Fits K id p) (ho : Outcome K kind data)
    (hid : schema K Contracts.uuid (.str updateId) = some ()) :
    schema K Contracts.update (updateValue p kind data updateId) =
      some () := by
  have hinput := valid_of_schema hp.schema
  have hconversation : Schema.valid K.isFormat Contracts.conversation
      p["conversation"] = true :=
    Schema.valid_getElem hinput (by decide) rfl
  have hcontext : Schema.valid K.isFormat Contracts.context p["context"] =
      true := Schema.valid_getElem hinput (by decide) rfl
  have htask : Schema.valid K.isFormat Contracts.uuid p["taskId"] = true :=
    Schema.valid_getElem hinput (by decide) rfl
  have hgeneration : Schema.valid K.isFormat Contracts.positiveInteger
      p["conversation"]["generation"] = true :=
    Schema.valid_getElem hconversation (by decide) rfl
  have hdigest : Schema.valid K.isFormat Contracts.digest
      p["context"]["digest"] = true :=
    Schema.valid_getElem hcontext (by decide) rfl
  have hid := valid_of_schema hid
  have hsafe : Safe (updateValue p kind data updateId) :=
    safe_updateValue hp.safe ho.safe kind updateId
  rw [schema_of_safe K hsafe]
  obtain ⟨fs, hfs, _, hmem, hlookup⟩ := Value.exists_object
    [("profileVersion", .str profile), ("updateId", .str updateId),
      ("ordinal", .num (.posInt 1)), ("taskId", p["taskId"]),
      ("generation", p["conversation"]["generation"]),
      ("contextDigest", p["context"]["digest"]), ("kind", .str kind),
      ("data", data)]
  rw [updateValue, hfs, Contracts.update, Schema.valid,
    Schema.validAll_eq_true_iff]
  have hlook : ∀ {k v}, fs.lookup k = some v → (k, v) ∈ fs := by
    intro k v hk
    obtain ⟨l₁, l₂, rfl, _⟩ := List.lookup_eq_some_iff.mp hk
    simp
  intro s hs
  rw [List.mem_pair] at hs
  rcases hs with rfl | rfl
  · rw [Schema.valid, Bool.and_eq_true, List.all_eq_true]
    constructor
    · simp only [Schema.keysPresent, List.all_cons, List.all_nil, Schema.hasKey,
        hlookup]
      rfl
    · intro f hf
      have hf := hmem f hf
      simp only [List.mem_cons, List.not_mem_nil, or_false] at hf
      rcases hf with rfl | rfl | rfl | rfl | rfl | rfl | rfl | rfl
      · simp [Schema.validField, Contracts.const, Schema.valid]
      · simpa [Schema.validField] using hid
      · simp [Schema.validField, Contracts.positiveInteger, Schema.valid]
      · simpa [Schema.validField] using htask
      · simpa [Schema.validField] using hgeneration
      · simpa [Schema.validField] using hdigest
      · cases ho <;>
          simp [Schema.validField, Contracts.enum, Schema.valid]
      · simp [Schema.validField, Schema.valid]
  · have hkind : ("kind", Value.str kind) ∈ fs := hlook (by rw [hlookup]; rfl)
    have hdata : ("data", data) ∈ fs := hlook (by rw [hlookup]; rfl)
    have hkinds : ∀ f ∈ fs, f.1 = "kind" → f.2 = .str kind := by
      intro f hf hk
      have hf := hmem f hf
      simp only [List.mem_cons, List.not_mem_nil, or_false] at hf
      rcases hf with rfl | rfl | rfl | rfl | rfl | rfl | rfl | rfl <;>
        simp_all
    have hdatas : ∀ f ∈ fs, f.1 = "data" → f.2 = data := by
      intro f hf hk
      have hf := hmem f hf
      simp only [List.mem_cons, List.not_mem_nil, or_false] at hf
      rcases hf with rfl | rfl | rfl | rfl | rfl | rfl | rfl | rfl <;>
        simp_all
    exact ho.valid_branches hkind hdata hkinds hdatas

/-! ## What is done about a turn -/

/-- The operations that close a turn: an update for its task sets out for the
broker, or the worker is told to cancel it. -/
inductive Closing (id : String) : Op → Prop
  | update {lease : String} {u : Value} :
      u["kind"] = .str "completed" ∨ u["kind"] = .str "failed" →
        Closing id (.serviceToken (updateRequest id lease u))
  | cancel {rpcId : String} :
      Closing id (.workerSend (Worker.rpcRequest rpcId "CancelTask"
        (.object [("id", .str id)])))

def Closed (id : String) (es : List Action) : Prop :=
  ∃ a ∈ es, Closing id a.op

/-- The directory did not fail, and what was drawn are UUIDs. -/
structure Sound (K : Crates) (es : List Action) : Prop where
  io : ∀ a ∈ es, ¬IoError a
  drawn : ∀ updateId, (⟨.newUuid, updateId⟩ : Action) ∈ es →
    schema K Contracts.uuid (.str updateId) = some ()

theorem Closed.mono (hes : Closed id es) (hsub : es ⊆ fs) : Closed id fs := by
  obtain ⟨a, ha, hclosing⟩ := hes
  exact ⟨a, hsub ha, hclosing⟩

theorem Sound.mono (hfs : Sound K fs) (hsub : es ⊆ fs) : Sound K es :=
  ⟨fun a ha => hfs.io a (hsub ha), fun updateId hmem =>
    hfs.drawn updateId (hsub hmem)⟩

theorem not_closed_of_asks (hes : ∀ a ∈ es, a.op.Asks) : ¬Closed id es := by
  rintro ⟨a, ha, hclosing⟩
  have hasks := hes a ha
  generalize a.op = op at hasks hclosing
  cases hclosing with
  | update _ => exact hasks ⟨id, rfl⟩
  | cancel => exact hasks

theorem yields_cancel (id : String) :
    Yields (Worker.cancel id) fun es _ => Closed id es := by
  refine Yields.bind (P := fun es _ => Closed id es) (yields_attempt.mpr ?_)
    ?_ fun es e hes => hes
  · refine yields_perform_bind fun (rpcId : String) => ?_
    refine yields_perform_bind fun _ => ?_
    refine (yields_true _).mono fun es r _ => ?_
    exact ⟨_, List.mem_cons_of_mem _ List.mem_cons_self, .cancel⟩
  · intro es a hes
    show Closed id (es ++ [])
    rwa [List.append_nil]

/-- A record is saved, or the directory fails. -/
theorem yields_save (id : String) (r : Record) :
    Yields (save K id r) fun es res =>
      (res = .ok () → es = [saved id r] ∧ K.uuidParses id = true) ∧
        (K.uuidParses id = true → ∀ e, res = .error e → ¬Sound K es) := by
  refine yields_checked_bind (fun _ huuid => ?_) (fun hnone => ?_)
  · refine yields_perform_bind fun ans => ?_
    cases ans with
    | saved =>
        refine ⟨fun _ => ⟨rfl, guard_eq_some.mp huuid⟩, ?_⟩
        rintro _ e ⟨⟩
    | failed replaced =>
        refine ⟨by rintro ⟨⟩, fun _ e _ hsound => ?_⟩
        exact hsound.io ⟨.save id r, .failed replaced⟩ (by simp)
          ⟨replaced, rfl⟩
  · refine ⟨by rintro ⟨⟩, fun huuid => ?_⟩
    rw [guard, if_pos huuid] at hnone
    cases hnone

theorem yields_update {u : Value}
    (hu : u["kind"] = .str "completed" ∨ u["kind"] = .str "failed") :
    Yields (broker id "updates" (some lease) (some u)) fun es _ =>
      Closed id es := by
  refine Yields.bind (P := fun es _ => Closed id es) ?_ ?_ fun es e hes => hes
  · refine yields_perform_bind fun _ => ?_
    refine (yields_true _).mono fun es r _ => ?_
    exact ⟨_, List.mem_cons_self, .update hu⟩
  · intro es v hes
    refine (yields_true _).mono fun fs r _ => ?_
    exact hes.mono (List.subset_append_left _ _)

/-- Closes a task unless the directory fails. -/
abbrev Closes (K : Crates) (id : String) {α : Type} (q : Mediation α) : Prop :=
  Yields q fun es _ => Sound K es → Closed id es

/-- A program that closes a task, after another one. -/
theorem Closes.bind {α β : Type} {q : Mediation α} {f : α → Mediation β}
    {P : List Action → Except MediationError α → Prop} (hq : Yields q P)
    (hok : ∀ es a, P es (.ok a) → Sound K es → Closes K id (f a))
    (herr : ∀ es e, P es (.error e) → Sound K es → Closed id es) :
    Closes K id (q >>= f) := by
  refine Yields.bind hq (fun es a hes => ?_) herr
  by_cases hsound : Sound K es
  · refine (hok es a hes hsound).mono fun fs r hfs hall => ?_
    exact (hfs (hall.mono (List.subset_append_right _ _))).mono
      (List.subset_append_right _ _)
  · refine (yields_true _).mono fun fs r _ hall => ?_
    exact absurd (hall.mono (List.subset_append_left _ _)) hsound

/-- Once a task is closed, it stays so. -/
theorem Closes.done {α β : Type} {q : Mediation α} {f : α → Mediation β}
    (hq : Closes K id q) : Closes K id (q >>= f) := by
  refine Yields.bind hq (fun es a hes => ?_) fun es e hes => hes
  refine (yields_true _).mono fun fs r _ hall => ?_
  exact (hes (hall.mono (List.subset_append_left _ _))).mono
    (List.subset_append_left _ _)

/-- The save, the check and the submission of an update. -/
theorem closes_publish {kind updateId : String} {data : Value}
    (hp : Fits K id p) (huuid : K.uuidParses id = true)
    (ho : Outcome K kind data)
    (hkind : kind = "completed" ∨ kind = "failed")
    (hid : schema K Contracts.uuid (.str updateId) = some ())
    {α : Type} {f : Value → Mediation α} :
    Closes K id (do
      save K id r
      checked (schema K Contracts.update (updateValue p kind data updateId))
      let answer ← broker id "updates" (some lease)
        (some (updateValue p kind data updateId))
      f answer) := by
  refine Closes.bind (yields_save id r) (fun es a hes _ => ?_)
    fun es e hes hsound => absurd hsound (hes.2 huuid e rfl)
  refine yields_checked_bind (fun _ _ => ?_) (fun hnone => ?_)
  · refine Closes.done ((yields_update ?_).mono fun es r hes _ => hes)
    rw [updateValue_kind]
    exact hkind.imp (congrArg Value.str) (congrArg Value.str)
  · rw [updateValue_schema hp ho hid] at hnone
    cases hnone

/-- The draw of an update id. -/
theorem yields_draw (kind : String) (p data : Value) :
    Yields (update p kind data) fun es res => ∃ updateId,
      es = [⟨.newUuid, updateId⟩] ∧
        res = .ok (updateValue p kind data updateId) :=
  yields_perform_bind fun (updateId : String) => ⟨updateId, rfl, rfl⟩

theorem Sound.drawn_single {updateId : String}
    (hes : Sound K [⟨.newUuid, updateId⟩]) :
    schema K Contracts.uuid (.str updateId) = some () :=
  hes.drawn updateId (List.mem_singleton_self _)

theorem closes_failWithCode {code : String} (hp : Fits K id p)
    (huuid : K.uuidParses id = true) (hcode : code ∈ failureCodes)
    (hknown : safeFailureCode code = some code) :
    Closes K id (failWithCode K id p lease r code) := by
  refine yields_checked_bind (fun known hsame => ?_) (fun hnone => ?_)
  · rw [hknown] at hsame
    cases hsame
    refine Closes.bind (yields_draw "failed" p (failureData code)) ?_ ?_
    · rintro es u ⟨updateId, rfl, hu⟩ hsound
      cases hu
      exact closes_publish hp huuid (.failed hcode) (.inr rfl)
        hsound.drawn_single
    · rintro es e ⟨updateId, rfl, hu⟩
      cases hu
  · rw [hknown] at hnone
    cases hnone

/-- An attempt within an interface does not fail. -/
theorem yields_attempted {α : Type} {O : Op → Prop}
    {E : MediationError → Prop} {q : Mediation α} (hq : Within O E q) :
    Yields (attempt q) fun es res =>
      (∀ e, res ≠ .error e) ∧ ∀ a ∈ es, O a.op := by
  refine yields_attempt.mpr ((hq.yields (yields_true q)).mono ?_)
  rintro es r ⟨_, hes⟩
  exact ⟨by rintro e ⟨⟩, hes⟩

theorem closes_authorityOrCancel_bind {α : Type} {f : Unit → Mediation α}
    (hf : Closes K id (f ())) :
    Closes K id (authorityOrCancel K id p lease >>= f) := by
  refine Closes.bind (P := fun es res => ∀ e, res = .error e → Closed id es)
    ?_ (fun es a _ _ => hf) fun es e hes _ => hes e rfl
  refine Yields.bind (yields_attempted (asks_authority p lease))
    (fun es answer _ => ?_) fun es e hes => absurd rfl (hes.1 e)
  cases answer with
  | ok _ => rintro e ⟨⟩
  | error e =>
      refine Yields.bind (yields_cancel id) (fun fs a hfs => ?_)
        fun fs e hfs e' _ => hfs.mono (List.subset_append_right _ _)
      intro e' _
      exact hfs.mono (by simp)

theorem closes_complete {x : Value} (hp : Fits K id p)
    (huuid : K.uuidParses id = true) (hupdate : r.update = none)
    (hresult : r.result = some x) (hsafe : Safe x)
    (hx : schema K Contracts.result x = some ()) :
    Closes K id (complete K id p lease r) := by
  refine closes_authorityOrCancel_bind ?_
  refine Closes.bind (P := fun es res => ∃ updateId,
    es = [⟨.newUuid, updateId⟩] ∧
      res = .ok (updateValue p "completed" x updateId)) ?_ ?_ ?_
  · unfold completedUpdate
    rw [hupdate]
    refine yields_checked_bind (fun y hy => ?_) (fun hnone => ?_)
    · rw [hresult] at hy
      cases hy
      exact yields_draw "completed" p x
    · rw [hresult] at hnone
      cases hnone
  · rintro es u ⟨updateId, rfl, hu⟩ hsound
    cases hu
    exact closes_publish hp huuid (.completed hsafe hx) (.inl rfl)
      hsound.drawn_single
  · rintro es e ⟨updateId, rfl, hu⟩
    cases hu

/-- Authority checks that go on, or end with a cancellation. -/
theorem yields_ticks (n : ℕ) :
    Yields (ticks K id p lease r n) fun es res =>
      (res = .ok () → ∀ a ∈ es, a.op.Asks) ∧
        ∀ e, res = .error e → Closed id es := by
  induction n with
  | zero => exact ⟨by simp, by rintro e ⟨⟩⟩
  | succ n ih =>
      refine Yields.bind (yields_attempted (asks_authority p lease))
        (fun es answer hes => ?_) fun es e hes => absurd rfl (hes.1 e)
      cases answer with
      | ok _ =>
          refine ih.mono ?_
          rintro fs res ⟨hok, herr⟩
          refine ⟨fun hres a ha => ?_, fun e hres => ?_⟩
          · rcases List.mem_append.mp ha with ha | ha
            · exact hes.2 a ha
            · exact hok hres a ha
          · exact (herr e hres).mono (List.subset_append_right _ _)
      | error e =>
          refine Yields.bind (yields_cancel id) (fun fs a hfs => ?_)
            fun fs e hfs => ⟨by rintro ⟨⟩,
              fun _ _ => hfs.mono (List.subset_append_right _ _)⟩
          refine Yields.bind (P := fun _ _ => True) (yields_true _)
            (fun gs a _ => ?_) fun gs e _ => ⟨by rintro ⟨⟩, fun _ _ => ?_⟩
          · exact ⟨by rintro ⟨⟩, fun _ _ => hfs.mono (by simp)⟩
          · exact hfs.mono (by simp)

/-- A code that a receipt confirms is a known one. -/
theorem yields_rejectionConfirmed (id : String) (p : Value)
    (e : MediationError) :
    Yields (rejectionConfirmed id p e) fun _ res =>
      (∀ e, res ≠ .error e) ∧ ∀ code, res = .ok (some code) →
        code ∈ failureCodes ∧ safeFailureCode code = some code := by
  have hnone : (∀ e, (.ok none : Except MediationError (Option String)) ≠
      .error e) ∧ ∀ code, (.ok none : Except MediationError (Option String)) =
        .ok (some code) →
          code ∈ failureCodes ∧ safeFailureCode code = some code :=
    ⟨by rintro e ⟨⟩, by rintro code ⟨⟩⟩
  cases e with
  | workerRejected code =>
      refine Yields.bind (yields_attempted (stays_receipt Op.Common.aside id))
        (fun es answer _ => ?_) fun es e hes => absurd rfl (hes.1 e)
      rcases answer with e | (_ | v)
      · exact hnone
      · exact hnone
      · refine ⟨by rintro e ⟨⟩, fun code' hcode => ?_⟩
        have hcode : (if receiptFailure v p = some code then some code
            else none) = some code' := Except.ok.inj hcode
        split_ifs at hcode with hfailure
        cases hcode
        exact known_of_receiptFailure hfailure
  | _ => exact hnone

/-- A submission that failed is closed. -/
theorem closes_sendFailed {e : MediationError} (hp : Fits K id p)
    (huuid : K.uuidParses id = true) :
    Closes K id (sendFailed K id p lease r e) := by
  refine Closes.bind (yields_rejectionConfirmed id p e)
    (fun es confirmed hes _ => ?_) fun es e hes _ => absurd rfl (hes.1 e)
  cases confirmed with
  | some code =>
      obtain ⟨hcode, hknown⟩ := hes.2 code rfl
      exact closes_failWithCode hp huuid hcode hknown
  | none => exact Closes.done ((yields_cancel id).mono fun es _ hes _ => hes)

/-! ## Outputs of a turn -/

/-- A receipt read accepts an output of the turn. -/
def Accepts (K : Crates) (c : Dispatcher) (id : String) (p : Value)
    (r : Record) (output : Value) (es : List Action) : Prop :=
  ∃ data reply v r', replyData output p = some data ∧
    (⟨.workerReceive (Worker.receiptRequest id), reply⟩ : Action) ∈ es ∧
    workerResponse (.receipt id) reply = .ok (some v) ∧
    acceptReply K c r p data v = some r'

/-- The answer to the submission brings an output, and it is not accepted. -/
def Abandoned (K : Crates) (c : Dispatcher) (id : String) (p : Value)
    (rpcId : String) (r : Record) (es : List Action) : Prop :=
  ∃ reply output,
    (⟨.workerReceive (sendRequest id rpcId p), reply⟩ : Action) ∈ es ∧
    Worker.rpcAnswer rpcId reply = .ok output ∧
    ¬Accepts K c id p r output es

theorem yields_receipt (id : String) :
    Yields (Worker.receipt id) fun es res => ∃ reply,
      es = receiptEvents id reply ∧ res = workerResponse (.receipt id) reply :=
  yields_perform_bind fun _ => yields_perform_bind fun reply =>
    yields_ofExcept.mpr ⟨reply, rfl, rfl⟩

theorem not_closed_receipt (reply : Reply) :
    ¬Closed id (receiptEvents id reply) := by
  rintro ⟨a, ha, hclosing⟩
  rw [receiptEvents, workerExchange, List.mem_pair] at ha
  rcases ha with rfl | rfl
  · cases hclosing
  · cases hclosing

theorem accepts_receipt {output : Value} {reply : Reply}
    (ha : Accepts K c id p r output (receiptEvents id reply)) :
    ∃ data v r', replyData output p = some data ∧
      workerResponse (.receipt id) reply = .ok (some v) ∧
      acceptReply K c r p data v = some r' := by
  obtain ⟨data, reply', v, r', hdata, hmem, hv, hr'⟩ := ha
  rw [receiptEvents, workerExchange, List.mem_pair] at hmem
  rcases hmem with heq | heq
  · cases heq
  · cases heq
    exact ⟨data, v, r', hdata, hv, hr'⟩

/-- After an output, a turn is closed exactly if the output is accepted. -/
theorem yields_output {output : Value} (hp : Fits K id p)
    (huuid : K.uuidParses id = true) (hupdate : r.update = none) :
    Yields (afterSend K c id p lease r (.ok output)) fun es _ =>
      Sound K es → (Closed id es ↔ Accepts K c id p r output es) := by
  refine yields_checked_bind (fun data hdata => ?_) (fun hnone => ?_)
  · refine Yields.bind (yields_receipt id) ?_ ?_
    · rintro es answer ⟨reply, rfl, hanswer⟩
      refine yields_checked_bind (fun v hv => ?_) (fun hnone _ => ?_)
      · subst hv
        refine yields_checked_bind (fun r' hr' => ?_) (fun hnone _ => ?_)
        · have haccepts : ∀ fs : List Action,
              Accepts K c id p r output (receiptEvents id reply ++ fs) :=
            fun fs => ⟨data, reply, v, r', hdata, by simp [receiptEvents, workerExchange],
              hanswer.symm, hr'⟩
          obtain ⟨_, _, _, _, hreply, hvalid, rfl⟩ := acceptReply_eq_some hr'
          have hsafe : Safe data["reply"] := by
            rw [← hreply]
            exact (safe_of_workerResponse hanswer.symm).1.getElem trivial _
          refine Yields.mono (closes_complete hp huuid hupdate rfl hsafe
            (schema_of_validateResult hvalid)) ?_
          intro fs res hfs hsound
          have hclosed := (hfs (hsound.mono
            (List.subset_append_right _ _))).mono
              (List.subset_append_right (receiptEvents id reply) fs)
          exact iff_of_true hclosed (haccepts fs)
        · rw [List.append_nil]
          refine iff_of_false (not_closed_receipt reply) fun haccepts => ?_
          obtain ⟨data', v', r', hdata', hv', hr'⟩ :=
            accepts_receipt haccepts
          rw [hdata] at hdata'
          cases hdata'
          rw [← hanswer] at hv'
          cases hv'
          rw [hnone] at hr'
          cases hr'
      · rw [List.append_nil]
        refine iff_of_false (not_closed_receipt reply) fun haccepts => ?_
        obtain ⟨_, v', _, _, hv', _⟩ := accepts_receipt haccepts
        rw [← hanswer, hnone] at hv'
        cases hv'
    · rintro es e ⟨reply, rfl, hanswer⟩ _
      refine iff_of_false (not_closed_receipt reply) fun haccepts => ?_
      obtain ⟨_, v', _, _, hv', _⟩ := accepts_receipt haccepts
      rw [← hanswer] at hv'
      cases hv'
  · intro _
    refine iff_of_false ?_ ?_
    · rintro ⟨a, ha, _⟩
      cases ha
    · rintro ⟨data, _, _, _, hdata, _⟩
      rw [hnone] at hdata
      cases hdata

/-! ## Submissions -/

/-- How `sendMessage` ends: nothing was sent, authority was lost while the
worker ran, or the worker answered. -/
inductive Sent (id : String) (p : Value) :
    List Action → Except MediationError (Except MediationError Value) → Prop
  | unsent {es : List Action} {e : MediationError} :
      Unsent es → Sent id p es (.error e)
  | interrupted {es fs : List Action} {rpcId : String} {e : MediationError} :
      (∀ a ∈ es, a.op.Harmless) → (∀ a ∈ fs, a.op.Aside) → Closed id fs →
        Sent id p (es ++ ⟨.workerSend (sendRequest id rpcId p), ()⟩ :: fs)
          (.error e)
  | answered {es fs : List Action} {rpcId : String} {reply : Reply} :
      (∀ a ∈ es, a.op.Harmless) → (∀ a ∈ fs, a.op.Asks) →
        Sent id p (es ++ ⟨.workerSend (sendRequest id rpcId p), ()⟩ ::
          (fs ++ [⟨.workerReceive (sendRequest id rpcId p), reply⟩]))
          (.ok (Worker.rpcAnswer rpcId reply))

theorem Op.Asks.harmless {op : Op} (h : op.Asks) : op.Harmless := by
  cases op <;> first | exact h.elim | exact h | trivial

theorem yields_rpcReceive (rpcId : String) (id : String) (p : Value) :
    Yields (attempt (Worker.rpcReceive rpcId (sendRequest id rpcId p)))
      fun es res => ∃ reply,
        es = [⟨.workerReceive (sendRequest id rpcId p), reply⟩] ∧
          res = .ok (Worker.rpcAnswer rpcId reply) := by
  refine yields_attempt.mpr ?_
  refine Yields.bind (P := fun es res => ∃ reply,
    es = [⟨.workerReceive (sendRequest id rpcId p), reply⟩] ∧
      res = workerResponse .rpc reply) ?_ ?_ ?_
  · exact yields_perform_bind fun reply =>
      yields_ofExcept.mpr ⟨reply, rfl, rfl⟩
  · rintro es answer ⟨reply, rfl, hanswer⟩
    refine yields_checked_bind (fun v hv => ?_) (fun hnone => ?_)
    · subst hv
      refine yields_ofExcept.mpr ⟨reply, rfl, ?_⟩
      unfold Worker.rpcAnswer
      rw [← hanswer]
    · subst hnone
      refine ⟨reply, rfl, ?_⟩
      unfold Worker.rpcAnswer
      rw [← hanswer]
  · rintro es e ⟨reply, rfl, hanswer⟩
    refine ⟨reply, rfl, ?_⟩
    unfold Worker.rpcAnswer
    rw [← hanswer]

theorem yields_sendMessage :
    Yields (sendMessage K id p lease r) (Sent id p) := by
  refine yields_perform_bind ?_
  rintro ((⟨before, during⟩ : ℕ × ℕ))
  have hticks : ∀ n, Yields (ticks K id p lease r n) fun es res =>
      ((res = .ok () → ∀ a ∈ es, a.op.Asks) ∧
        ∀ e, res = .error e → Closed id es) ∧ ∀ a ∈ es, a.op.Aside :=
    fun n => (stays_ticks Op.Common.aside (fun _ => trivial) p lease r n).yields
      (yields_ticks n)
  refine Yields.bind (hticks before) ?_ ?_
  · rintro es ⟨⟩ ⟨⟨hasks, _⟩, _⟩
    refine yields_perform_bind fun (rpcId : String) => ?_
    refine yields_perform_bind ?_
    rintro ⟨⟩
    have hbefore : ∀ a ∈ (⟨.interval, (before, during)⟩ :: (es ++
        [⟨.newUuid, rpcId⟩]) : List Action), a.op.Harmless := by
      intro a ha
      simp only [List.mem_cons, List.mem_append, List.not_mem_nil,
        or_false] at ha
      rcases ha with rfl | ha | rfl
      · trivial
      · exact (hasks rfl a ha).harmless
      · trivial
    refine Yields.bind (hticks during) ?_ ?_
    · rintro fs ⟨⟩ ⟨⟨hasks', _⟩, _⟩
      refine (yields_rpcReceive rpcId id p).mono ?_
      rintro gs res ⟨reply, rfl, rfl⟩
      have hanswered : Sent id p _ (.ok (Worker.rpcAnswer rpcId reply)) :=
        .answered hbefore (hasks' rfl)
      simpa [sendRequest] using hanswered
    · rintro fs e ⟨⟨_, hclosed⟩, haside⟩
      have hinterrupted : Sent id p (_ ++
          ⟨.workerSend (sendRequest id rpcId p), ()⟩ :: fs) (.error e) :=
        .interrupted hbefore haside (hclosed e rfl)
      simpa [sendRequest] using hinterrupted
  · rintro es e ⟨_, haside⟩
    refine .unsent ?_
    intro a ha
    rcases List.mem_cons.mp ha with rfl | ha
    · trivial
    · exact (haside a ha).unsent

/-- The trace of a call that submits a turn, from some moment on: the record of
the submission, the submission, and what came of it. -/
inductive Turned (K : Crates) (c : Dispatcher) (id : String) (p : Value) :
    List Action → Prop
  | intro {es fs gs : List Action} {r : Record} {rpcId : String} :
      Unsent es → (∀ a ∈ fs, a.op.Harmless) → Unsent gs →
      r.phase = "submission-intent" →
      (r.update = none → Sound K gs →
        (Closed id gs ↔ ¬Abandoned K c id p rpcId r gs)) →
      Turned K c id p (es ++ saved id r ::
        (fs ++ ⟨.workerSend (sendRequest id rpcId p), ()⟩ :: gs))

/-- No turn was submitted, or one was, for a task with a fitting packet. -/
def Submitted (K : Crates) (c : Dispatcher) (es : List Action) : Prop :=
  Unsent es ∨ ∃ id p, p["taskId"] = .str id ∧ Turned K c id p es

theorem Submitted.prepend (hes : Unsent es) (hfs : Submitted K c fs) :
    Submitted K c (es ++ fs) := by
  rcases hfs with hfs | ⟨id, p, htask, hturned⟩
  · exact .inl (hes.append hfs)
  · refine .inr ⟨id, p, htask, ?_⟩
    cases hturned with
    | intro hbefore hharmless hafter hphase hclosed =>
        rw [← List.append_assoc]
        exact .intro (hes.append hbefore) hharmless hafter hphase hclosed

/-- The answer to a submission, and a program that goes on from it. -/
theorem abandoned_iff {reply : Reply} {gs : List Action}
    (hfs : ∀ a ∈ fs, a.op.Asks) (hgs : ∀ a ∈ gs, a.op.Aside) :
    Abandoned K c id p rpcId r
        (fs ++ [⟨.workerReceive (sendRequest id rpcId p), reply⟩] ++ gs) ↔
      ∃ output, Worker.rpcAnswer rpcId reply = .ok output ∧
        ¬Accepts K c id p r output gs := by
  have hsend : (sendRequest id rpcId p).IsSend :=
    Worker.isSend_rpcRequest.mpr rfl
  have haccepts : ∀ output, Accepts K c id p r output
      (fs ++ [⟨.workerReceive (sendRequest id rpcId p), reply⟩] ++ gs) ↔
        Accepts K c id p r output gs := by
    intro output
    constructor
    · rintro ⟨data, reply', v, r', hdata, hmem, hv, hr'⟩
      refine ⟨data, reply', v, r', hdata, ?_, hv, hr'⟩
      rcases List.mem_append.mp hmem with hmem | hmem
      · rcases List.mem_append.mp hmem with hmem | hmem
        · exact (hfs _ hmem).elim
        · cases List.mem_singleton.mp hmem
      · exact hmem
    · rintro ⟨data, reply', v, r', hdata, hmem, hv, hr'⟩
      exact ⟨data, reply', v, r', hdata, List.mem_append_right _ hmem, hv,
        hr'⟩
  constructor
  · rintro ⟨reply', output, hmem, hanswer, hnot⟩
    have hreply : reply' = reply := by
      rcases List.mem_append.mp hmem with hmem | hmem
      · rcases List.mem_append.mp hmem with hmem | hmem
        · exact (hfs _ hmem).elim
        · cases List.mem_singleton.mp hmem
          rfl
      · exact absurd hsend (hgs _ hmem)
    rw [hreply] at hanswer
    exact ⟨output, hanswer, fun hacc => hnot ((haccepts output).mpr hacc)⟩
  · rintro ⟨output, hanswer, hnot⟩
    exact ⟨reply, output, by simp, hanswer,
      fun hacc => hnot ((haccepts output).mp hacc)⟩

theorem closed_append_iff {gs : List Action} {reply : Reply}
    (hfs : ∀ a ∈ fs, a.op.Asks) :
    Closed id (fs ++ [⟨.workerReceive (sendRequest id rpcId p), reply⟩] ++
      gs) ↔ Closed id gs := by
  constructor
  · rintro ⟨a, ha, hclosing⟩
    rcases List.mem_append.mp ha with ha | ha
    · rcases List.mem_append.mp ha with ha | ha
      · exact absurd ⟨a, ha, hclosing⟩ (not_closed_of_asks hfs)
      · rw [List.mem_singleton.mp ha] at hclosing
        cases hclosing
    · exact ⟨a, ha, hclosing⟩
  · intro hgs
    exact hgs.mono (List.subset_append_right _ _)

theorem not_abandoned_of_aside (hes : ∀ a ∈ es, a.op.Aside) :
    ¬Abandoned K c id p rpcId r es := by
  rintro ⟨reply, output, hmem, _⟩
  exact absurd (Worker.isSend_rpcRequest.mpr rfl) (hes _ hmem)

theorem unsent_of_aside (hes : ∀ a ∈ es, a.op.Aside) : Unsent es :=
  fun a ha => (hes a ha).unsent

/-- What is done about a turn after the worker's answer to its submission. -/
theorem yields_afterSend {x : Except MediationError Value} (hp : Fits K id p)
    (huuid : K.uuidParses id = true) (hupdate : r.update = none) :
    Yields (afterSend K c id p lease r x) fun es _ =>
      Sound K es → (Closed id es ↔
        ∀ output, x = .ok output → Accepts K c id p r output es) := by
  cases x with
  | error e =>
      refine Yields.mono (closes_sendFailed hp huuid) fun es res hes hsound => ?_
      exact iff_of_true (hes hsound) (by rintro output ⟨⟩)
  | ok output =>
      refine (yields_output hp huuid hupdate).mono fun es res hes hsound => ?_
      rw [hes hsound]
      constructor
      · rintro haccepts _ ⟨⟩
        exact haccepts
      · intro haccepts
        exact haccepts output rfl

theorem aside_afterSend (x : Except MediationError Value) :
    Aside (afterSend K c id p lease r x) := by
  cases x with
  | error e =>
      exact stays_sendFailed Op.Common.aside (fun _ => trivial) p lease r e
  | ok output =>
      exact (stays_checked _).bind fun data =>
        (stays_receipt Op.Common.aside id).bind fun receipt =>
          (stays_checked receipt).bind fun v =>
            (stays_checked _).bind fun r' => aside_complete id p lease r'

/-- The submission of a recorded turn, to the end of the call. -/
theorem yields_send {f : Except MediationError Value → Mediation Bool}
    (hf : ∀ x, f x = afterSend K c id p lease r x) (hp : Fits K id p)
    (huuid : K.uuidParses id = true) (hphase : r.phase = "submission-intent") :
    Yields (sendMessage K id p lease r >>= f) fun es _ =>
      Submitted K c (saved id r :: es) := by
  refine Yields.bind yields_sendMessage ?_ ?_
  · intro es x hes
    cases hes with
    | @answered es fs rpcId reply hbefore hasks =>
        rw [hf]
        have hafter : Yields (afterSend K c id p lease r
            (Worker.rpcAnswer rpcId reply)) fun es _ => r.update = none →
              Sound K es → (Closed id es ↔ ∀ output,
                Worker.rpcAnswer rpcId reply = .ok output →
                  Accepts K c id p r output es) := by
          by_cases hupdate : r.update = none
          · exact (yields_afterSend hp huuid hupdate).mono
              fun es res hes _ => hes
          · exact (yields_true _).mono fun es res _ hnone =>
              absurd hnone hupdate
        refine ((aside_afterSend _).yields hafter).mono ?_
        rintro gs res ⟨hclosed, haside⟩
        have hanswered : Turned K c id p ([] ++ saved id r :: (es ++
            ⟨.workerSend (sendRequest id rpcId p), ()⟩ :: (fs ++
              [⟨.workerReceive (sendRequest id rpcId p), reply⟩] ++ gs))) := by
          refine .intro (by simp [Unsent]) hbefore ?_ hphase ?_
          · refine Unsent.append (Unsent.append ?_ ?_) (unsent_of_aside haside)
            · exact fun a ha => (hasks a ha).aside.unsent
            · exact unsent_singleton trivial
          · intro hupdate hsound
            rw [closed_append_iff hasks, abandoned_iff hasks haside,
              hclosed hupdate (hsound.mono (List.subset_append_right _ _))]
            push Not
            exact Iff.rfl
        refine .inr ⟨id, p, hp.task, ?_⟩
        simpa using hanswered
  · intro es e hes
    cases hes with
    | unsent hunsent =>
        have hsaved : Unsent [saved id r] := unsent_singleton trivial
        exact .inl (hsaved.append hunsent)
    | @interrupted es fs rpcId _ hbefore haside hclosed =>
        refine .inr ⟨id, p, hp.task, ?_⟩
        have hturned : Turned K c id p ([] ++ saved id r :: (es ++
            ⟨.workerSend (sendRequest id rpcId p), ()⟩ :: fs)) :=
          .intro (by simp [Unsent]) hbefore (unsent_of_aside haside) hphase
            fun _ _ => iff_of_true hclosed (not_abandoned_of_aside haside)
        exact hturned

/-! ## A whole call -/

/-- Programs that submit no turn, however they end. -/
abbrev Unsending {α : Type} (q : Mediation α) : Prop :=
  Within Op.Unsent (fun _ => True) q

theorem Aside.unsending {α : Type} {q : Mediation α} (hq : Aside q) :
    Unsending q :=
  hq.weaken (fun _ ho => ho.unsent) fun _ _ => trivial

theorem Undeciding.unsending {α : Type} {q : Mediation α}
    (hq : Undeciding q) : Unsending q :=
  hq.weaken (fun _ ho => ho.unsent) fun _ _ => trivial

theorem unsending_of_worker {α : Type} {q : Mediation α}
    (hq : Within Op.Worker MediationError.Uncertain q) : Unsending q :=
  hq.weaken (fun _ ho => ho.harmless.unsent) fun _ _ => trivial

/-- A program that submits no turn, before another one. -/
theorem yields_unsent_bind {α β : Type} {q : Mediation α}
    {f : α → Mediation β} {P : List Action → Except MediationError α → Prop}
    (hunsent : Unsending q) (hq : Yields q P)
    (hf : ∀ es a, P es (.ok a) → Yields (f a) fun es _ => Submitted K c es) :
    Yields (q >>= f) fun es _ => Submitted K c es := by
  refine Yields.bind (hunsent.yields hq) ?_ ?_
  · rintro es a ⟨hes, hall⟩
    exact (hf es a hes).mono fun fs res hfs => hfs.prepend hall
  · rintro es e ⟨_, hall⟩
    exact .inl hall

theorem yields_unsent {α : Type} {q : Mediation α} (hq : Unsending q) :
    Yields q fun es _ => Submitted K c es :=
  (hq.yields (yields_true q)).mono fun _ _ hes => .inl hes.2

theorem yields_submit (hp : Fits K id p) :
    Yields (submit K c id p lease r) fun es _ => Submitted K c es := by
  refine yields_unsent_bind (unsending_of_worker Worker.within_admitCodex)
    (yields_true _) fun _ _ _ => ?_
  refine yields_unsent_bind (unsending_of_worker (Worker.within_catalog K _))
    (yields_true _) fun _ catalog _ => ?_
  refine yields_unsent_bind (Aside.unsending (stays_checked _))
    (yields_true _) fun _ _ _ => ?_
  refine yields_unsent_bind (Aside.unsending (stays_save trivial))
    (yields_true _) fun _ _ _ => ?_
  refine Yields.bind ((stays_save (O := Op.Aside) trivial).yields (yields_save id _)) ?_ ?_
  · rintro es a ⟨⟨hok, _⟩, _⟩
    obtain ⟨rfl, huuid⟩ := hok rfl
    exact yields_send (fun _ => rfl) hp huuid rfl
  · rintro es e ⟨_, haside⟩
    exact .inl (unsent_of_aside haside)

theorem unsending_failed (code : String) : Unsending (do
    Worker.cancel id
    failWithCode K id p lease r code) :=
  (Aside.unsending (stays_cancel Op.Common.aside id)).bind fun _ =>
    Aside.unsending
      (stays_failWithCode Op.Common.aside (fun _ => trivial) p lease r code)

theorem yields_resume (hp : Fits K id p)
    (answer : Except MediationError (Option Value)) :
    Yields (resume K c id p lease r answer) fun es _ => Submitted K c es := by
  rcases answer with e | (_ | v)
  · exact yields_unsent (unsending_failed _)
  · rw [resume]
    split_ifs
    · exact yields_unsent (unsending_failed _)
    · exact yields_submit hp
  · refine yields_unsent_bind (Aside.unsending (stays_checked _))
      (yields_true _) fun _ _ _ => ?_
    split_ifs
    · refine yields_unsent_bind (Aside.unsending (stays_checked _))
        (yields_true _) fun _ r' _ => ?_
      exact yields_unsent (Aside.unsending (aside_complete id p lease r'))
    · exact yields_unsent (unsending_failed _)

/-- The packet of an admitted claim. -/
theorem yields_admitClaim {claim : Value} (hsafe : Safe claim) :
    Yields (admitClaim K c claim) fun _ res => ∀ p lease id prior,
      res = .ok (p, lease, id, prior) → Fits K id p := by
  refine yields_checked_bind (fun _ _ => ?_) fun _ => by rintro _ _ _ _ ⟨⟩
  refine yields_checked_bind (fun lease _ => ?_) fun _ => by rintro _ _ _ _ ⟨⟩
  refine yields_checked_bind (fun id hid => ?_) fun _ => by rintro _ _ _ _ ⟨⟩
  refine Yields.bind (yields_true _) (fun _ prior _ => ?_)
    fun _ _ _ => by rintro _ _ _ _ ⟨⟩
  refine Yields.bind (yields_true _) (fun _ now _ => ?_)
    fun _ _ _ => by rintro _ _ _ _ ⟨⟩
  refine yields_checked_bind (fun _ hvalid => ?_)
    fun _ => by rintro _ _ _ _ ⟨⟩
  refine yields_checked_bind (fun _ _ => ?_) fun _ => by rintro _ _ _ _ ⟨⟩
  rintro p lease id prior ⟨⟩
  obtain ⟨_, hschema, _⟩ := Option.bind_eq_some_iff.mp hvalid
  exact ⟨hsafe.getElem trivial _, Value.asStr?_eq_some.mp hid, hschema⟩

theorem yields_runClaim {claim : Value} (hsafe : Safe claim) :
    Yields (runClaim K c claim) fun es _ => Submitted K c es := by
  refine yields_unsent_bind (Undeciding.unsending (undeciding_admitClaim claim))
    (yields_admitClaim hsafe) ?_
  rintro _ ⟨p, lease, id, prior⟩ hclaim
  have hp := hclaim p lease id prior rfl
  refine yields_unsent_bind
    (Undeciding.unsending (undeciding_claimRecord id p lease prior))
    (yields_true _) fun _ r _ => ?_
  refine yields_unsent_bind
    (Undeciding.unsending (undeciding_reconcileBroker id r))
    (yields_true _) ?_
  rintro _ ⟨settled, r⟩ _
  cases settled with
  | true => exact .inl (by simp [Unsent])
  | false =>
      refine yields_unsent_bind
        (Aside.unsending (stays_authorityOrCancel Op.Common.aside id p lease))
        (yields_true _) fun _ _ _ => ?_
      refine yields_unsent_bind
        (Aside.unsending (stays_receipt Op.Common.aside id).attempt)
        (yields_true _) fun _ receipt _ => ?_
      exact yields_resume hp receipt

theorem yields_conversationRequest (req : RoomRequest) :
    Yields (conversationRequest req) fun _ res =>
      ∀ v, res = .ok (some v) → Safe v := by
  refine yields_perform_bind fun token => ?_
  refine Yields.bind (yields_true _) (fun _ _ _ => ?_) fun _ _ _ => by
    rintro _ ⟨⟩
  refine yields_perform_bind fun reply => yields_ofExcept.mpr fun v hv => ?_
  cases hreply : roomResponse reply with
  | error e =>
      rw [hreply] at hv
      cases hv
  | ok answer =>
      rw [hreply] at hv
      cases hv
      exact safe_of_roomResponse hreply

theorem yields_runOnce :
    Yields (runOnce K c) fun es _ => Submitted K c es := by
  refine yields_unsent_bind (Undeciding.unsending undeciding_readDir)
    (yields_true _) fun _ entries _ => ?_
  refine yields_unsent_bind (Undeciding.unsending (undeciding_scan entries))
    (yields_true _) fun _ recovered _ => ?_
  cases recovered with
  | true => exact .inl (by simp [Unsent])
  | false =>
      refine yields_unsent_bind
        (Undeciding.unsending (undeciding_conversationRequest _))
        (yields_conversationRequest _) ?_
      intro _ answer hsafe
      cases answer with
      | none => exact .inl (by simp [Unsent])
      | some claim => exact yields_runClaim (hsafe claim rfl)

/-! ## Runs -/

/-- A record of a turn that is not over holds no update. -/
def Record.Early (r : Record) : Prop :=
  r.phase = "reserved" ∨ r.phase = "submission-intent" → r.update = none

theorem SaveGuarantee.early {d : Directory} {h : List Action} {r' : Record}
    (hs : SaveGuarantee K c d h id r')
    (hd : ∀ r, d.record id = some r → r.Early) : r'.Early := by
  have hsettles : ∀ {q : Record}, Settles K q r' → r'.Early := by
    rintro q (_ | _)
    · simp [Record.Early, Record.quarantined]
    · simp [Record.Early, Record.acknowledged]
  cases hs with
  | recovery _ _ hsettle _ => exact hsettles hsettle
  | @claim p lease q _ hclaim hheld hchange =>
      have hearly : q.Early := by
        cases hheld with
        | @stored q hstored _ =>
            have hq : q.Early := hd q hstored
            exact hq
        | fresh _ _ _ => exact fun _ => rfl
      cases hchange with
      | settle hsettle _ => exact hsettles hsettle
      | reserve _ _ => exact hearly
      | intend hphase _ => exact fun _ => hearly (.inl hphase)
      | interrupt _ _ => simp [Record.Early, Record.interrupted]
      | fail _ _ _ _ => simp [Record.Early, Record.failed]
      | complete _ _ _ _ => simp [Record.Early, Record.completed]

theorem Run.early {run : List (Call K)} {d : Directory} (hrun : Run K run d)
    {t : List Action} (ht : t <+: trace run)
    (hr : (directory t).record id = some r) : r.Early := by
  refine Run.forall_directory (P := fun d => ∀ r, d.record id = some r →
    r.Early) ?_ ?_ ht r hr
  · rintro r ⟨⟩
  · rintro past x future h e rest rfl hevents hinv r hr
    rcases record_step (hrun.guarantee hevents) id with
      hsame | ⟨q, ans, rfl, hsave, hnew⟩
    · exact hinv r (hsame ▸ hr)
    · rw [hnew] at hr
      cases hr
      exact hsave.early hinv

theorem sendParams_packet (id : String) (p : Value) :
    ∃ part, (sendParams id p)["message"]["parts"] = .arr [part] ∧
      part["data"]["packet"] = p := by
  refine ⟨.object [("data", .object
    [("profileVersion", .str profile), ("packet", p)])], ?_, ?_⟩
  · rw [sendParams, Value.getElem_object]
    show (Value.object _)["parts"] = _
    rw [Value.getElem_object]
    rfl
  · rw [Value.getElem_object]
    show (Value.object _)["packet"] = _
    rw [Value.getElem_object]
    rfl

theorem sendParams_messageId (id : String) (p : Value) :
    (sendParams id p)["message"]["messageId"] =
      .str ("thought-khoral-" ++ id) := by
  rw [sendParams, Value.getElem_object]
  show (Value.object _)["messageId"] = _
  rw [Value.getElem_object]
  rfl

/-- A submission determines the task, the packet and the id of the request. -/
theorem sendRequest_inj {id' rpcId' : String} {p' : Value}
    (heq : sendRequest id rpcId p = sendRequest id' rpcId' p') :
    id = id' ∧ rpcId = rpcId' ∧ p = p' := by
  have hbody := Option.some.inj (congrArg WorkerRequest.body heq)
  have hparams := congrArg (fun v : Value => v["params"]) hbody
  simp only [Value.getElem_object] at hparams
  have hparams : sendParams id p = sendParams id' p' := hparams
  refine ⟨?_, ?_, ?_⟩
  · have hmessage := sendParams_messageId id p
    rw [hparams, sendParams_messageId] at hmessage
    exact ((String.append_right_inj _).mp (Value.str.inj hmessage)).symm
  · have hid := congrArg (fun v : Value => v["id"]) hbody
    simp only [Value.getElem_object] at hid
    exact Value.str.inj hid
  · obtain ⟨part, hparts, hpacket⟩ := sendParams_packet id p
    obtain ⟨part', hparts', hpacket'⟩ := sendParams_packet id' p'
    rw [hparams, hparts'] at hparts
    have hpart := (List.cons.inj (Value.arr.inj hparts)).1
    rw [← hpacket, ← hpacket', hpart]

/-- The only submission of a call. -/
theorem Turned.unique {h rest : List Action} {a : Action}
    (hturned : Turned K c id p es) (hes : es = h ++ a :: rest)
    (ha : Sends a) :
    ∃ rpcId r h₁ h₂, a = ⟨.workerSend (sendRequest id rpcId p), ()⟩ ∧
      h = h₁ ++ saved id r :: h₂ ∧ (∀ b ∈ h₂, b.op.Quiet) ∧
      r.phase = "submission-intent" ∧
      (r.update = none → Sound K rest →
        (Closed id rest ↔ ¬Abandoned K c id p rpcId r rest)) := by
  cases hturned with
  | @intro h₁ h₂ gs r rpcId hbefore hharmless hafter hphase hclosed =>
      have hunsent : ∀ {fs : List Action}, Unsent fs → a ∉ fs :=
        fun hfs hmem => not_sends_of_unsent (hfs a hmem) ha
      have hbetween : Unsent (h₁ ++ saved id r :: h₂) :=
        hbefore.append (Unsent.append (h := [saved id r])
          (unsent_singleton trivial) (unsent_of_harmless hharmless))
      have hsplit : (h₁ ++ saved id r :: h₂) ++
          (⟨.workerSend (sendRequest id rpcId p), ()⟩ : Action) :: gs =
            h ++ a :: rest := by
        rw [← hes]
        simp
      obtain ⟨hh, hsend, hrest⟩ := (List.append_cons_inj_of_notMem
        (hunsent hbetween) (hunsent hafter)).mp hsplit
      subst hh hsend hrest
      exact ⟨rpcId, r, h₁, h₂, rfl, rfl,
        fun b hb => (hharmless b hb).quiet, hphase, hclosed⟩

theorem directory_of_quiet {d : Directory} (hes : ∀ a ∈ es, a.op.Quiet) :
    world.after d es = d := by
  induction es generalizing d with
  | nil => rfl
  | cons a es ih =>
      have ha : written d a = d := written_of_quiet (hes a (by simp))
      show world.after (written d a) es = d
      rw [ha]
      exact ih fun b hb => hes b (List.mem_cons_of_mem _ hb)

/-- A record that was saved is durable as long as the directory is left
alone. -/
theorem Run.record_of_saved {past future : List (Call K)} {x : Call K}
    {d : Directory} (hrun : Run K (past ++ x :: future) d)
    {h₁ h₂ rest : List Action}
    (hevents : x.events = (h₁ ++ saved id r :: h₂) ++ rest)
    (hquiet : ∀ b ∈ h₂, b.op.Quiet) :
    (directory (trace past ++ (h₁ ++ saved id r :: h₂))).record id =
      some r := by
  have hevents' : x.events = h₁ ++ saved id r :: (h₂ ++ rest) := by
    simp [hevents]
  have hsave : K.uuidParses id = true ∧
      SaveGuarantee K x.param (directory (trace past ++ h₁)) h₁ id r :=
    hrun.guarantee hevents'
  rw [← List.append_assoc, directory, Environment.after_append,
    Environment.after_cons, directory_of_quiet hquiet]
  exact Directory.record_write_self hsave.2.safe _ id

theorem sends_sendRequest (id rpcId : String) (p : Value) :
    Sends ⟨.workerSend (sendRequest id rpcId p), ()⟩ :=
  ⟨_, rfl, Worker.isSend_rpcRequest.mpr rfl⟩

theorem sends_of_sentTask {a : Action} (ha : sentTask a = some id) :
    Sends a := by
  by_contra hsends
  rw [sentTask_eq_none hsends] at ha
  cases ha

/-- A call that submits a turn and returns closes the turn, exactly if the
answer to the submission does not bring an output that is then not accepted. -/
theorem submitted_turn_closed_iff {past future : List (Call K)} {x : Call K}
    {d : Directory} {res : Except MediationError Bool}
    (hrun : Run K (past ++ x :: future) d) (hresult : x.result = some res)
    (hsound : Sound K x.events) :
    (∀ h a rest id, x.events = h ++ a :: rest → sentTask a = some id →
        Closed id rest) ↔
      ∀ h rest id rpcId p r,
        x.events =
          h ++ ⟨.workerSend (sendRequest id rpcId p), ()⟩ :: rest →
        (directory (trace past ++ h)).record id = some r →
        ¬Abandoned K x.param id p rpcId r rest := by
  have hsubmitted : Submitted K x.param x.events := by
    have hexec := x.exec
    rw [hresult] at hexec
    exact Prog.Yields.exec (yields_runOnce (K := K) (c := x.param)) hexec
  have hrest : ∀ {h rest a}, x.events = h ++ a :: rest → Sound K rest := by
    intro h rest a hevents
    refine hsound.mono ?_
    rw [hevents]
    exact fun b hb => by simp [hb]
  have hupdate : ∀ {id h rest r}, x.events = h ++ rest →
      (directory (trace past ++ h)).record id = some r →
      r.phase = "submission-intent" → r.update = none := by
    intro id h rest r hevents hr hphase
    refine hrun.early ⟨rest ++ trace future, ?_⟩ hr (.inr hphase)
    simp [hevents]
  rcases hsubmitted with hunsent | ⟨task, p, htask, hturned⟩
  · have hnone : ∀ {h rest a}, x.events = h ++ a :: rest → ¬Sends a := by
      intro h rest a hevents
      exact not_sends_of_unsent (hunsent a (by simp [hevents]))
    constructor
    · intro _ h rest id rpcId p r hevents
      exact absurd (sends_sendRequest id rpcId p) (hnone hevents)
    · intro _ h a rest id hevents hsent
      exact absurd (sends_of_sentTask hsent) (hnone hevents)
  · constructor
    · intro hclosed h rest id rpcId p' r hevents hr habandoned
      have hsends := sends_sendRequest id rpcId p'
      obtain ⟨rpcId', r', h₁, h₂, ha, rfl, hquiet, hphase, hiff⟩ :=
        hturned.unique hevents hsends
      have hrequest : sendRequest id rpcId p' = sendRequest task rpcId' p :=
        Op.workerSend.inj (congrArg Event.op ha)
      obtain ⟨rfl, rfl, rfl⟩ := sendRequest_inj hrequest
      have hsaved := hrun.record_of_saved hevents hquiet
      rw [hsaved] at hr
      cases hr
      have hclosed := hclosed _ _ _ id hevents
        (by rw [sentTask_rpcRequest rfl, htask]; rfl)
      exact (hiff (hupdate hevents hsaved hphase) (hrest hevents)).mp hclosed
        habandoned
    · intro hnot h a rest id hevents hsent
      obtain ⟨rpcId, r, h₁, h₂, rfl, rfl, hquiet, hphase, hiff⟩ :=
        hturned.unique hevents (sends_of_sentTask hsent)
      have hid : task = id := by
        rw [sentTask_rpcRequest rfl, htask] at hsent
        exact Option.some.inj hsent
      subst hid
      have hsaved := hrun.record_of_saved hevents hquiet
      exact (hiff (hupdate hevents hsaved hphase) (hrest hevents)).mpr
        (hnot _ _ task rpcId p r hevents hsaved)

/-! ### The sample -/

namespace Sample

/-- The id that an event drew. -/
def drawnId : Action → Option String
  | ⟨.newUuid, drawn⟩ => some drawn
  | _ => none

theorem sound_rejectedCall :
    Sound Reference.crates rejectedCall.events := by
  have hdrawn : rejectedCall.events.filterMap drawnId =
      [ident "0000001a"] := by decide +kernel
  constructor
  · rw [rejectedCall_events]
    simp [beforeSubmission, firstClaim, claimEvents, receiptEvents,
      offerEvents, workerExchange, exchange, authorityEvents, clocks, saved,
      IoError]
    rintro entries ⟨⟩
    exact List.not_mem_nil
  · intro (drawn : String) hmem
    have hid : drawn ∈ rejectedCall.events.filterMap drawnId :=
      List.mem_filterMap.mpr ⟨_, hmem, rfl⟩
    rw [hdrawn] at hid
    rw [List.mem_singleton.mp hid]
    decide +kernel

theorem sentTask_submission : sentTask ⟨.workerSend (sendRequest task₁
    (ident "0000001a") packet₁), ()⟩ = some task₁ := by
  rw [sentTask_rpcRequest rfl, admissible.claimOf.task]
  rfl

theorem not_closed_rejectedCall : ¬Closed task₁
    [⟨.workerReceive (sendRequest task₁ (ident "0000001a") packet₁),
      response emptyOutput⟩] := by
  rintro ⟨a, ha, hclosing⟩
  cases List.mem_singleton.mp ha
  cases hclosing

end Sample

/-- The answer to the submission brings an output that is not accepted, as the
turn is left as it is. -/
theorem submitted_turn_closed_iff_rejectedCall :
    ¬∀ h rest id rpcId p r, Sample.rejectedCall.events =
        h ++ ⟨.workerSend (sendRequest id rpcId p), ()⟩ :: rest →
      (directory h).record id = some r →
      ¬Abandoned Reference.crates Sample.mediator id p rpcId r rest := by
  intro hnot
  have hrun : Run Reference.crates ([] ++ Sample.rejectedCall :: []) _ :=
    Sample.run_rejectedCall
  exact Sample.not_closed_rejectedCall
    ((submitted_turn_closed_iff hrun rfl Sample.sound_rejectedCall).mpr hnot
      _ _ _ Sample.task₁ Sample.rejectedCall_events Sample.sentTask_submission)

/-- A call submits a turn and returns, without an error of the directory; after
the submission, it neither sends an update nor a cancellation. -/
theorem submitted_turn_left_open :
    Run Reference.crates [Sample.rejectedCall]
        (Sample.directoryOf Sample.intended) ∧
      Sample.rejectedCall.result = some (.error .validation) ∧
      Sound Reference.crates Sample.rejectedCall.events ∧
      ∃ h a rest, Sample.rejectedCall.events = h ++ a :: rest ∧
        sentTask a = some Sample.task₁ ∧ ¬Closed Sample.task₁ rest :=
  ⟨Sample.run_rejectedCall, rfl, Sample.sound_rejectedCall, _, _, _,
    Sample.rejectedCall_events, Sample.sentTask_submission,
    Sample.not_closed_rejectedCall⟩

end AgentGateway
