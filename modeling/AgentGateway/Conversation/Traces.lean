import AgentGateway.Conversation.Recovery

/-!
# Traces of a call

What a part of a call has done when it returns, whatever it was answered.  Most
parts neither submit a turn nor wait for its answer, and save the record of one
task only; some always ask for a cancellation or send an update.
-/

namespace AgentGateway

open Json (Value Schema)
open Interaction
open Mediation
open Dispatcher

namespace Mediation

variable {α β : Type} {P : List Action → Except MediationError α → Prop}
  {Q : List Action → Except MediationError β → Prop}

/-! ## Rules -/

def Yields (p : Mediation α)
    (P : List Action → Except MediationError α → Prop) : Prop :=
  Prog.Yields p.run P

theorem yields_pure {a : α} : Yields (pure a) P ↔ P [] (.ok a) := Iff.rfl

theorem Yields.mono {p : Mediation α}
    {R : List Action → Except MediationError α → Prop} (hp : Yields p R)
    (himp : ∀ es r, R es r → P es r) : Yields p P :=
  Prog.Yields.mono hp himp

/-- Sequencing, by what the first program yields. -/
theorem Yields.bind {p : Mediation α} {f : α → Mediation β}
    (hp : Yields p P)
    (hok : ∀ es a, P es (.ok a) → Yields (f a) fun fs r => Q (es ++ fs) r)
    (herr : ∀ es e, P es (.error e) → Q es (.error e)) :
    Yields (p >>= f) Q := by
  have hrun : (p >>= f).run = (p.run >>= ExceptT.bindCont f) := rfl
  rw [Yields, hrun, Prog.yields_bind]
  refine Prog.Yields.mono hp fun es r hr => ?_
  cases r with
  | ok a => exact hok es a hr
  | error e =>
      show Q (es ++ []) (.error e)
      rw [List.append_nil]
      exact herr es e hr

theorem yields_perform_bind {op : Op} {f : op.Answer → Mediation β}
    (h : ∀ ans, Yields (f ans) fun es r => Q (⟨op, ans⟩ :: es) r) :
    Yields (perform op >>= f) Q := h

theorem yields_checked_bind {x : Checked α} {f : α → Mediation β}
    (hok : ∀ a, x = some a → Yields (f a) Q)
    (herr : x = none → Q [] (.error .validation)) :
    Yields (checked x >>= f) Q := by
  cases x with
  | none => exact herr rfl
  | some a => exact hok a rfl

theorem yields_ofExcept {x : Except MediationError α} :
    Yields (ofExcept x) P ↔ P [] x := by
  cases x <;> exact Iff.rfl

theorem yields_attempt {p : Mediation α}
    {R : List Action → Except MediationError (Except MediationError α) → Prop} :
    Yields (attempt p) R ↔ Yields p fun es r => R es (.ok r) := by
  rw [Yields, attempt_run, Prog.yields_bind, Yields]
  simp only [Prog.Yields, List.append_nil]

theorem yields_true (p : Mediation α) : Yields p fun _ _ => True := by
  have hprog : ∀ q : Prog effects (Except MediationError α),
      q.Yields fun _ _ => True := by
    intro q
    induction q with
    | ret _ => trivial
    | call _ _ ih => exact ih
  exact hprog _

/-- A program within an interface yields its operations only. -/
theorem Within.yields {O : Op → Prop} {E : MediationError → Prop}
    {p : Mediation α} (hw : Within O E p) (hp : Yields p P) :
    Yields p fun es r => P es r ∧ ∀ a ∈ es, O a.op :=
  Prog.Yields.and_within hp hw

end Mediation

/-! ## Operations of most parts -/

/-- Operations other than saves, the submission with its answer, and the answers
to acknowledgements. -/
def Op.Common : Op → Prop
  | .save _ _ => False
  | .workerSend r => ¬r.IsSend
  | .workerReceive r => ¬r.IsSend ∧ ∀ id, r.path ≠ .receiptAck id
  | _ => True

/-- Programs within an interface, however they end. -/
abbrev Stays (O : Op → Prop) {α : Type} (p : Mediation α) : Prop :=
  Within O (fun _ => True) p

section

variable {O : Op → Prop} {K : Crates} {c : Dispatcher} {α : Type}

theorem stays_checked (x : Checked α) : Stays O (checked x) :=
  within_checked trivial x

theorem stays_ofExcept (x : Except MediationError α) : Stays O (ofExcept x) :=
  within_ofExcept fun _ _ => trivial

theorem stays_throw (e : MediationError) : Stays O (throw e : Mediation α) :=
  fun _ _ => trivial

theorem stays_entryId (entry : DirEntry) : Stays O (entryId entry) := by
  cases entry with
  | unreadable => exact stays_throw _
  | file stem extension =>
      rw [entryId]
      split_ifs
      · exact within_pure _
      · exact (stays_checked _).bind fun _ => within_pure _

theorem stays_save {id : String} {r : Record} (hsave : O (.save id r)) :
    Stays O (save K id r) := by
  refine (stays_checked _).bind fun _ =>
    (within_perform hsave).bind fun ans => ?_
  cases ans with
  | saved => exact within_pure _
  | failed replaced => exact stays_throw _

variable (hO : ∀ op, op.Common → O op)

include hO

theorem stays_load (id : String) : Stays O (load K id) := by
  refine (stays_checked _).bind fun _ =>
    (within_perform (hO (.read id) trivial)).bind fun ans => ?_
  cases ans with
  | bytes content => exact (stays_checked _).bind fun _ => within_pure _
  | missing => exact within_pure _
  | failed => exact stays_throw _

theorem stays_readDir : Stays O readDir := by
  refine (within_perform (hO .readDir trivial)).bind
    fun (ans : Option (List DirEntry)) => ?_
  cases ans with
  | none => exact stays_throw _
  | some entries => exact within_pure _

theorem stays_request {r : WorkerRequest} (hr : ¬r.IsSend)
    (hack : ∀ id, r.path ≠ .receiptAck id) : Stays O (Worker.request r) :=
  (within_perform (hO (.workerSend r) hr)).bind fun _ =>
    (within_perform (hO (.workerReceive r) ⟨hr, hack⟩)).bind fun _ =>
      stays_ofExcept _

theorem stays_rpc {method : String} (hmethod : method ≠ "SendMessage")
    (params : Value) : Stays O (Worker.rpc method params) := by
  have hsend : ∀ id, ¬(Worker.rpcRequest id method params).IsSend :=
    fun id hr => hmethod (Worker.isSend_rpcRequest.mp hr)
  refine (within_perform (hO .newUuid trivial)).bind fun id => ?_
  refine (within_perform (hO (.workerSend _) (hsend id))).bind fun _ => ?_
  refine ((within_perform (hO (.workerReceive _)
    ⟨hsend id, fun _ => by rintro ⟨⟩⟩)).bind fun _ =>
      stays_ofExcept _).bind fun response => ?_
  exact (stays_checked response).bind fun _ => stays_ofExcept _

theorem stays_cancel (id : String) : Stays O (Worker.cancel id) :=
  (stays_rpc hO (by decide) _).attempt.bind fun _ => within_pure ()

theorem stays_receipt (id : String) : Stays O (Worker.receipt id) :=
  stays_request hO (Worker.not_isSend_of_path (by rintro ⟨⟩))
    fun _ => by rintro ⟨⟩

theorem stays_admitCodex : Stays O Worker.admitCodex :=
  (stays_request hO (Worker.not_isSend_of_path (by rintro ⟨⟩))
    fun _ => by rintro ⟨⟩).bind fun _ =>
      (stays_checked _).bind fun _ => stays_checked _

theorem stays_catalog (a : Admission) : Stays O (Worker.catalog K a) :=
  (stays_request hO (Worker.not_isSend_of_path (by rintro ⟨⟩))
    fun _ => by rintro ⟨⟩).bind fun _ =>
      (stays_checked _).bind fun _ => (stays_checked _).bind fun _ =>
        within_pure _

theorem stays_conversationRequest (req : RoomRequest) :
    Stays O (conversationRequest req) :=
  (within_perform (hO (.serviceToken req) trivial)).bind fun _ =>
    (stays_ofExcept _).bind fun _ =>
      (within_perform (hO (.roomRequest req) trivial)).bind fun _ =>
        stays_ofExcept _

theorem stays_broker (id suffix : String) (lease : Option String)
    (body : Option Value) : Stays O (broker id suffix lease body) :=
  (stays_conversationRequest hO _).bind fun value => stays_checked value

theorem stays_notElapsed (v : Value) : Stays O (notElapsed K v) := by
  refine (within_perform (hO .clock trivial)).bind fun _ =>
    (stays_checked _).bind fun _ => ?_
  split_ifs
  · exact stays_throw _
  · exact within_pure _

theorem stays_authority (p : Value) (lease : String) :
    Stays O (authority K p lease) :=
  (stays_checked _).bind fun _ =>
    (stays_broker hO _ _ _ _).attempt.bind fun _ =>
      (stays_ofExcept _).bind fun _ => (stays_checked _).bind fun _ =>
        (stays_notElapsed hO _).bind fun _ => stays_notElapsed hO _

theorem stays_authorityOrCancel (id : String) (p : Value) (lease : String) :
    Stays O (authorityOrCancel K id p lease) := by
  refine (stays_authority hO p lease).attempt.bind fun answer => ?_
  cases answer with
  | ok _ => exact within_pure _
  | error e => exact (stays_cancel hO id).bind fun _ => stays_throw e

theorem stays_completedUpdate (p : Value) (r : Record) :
    Stays O (completedUpdate p r) := by
  unfold completedUpdate
  cases r.update with
  | some u => exact within_pure _
  | none => exact (stays_checked _).bind fun _ =>
      (within_perform (hO .newUuid trivial)).bind fun _ => within_pure _

theorem stays_rejectionConfirmed (id : String) (p : Value)
    (e : MediationError) : Stays O (rejectionConfirmed id p e) := by
  cases e with
  | workerRejected code =>
      refine (stays_receipt hO id).attempt.bind fun answer => ?_
      rcases answer with e | (_ | v)
      · exact within_pure _
      · exact within_pure _
      · exact within_pure _
  | _ => exact within_pure _

/-! ### The part of a claim before its record -/

theorem stays_gatherSources (p : Value) (entries : List DirEntry)
    (sources : StringSet) : Stays O (gatherSources K p entries sources) := by
  induction entries generalizing sources with
  | nil => exact within_pure _
  | cons entry entries ih =>
      refine (stays_entryId entry).bind fun id => ?_
      cases id with
      | none => exact ih sources
      | some id =>
          refine (stays_load hO id).bind fun r => ?_
          cases r with
          | none => exact ih sources
          | some r => exact ih _

theorem stays_admitClaim (claim : Value) : Stays O (admitClaim K c claim) := by
  have hclock : Stays O clockReadings :=
    (within_perform (hO .clock trivial)).bind fun _ =>
      (within_perform (hO .clock trivial)).bind fun _ =>
        (within_perform (hO .clock trivial)).bind fun _ => within_pure _
  have hprior : ∀ p, Stays O (priorSources K p) := fun _ =>
    (stays_readDir hO).bind fun _ => stays_gatherSources hO _ _ _
  exact (stays_checked _).bind fun _ => (stays_checked _).bind fun _ =>
    (stays_checked _).bind fun _ => (hprior _).bind fun _ =>
      hclock.bind fun _ => (stays_checked _).bind fun _ =>
        (stays_checked _).bind fun _ => within_pure _

/-! ### Parts that save the record of a task -/

variable {id : String} (hsave : ∀ r, O (.save id r))

include hsave

theorem stays_quarantine (r : Record) : Stays O (quarantine K id r) :=
  (stays_cancel hO id).bind fun _ =>
    (stays_save (hsave _)).bind fun _ => within_pure _

theorem stays_failWithCode (p : Value) (lease : String) (r : Record)
    (code : String) : Stays O (failWithCode K id p lease r code) := by
  refine (stays_checked _).bind fun _ => ?_
  refine ((within_perform (hO .newUuid trivial)).bind
    fun _ => within_pure _).bind fun _ => ?_
  exact (stays_save (hsave _)).bind fun _ => (stays_checked _).bind fun _ =>
    (stays_broker hO _ _ _ _).bind fun _ => within_pure _

theorem stays_ticks (p : Value) (lease : String) (r : Record) (n : ℕ) :
    Stays O (ticks K id p lease r n) := by
  induction n with
  | zero => exact within_pure _
  | succ n ih =>
      refine (stays_authority hO p lease).attempt.bind fun answer => ?_
      cases answer with
      | ok _ => exact ih
      | error e => exact (stays_cancel hO id).bind fun _ =>
          (stays_save (hsave _)).bind fun _ => stays_throw e

theorem stays_sendFailed (p : Value) (lease : String) (r : Record)
    (e : MediationError) : Stays O (sendFailed K id p lease r e) := by
  refine (stays_rejectionConfirmed hO id p e).bind fun confirmed => ?_
  cases confirmed with
  | some code => exact stays_failWithCode hO hsave p lease r code
  | none =>
      refine (stays_cancel hO id).bind fun _ => ?_
      refine (stays_save (hsave _)).bind fun _ => ?_
      exact (stays_failWithCode hO hsave p lease _ _).attempt.bind
        fun _ => stays_throw e

end

/-! ## Operations beside the submission -/

/-- Operations that neither submit a turn nor receive the answer to it. -/
def Op.Aside : Op → Prop
  | .workerSend r => ¬r.IsSend
  | .workerReceive r => ¬r.IsSend
  | _ => True

theorem Op.Aside.unsent {op : Op} (h : op.Aside) : op.Unsent := by
  cases op <;> first | exact h | trivial

theorem Op.Common.aside (op : Op) (h : op.Common) : op.Aside := by
  cases op <;> first | exact h.1 | exact h | trivial

/-- Programs that stay beside the submission, however they end. -/
abbrev Aside {α : Type} (p : Mediation α) : Prop := Stays Op.Aside p

section

variable {K : Crates} {c : Dispatcher} {α : Type}

theorem aside_acceptAck (id : String) (r : Record) (a : Value) :
    Aside (acceptAck K id r a) := by
  have hsend : ¬(Worker.ackRequest id a).IsSend :=
    Worker.not_isSend_of_path (by rintro ⟨⟩)
  have hrequest : Aside (Worker.request (Worker.ackRequest id a)) :=
    (within_perform (o := .workerSend _) hsend).bind fun _ =>
      (within_perform (o := .workerReceive _) hsend).bind fun _ =>
        stays_ofExcept _
  exact (stays_checked _).bind fun _ =>
    (hrequest.bind fun _ => within_pure ()).bind fun _ =>
      (stays_save trivial).bind fun _ => within_pure _

theorem aside_complete (id : String) (p : Value) (lease : String)
    (r : Record) : Aside (complete K id p lease r) :=
  (stays_authorityOrCancel Op.Common.aside id p lease).bind fun _ =>
    (stays_completedUpdate Op.Common.aside p r).bind fun _ =>
      (stays_save trivial).bind fun _ => (stays_checked _).bind fun _ =>
        (stays_broker Op.Common.aside _ _ _ _).bind fun _ =>
          (aside_acceptAck id _ _).bind fun _ => within_pure _

end

/-! ## Authority checks -/

/-- Questions to the broker and the clock. -/
def Op.Asks : Op → Prop
  | .serviceToken r => ¬r.IsUpdate
  | .roomRequest r => ¬r.IsUpdate
  | .clock => True
  | _ => False

theorem Op.Asks.aside {op : Op} (h : op.Asks) : op.Aside := by
  cases op <;> first | exact h.elim | trivial

section

variable {K : Crates} {α : Type}

theorem asks_notElapsed (v : Value) :
    Within Op.Asks (fun _ => True) (notElapsed K v) := by
  refine (within_perform trivial).bind fun _ =>
    (within_checked trivial _).bind fun _ => ?_
  split_ifs
  · exact fun _ _ => trivial
  · exact within_pure _

theorem asks_authority (p : Value) (lease : String) :
    Within Op.Asks (fun _ => True) (authority K p lease) := by
  refine (within_checked trivial _).bind fun id => ?_
  have hupdate : ¬(taskRequest id "authority" (some lease) none).IsUpdate :=
    not_isUpdate_authority id lease
  have hrequest : Within Op.Asks (fun _ => True)
      (broker id "authority" (some lease) none) := by
    refine ((within_perform (o := .serviceToken _) hupdate).bind fun _ =>
      (within_ofExcept fun _ _ => trivial).bind fun _ =>
        (within_perform (o := .roomRequest _) hupdate).bind fun _ =>
          within_ofExcept fun _ _ => trivial).bind fun value => ?_
    exact within_checked trivial value
  have hattempt : Within Op.Asks (fun _ => True)
      (broker id "authority" (some lease) none).attempt := hrequest.attempt
  refine hattempt.bind fun answer => ?_
  refine (within_ofExcept fun _ _ => trivial).bind fun a => ?_
  exact (within_checked trivial _).bind fun _ =>
    (asks_notElapsed _).bind fun _ => asks_notElapsed _

end

end AgentGateway
