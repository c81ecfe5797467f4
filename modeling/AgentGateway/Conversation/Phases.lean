import AgentGateway.Conversation.Calls

/-!
# The part of a call before its turn

The scan of a call and the admission of its claim submit no turn, and they save
no record in the phase `completed` or `interrupted`.  These phases are left to
the claimed task, whose turn is either completed or given up in one call, never
both.
-/

namespace AgentGateway

open Interaction
open Mediation
open Dispatcher

def Op.SavesIn (phase : String) : Op → Prop
  | .save _ r => r.phase = phase
  | _ => False

/-- No record was saved in a phase. -/
def Unsaved (phase : String) (h : List Action) : Prop :=
  ∀ a ∈ h, ¬a.op.SavesIn phase

theorem Unsaved.append {phase : String} {h es : List Action}
    (hh : Unsaved phase h) (hes : Unsaved phase es) :
    Unsaved phase (h ++ es) := by
  intro a ha
  rcases List.mem_append.mp ha with ha | ha
  · exact hh a ha
  · exact hes a ha

theorem unsaved_of_quiet {phase : String} {es : List Action}
    (hes : ∀ a ∈ es, a.op.Quiet) : Unsaved phase es := by
  intro a ha hsaves
  have hquiet := hes a ha
  generalize a.op = op at hquiet hsaves
  cases op <;> first | exact hquiet | exact hsaves

/-- Operations other than the submission of a turn. -/
def Op.Unsent : Op → Prop
  | .workerSend r => ¬r.IsSend
  | _ => True

/-- Operations that submit no turn and save no outcome of one. -/
def Op.Undeciding : Op → Prop
  | .save _ r => r.phase ≠ "completed" ∧ r.phase ≠ "interrupted"
  | op => op.Unsent

/-- No turn was submitted. -/
def Unsent (h : List Action) : Prop := ∀ a ∈ h, a.op.Unsent

/-- No turn was submitted, and neither outcome of one was saved. -/
def Undecided (h : List Action) : Prop := ∀ a ∈ h, a.op.Undeciding

theorem Op.Harmless.undeciding {op : Op} (h : op.Harmless) :
    op.Undeciding := by
  cases op <;> first | exact h.elim | exact h | trivial

theorem Op.Harmless.unsent {op : Op} (h : op.Harmless) : op.Unsent := by
  cases op <;> first | exact h | trivial

theorem Op.Undeciding.unsent {op : Op} (h : op.Undeciding) : op.Unsent := by
  cases op <;> first | exact h | trivial

theorem Unsent.append {h es : List Action} (hh : Unsent h)
    (hes : Unsent es) : Unsent (h ++ es) := by
  intro a ha
  rcases List.mem_append.mp ha with ha | ha
  · exact hh a ha
  · exact hes a ha

theorem Undecided.append {h es : List Action} (hh : Undecided h)
    (hes : Undecided es) : Undecided (h ++ es) := by
  intro a ha
  rcases List.mem_append.mp ha with ha | ha
  · exact hh a ha
  · exact hes a ha

theorem unsent_of_harmless {es : List Action}
    (hes : ∀ a ∈ es, a.op.Harmless) : Unsent es :=
  fun a ha => (hes a ha).unsent

theorem undecided_of_harmless {es : List Action}
    (hes : ∀ a ∈ es, a.op.Harmless) : Undecided es :=
  fun a ha => (hes a ha).undeciding

theorem unsaved_of_worker {phase : String} {es : List Action}
    (hes : ∀ a ∈ es, a.op.Worker) : Unsaved phase es :=
  unsaved_of_quiet fun a ha => (hes a ha).harmless.quiet

theorem Undecided.unsent {h : List Action} (hh : Undecided h) : Unsent h :=
  fun a ha => (hh a ha).unsent

theorem Undecided.unsaved_completed {h : List Action} (hh : Undecided h) :
    Unsaved "completed" h := by
  intro a ha hsaves
  have hundeciding := hh a ha
  generalize a.op = op at hundeciding hsaves
  cases op <;> first | exact hsaves | exact hundeciding.1 hsaves

theorem Undecided.unsaved_interrupted {h : List Action} (hh : Undecided h) :
    Unsaved "interrupted" h := by
  intro a ha hsaves
  have hundeciding := hh a ha
  generalize a.op = op at hundeciding hsaves
  cases op <;> first | exact hsaves | exact hundeciding.2 hsaves

/-! ## The parts of a call -/

section

variable {K : Crates} {c : Dispatcher}

/-- Programs that submit no turn and save no outcome of one, however they
end. -/
abbrev Undeciding {α : Type} (p : Mediation α) : Prop :=
  Within Op.Undeciding (fun _ => True) p

theorem undeciding_perform_bind {β : Type} {op : Op}
    {f : op.Answer → Mediation β} (h : op.Undeciding)
    (hf : ∀ ans, Undeciding (f ans)) : Undeciding (perform op >>= f) :=
  (within_perform h).bind hf

theorem undeciding_checked {α : Type} (x : Checked α) :
    Undeciding (checked x) := within_checked trivial x

theorem undeciding_ofExcept {α : Type} (x : Except MediationError α) :
    Undeciding (ofExcept x) := within_ofExcept fun _ _ => trivial

theorem undeciding_throw {α : Type} (e : MediationError) :
    Undeciding (throw e : Mediation α) := fun _ _ => trivial

theorem undeciding_of_worker {α : Type} {p : Mediation α}
    {E : MediationError → Prop} (h : Within Op.Worker E p) : Undeciding p :=
  h.weaken (fun _ ho => ho.harmless.undeciding) fun _ _ => trivial

theorem undeciding_load (id : String) : Undeciding (load K id) := by
  refine (undeciding_checked _).bind fun _ =>
    undeciding_perform_bind trivial fun ans => ?_
  cases ans with
  | bytes content => exact (undeciding_checked _).bind fun _ => within_pure _
  | missing => exact within_pure _
  | failed => exact undeciding_throw _

theorem undeciding_save {id : String} {r : Record}
    (h : r.phase ≠ "completed") (h' : r.phase ≠ "interrupted") :
    Undeciding (save K id r) := by
  refine (undeciding_checked _).bind fun _ =>
    (within_perform (o := .save id r) ⟨h, h'⟩).bind fun ans => ?_
  cases ans with
  | saved => exact within_pure _
  | failed replaced => exact undeciding_throw _

theorem undeciding_readDir : Undeciding readDir := by
  refine undeciding_perform_bind trivial
    fun (ans : Option (List DirEntry)) => ?_
  cases ans with
  | none => exact undeciding_throw _
  | some entries => exact within_pure _

theorem undeciding_entryId (entry : DirEntry) :
    Undeciding (entryId entry) := by
  cases entry with
  | unreadable => exact undeciding_throw _
  | file stem extension =>
      rw [entryId]
      split_ifs
      · exact within_pure _
      · exact (undeciding_checked _).bind fun _ => within_pure _

theorem undeciding_conversationRequest (req : RoomRequest) :
    Undeciding (conversationRequest req) :=
  undeciding_perform_bind trivial fun _ =>
    (undeciding_ofExcept _).bind fun _ =>
      undeciding_perform_bind trivial fun _ => undeciding_ofExcept _

theorem undeciding_broker (id suffix : String) (lease : Option String)
    (body : Option Json.Value) :
    Undeciding (broker id suffix lease body) :=
  (undeciding_conversationRequest _).bind fun _ => undeciding_checked _

theorem undeciding_notElapsed (v : Json.Value) :
    Undeciding (notElapsed K v) := by
  refine undeciding_perform_bind trivial fun _ =>
    (undeciding_checked _).bind fun _ => ?_
  split_ifs
  · exact undeciding_throw _
  · exact within_pure _

theorem undeciding_authority (p : Json.Value) (lease : String) :
    Undeciding (authority K p lease) :=
  (undeciding_checked _).bind fun _ =>
    ((undeciding_broker _ _ _ _).attempt).bind fun _ =>
      (undeciding_ofExcept _).bind fun _ =>
        (undeciding_checked _).bind fun _ =>
          (undeciding_notElapsed _).bind fun _ => undeciding_notElapsed _

theorem undeciding_acceptAck (id : String) (r : Record) (a : Json.Value) :
    Undeciding (acceptAck K id r a) :=
  (undeciding_checked _).bind fun _ =>
    (undeciding_of_worker (Worker.within_ack id a)).bind fun _ =>
      (undeciding_save (by simp) (by simp)).bind fun _ => within_pure _

theorem undeciding_quarantine (id : String) (r : Record) :
    Undeciding (quarantine K id r) :=
  (undeciding_of_worker
    (Worker.within_cancel (E := fun _ => True) id)).bind fun _ =>
    (undeciding_save (by simp) (by simp)).bind fun _ => within_pure _

theorem undeciding_reconcileBroker (id : String) (r : Record) :
    Undeciding (reconcileBroker K id r) := by
  refine (undeciding_broker _ _ _ _).bind fun v =>
    (undeciding_checked _).bind fun _ => ?_
  split_ifs
  · exact (undeciding_checked _).bind fun _ =>
      (undeciding_quarantine id r).bind fun _ => within_pure _
  · exact (undeciding_checked _).bind fun _ =>
      (undeciding_acceptAck id r _).bind fun _ => within_pure _
  · exact within_pure _

theorem undeciding_recoverPending (id : String) (r : Record) :
    Undeciding (recoverPending K c id r) := by
  refine (undeciding_reconcileBroker id r).bind fun ⟨settled, r⟩ => ?_
  show Undeciding (if settled = true then _ else if _ then _ else _)
  split_ifs
  · exact within_pure _
  · exact within_pure _
  · exact (undeciding_authority _ _).bind fun _ =>
      (undeciding_checked _).bind fun _ =>
        (undeciding_checked _).bind fun _ =>
          (undeciding_checked _).bind fun _ =>
            (undeciding_checked _).bind fun _ =>
              (undeciding_broker _ _ _ _).bind fun _ =>
                (undeciding_acceptAck _ _ _).bind fun _ => within_pure _

theorem undeciding_recover (id : String) (r : Record) :
    Undeciding (recover K c id r) := by
  refine ((undeciding_recoverPending id r).attempt).bind fun res => ?_
  rcases res with e | finished
  · cases e with
    | state => exact undeciding_throw _
    | authorityLost =>
        exact (undeciding_quarantine id r).bind fun _ => within_pure _
    | _ => exact within_pure _
  · exact within_pure _

theorem undeciding_visit (entry : DirEntry) :
    Undeciding (visit K c entry) := by
  refine (undeciding_entryId entry).bind fun id => ?_
  cases id with
  | none => exact within_pure _
  | some id =>
      refine (undeciding_load id).bind fun r => ?_
      cases r with
      | none => exact within_pure _
      | some r =>
          show Undeciding (if _ then _ else _)
          split_ifs
          · exact undeciding_recover id r
          · exact within_pure _

theorem undeciding_scan (entries : List DirEntry) :
    Undeciding (scan K c entries) := by
  induction entries with
  | nil => exact within_pure _
  | cons entry entries ih =>
      refine (undeciding_visit entry).bind fun finished => ?_
      cases finished with
      | true => exact within_pure _
      | false => exact ih

theorem undeciding_gatherSources (p : Json.Value) (entries : List DirEntry)
    (sources : StringSet) : Undeciding (gatherSources K p entries sources) := by
  induction entries generalizing sources with
  | nil => exact within_pure _
  | cons entry entries ih =>
      refine (undeciding_entryId entry).bind fun id => ?_
      cases id with
      | none => exact ih sources
      | some id =>
          refine (undeciding_load id).bind fun r => ?_
          cases r with
          | none => exact ih sources
          | some r => exact ih _

theorem undeciding_priorSources (p : Json.Value) :
    Undeciding (priorSources K p) :=
  undeciding_readDir.bind fun _ => undeciding_gatherSources _ _ _

theorem undeciding_clockReadings : Undeciding clockReadings :=
  undeciding_perform_bind trivial fun _ =>
    undeciding_perform_bind trivial fun _ =>
      undeciding_perform_bind trivial fun _ => within_pure _

theorem undeciding_admitClaim (claim : Json.Value) :
    Undeciding (admitClaim K c claim) :=
  (undeciding_checked _).bind fun _ =>
    (undeciding_checked _).bind fun _ =>
      (undeciding_checked _).bind fun _ =>
        (undeciding_priorSources _).bind fun _ =>
          undeciding_clockReadings.bind fun _ =>
            (undeciding_checked _).bind fun _ =>
              (undeciding_checked _).bind fun _ => within_pure _

theorem undeciding_claimRecord (id : String) (p : Json.Value) (lease : String)
    (prior : StringSet) : Undeciding (claimRecord K id p lease prior) := by
  refine (undeciding_load id).bind fun r => ?_
  cases r with
  | none => exact within_pure _
  | some r => exact (undeciding_checked _).bind fun _ => within_pure _

end

end AgentGateway
