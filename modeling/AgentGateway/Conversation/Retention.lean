import AgentGateway.Conversation.History
import AgentGateway.Conversation.Traces

/-!
# Acknowledgements that are not accepted

The mediator lets go of a task whose acknowledgement the worker does not accept:
neither its recovery nor the claimed task saves the record, before the file of
the record is read again.
-/

namespace AgentGateway

open Json (Value)
open Interaction
open Mediation
open Dispatcher

variable {K : Crates} {c : Dispatcher} {α β : Type} {id task : String}
  {b : Prop} {e : Action} {es fs : List Action} {r : Record}

/-! ## Tasks that are let go -/

def Op.SavesTask (id : String) : Op → Prop
  | .save i _ => i = id
  | _ => False

/-- The worker answers an acknowledgement of a task, and the answer is not
accepted. -/
def Declines (id : String) (e : Action) : Prop :=
  ∃ a reply err, e = ⟨.workerReceive (Worker.ackRequest id a), reply⟩ ∧
    workerResponse (.receiptAck id) reply = .error err

/-- Whether a task is let go after an event: from a declined acknowledgement on,
until its file is read. -/
def LetGo (id : String) (b : Prop) (e : Action) : Prop :=
  Declines id e ∨ (b ∧ e.op ≠ .read id)

/-- The record of a task is not saved while it is let go. -/
def Leaves (id : String) : Prop → List Action → Prop
  | _, [] => True
  | b, e :: es => (b → ¬e.op.SavesTask id) ∧ Leaves id (LetGo id b e) es

theorem leaves_append :
    Leaves id b (es ++ fs) ↔
      Leaves id b es ∧ Leaves id (es.foldl (LetGo id) b) fs := by
  induction es generalizing b with
  | nil => simp [Leaves]
  | cons e es ih => simp only [List.cons_append, Leaves, ih, and_assoc,
      List.foldl_cons]

theorem leaves_of_unsaved (h : ∀ e ∈ es, ¬e.op.SavesTask id) :
    Leaves id b es := by
  induction es generalizing b with
  | nil => trivial
  | cons e es ih =>
      rw [List.forall_mem_cons] at h
      exact ⟨fun _ => h.1, ih h.2⟩

/-- While the file of a task that is let go is not read, its record is not
saved. -/
theorem Leaves.unsaved (h : Leaves id b es) (hb : b)
    (hread : ∀ e ∈ es, e.op ≠ .read id) : ∀ e ∈ es, ¬e.op.SavesTask id := by
  induction es generalizing b with
  | nil => simp
  | cons e es ih =>
      rw [List.forall_mem_cons] at hread ⊢
      exact ⟨h.1 hb, ih h.2 (.inr ⟨hb, hread.1⟩) hread.2⟩

/-! ## Operations of one task -/

/-- Operations that save the record of one task only, and receive no answer to
an acknowledgement. -/
def Op.Own (task : String) : Op → Prop
  | .save i _ => i = task
  | .workerReceive r => ∀ id, r.path ≠ .receiptAck id
  | _ => True

theorem Op.Common.own (op : Op) (h : op.Common) : op.Own task := by
  cases op <;> first | exact h.elim | exact h.2 | trivial

theorem Op.Common.unsaved {op : Op} (h : op.Common) : ¬op.SavesTask id := by
  cases op <;> first | exact h.elim | exact not_false

theorem not_declines (he : e.op.Own task) : ¬Declines id e := by
  rintro ⟨a, reply, _, rfl, _⟩
  exact he id rfl

/-- Operations of another task leave a task that is let go. -/
theorem leaves_of_own (hes : ∀ e ∈ es, e.op.Own task) (hb : b → id ≠ task) :
    Leaves id b es ∧ (es.foldl (LetGo id) b → id ≠ task) := by
  induction es generalizing b with
  | nil => exact ⟨trivial, hb⟩
  | cons e es ih =>
      rw [List.forall_mem_cons] at hes
      have hnext : LetGo id b e → id ≠ task := by
        rintro (hdeclines | ⟨hgone, _⟩)
        · exact absurd hdeclines (not_declines hes.1)
        · exact hb hgone
      have hsaves : b → ¬e.op.SavesTask id := by
        intro hgone hsaves
        have hown := hes.1
        generalize e.op = op at hown hsaves
        cases op with
        | save i r => exact hb hgone (hsaves.symm.trans hown)
        | _ => exact hsaves
      obtain ⟨hleaves, hend⟩ := ih hes.2 hnext
      exact ⟨⟨hsaves, hleaves⟩, hend⟩

/-! ## Programs for one task -/

/-- A program for a task: it stops once it lets the task go. -/
def Treats (task : String) (p : Mediation α) : Prop :=
  ∀ id b, (b → id ≠ task) → Yields p fun es r => Leaves id b es ∧
    (es.foldl (LetGo id) b →
      id ≠ task ∨ ∃ err, r = .error err ∧ err.Uncertain)

theorem treats_of_stays {p : Mediation α} (hp : Stays (Op.Own task) p) :
    Treats task p := by
  intro id b hb
  refine (Within.yields hp (yields_true p)).mono ?_
  rintro es r ⟨_, hes⟩
  obtain ⟨hleaves, hend⟩ := leaves_of_own hes hb
  exact ⟨hleaves, fun hgone => .inl (hend hgone)⟩

theorem Treats.bind {p : Mediation α} {f : α → Mediation β}
    (hp : Treats task p) (hf : ∀ a, Treats task (f a)) :
    Treats task (p >>= f) := by
  intro id b hb
  refine Yields.bind (hp id b hb) ?_ ?_
  · rintro es a ⟨hleaves, hend⟩
    have hnext : es.foldl (LetGo id) b → id ≠ task := by
      intro hgone
      apply (hend hgone).resolve_right
      rintro ⟨_, ⟨⟩, _⟩
    refine (hf a id _ hnext).mono fun fs res hres => ?_
    rw [leaves_append, List.foldl_append]
    exact ⟨⟨hleaves, hres.1⟩, hres.2⟩
  · rintro es err ⟨hleaves, hend⟩
    refine ⟨hleaves, fun hgone => ?_⟩
    exact (hend hgone).imp_right fun ⟨err', herr, hun⟩ => by
      cases herr
      exact ⟨_, rfl, hun⟩

/-- A program for a task that is not let go by the events before it. -/
theorem Treats.leaves_after {p : Mediation α} (hp : Treats task p)
    (hes : Leaves id b es) (hgone : es.foldl (LetGo id) b → id ≠ task) :
    Yields p fun fs _ => Leaves id b (es ++ fs) :=
  (hp id _ hgone).mono fun _ _ hfs => leaves_append.mpr ⟨hes, hfs.1⟩

theorem treats_ack (task : String) (a : Value) :
    Treats task (Worker.ack task a) := by
  have hrequest : Treats task (Worker.request (Worker.ackRequest task a)) := by
    intro id b hb
    refine yields_perform_bind fun _ => yields_perform_bind fun reply => ?_
    refine yields_ofExcept.mpr ⟨by simp [Leaves, Op.SavesTask], ?_⟩
    intro hgone
    cases hreply : workerResponse (Worker.ackRequest task a).path reply with
    | error err =>
        exact .inr ⟨err, rfl, Worker.workerResponse_uncertain hreply⟩
    | ok v =>
        refine .inl ?_
        rcases hgone with ⟨a', reply', err, heq, herr⟩ | ⟨hgone, _⟩
        · cases heq
          rw [show workerResponse (.receiptAck task) reply = .ok v from hreply]
            at herr
          cases herr
        · rcases hgone with ⟨_, _, _, heq, _⟩ | ⟨hgone, _⟩
          · cases heq
          · exact hb hgone
  exact hrequest.bind fun _ => treats_of_stays (within_pure _)

theorem own_save (r : Record) : (Op.save task r).Own task := rfl

theorem treats_acceptAck (task : String) (r : Record) (a : Value) :
    Treats task (acceptAck K task r a) :=
  (treats_of_stays (stays_checked _)).bind fun _ =>
    (treats_ack task a).bind fun _ => treats_of_stays
      ((stays_save (own_save _)).bind fun _ => within_pure _)

theorem own_quarantine (r : Record) :
    Stays (Op.Own task) (quarantine K task r) :=
  stays_quarantine Op.Common.own own_save r

theorem treats_reconcileBroker (task : String) (r : Record) :
    Treats task (reconcileBroker K task r) := by
  refine (treats_of_stays (stays_broker Op.Common.own _ _ _ _)).bind fun v =>
    (treats_of_stays (stays_checked _)).bind fun _ => ?_
  split_ifs
  · exact treats_of_stays ((stays_checked _).bind fun _ =>
      (own_quarantine r).bind fun _ => within_pure _)
  · exact (treats_of_stays (stays_checked _)).bind fun _ =>
      (treats_acceptAck task r _).bind fun _ => treats_of_stays (within_pure _)
  · exact treats_of_stays (within_pure _)

/-! ### Recovery -/

theorem treats_recoverPending (task : String) (r : Record) :
    Treats task (recoverPending K c task r) := by
  refine (treats_reconcileBroker task r).bind fun ⟨settled, r⟩ => ?_
  show Treats task (if settled = true then _ else if _ then _ else _)
  split_ifs
  · exact treats_of_stays (within_pure _)
  · exact treats_of_stays (within_pure _)
  · exact (treats_of_stays (stays_authority Op.Common.own _ _)).bind fun _ =>
      (treats_of_stays (stays_checked _)).bind fun _ =>
        (treats_of_stays (stays_checked _)).bind fun _ =>
          (treats_of_stays (stays_checked _)).bind fun _ =>
            (treats_of_stays (stays_checked _)).bind fun _ =>
              (treats_of_stays (stays_broker Op.Common.own _ _ _ _)).bind
                fun _ => (treats_acceptAck task _ _).bind fun _ =>
                  treats_of_stays (within_pure _)

/-- The recovery of a record goes on to the next one. -/
theorem leaves_recover (r : Record) (hb : b → id ≠ task) :
    Yields (recover K c task r) fun es _ => Leaves id b es := by
  have hpending := treats_recoverPending (K := K) (c := c) task r id b hb
  have hattempt : Yields (attempt (recoverPending K c task r)) fun es res =>
      Leaves id b es ∧ ∀ res', res = .ok res' → es.foldl (LetGo id) b →
        id ≠ task ∨ ∃ err, res' = .error err ∧ err.Uncertain := by
    refine yields_attempt.mpr (hpending.mono ?_)
    rintro es res ⟨hleaves, hend⟩
    refine ⟨hleaves, fun res' heq => ?_⟩
    cases heq
    exact hend
  refine Yields.bind hattempt ?_ fun _ _ h => h.1
  rintro es res ⟨hleaves, hend⟩
  have hend := hend res rfl
  have hpure : ∀ x : Bool,
      Yields (pure x) fun fs _ => Leaves id b (es ++ fs) := by
    intro x
    rw [yields_pure, List.append_nil]
    exact hleaves
  cases res with
  | ok finished => exact hpure finished
  | error err =>
      cases err with
      | state =>
          show Leaves id b (es ++ [])
          rwa [List.append_nil]
      | authorityLost =>
          have hquarantine : Stays (Op.Own task)
              (quarantine K task r >>= fun _ => pure false) :=
            (own_quarantine r).bind fun _ => within_pure _
          refine (treats_of_stays hquarantine).leaves_after hleaves ?_
          intro hgone
          apply (hend hgone).resolve_right
          rintro ⟨_, heq, hun⟩
          cases heq
          exact hun.2 rfl
      | _ => exact hpure false

/-- What is read of a task is not let go. -/
theorem leaves_load (task : String) :
    Yields (load K task) fun es res => Leaves id b es ∧
      ∀ v, res = .ok v → es.foldl (LetGo id) b → id ≠ task := by
  have hread : ∀ ans : FileRead,
      LetGo id b ⟨.read task, ans⟩ → id ≠ task := by
    rintro ans (⟨_, _, _, heq, _⟩ | ⟨_, hne⟩)
    · cases heq
    · rintro rfl
      exact hne rfl
  have hleaves : ∀ ans : FileRead, Leaves id b [⟨.read task, ans⟩] := by
    simp [Leaves, Op.SavesTask]
  refine yields_checked_bind (fun _ _ => ?_) fun _ => ⟨trivial, nofun⟩
  refine yields_perform_bind fun (ans : FileRead) => ?_
  cases ans with
  | bytes content =>
      refine yields_checked_bind (fun r _ => ?_) fun _ => ⟨hleaves _, nofun⟩
      exact ⟨hleaves _, fun _ _ hgone => hread _ hgone⟩
  | missing => exact ⟨hleaves _, fun _ _ hgone => hread _ hgone⟩
  | failed => exact ⟨hleaves _, nofun⟩

theorem leaves_of_stays {p : Mediation α} (hp : Stays Op.Common p) :
    Yields p fun es _ => Leaves id b es := by
  refine (Within.yields hp (yields_true p)).mono ?_
  rintro es _ ⟨_, hes⟩
  exact leaves_of_unsaved fun e he => (hes e he).unsaved

/-- Sequencing of programs that leave what is let go. -/
theorem leaves_bind {p : Mediation α} {f : α → Mediation β}
    (hp : ∀ b, Yields p fun es _ => Leaves id b es)
    (hf : ∀ a b, Yields (f a) fun es _ => Leaves id b es) :
    Yields (p >>= f) fun es _ => Leaves id b es := by
  refine Yields.bind (hp b) ?_ fun _ _ h => h
  intro es a hleaves
  refine (hf a (es.foldl (LetGo id) b)).mono fun fs _ hfs => ?_
  exact leaves_append.mpr ⟨hleaves, hfs⟩

theorem leaves_visit (entry : DirEntry) (b : Prop) :
    Yields (visit K c entry) fun es _ => Leaves id b es := by
  refine leaves_bind (fun b => leaves_of_stays (stays_entryId entry)) ?_
  intro name b
  cases name with
  | none => exact leaves_of_stays (within_pure _)
  | some task =>
      refine Yields.bind (leaves_load task) ?_ fun _ _ h => h.1
      rintro es v ⟨hleaves, hgone⟩
      cases v with
      | none => simpa [yields_pure] using hleaves
      | some r =>
          show Yields (if pending r then _ else _) _
          split_ifs
          · refine (leaves_recover r (hgone _ rfl)).mono fun fs _ hfs => ?_
            exact leaves_append.mpr ⟨hleaves, hfs⟩
          · simpa [yields_pure] using hleaves

theorem leaves_scan (entries : List DirEntry) (b : Prop) :
    Yields (scan K c entries) fun es _ => Leaves id b es := by
  induction entries generalizing b with
  | nil => exact leaves_of_stays (within_pure _)
  | cons entry entries ih =>
      refine leaves_bind (leaves_visit entry) fun finished b => ?_
      cases finished with
      | true => exact leaves_of_stays (within_pure _)
      | false => exact ih b

/-! ### Claimed tasks -/

theorem treats_complete (p : Value) (lease : String) (r : Record) :
    Treats task (complete K task p lease r) :=
  (treats_of_stays (stays_authorityOrCancel Op.Common.own task p lease)).bind
    fun _ => (treats_of_stays (stays_completedUpdate Op.Common.own p r)).bind
      fun _ => (treats_of_stays (stays_save (own_save _))).bind fun _ =>
        (treats_of_stays (stays_checked _)).bind fun _ =>
          (treats_of_stays (stays_broker Op.Common.own _ _ _ _)).bind fun _ =>
            (treats_acceptAck task _ _).bind fun _ =>
              treats_of_stays (within_pure _)

theorem own_failWithCode (p : Value) (lease : String) (r : Record)
    (code : String) :
    Stays (Op.Own task) (failWithCode K task p lease r code) :=
  stays_failWithCode Op.Common.own own_save p lease r code

theorem own_cancel : Stays (Op.Own task) (Worker.cancel task) :=
  stays_cancel Op.Common.own task

theorem own_sendMessage (p : Value) (lease : String) (r : Record) :
    Stays (Op.Own task) (sendMessage K task p lease r) := by
  have hticks : ∀ n, Stays (Op.Own task) (ticks K task p lease r n) :=
    stays_ticks Op.Common.own own_save p lease r
  refine (within_perform (o := .interval) trivial).bind
    fun ⟨before, during⟩ => ?_
  refine (hticks before).bind fun _ =>
    (within_perform (o := .newUuid) trivial).bind fun rpcId => ?_
  refine (within_perform (o := .workerSend _) trivial).bind fun _ =>
    (hticks during).bind fun _ => ?_
  have hreceive : Stays (Op.Own task) (Worker.rpcReceive rpcId
      (Worker.rpcRequest rpcId "SendMessage" (sendParams task p))) :=
    ((within_perform (o := .workerReceive _) fun _ => by rintro ⟨⟩).bind
      fun _ => stays_ofExcept _).bind fun response =>
        (stays_checked response).bind fun _ => stays_ofExcept _
  exact hreceive.attempt

theorem treats_submit (p : Value) (lease : String) (r : Record) :
    Treats task (submit K c task p lease r) := by
  refine (treats_of_stays (stays_admitCodex Op.Common.own)).bind fun _ =>
    (treats_of_stays (stays_catalog Op.Common.own _)).bind fun _ =>
      (treats_of_stays (stays_checked _)).bind fun _ =>
        (treats_of_stays (stays_save (own_save _))).bind fun _ =>
          (treats_of_stays (stays_save (own_save _))).bind fun _ =>
            (treats_of_stays (own_sendMessage p lease _)).bind fun reply => ?_
  cases reply with
  | error err =>
      exact treats_of_stays
        (stays_sendFailed Op.Common.own own_save p lease _ err)
  | ok output =>
      exact (treats_of_stays (stays_checked _)).bind fun _ =>
        (treats_of_stays (stays_receipt Op.Common.own task)).bind fun _ =>
          (treats_of_stays (stays_checked _)).bind fun _ =>
            (treats_of_stays (stays_checked _)).bind fun _ =>
              treats_complete p lease _

theorem treats_resume (p : Value) (lease : String) (r : Record)
    (receipt : Except MediationError (Option Value)) :
    Treats task (resume K c task p lease r receipt) := by
  rcases receipt with err | (_ | receipt)
  · exact treats_of_stays (own_cancel.bind fun _ => own_failWithCode _ _ _ _)
  · show Treats task (if _ then _ else _)
    split_ifs
    · exact treats_of_stays (own_cancel.bind fun _ => own_failWithCode _ _ _ _)
    · exact treats_submit p lease r
  · refine (treats_of_stays (stays_checked _)).bind fun _ => ?_
    split_ifs
    · exact (treats_of_stays (stays_checked _)).bind fun _ =>
        treats_complete p lease _
    · exact treats_of_stays (own_cancel.bind fun _ => own_failWithCode _ _ _ _)

theorem leaves_claimRecord (p : Value) (lease : String)
    (prior : StringSet) :
    Yields (claimRecord K task p lease prior) fun es res => Leaves id b es ∧
      ∀ v, res = .ok v → es.foldl (LetGo id) b → id ≠ task := by
  refine Yields.bind (leaves_load task) ?_ fun _ _ h => ⟨h.1, nofun⟩
  rintro es v ⟨hleaves, hgone⟩
  have hempty : Leaves id b (es ++ []) := by rwa [List.append_nil]
  have hsame : (es ++ []).foldl (LetGo id) b → id ≠ task := by
    rw [List.append_nil]
    exact hgone v rfl
  cases v with
  | none => exact ⟨hempty, fun _ _ => hsame⟩
  | some r =>
      exact yields_checked_bind (fun _ _ => ⟨hempty, fun _ _ => hsame⟩)
        fun _ => ⟨hempty, nofun⟩

theorem leaves_runClaim (claim : Value) (b : Prop) :
    Yields (runClaim K c claim) fun es _ => Leaves id b es := by
  refine leaves_bind
    (fun b => leaves_of_stays (stays_admitClaim (fun _ h => h) claim)) ?_
  rintro ⟨p, lease, task, prior⟩ b
  refine Yields.bind (leaves_claimRecord p lease prior) ?_ fun _ _ h => h.1
  rintro es r ⟨hleaves, hgone⟩
  refine Treats.leaves_after ?_ hleaves (hgone r rfl)
  refine (treats_reconcileBroker task r).bind fun ⟨settled, r⟩ => ?_
  show Treats task (if settled = true then _ else _)
  split_ifs
  · exact treats_of_stays (within_pure _)
  · exact (treats_of_stays
      (stays_authorityOrCancel Op.Common.own task p lease)).bind fun _ =>
        (treats_of_stays (stays_receipt Op.Common.own task).attempt).bind
          fun receipt => treats_resume p lease r receipt

/-! ## Calls -/

theorem leaves_runOnce (b : Prop) :
    Yields (runOnce K c) fun es _ => Leaves id b es := by
  refine leaves_bind (fun b => leaves_of_stays (stays_readDir fun _ h => h)) ?_
  intro entries b
  refine leaves_bind (leaves_scan entries) fun recovered b => ?_
  cases recovered with
  | true => exact leaves_of_stays (within_pure _)
  | false =>
      refine leaves_bind (fun b => leaves_of_stays
        (stays_conversationRequest (fun _ h => h) _)) fun claim b => ?_
      cases claim with
      | none => exact leaves_of_stays (within_pure _)
      | some claim => exact leaves_runClaim claim b

theorem nonempty_answer (op : Op) : Nonempty op.Answer := by
  cases op with
  | workerSend _ => exact ⟨()⟩
  | interval => exact ⟨(0, 0)⟩
  | clock => exact ⟨(0 : ℤ)⟩
  | newUuid => exact ⟨""⟩
  | read _ => exact ⟨FileRead.missing⟩
  | save _ _ => exact ⟨FileWrite.saved⟩
  | _ => exact ⟨none⟩

theorem leaves_events (x : Call K) (id : String) :
    Leaves id False x.events := by
  obtain ⟨fs, _, hleaves⟩ :=
    Prog.Yields.begins nonempty_answer (leaves_runOnce False) x.exec
  exact (leaves_append.mp hleaves).1

theorem file_of_unsaved {d : Directory} (h : ∀ e ∈ es, ¬e.op.SavesTask id) :
    world.after d es id = d id := by
  induction es generalizing d with
  | nil => rfl
  | cons e es ih =>
      rw [List.forall_mem_cons] at h
      rw [Environment.after_cons, ih h.2]
      obtain ⟨op, ans⟩ := e
      cases op with
      | save i r =>
          have hne : id ≠ i := fun heq => h.1 heq.symm
          cases ans with
          | saved => exact Directory.write_of_ne hne _ _
          | failed replaced =>
              cases replaced with
              | true => exact Directory.write_of_ne hne _ _
              | false => rfl
      | _ => rfl

/-- After an acknowledgement that the worker does not accept, the record of the
task stays as it is until its file is read again. -/
theorem record_of_declined (x : Call K) {t h rest : List Action}
    (hevents : x.events = h ++ e :: (es ++ rest)) (he : Declines id e)
    (hread : ∀ a ∈ es, a.op ≠ .read id) :
    (directory (t ++ h ++ e :: es)).record id =
      (directory (t ++ h)).record id := by
  have hleaves := leaves_events x id
  rw [hevents, leaves_append] at hleaves
  have hafter : Leaves id (LetGo id _ e) es := (leaves_append.mp hleaves.2.2).1
  have hunsaved := hafter.unsaved (.inl he) hread
  have hsame : ∀ a ∈ e :: es, ¬a.op.SavesTask id := by
    rw [List.forall_mem_cons]
    refine ⟨?_, hunsaved⟩
    obtain ⟨_, _, _, rfl, _⟩ := he
    exact not_false
  rw [directory, Environment.after_append, Directory.record,
    file_of_unsaved hsame]
  rfl

end AgentGateway
