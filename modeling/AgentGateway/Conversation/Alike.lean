import AgentGateway.Conversation.Renaming

/-!
# Calls under a renaming

Two copies of the mediator's program, the second one on renamed records, leases
and answers, perform the same operations up to the renaming.
-/

namespace AgentGateway

open Json (Value Schema)
open Utf8 (Bytes)
open Interaction
open Mediation
open Dispatcher

namespace Renaming

/-! ## Operations and answers -/

/-- Rename the lease token in the header of a request. -/
def request (ρ : Renaming) (r : RoomRequest) : RoomRequest :=
  { r with lease := r.lease.map ρ.lease }

/-- The second operation is the first one under the renaming. -/
def Operations (ρ : Renaming) : Op → Op → Prop
  | .serviceToken r, .serviceToken r' => r' = ρ.request r
  | .roomRequest r, .roomRequest r' => r' = ρ.request r
  | .workerSend r, .workerSend r' => r' = r
  | .workerReceive r, .workerReceive r' => r' = r
  | .interval, .interval => True
  | .clock, .clock => True
  | .newUuid, .newUuid => True
  | .readDir, .readDir => True
  | .read id, .read id' => id' = id
  | .save id r, .save id' r' => id' = id ∧ r' = ρ.record r
  | _, _ => False

/-- Two answers to an operation agree up to the renaming: the answer to a claim
renames the lease token, an answer of the worker the native identifiers.  `F`
says how the files that are read compare. -/
def Answers (ρ : Renaming) (F : FileRead → FileRead → Prop) :
    Action → Action → Prop
  | ⟨.serviceToken _, a⟩, ⟨.serviceToken _, b⟩ => b = a
  | ⟨.roomRequest r, a⟩, ⟨.roomRequest _, b⟩ =>
      if r.path = .claim then Replies parseJson ρ.claim a b else b = a
  | ⟨.workerReceive r, a⟩, ⟨.workerReceive _, b⟩ =>
      Replies (workerBody r.path) ρ.message a b
  | ⟨.interval, a⟩, ⟨.interval, b⟩ => b = a
  | ⟨.clock, a⟩, ⟨.clock, b⟩ => b = a
  | ⟨.newUuid, a⟩, ⟨.newUuid, b⟩ => b = a
  | ⟨.readDir, a⟩, ⟨.readDir, b⟩ => b = a
  | ⟨.read _, a⟩, ⟨.read _, b⟩ => F a b
  | ⟨.save _ _, a⟩, ⟨.save _ _, b⟩ => b = a
  | _, _ => True

/-- A file that is read, and its renamed copy. -/
inductive Files (ρ : Renaming) : FileRead → FileRead → Prop
  | bytes {b b' : Bytes} : Rereads Record.decode ρ.record b b' →
      Files ρ (.bytes b) (.bytes b')
  | missing : Files ρ .missing .missing
  | failed : Files ρ .failed .failed

/-! ## Rules -/

def Results {ε α β : Type} (R : α → β → Prop) :
    Except ε α → Except ε β → Prop
  | .ok a, .ok b => R a b
  | .error e, .error e' => e' = e
  | _, _ => False

/-- The second program does the same as the first one, up to the renaming. -/
def Alike (ρ : Renaming) {α β : Type} (R : α → β → Prop) (q : Mediation α)
    (q' : Mediation β) : Prop :=
  Prog.Relates ρ.Operations (ρ.Answers ρ.Files) (Results R) q.run q'.run

/-- The same value. -/
abbrev Same {α : Type} : α → α → Prop := fun a b => b = a

section

variable {ρ : Renaming} {α β γ δ : Type} {R : α → β → Prop}
  {R' : γ → δ → Prop}

theorem Alike.bind {q : Mediation α} {q' : Mediation β}
    {f : α → Mediation γ} {g : β → Mediation δ} (hq : Alike ρ R q q')
    (hfg : ∀ a b, R a b → Alike ρ R' (f a) (g b)) :
    Alike ρ R' (q >>= f) (q' >>= g) := by
  refine Prog.Relates.bind (f := ExceptT.bindCont f) (g := ExceptT.bindCont g)
    hq fun x y hxy => ?_
  cases x with
  | ok a =>
      cases y with
      | ok b => exact hfg a b hxy
      | error e => exact hxy.elim
  | error e =>
      cases y with
      | ok b => exact hxy.elim
      | error e' => exact hxy

theorem Alike.mono {S : α → β → Prop} {q : Mediation α} {q' : Mediation β}
    (hq : Alike ρ R q q') (himp : ∀ a b, R a b → S a b) :
    Alike ρ S q q' := by
  refine Prog.Relates.mono hq fun x y hxy => ?_
  cases x with
  | ok a =>
      cases y with
      | ok b => exact himp a b hxy
      | error e => exact hxy
  | error e =>
      cases y with
      | ok b => exact hxy
      | error e' => exact hxy

theorem Results.map {ε : Type} {g : α → β} {x : Except ε α}
    {y : Except ε β} (hxy : Results (fun a b => b = g a) x y) :
    y = x.map g := by
  cases x with
  | ok a =>
      cases y with
      | ok b => exact congrArg Except.ok hxy
      | error e => exact hxy.elim
  | error e =>
      cases y with
      | ok b => exact hxy.elim
      | error e' => exact congrArg Except.error hxy

theorem results_same {ε : Type} {x y : Except ε α}
    (hxy : Results Same x y) : y = x := by
  have hmap := Results.map (g := id) hxy
  cases x <;> exact hmap

theorem alike_pure {a : α} {b : β} (hab : R a b) :
    Alike ρ R (pure a) (pure b) := hab

theorem alike_throw (e : MediationError) :
    Alike ρ R (throw e) (throw e) := rfl

theorem alike_perform (op op' : Op) (hop : ρ.Operations op op') :
    Alike ρ (fun a b => ρ.Answers ρ.Files ⟨op, a⟩ ⟨op', b⟩) (perform op)
      (perform op') :=
  ⟨hop, fun _ _ hans => hans⟩

theorem alike_checked {x y : Checked α} {g : α → α} (hxy : y = x.map g) :
    Alike ρ (fun a b => b = g a ∧ x = some a) (checked x) (checked y) := by
  subst hxy
  cases x with
  | none => exact alike_throw _
  | some a => exact ⟨rfl, rfl⟩

theorem alike_checked_same (x : Checked α) :
    Alike ρ (fun a b => b = a ∧ x = some a) (checked x) (checked x) :=
  alike_checked (g := id) (congrFun Option.map_id x).symm

theorem alike_ofExcept {x y : Except MediationError α} {g : α → α}
    (hxy : y = x.map g) :
    Alike ρ (fun a b => b = g a ∧ x = .ok a) (ofExcept x) (ofExcept y) := by
  subst hxy
  cases x with
  | error e => exact alike_throw e
  | ok a => exact ⟨rfl, rfl⟩

theorem alike_ofExcept_same (x : Except MediationError α) :
    Alike ρ Same (ofExcept x) (ofExcept x) := by
  cases x with
  | error e => exact alike_throw e
  | ok a => exact alike_pure rfl

theorem alike_attempt {q : Mediation α} {q' : Mediation β}
    (hq : Alike ρ R q q') :
    Alike ρ (Results R) (attempt q) (attempt q') := by
  rw [Alike, attempt_run, attempt_run]
  exact Prog.Relates.bind hq fun x y hxy => hxy

end

/-! ## Records on disk -/

section

variable {ρ : Renaming} {K : Crates} {c : Dispatcher} {id lease : String}
  {p : Value} {r : Record}

theorem alike_load (K : Crates) (id : String) :
    Alike ρ (fun o o' => o' = o.map ρ.record) (load K id) (load K id) := by
  refine (alike_checked_same _).bind fun _ _ _ => ?_
  refine (alike_perform (.read id) (.read id) rfl).bind fun a b hab => ?_
  cases hab with
  | bytes hbytes =>
      refine (alike_checked (read_of_rereads hbytes)).bind ?_
      rintro r r' ⟨rfl, _⟩
      exact alike_pure rfl
  | missing => exact alike_pure rfl
  | failed => exact alike_throw _

theorem alike_save (K : Crates) (id : String) (r : Record) :
    Alike ρ Same (save K id r) (save K id (ρ.record r)) := by
  refine (alike_checked_same _).bind fun _ _ _ => ?_
  refine (alike_perform (.save id r) (.save id (ρ.record r))
    ⟨rfl, rfl⟩).bind ?_
  intro a b hab
  have hsame : b = a := hab
  subst hsame
  cases b with
  | saved => exact alike_pure rfl
  | failed replaced => exact alike_throw _

theorem alike_readDir : Alike ρ Same readDir readDir := by
  refine (alike_perform .readDir .readDir trivial).bind ?_
  intro a b hab
  have hsame : b = a := hab
  subst hsame
  cases b with
  | some entries => exact alike_pure rfl
  | none => exact alike_throw _

theorem alike_entryId (entry : DirEntry) :
    Alike ρ Same (entryId entry) (entryId entry) := by
  cases entry with
  | unreadable => exact alike_throw _
  | file stem extension =>
      rw [entryId]
      split_ifs
      · exact alike_pure rfl
      · refine (alike_checked_same stem).bind ?_
        rintro id id' ⟨rfl, _⟩
        exact alike_pure rfl

theorem alike_gatherSources (p : Value) (entries : List DirEntry)
    (sources : StringSet) :
    Alike ρ Same (gatherSources K p entries sources)
      (gatherSources K p entries sources) := by
  induction entries generalizing sources with
  | nil => exact alike_pure rfl
  | cons entry entries ih =>
      refine (alike_entryId entry).bind ?_
      rintro _ id rfl
      cases id with
      | none => exact ih sources
      | some id =>
          refine (alike_load K id).bind ?_
          rintro o _ rfl
          cases o with
          | none => exact ih sources
          | some r => exact ih _

theorem alike_priorSources (p : Value) :
    Alike ρ Same (priorSources K p) (priorSources K p) := by
  refine alike_readDir.bind ?_
  rintro _ entries rfl
  exact alike_gatherSources p entries .empty

/-! ## The broker -/

theorem alike_conversationRequest {req : RoomRequest}
    (hreq : req.path ≠ .claim) :
    Alike ρ Same (conversationRequest req)
      (conversationRequest (ρ.request req)) := by
  refine (alike_perform (.serviceToken req) (.serviceToken (ρ.request req))
    rfl).bind ?_
  intro token token' htoken
  have hsame : token' = token := htoken
  subst hsame
  refine (alike_ofExcept_same _).bind fun _ _ _ => ?_
  refine (alike_perform (.roomRequest req) (.roomRequest (ρ.request req))
    rfl).bind ?_
  intro reply reply' hreply
  have hreply : if req.path = .claim then
      Replies parseJson ρ.claim reply reply' else reply' = reply := hreply
  rw [if_neg hreq] at hreply
  subst hreply
  exact alike_ofExcept_same _

theorem alike_broker (id suffix : String) (lease : Option String)
    (body : Option Value) :
    Alike ρ Same (broker id suffix lease body)
      (broker id suffix (lease.map ρ.lease) body) := by
  have hreq : (taskRequest id suffix lease body).path ≠ .claim := by
    rintro ⟨⟩
  refine (alike_conversationRequest hreq).bind ?_
  rintro _ value rfl
  exact (alike_checked_same value).mono fun _ _ h => h.1

theorem alike_notElapsed (v : Value) :
    Alike ρ Same (notElapsed K v) (notElapsed K v) := by
  refine (alike_perform .clock .clock trivial).bind ?_
  intro now now' hnow
  have hsame : now' = now := hnow
  subst hsame
  refine (alike_checked_same _).bind ?_
  rintro _ expires ⟨rfl, _⟩
  split_ifs
  · exact alike_throw _
  · exact alike_pure rfl

theorem alike_authority (p : Value) (lease : String) :
    Alike ρ Same (authority K p lease) (authority K p (ρ.lease lease)) := by
  refine (alike_checked_same _).bind ?_
  rintro _ id ⟨rfl, _⟩
  refine (alike_attempt (alike_broker id "authority" (some lease)
    none)).bind ?_
  intro answer answer' hanswer
  have hsame := results_same hanswer
  subst hsame
  refine (alike_ofExcept_same _).bind ?_
  rintro _ a rfl
  refine (alike_checked_same _).bind fun _ _ _ => ?_
  exact (alike_notElapsed _).bind fun _ _ _ => alike_notElapsed _

/-! ## The worker -/

theorem alike_receive (req : WorkerRequest) :
    Alike ρ (fun o o' => o' = o.map ρ.message) (Worker.receive req)
      (Worker.receive req) := by
  refine (alike_perform (.workerReceive req) (.workerReceive req) rfl).bind ?_
  intro reply reply' hreply
  refine (alike_ofExcept (workerResponse_of_replies hreply)).mono ?_
  rintro o _ ⟨rfl, _⟩
  rfl

theorem alike_workerSend (req : WorkerRequest) :
    Alike ρ Same (perform (.workerSend req)) (perform (.workerSend req)) :=
  (alike_perform (.workerSend req) (.workerSend req) rfl).mono
    fun _ _ _ => rfl

theorem alike_request (req : WorkerRequest) :
    Alike ρ (fun o o' => o' = o.map ρ.message) (Worker.request req)
      (Worker.request req) :=
  (alike_workerSend req).bind fun _ _ _ => alike_receive req

theorem alike_rpcReceive (id : String) (req : WorkerRequest) :
    Alike ρ (fun v v' => v' = ρ.message v) (Worker.rpcReceive id req)
      (Worker.rpcReceive id req) := by
  refine (alike_receive req).bind ?_
  rintro o _ rfl
  refine (alike_checked rfl).bind ?_
  rintro v _ ⟨rfl, _⟩
  exact (alike_ofExcept (rpcResult_message id v)).mono fun _ _ h => h.1

theorem alike_newUuid :
    Alike ρ Same (perform .newUuid) (perform .newUuid) :=
  alike_perform .newUuid .newUuid trivial

theorem alike_rpc (method : String) (params : Value) :
    Alike ρ (fun v v' => v' = ρ.message v) (Worker.rpc method params)
      (Worker.rpc method params) := by
  refine alike_newUuid.bind ?_
  rintro _ id rfl
  exact (alike_workerSend _).bind fun _ _ _ => alike_rpcReceive id _

theorem alike_cancel (id : String) :
    Alike ρ Same (Worker.cancel id) (Worker.cancel id) :=
  (alike_attempt (alike_rpc _ _)).bind fun _ _ _ => alike_pure rfl

theorem alike_ack (id : String) (a : Value) :
    Alike ρ Same (Worker.ack id a) (Worker.ack id a) :=
  (alike_request _).bind fun _ _ _ => alike_pure rfl

theorem alike_admitCodex :
    Alike ρ Same Worker.admitCodex Worker.admitCodex := by
  refine (alike_request _).bind ?_
  rintro o _ rfl
  refine (alike_checked rfl).bind ?_
  rintro card _ ⟨rfl, _⟩
  rw [validateCard_message]
  exact (alike_checked_same _).mono fun _ _ h => h.1

theorem alike_catalog (a : Admission) :
    Alike ρ Same (Worker.catalog K a) (Worker.catalog K a) := by
  refine (alike_request _).bind ?_
  rintro o _ rfl
  refine (alike_checked rfl).bind ?_
  rintro page _ ⟨rfl, _⟩
  rw [(catalogPage_message a page).1]
  refine (alike_checked_same _).bind ?_
  rintro _ _ ⟨rfl, hpage⟩
  exact alike_pure ((catalogPage_message a page).2 hpage)

theorem alike_receipt (id : String) :
    Alike ρ (fun o o' => o' = o.map ρ.message) (Worker.receipt id)
      (Worker.receipt id) := alike_request _

/-! ## Updates and acknowledgements -/

theorem alike_update (p : Value) (kind : String) (data : Value) :
    Alike ρ Same (update p kind data) (update p kind data) := by
  refine alike_newUuid.bind ?_
  rintro _ updateId rfl
  exact alike_pure rfl

theorem alike_acceptAck (id : String) (r : Record) (a : Value) :
    Alike ρ (fun q q' => q' = ρ.record q) (acceptAck K id r a)
      (acceptAck K id (ρ.record r) a) := by
  refine (alike_checked_same (ackMatches K r a)).bind fun _ _ _ => ?_
  refine (alike_ack id a).bind fun _ _ _ => ?_
  exact (alike_save K id _).bind fun _ _ _ => alike_pure rfl

theorem alike_quarantine (id : String) (r : Record) :
    Alike ρ (fun q q' => q' = ρ.record q) (quarantine K id r)
      (quarantine K id (ρ.record r)) := by
  refine (alike_cancel id).bind fun _ _ _ => ?_
  exact (alike_save K id _).bind fun _ _ _ => alike_pure rfl

theorem alike_reconcileBroker (id : String) (r : Record) :
    Alike ρ (fun x y => y = (x.1, ρ.record x.2)) (reconcileBroker K id r)
      (reconcileBroker K id (ρ.record r)) := by
  refine (alike_broker id "receipt" none none).bind ?_
  rintro _ receipt rfl
  refine (alike_checked_same _).bind fun _ _ _ => ?_
  split_ifs
  · refine (alike_checked_same _).bind fun _ _ _ => ?_
    refine (alike_quarantine id r).bind ?_
    rintro q _ rfl
    exact alike_pure rfl
  · refine (alike_checked_same _).bind fun _ _ _ => ?_
    refine (alike_acceptAck id r _).bind ?_
    rintro q _ rfl
    exact alike_pure rfl
  · exact alike_pure rfl

/-! ## Recovery -/

theorem alike_recoverPending (id : String) (r : Record) :
    Alike ρ Same (recoverPending K c id r)
      (recoverPending K c id (ρ.record r)) := by
  refine (alike_reconcileBroker id r).bind ?_
  rintro ⟨settled, q⟩ _ rfl
  cases settled with
  | true => exact alike_pure rfl
  | false =>
      have hphase : (ρ.record q).phase = q.phase := rfl
      simp only [hphase, Bool.false_eq_true, if_false]
      split_ifs
      · exact alike_pure rfl
      · refine (alike_authority q.binding q.lease).bind fun _ _ _ => ?_
        refine (alike_checked_same q.result).bind ?_
        rintro _ result ⟨rfl, _⟩
        refine (alike_checked_same _).bind fun _ _ _ => ?_
        refine (alike_checked_same q.update).bind ?_
        rintro _ u ⟨rfl, _⟩
        refine (alike_checked_same _).bind fun _ _ _ => ?_
        refine (alike_broker id "updates" (some q.lease) (some u)).bind ?_
        rintro _ a rfl
        exact (alike_acceptAck id q a).bind fun _ _ _ => alike_pure rfl

theorem alike_recover (id : String) (r : Record) :
    Alike ρ Same (recover K c id r) (recover K c id (ρ.record r)) := by
  refine (alike_attempt (alike_recoverPending id r)).bind ?_
  intro x y hxy
  have hsame := results_same hxy
  subst hsame
  have hlost : ∀ e : MediationError, Alike ρ Same
      (if definitiveAuthorityLoss e then do
        let _ ← quarantine K id r
        return false
      else return false)
      (if definitiveAuthorityLoss e then do
        let _ ← quarantine K id (ρ.record r)
        return false
      else return false) := by
    intro e
    split_ifs
    · exact (alike_quarantine id r).bind fun _ _ _ => alike_pure rfl
    · exact alike_pure rfl
  rcases y with e | finished
  · cases e with
    | state => exact alike_throw _
    | _ => exact hlost _
  · exact alike_pure rfl

theorem pending_record (r : Record) : pending (ρ.record r) ↔ pending r :=
  Iff.rfl

theorem alike_visit (entry : DirEntry) :
    Alike ρ Same (visit K c entry) (visit K c entry) := by
  refine (alike_entryId entry).bind ?_
  rintro _ id rfl
  cases id with
  | none => exact alike_pure rfl
  | some id =>
      refine (alike_load K id).bind ?_
      rintro o _ rfl
      cases o with
      | none => exact alike_pure rfl
      | some r =>
          simp only [Option.map_some, pending_record]
          split_ifs
          · exact alike_recover id r
          · exact alike_pure rfl

theorem alike_scan (entries : List DirEntry) :
    Alike ρ Same (scan K c entries) (scan K c entries) := by
  induction entries with
  | nil => exact alike_pure rfl
  | cons entry entries ih =>
      refine (alike_visit entry).bind ?_
      rintro _ finished rfl
      cases finished with
      | true => exact alike_pure rfl
      | false => exact ih

/-! ## A claimed task -/

theorem alike_failWithCode (id : String) (p : Value) (lease : String)
    (r : Record) (code : String) :
    Alike ρ Same (failWithCode K id p lease r code)
      (failWithCode K id p (ρ.lease lease) (ρ.record r) code) := by
  refine (alike_checked_same _).bind ?_
  rintro _ known ⟨rfl, _⟩
  refine (alike_update p "failed" _).bind ?_
  rintro _ failed rfl
  refine (alike_save K id _).bind fun _ _ _ => ?_
  refine (alike_checked_same _).bind fun _ _ _ => ?_
  exact (alike_broker id "updates" (some lease) (some failed)).bind
    fun _ _ _ => alike_pure rfl

theorem alike_authorityOrCancel (id : String) (p : Value) (lease : String) :
    Alike ρ Same (authorityOrCancel K id p lease)
      (authorityOrCancel K id p (ρ.lease lease)) := by
  refine (alike_attempt (alike_authority p lease)).bind ?_
  intro x y hxy
  have hsame := results_same hxy
  subst hsame
  cases y with
  | ok _ => exact alike_pure rfl
  | error e => exact (alike_cancel id).bind fun _ _ _ => alike_throw e

theorem alike_completedUpdate (p : Value) (r : Record) :
    Alike ρ Same (completedUpdate p r) (completedUpdate p (ρ.record r)) := by
  have hupdate : (ρ.record r).update = r.update := rfl
  unfold completedUpdate
  rw [hupdate]
  cases r.update with
  | some u => exact alike_pure rfl
  | none =>
      refine (alike_checked_same r.result).bind ?_
      rintro _ x ⟨rfl, _⟩
      exact alike_update p "completed" x

theorem alike_complete (id : String) (p : Value) (lease : String)
    (r : Record) :
    Alike ρ Same (complete K id p lease r)
      (complete K id p (ρ.lease lease) (ρ.record r)) := by
  refine (alike_authorityOrCancel id p lease).bind fun _ _ _ => ?_
  refine (alike_completedUpdate p r).bind ?_
  rintro _ u rfl
  refine (alike_save K id _).bind fun _ _ _ => ?_
  refine (alike_checked_same _).bind fun _ _ _ => ?_
  refine (alike_broker id "updates" (some lease) (some u)).bind ?_
  rintro _ a rfl
  exact (alike_acceptAck id _ a).bind fun _ _ _ => alike_pure rfl

theorem alike_ticks (id : String) (p : Value) (lease : String) (r : Record)
    (n : ℕ) :
    Alike ρ Same (ticks K id p lease r n)
      (ticks K id p (ρ.lease lease) (ρ.record r) n) := by
  induction n with
  | zero => exact alike_pure rfl
  | succ n ih =>
      refine (alike_attempt (alike_authority p lease)).bind ?_
      intro x y hxy
      have hsame := results_same hxy
      subst hsame
      cases y with
      | ok _ => exact ih
      | error e =>
          refine (alike_cancel id).bind fun _ _ _ => ?_
          exact (alike_save K id _).bind fun _ _ _ => alike_throw e

theorem alike_sendMessage (id : String) (p : Value) (lease : String)
    (r : Record) :
    Alike ρ (fun x y => y = x.map ρ.message) (sendMessage K id p lease r)
      (sendMessage K id p (ρ.lease lease) (ρ.record r)) := by
  refine (alike_perform .interval .interval trivial).bind ?_
  intro n n' hn
  have hsame : n' = n := hn
  subst hsame
  obtain ⟨before, during⟩ : ℕ × ℕ := n'
  refine (alike_ticks id p lease r before).bind fun _ _ _ => ?_
  refine alike_newUuid.bind ?_
  rintro _ rpcId rfl
  refine (alike_workerSend _).bind fun _ _ _ => ?_
  refine (alike_ticks id p lease r during).bind fun _ _ _ => ?_
  exact (alike_attempt (alike_rpcReceive _ _)).mono fun _ _ h => h.map

theorem alike_rejectionConfirmed (hp : p.Lacks "runtimeBinding")
    (id : String) (e : MediationError) :
    Alike ρ Same (rejectionConfirmed id p e) (rejectionConfirmed id p e) := by
  cases e with
  | workerRejected code =>
      refine (alike_attempt (alike_receipt id)).bind ?_
      intro x y hxy
      have hmap := hxy.map
      subst hmap
      rcases x with e | (_ | v)
      · exact alike_pure rfl
      · exact alike_pure rfl
      · refine alike_pure ?_
        rw [receiptFailure_message hp]
  | _ => exact alike_pure rfl

theorem alike_sendFailed (hp : p.Lacks "runtimeBinding") (id lease : String)
    (r : Record) (e : MediationError) :
    Alike ρ Same (sendFailed K id p lease r e)
      (sendFailed K id p (ρ.lease lease) (ρ.record r) e) := by
  refine (alike_rejectionConfirmed hp id e).bind ?_
  rintro _ confirmed rfl
  cases confirmed with
  | some code => exact alike_failWithCode id p lease r code
  | none =>
      refine (alike_cancel id).bind fun _ _ _ => ?_
      refine (alike_save K id _).bind fun _ _ _ => ?_
      exact (alike_attempt (alike_failWithCode id p lease _ _)).bind
        fun _ _ _ => alike_throw e

theorem alike_submit (hp : p.Lacks "runtimeBinding") (id lease : String)
    (r : Record) :
    Alike ρ Same (submit K c id p lease r)
      (submit K c id p (ρ.lease lease) (ρ.record r)) := by
  refine alike_admitCodex.bind fun _ _ _ => ?_
  refine (alike_catalog c.admission).bind ?_
  rintro _ catalog rfl
  refine (alike_checked_same _).bind fun _ _ _ => ?_
  refine (alike_save K id r).bind fun _ _ _ => ?_
  refine (alike_save K id _).bind fun _ _ _ => ?_
  refine (alike_sendMessage id p lease _).bind ?_
  rintro answer _ rfl
  cases answer with
  | error e => exact alike_sendFailed hp id lease _ e
  | ok output =>
      refine (alike_checked (replyData_message hp output)).bind ?_
      rintro data _ ⟨rfl, _⟩
      refine (alike_receipt id).bind ?_
      rintro o _ rfl
      refine (alike_checked rfl).bind ?_
      rintro receipt _ ⟨rfl, _⟩
      refine (alike_checked (acceptReply_message hp data receipt)).bind ?_
      rintro q _ ⟨rfl, _⟩
      exact alike_complete id p lease q

theorem alike_resume (hp : p.Lacks "runtimeBinding") (id lease : String)
    (r : Record) (answer : Except MediationError (Option Value)) :
    Alike ρ Same (resume K c id p lease r answer)
      (resume K c id p (ρ.lease lease) (ρ.record r)
        (answer.map (Option.map ρ.message))) := by
  have hfailed : ∀ code, Alike ρ Same (do
      Worker.cancel id
      failWithCode K id p lease r code) (do
      Worker.cancel id
      failWithCode K id p (ρ.lease lease) (ρ.record r) code) := fun code =>
    (alike_cancel id).bind fun _ _ _ => alike_failWithCode id p lease r code
  rcases answer with e | (_ | v)
  · exact hfailed _
  · have hfresh : ((ρ.record r).phase ≠ "reserved" ∨
        (ρ.record r).result.isSome = true) ↔
          (r.phase ≠ "reserved" ∨ r.result.isSome = true) := Iff.rfl
    show Alike ρ Same (resume K c id p lease r (.ok none))
      (resume K c id p (ρ.lease lease) (ρ.record r) (.ok none))
    simp only [resume, hfresh]
    split_ifs
    · exact hfailed _
    · exact alike_submit hp id lease r
  · show Alike ρ Same (resume K c id p lease r (.ok (some v)))
      (resume K c id p (ρ.lease lease) (ρ.record r)
        (.ok (some (ρ.message v))))
    simp (disch := decide) only [resume, validateReceipt_message hp,
      getElem_message, message_eq_str_iff, receiptFailure_message hp]
    refine (alike_checked_same _).bind fun _ _ _ => ?_
    split_ifs
    · refine (alike_checked (acceptReceipt_message v)).bind ?_
      rintro q _ ⟨rfl, _⟩
      exact alike_complete id p lease q
    · exact hfailed _

theorem alike_claimRecord (id : String) (p : Value) (lease : String)
    (prior : StringSet) :
    Alike ρ (fun r r' => r' = ρ.record r) (claimRecord K id p lease prior)
      (claimRecord K id p (ρ.lease lease) prior) := by
  refine (alike_load K id).bind ?_
  rintro o _ rfl
  cases o with
  | none => exact alike_pure rfl
  | some r =>
      exact (alike_checked_same (guard (r.binding = binding p))).bind
        fun _ _ _ => alike_pure rfl

theorem alike_clockReadings :
    Alike ρ Same clockReadings clockReadings := by
  have hclock : Alike ρ Same (perform .clock) (perform .clock) :=
    alike_perform .clock .clock trivial
  refine hclock.bind ?_
  rintro _ t₁ rfl
  refine hclock.bind ?_
  rintro _ t₂ rfl
  refine hclock.bind ?_
  rintro _ t₃ rfl
  exact alike_pure rfl

/-- An admitted packet holds no runtime binding. -/
theorem alike_admitClaim (claim : Value) :
    Alike ρ (fun x y => y = (x.1, ρ.lease x.2.1, x.2.2) ∧
        x.1.Lacks "runtimeBinding") (admitClaim K c claim)
      (admitClaim K c (ρ.claim claim)) := by
  unfold admitClaim
  simp only [closed_claim, packet_claim, leaseToken_claim]
  refine (alike_checked_same _).bind fun _ _ _ => ?_
  refine (alike_checked rfl).bind ?_
  rintro lease _ ⟨rfl, _⟩
  refine (alike_checked_same _).bind ?_
  rintro _ id ⟨rfl, _⟩
  refine (alike_priorSources _).bind ?_
  rintro _ prior rfl
  refine alike_clockReadings.bind ?_
  rintro _ now rfl
  refine (alike_checked_same _).bind ?_
  rintro _ _ ⟨rfl, hvalid⟩
  refine (alike_checked_same _).bind fun _ _ _ => ?_
  obtain ⟨_, hschema, _⟩ := Option.bind_eq_some_iff.mp hvalid
  exact alike_pure ⟨rfl, Schema.lacks_of_valid Contracts.input (by rfl)
    (valid_of_schema hschema)⟩

theorem alike_runClaim (claim : Value) :
    Alike ρ Same (runClaim K c claim) (runClaim K c (ρ.claim claim)) := by
  refine (alike_admitClaim claim).bind ?_
  rintro ⟨p, lease, id, prior⟩ _ ⟨rfl, hp⟩
  refine (alike_claimRecord id p lease prior).bind ?_
  rintro r _ rfl
  refine (alike_reconcileBroker id r).bind ?_
  rintro ⟨settled, q⟩ _ rfl
  cases settled with
  | true => exact alike_pure rfl
  | false =>
      refine (alike_authorityOrCancel id p lease).bind fun _ _ _ => ?_
      refine (alike_attempt (alike_receipt id)).bind ?_
      intro x y hxy
      have hmap := hxy.map
      subst hmap
      exact alike_resume hp id lease q x

theorem alike_claimRequest :
    Alike ρ (fun o o' => o' = o.map ρ.claim)
      (conversationRequest c.claimRequest)
      (conversationRequest c.claimRequest) := by
  refine (alike_perform (.serviceToken c.claimRequest)
    (.serviceToken c.claimRequest) rfl).bind ?_
  intro token token' htoken
  have hsame : token' = token := htoken
  subst hsame
  refine (alike_ofExcept_same _).bind fun _ _ _ => ?_
  refine (alike_perform (.roomRequest c.claimRequest)
    (.roomRequest c.claimRequest) rfl).bind ?_
  intro reply reply' hreply
  have hreplies : Replies parseJson ρ.claim reply reply' := hreply
  have hmap : (roomResponse reply').mapError MediationError.broker =
      ((roomResponse reply).mapError .broker).map (Option.map ρ.claim) := by
    rw [roomResponse_of_replies hreplies]
    cases roomResponse reply <;> rfl
  exact (alike_ofExcept hmap).mono fun _ _ h => h.1

/-- A call under a renaming. -/
theorem alike_runOnce (K : Crates) (c : Dispatcher) :
    Alike ρ Same (runOnce K c) (runOnce K c) := by
  refine alike_readDir.bind ?_
  rintro _ entries rfl
  refine (alike_scan entries).bind ?_
  rintro _ recovered rfl
  cases recovered with
  | true => exact alike_pure rfl
  | false =>
      refine alike_claimRequest.bind ?_
      rintro o _ rfl
      cases o with
      | none => exact alike_pure rfl
      | some claim => exact alike_runClaim claim

end

end Renaming

end AgentGateway
