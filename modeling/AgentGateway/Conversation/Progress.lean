import AgentGateway.Conversation.History

/-!
# Progress

What a call does where the broker and the worker answer as they should, or
where an answer is lost: executions of the parts of `run_once`, put together to
executions of whole calls.
-/

namespace AgentGateway

open Json (Value)
open Interaction
open Mediation
open Dispatcher

variable {K : Crates} {c : Dispatcher} {d d' : Directory}
  {id lease : String} {p : Value} {r : Record}

/-! ## Steps -/

section Steps

variable {α β : Type} {es fs : List Action}
  {res : Option (Except MediationError β)}

theorem exec_perform_bind {o : Op} {a : o.Answer}
    {f : o.Answer → Mediation β} (hallowed : allowed d ⟨o, a⟩)
    (h : Exec world (written d ⟨o, a⟩) (f a).run es d' res) :
    Exec world d (perform o >>= f).run (⟨o, a⟩ :: es) d' res :=
  .call hallowed h

theorem exec_checked {x : Checked α} {a : α} (hx : x = some a) :
    Exec world d (checked x).run [] d (some (.ok a)) := by
  rw [hx]
  exact .ret _ _

theorem exec_checked_bind {x : Checked α} {a : α} {f : α → Mediation β}
    (hx : x = some a) (h : Exec world d (f a).run es d' res) :
    Exec world d (checked x >>= f).run es d' res := by
  rw [hx]
  exact h

/-- A check that fails ends a program. -/
theorem exec_checked_none {x : Checked α} {f : α → Mediation β}
    (hx : x = none) :
    Exec world d (checked x >>= f).run [] d
      (some (.error .validation)) := by
  rw [hx]
  exact .ret _ _

theorem exec_guard_bind {P : Prop} [Decidable P] {f : Unit → Mediation β}
    (hP : P) (h : Exec world d (f ()).run es d' res) :
    Exec world d (checked (guard P) >>= f).run es d' res :=
  exec_checked_bind (guard_eq_some.mpr hP) h

theorem exec_ofExcept_bind {x : Except MediationError α} {a : α}
    {f : α → Mediation β} (hx : x = .ok a)
    (h : Exec world d (f a).run es d' res) :
    Exec world d (ofExcept x >>= f).run es d' res := by
  rw [hx]
  exact h

theorem exec_ofExcept (x : Except MediationError α) :
    Exec world d (ofExcept x).run [] d (some x) := by
  cases x <;> exact .ret _ _

theorem exec_attempt_bind {q : Mediation α} {x : Except MediationError α}
    {f : Except MediationError α → Mediation β} {d₁ : Directory}
    (hq : Exec world d q.run es d₁ (some x))
    (h : Exec world d₁ (f x).run fs d' res) :
    Exec world d (attempt q >>= f).run (es ++ fs) d' res := by
  refine Exec.bindOk (a := x) ?_ h
  have hreturn := Exec.bind hq (f := fun x => Prog.ret (Except.ok x))
    (.ret d₁ (.ok x : Except MediationError _))
  rw [List.append_nil] at hreturn
  rwa [attempt_run]

end Steps

/-! ## Answers -/

/-- A value whose text is read back as it is, within a limit. -/
structure Sendable (limit : ℕ) (v : Value) : Prop where
  safe : Safe v
  depth : v.depth ≤ maxJsonDepth
  length : (toVec v).length ≤ limit

theorem Sendable.of_strict {limit : ℕ} {v : Value} (h : strict v = some v)
    (hdepth : v.depth ≤ maxJsonDepth) (hlength : (toVec v).length ≤ limit) :
    Sendable limit v :=
  ⟨safe_of_strict h, hdepth, hlength⟩

/-- The limit of the broker's client. -/
abbrev roomLimit : ℕ := 2097152

def response (v : Value) : Reply := some ⟨200, toVec v, false⟩

theorem roomResponse_response {v : Value} (hv : Sendable roomLimit v) :
    roomResponse (response v) = .ok (some v) := by
  have hlength : ¬(toVec v).length > 2097152 := Nat.not_lt.mpr hv.length
  have hparse : parseJson (toVec v) = some v :=
    parseJson_toVec hv.safe hv.depth (hv.length.trans (by decide))
  simp [roomResponse, response, isErrorStatus, hlength, hparse]

theorem workerResponse_response {path : WorkerPath} {v : Value}
    (hpath : path ≠ .rpc) (hv : Sendable maxJsonBytes v) :
    workerResponse path (response v) = .ok (some v) := by
  have hlength : ¬(toVec v).length > maxJsonBytes := Nat.not_lt.mpr hv.length
  have hparse : parseJson (toVec v) = some v :=
    parseJson_toVec hv.safe hv.depth hv.length
  simp [workerResponse, response, workerBody, workerValue, isSuccess, hlength,
    hparse, hpath]

def serviceToken : Option TokenResponse := some ⟨200, some "service-token"⟩

/-- A request to the broker under a service token. -/
def exchange (req : RoomRequest) (reply : Reply) : List Action :=
  [⟨.serviceToken req, serviceToken⟩, ⟨.roomRequest req, reply⟩]

theorem exec_conversationRequest {req : RoomRequest} {reply : Reply}
    {res : Except MediationError (Option Value)}
    (hres : (roomResponse reply).mapError .broker = res) :
    Exec world d (conversationRequest req).run (exchange req reply) d
      (some res) := by
  refine exec_perform_bind (o := .serviceToken req) trivial ?_
  have htoken : (serviceAccessToken serviceToken).mapError
      MediationError.broker = .ok "service-token" := by decide
  refine exec_ofExcept_bind htoken (exec_perform_bind trivial ?_)
  rw [hres]
  exact exec_ofExcept res

theorem exec_broker {suffix : String} {leaseToken : Option String}
    {body : Option Value} {v : Value} (hv : Sendable roomLimit v) :
    Exec world d (broker id suffix leaseToken body).run
      (exchange (taskRequest id suffix leaseToken body) (response v)) d
      (some (.ok v)) := by
  have hvalue : Exec world d
      (conversationRequest (taskRequest id suffix leaseToken body)).run
      (exchange (taskRequest id suffix leaseToken body) (response v)) d
      (some (.ok (some v))) :=
    exec_conversationRequest (congrArg
      (Except.mapError MediationError.broker) (roomResponse_response hv))
  have h : Exec world d (broker id suffix leaseToken body).run
      (exchange (taskRequest id suffix leaseToken body) (response v) ++ []) d
      (some (.ok v)) := Exec.bindOk hvalue (.ret d _)
  rwa [List.append_nil] at h

/-- The broker does not answer. -/
theorem exec_broker_lost {suffix : String} {leaseToken : Option String}
    {body : Option Value} :
    Exec world d (broker id suffix leaseToken body).run
      (exchange (taskRequest id suffix leaseToken body) none) d
      (some (.error (.broker (.http none)))) :=
  Exec.bindError (exec_conversationRequest rfl)

/-- A request to the worker. -/
def workerExchange (req : WorkerRequest) (reply : Reply) : List Action :=
  [⟨.workerSend req, ()⟩, ⟨.workerReceive req, reply⟩]

theorem exec_workerRequest (req : WorkerRequest) (reply : Reply) :
    Exec world d (Worker.request req).run (workerExchange req reply) d
      (some (workerResponse req.path reply)) :=
  exec_perform_bind trivial (exec_perform_bind trivial (exec_ofExcept _))

/-! ## Records -/

/-- A record that is loaded from its file. -/
structure Stored (K : Crates) (d : Directory) (id : String) (r : Record) :
    Prop where
  uuid : K.uuidParses id = true
  file : d id = some r.toVec
  safe : r.Safe
  length : r.toVec.length ≤ maxJsonBytes

theorem write_write (d : Directory) (id : String) (bytes bytes' : Utf8.Bytes) :
    (d.write id bytes).write id bytes' = d.write id bytes' := by
  funext i
  by_cases hi : i = id
  · simp [Directory.write, hi]
  · simp [Directory.write, hi]

/-- The listing of a directory with one file. -/
def oneFile (id : String) : List DirEntry := [.file (some id) (some "json")]

theorem listing_empty : Listing Directory.empty [] where
  known := by simp
  complete := .inr fun id hid => absurd rfl hid
  once := by simp

theorem listing_oneFile {bytes : Utf8.Bytes} :
    Listing (Directory.empty.write id bytes) (oneFile id) where
  known stem hstem := by
    rw [oneFile, List.mem_singleton] at hstem
    cases hstem
    exact ⟨id, rfl, by simp⟩
  complete := by
    refine .inr fun i hi => ?_
    by_cases heq : i = id
    · simp [oneFile, heq]
    · exact absurd (Directory.write_of_ne heq _ _) hi
  once := by simp [oneFile, DirEntry.task]

theorem exec_readDir {entries : List DirEntry} (hlist : Listing d entries) :
    Exec world d readDir.run [⟨.readDir, some entries⟩] d
      (some (.ok entries)) := by
  refine exec_perform_bind ?_ (.ret _ _)
  rintro entries' ⟨⟩
  exact hlist

theorem exec_load (hr : Stored K d id r) :
    Exec world d (load K id).run [⟨.read id, .bytes r.toVec⟩] d
      (some (.ok (some r))) := by
  refine exec_guard_bind hr.uuid ?_
  refine exec_perform_bind (o := .read id) (a := .bytes r.toVec) hr.file ?_
  have hread : Record.read r.toVec = some r := by
    rw [Record.read_toVec hr.safe, if_neg (Nat.not_lt.mpr hr.length)]
  exact exec_checked_bind hread (.ret _ _)

theorem exec_load_missing (huuid : K.uuidParses id = true)
    (hnone : d id = none) :
    Exec world d (load K id).run [⟨.read id, .missing⟩] d
      (some (.ok none)) := by
  refine exec_guard_bind huuid ?_
  exact exec_perform_bind (o := .read id) (a := .missing) hnone (.ret _ _)

theorem exec_save (huuid : K.uuidParses id = true) (r : Record) :
    Exec world d (save K id r).run [saved id r] (d.write id r.toVec)
      (some (.ok ())) := by
  refine exec_guard_bind huuid ?_
  exact exec_perform_bind (o := .save id r) (a := .saved) trivial
    (.ret _ _)

theorem exec_priorSources_empty :
    Exec world Directory.empty (priorSources K p).run
      [⟨.readDir, some []⟩] Directory.empty (some (.ok .empty)) :=
  Exec.bindOk (exec_readDir listing_empty) (.ret _ _)

/-- One record contributes its sources, or nothing. -/
theorem exec_priorSources_oneFile (hr : Stored K d id r)
    (hlist : Listing d (oneFile id)) {prior : StringSet}
    (hprior : prior =
      if carriesOver r p then StringSet.empty.union r.sources else .empty) :
    Exec world d (priorSources K p).run
      [⟨.readDir, some (oneFile id)⟩, ⟨.read id, .bytes r.toVec⟩] d
      (some (.ok prior)) := by
  subst hprior
  refine Exec.bindOk (exec_readDir hlist) ?_
  exact Exec.bindOk (exec_load hr) (.ret d _)

/-! ## Authority and the broker's receipt -/

/-- The broker's confirmation that a packet may go on at a time. -/
structure Authorizes (K : Crates) (now : ℤ) (p a : Value) : Prop where
  sendable : Sendable roomLimit a
  agrees : authorityMatches a p = some ()
  expires : ∃ e, timestamp K a["expiresAt"] = some e ∧ now < e
  authorization :
    ∃ e, timestamp K a["authorizationExpiresAt"] = some e ∧ now < e

def authorityEvents (id lease : String) (a : Value) (now : ℤ) : List Action :=
  exchange (authorityRequest id lease) (response a) ++
    [⟨.clock, now⟩, ⟨.clock, now⟩]

theorem exec_notElapsed {v : Value} {now e : ℤ}
    (he : timestamp K v = some e) (hnow : now < e) :
    Exec world d (notElapsed K v).run [⟨.clock, now⟩] d (some (.ok ())) := by
  refine exec_perform_bind (o := .clock) (a := now) trivial
    (exec_checked_bind he ?_)
  rw [if_neg (Int.not_le.mpr hnow)]
  exact .ret _ _

theorem exec_authority {now : ℤ} {a : Value} (hid : p["taskId"] = .str id)
    (ha : Authorizes K now p a) :
    Exec world d (authority K p lease).run (authorityEvents id lease a now) d
      (some (.ok ())) := by
  obtain ⟨e₁, he₁, hnow₁⟩ := ha.expires
  obtain ⟨e₂, he₂, hnow₂⟩ := ha.authorization
  refine exec_checked_bind (Value.asStr?_eq_some.mpr hid) ?_
  refine exec_attempt_bind (exec_broker ha.sendable)
    (exec_ofExcept_bind rfl (exec_checked_bind ha.agrees ?_))
  exact Exec.bindOk (exec_notElapsed he₁ hnow₁) (exec_notElapsed he₂ hnow₂)

theorem exec_authorityOrCancel {now : ℤ} {a : Value}
    (hid : p["taskId"] = .str id) (ha : Authorizes K now p a) :
    Exec world d (authorityOrCancel K id p lease).run
      (authorityEvents id lease a now) d (some (.ok ())) := by
  have h : Exec world d (authorityOrCancel K id p lease).run
      (authorityEvents id lease a now ++ []) d (some (.ok ())) :=
    exec_attempt_bind (exec_authority hid ha) (.ret _ _)
  rwa [List.append_nil] at h

/-- A broker's receipt that does not settle its task. -/
structure Unsettling (v b : Value) : Prop where
  sendable : Sendable roomLimit v
  agrees : brokerReceiptMatches v b = some ()
  not_failed : v["state"] ≠ .str "failed"
  not_completed : v["state"] ≠ .str "completed"

theorem exec_reconcileBroker {v : Value} (hv : Unsettling v r.binding) :
    Exec world d (reconcileBroker K id r).run
      (exchange (brokerReceiptRequest id) (response v)) d
      (some (.ok (false, r))) := by
  have h : Exec world d (reconcileBroker K id r).run
      (exchange (brokerReceiptRequest id) (response v) ++ []) d
      (some (.ok (false, r))) := by
    refine Exec.bindOk (exec_broker hv.sendable)
      (exec_checked_bind hv.agrees ?_)
    rw [if_neg hv.not_failed, if_neg hv.not_completed]
    exact .ret _ _
  rwa [List.append_nil] at h

theorem exec_reconcileBroker_lost :
    Exec world d (reconcileBroker K id r).run
      (exchange (brokerReceiptRequest id) none) d
      (some (.error (.broker (.http none)))) :=
  Exec.bindError exec_broker_lost

end AgentGateway
