import AgentGateway.Conversation.Calls

/-!
# Files and authority

What `load` and `save` do, and the events of an authority check by the way it
ends.  A loss of authority is either answered by the broker or is the refusal
of the service token for the check.
-/

namespace AgentGateway

open Json (Value)
open Interaction
open Mediation

def authorityRequest (id lease : String) : RoomRequest :=
  taskRequest id "authority" (some lease) none

def brokerReceiptRequest (id : String) : RoomRequest :=
  taskRequest id "receipt" none none

def updateRequest (id lease : String) (u : Value) : RoomRequest :=
  taskRequest id "updates" (some lease) (some u)

open Dispatcher

variable {K : Crates} {c : Dispatcher} {G : Guarantees} {d : Directory}
  {h : List Action}

/-! ## Files -/

theorem save_ensures {id : String} {r : Record} {Q : Post Unit}
    (huuid : K.uuidParses id = true) (hG : ∀ ans, G d h ⟨.save id r, ans⟩)
    (hok : Q (d.write id r.toVec) (h ++ [⟨.save id r, .saved⟩]) (.ok ()))
    (hio : ∀ replaced, Q (written d ⟨.save id r, .failed replaced⟩)
      (h ++ [⟨.save id r, .failed replaced⟩]) (.error .state)) :
    Ensures G (save K id r) Q d h := by
  refine ensures_checked_bind (fun _ _ => ?_) (by simp [huuid, guard])
  refine ensures_bind.mpr (ensures_perform.mpr fun ans _ => ⟨hG ans, ?_⟩)
  cases ans with
  | saved => exact hok
  | failed replaced => exact hio replaced

/-- The ways in which `load` fails, by the events and the content. -/
inductive LoadError (K : Crates) (d : Directory) (id : String) :
    List Action → MediationError → Prop
  | path : K.uuidParses id ≠ true → LoadError K d id [] .validation
  | unreadable {content : Utf8.Bytes} :
      d id = some content → Record.read content = none →
        LoadError K d id [⟨.read id, .bytes content⟩] .validation
  | io : LoadError K d id [⟨.read id, .failed⟩] .state

theorem load_ensures {id : String} {Q : Post (Option Record)}
    (hG : G.Lenient)
    (hfound : ∀ content r, K.uuidParses id = true → d id = some content →
      Record.read content = some r →
        Q d (h ++ [⟨.read id, .bytes content⟩]) (.ok (some r)))
    (hmissing : K.uuidParses id = true → d id = none →
      Q d (h ++ [⟨.read id, .missing⟩]) (.ok none))
    (herr : ∀ es e, LoadError K d id es e → Q d (h ++ es) (.error e)) :
    Ensures G (load K id) Q d h := by
  refine ensures_checked_bind (fun _ hguard => ?_) (fun hguard => ?_)
  · have huuid : K.uuidParses id = true := by simpa [guard] using hguard
    refine ensures_quiet_bind trivial (fun _ _ => hG _ _ _ trivial) ?_
    intro ans hallowed
    cases ans with
    | bytes content =>
        refine ensures_checked_bind (fun r hr => ?_) (fun hr => ?_)
        · exact hfound content r huuid hallowed hr
        · exact herr _ _ (.unreadable hallowed hr)
    | missing => exact hmissing huuid hallowed
    | failed => exact herr _ _ .io
  · have huuid : K.uuidParses id ≠ true := by
      intro heq
      simp [heq, guard] at hguard
    simpa using herr [] _ (.path huuid)

theorem entryId_ensures {entry : DirEntry} {Q : Post (Option String)}
    (hother : (∀ stem, entry ≠ .file stem (some "json")) →
      entry ≠ .unreadable → Q d h (.ok none))
    (hid : ∀ id, entry = .file (some id) (some "json") →
      Q d h (.ok (some id)))
    (hstem : entry = .file none (some "json") → Q d h (.error .validation))
    (hunreadable : entry = .unreadable → Q d h (.error .state)) :
    Ensures G (entryId entry) Q d h := by
  cases entry with
  | unreadable => exact hunreadable rfl
  | file stem extension =>
      rw [entryId]
      split_ifs with hext
      · refine hother (fun stem' heq => ?_) (by rintro ⟨⟩)
        exact hext (DirEntry.file.inj heq).2
      · have hjson : extension = some "json" := not_not.mp hext
        subst hjson
        cases stem with
        | none => exact hstem rfl
        | some id => exact hid id rfl

/-- What is loaded is the durable record. -/
theorem record_of_read {id : String} {content : Utf8.Bytes} {r : Record}
    (hcontent : d id = some content) (hr : Record.read content = some r) :
    d.record id = some r := by
  rw [Record.read_eq] at hr
  split_ifs at hr
  rw [Directory.record, hcontent, Option.bind_some, hr]

/-! ## Authority -/

/-- The events of an authority check that succeeds. -/
inductive AuthorityShown (K : Crates) (p : Value) (lease : String) :
    List Action → Prop
  | intro {id : String} {es : List Action} {reply : Reply} {a : Value}
      {n₁ n₂ e₁ e₂ : ℤ} :
      p["taskId"] = .str id →
      Exchange (authorityRequest id lease) reply es →
      roomResponse reply = .ok (some a) → authorityMatches a p = some () →
      timestamp K a["expiresAt"] = some e₁ → n₁ < e₁ →
      timestamp K a["authorizationExpiresAt"] = some e₂ → n₂ < e₂ →
        AuthorityShown K p lease (es ++ [⟨.clock, n₁⟩, ⟨.clock, n₂⟩])

/-- The statuses that count as a loss of authority. -/
def lossStatus (status : ℕ) : Prop :=
  status = 403 ∨ status = 409 ∨ status = 410

/-- The broker's answer to an authority check shows a loss of authority. -/
inductive AuthorityAnsweredLoss (K : Crates) (p : Value) (lease : String) :
    List Action → Prop
  | status {id : String} {es : List Action} {response : Response} :
      p["taskId"] = .str id →
      Exchange (authorityRequest id lease) (some response) es →
      lossStatus response.status → AuthorityAnsweredLoss K p lease es
  | elapsed {id : String} {es : List Action} {reply : Reply} {a : Value}
      {n e : ℤ} :
      p["taskId"] = .str id →
      Exchange (authorityRequest id lease) reply es →
      roomResponse reply = .ok (some a) → authorityMatches a p = some () →
      timestamp K a["expiresAt"] = some e → e ≤ n →
        AuthorityAnsweredLoss K p lease (es ++ [⟨.clock, n⟩])
  | authorizationElapsed {id : String} {es : List Action} {reply : Reply}
      {a : Value} {n₁ n₂ e : ℤ} :
      p["taskId"] = .str id →
      Exchange (authorityRequest id lease) reply es →
      roomResponse reply = .ok (some a) → authorityMatches a p = some () →
      timestamp K a["authorizationExpiresAt"] = some e → e ≤ n₂ →
        AuthorityAnsweredLoss K p lease
          (es ++ [⟨.clock, n₁⟩, ⟨.clock, n₂⟩])

/-- The token endpoint refuses the token for an authority check, with a status
that counts as a loss of authority. -/
def Refusal (a : Action) : Prop :=
  ∃ id lease t, a = ⟨.serviceToken (authorityRequest id lease), some t⟩ ∧
    lossStatus t.status

def Clean (es : List Action) : Prop := ∀ a ∈ es, ¬Refusal a

inductive AuthorityError (K : Crates) (p : Value) (lease : String) :
    List Action → MediationError → Prop
  | answered {es : List Action} :
      AuthorityAnsweredLoss K p lease es →
        AuthorityError K p lease es .authorityLost
  | refused {a : Action} :
      Refusal a → AuthorityError K p lease [a] .authorityLost
  | uncertain {es : List Action} {e : MediationError} :
      (∀ a ∈ es, a.op.Room) → Clean es → e.Uncertain →
        AuthorityError K p lease es e

theorem Clean.append {es fs : List Action} (hes : Clean es)
    (hfs : Clean fs) : Clean (es ++ fs) := by
  intro a ha
  rcases List.mem_append.mp ha with ha | ha
  · exact hes a ha
  · exact hfs a ha

/-- Only a token for an authority check can be refused. -/
theorem clean_of_op {es : List Action}
    (hes : ∀ a ∈ es, ∀ id lease,
      a.op ≠ .serviceToken (authorityRequest id lease)) : Clean es := by
  rintro a ha ⟨id, lease, t, rfl, _⟩
  exact hes _ ha id lease rfl

theorem clean_of_worker {es : List Action} (hes : ∀ a ∈ es, a.op.Worker) :
    Clean es := by
  refine clean_of_op fun a ha id lease heq => ?_
  have hworker := hes a ha
  rw [heq] at hworker
  exact hworker

theorem not_lossStatus_of_token {t : TokenResponse} {token : String}
    (ht : serviceAccessToken (some t) = .ok token) : ¬lossStatus t.status := by
  rintro (hs | hs | hs) <;>
    simp [serviceAccessToken, isErrorStatus, hs] at ht

/-- A request that was sent had its token. -/
theorem Exchange.clean {req : RoomRequest} {reply : Reply} {es : List Action}
    (hes : Exchange req reply es) : Clean es := by
  cases hes with
  | @intro t token ht =>
      rintro a ha ⟨id, lease, t', rfl, hloss⟩
      simp only [List.mem_cons, List.not_mem_nil, or_false] at ha
      rcases ha with heq | heq
      · cases heq
        exact not_lossStatus_of_token ht hloss
      · cases heq

theorem BrokerError.clean {id suffix : String} {lease : Option String}
    {body : Option Value} {es : List Action} {e : MediationError}
    (he : BrokerError (taskRequest id suffix lease body) es e)
    (hsuffix : suffix ≠ "authority") : Clean es := by
  refine clean_of_op fun a ha i l heq => ?_
  rcases he.op ha with hop | hop
  · rw [heq] at hop
    injection hop with hop
    exact hsuffix (RoomPath.task.inj (congrArg RoomRequest.path hop)).2.symm
  · rw [heq] at hop
    cases hop

theorem not_isUpdate_authority (id lease : String) :
    ¬(authorityRequest id lease).IsUpdate := by
  simp [authorityRequest, isUpdate_taskRequest]

theorem Exchange.room {req : RoomRequest} {reply : Reply} {es : List Action}
    (hes : Exchange req reply es) (hreq : ¬req.IsUpdate) :
    ∀ a ∈ es, a.op.Room :=
  fun _ ha => room_of_op hreq (hes.op ha)

theorem room_clocks {es : List Action} (hes : ∀ a ∈ es, a.op.Room)
    (ns : List ℤ) :
    ∀ a ∈ es ++ ns.map (fun n => (⟨.clock, n⟩ : Action)), a.op.Room := by
  intro a ha
  rcases List.mem_append.mp ha with ha | ha
  · exact hes a ha
  · obtain ⟨n, _, rfl⟩ := List.mem_map.mp ha
    trivial

theorem clean_clocks {es : List Action} (hes : Clean es) (ns : List ℤ) :
    Clean (es ++ ns.map (fun n => (⟨.clock, n⟩ : Action))) := by
  refine hes.append (clean_of_op fun a ha id lease => ?_)
  obtain ⟨n, _, rfl⟩ := List.mem_map.mp ha
  rintro ⟨⟩

theorem AuthorityShown.room {p : Value} {lease : String} {es : List Action}
    (hes : AuthorityShown K p lease es) : ∀ a ∈ es, a.op.Room := by
  cases hes with
  | @intro id es reply a n₁ n₂ _ _ _ hex _ _ _ _ _ _ =>
      exact room_clocks (hex.room (not_isUpdate_authority id lease)) [n₁, n₂]

theorem AuthorityShown.clean {p : Value} {lease : String} {es : List Action}
    (hes : AuthorityShown K p lease es) : Clean es := by
  cases hes with
  | @intro id es reply a n₁ n₂ _ _ _ hex _ _ _ _ _ _ =>
      exact clean_clocks hex.clean [n₁, n₂]

theorem AuthorityAnsweredLoss.room {p : Value} {lease : String}
    {es : List Action} (hes : AuthorityAnsweredLoss K p lease es) :
    ∀ a ∈ es, a.op.Room := by
  cases hes with
  | @status id _ _ _ hex _ => exact hex.room (not_isUpdate_authority id lease)
  | @elapsed id _ _ _ n _ _ hex _ _ _ _ =>
      exact room_clocks (hex.room (not_isUpdate_authority id lease)) [n]
  | @authorizationElapsed id _ _ _ n₁ n₂ _ _ hex _ _ _ _ =>
      exact room_clocks (hex.room (not_isUpdate_authority id lease)) [n₁, n₂]

theorem AuthorityAnsweredLoss.clean {p : Value} {lease : String}
    {es : List Action} (hes : AuthorityAnsweredLoss K p lease es) :
    Clean es := by
  cases hes with
  | status _ hex _ => exact hex.clean
  | @elapsed _ _ _ _ n _ _ hex _ _ _ _ => exact clean_clocks hex.clean [n]
  | @authorizationElapsed _ _ _ _ n₁ n₂ _ _ hex _ _ _ _ =>
      exact clean_clocks hex.clean [n₁, n₂]

theorem AuthorityError.room {p : Value} {lease : String} {es : List Action}
    {e : MediationError} (hes : AuthorityError K p lease es e) :
    ∀ a ∈ es, a.op.Room := by
  cases hes with
  | answered hloss => exact hloss.room
  | refused hrefusal =>
      obtain ⟨id, l, t, rfl, _⟩ := hrefusal
      simp [Op.Room]
  | uncertain hroom _ _ => exact hroom

theorem authorityError_cases (e : MediationError) :
    (∃ status, lossStatus status ∧ e = .broker (.http (some status)) ∧
        authorityError e = .authorityLost) ∨
      (authorityError e = e ∧
        ∀ status, e = .broker (.http (some status)) → ¬lossStatus status) := by
  unfold authorityError
  split
  · next status =>
    by_cases hstatus : status = 403 ∨ status = 409 ∨ status = 410
    · exact .inl ⟨status, hstatus, rfl, if_pos hstatus⟩
    · refine .inr ⟨if_neg hstatus, ?_⟩
      rintro s heq
      cases heq
      exact hstatus
  · next hne => exact .inr ⟨rfl, fun status heq => absurd heq (hne status)⟩

/-- How `authority` passes on the error of its request. -/
theorem authorityError_of_brokerError {p : Value} {id lease : String}
    {es : List Action} {e : MediationError} (hid : p["taskId"] = .str id)
    (he : BrokerError (authorityRequest id lease) es e) :
    AuthorityError K p lease es (authorityError e) := by
  have hroom : ∀ a ∈ es, a.op.Room := fun _ ha =>
    room_of_op (not_isUpdate_authority id lease) (he.op ha)
  rcases authorityError_cases e with ⟨status, hloss, rfl, heq⟩ | ⟨heq, hne⟩
  · rw [heq]
    cases he with
    | refused ht =>
        obtain ⟨r, rfl, hstatus⟩ := serviceAccessToken_http ht
        exact .refused ⟨id, lease, r, rfl, hstatus ▸ hloss⟩
    | failed hex hr =>
        obtain ⟨r, rfl, hstatus⟩ := roomResponse_http hr
        exact .answered (.status hid hex (hstatus ▸ hloss))
  · rw [heq]
    refine .uncertain hroom ?_ he.uncertain
    cases he with
    | @refused t e ht =>
        rintro a ha ⟨i, l, t', rfl, hloss⟩
        rw [List.mem_singleton] at ha
        cases ha
        refine hne t'.status ?_ hloss
        have herror : isErrorStatus t'.status = true := by
          rcases hloss with hs | hs | hs <;> simp [isErrorStatus, hs]
        rw [serviceAccessToken, if_pos herror] at ht
        cases ht
        rfl
    | failed hex _ => exact hex.clean
    | empty hex _ => exact hex.clean

/-- One comparison with the clock. -/
theorem notElapsed_ensures {v : Value} {Q : Post Unit} (hG : G.Lenient)
    (hok : ∀ n e, timestamp K v = some e → n < e →
      Q d (h ++ [⟨.clock, n⟩]) (.ok ()))
    (hlost : ∀ n e, timestamp K v = some e → e ≤ n →
      Q d (h ++ [⟨.clock, n⟩]) (.error .authorityLost))
    (herr : ∀ n, Q d (h ++ [⟨.clock, n⟩]) (.error .validation)) :
    Ensures G (notElapsed K v) Q d h := by
  refine ensures_quiet_bind trivial (fun _ _ => hG _ _ _ trivial) ?_
  intro (n : ℤ) _
  refine ensures_checked_bind (fun e he => ?_) (fun _ => herr n)
  split_ifs with hle
  · exact hlost n e he hle
  · exact hok n e he (Int.not_le.mp hle)

theorem authority_ensures {p : Value} {lease : String} {Q : Post Unit}
    (hG : G.Lenient)
    (hok : ∀ es, AuthorityShown K p lease es → Q d (h ++ es) (.ok ()))
    (herr : ∀ es e, AuthorityError K p lease es e →
      Q d (h ++ es) (.error e)) :
    Ensures G (authority K p lease) Q d h := by
  refine ensures_checked_bind (fun id hid => ?_) (fun _ => ?_)
  · rw [Value.asStr?_eq_some] at hid
    refine ensures_bind.mpr (ensures_attempt.mpr ?_)
    refine ask_ensures hG (by decide) ?_ ?_
    · intro es reply a hex ha
      refine ensures_bind.mpr (ensures_ofExcept.mpr ?_)
      have hroom := hex.room (not_isUpdate_authority id lease)
      refine ensures_checked_bind (fun _ hmatch => ?_) (fun _ => ?_)
      · refine ensures_bind.mpr (notElapsed_ensures hG ?_ ?_ ?_)
        · intro n₁ e₁ he₁ hlt₁
          rw [List.append_assoc]
          refine notElapsed_ensures hG ?_ ?_ ?_
          · intro n₂ e₂ he₂ hlt₂
            rw [List.append_assoc, List.append_assoc]
            exact hok _ (.intro hid hex ha hmatch he₁ hlt₁ he₂ hlt₂)
          · intro n₂ e₂ he₂ hle₂
            rw [List.append_assoc, List.append_assoc]
            exact herr _ _
              (.answered (.authorizationElapsed hid hex ha hmatch he₂ hle₂))
          · intro n₂
            rw [List.append_assoc, List.append_assoc]
            exact herr _ _ (.uncertain (room_clocks hroom [n₁, n₂])
              (clean_clocks hex.clean [n₁, n₂]) uncertain_validation)
        · intro n e he hle
          rw [List.append_assoc]
          exact herr _ _ (.answered (.elapsed hid hex ha hmatch he hle))
        · intro n
          rw [List.append_assoc]
          exact herr _ _ (.uncertain (room_clocks hroom [n])
            (clean_clocks hex.clean [n]) uncertain_validation)
      · exact herr _ _ (.uncertain hroom hex.clean uncertain_validation)
    · intro es e he
      refine ensures_bind.mpr (ensures_ofExcept.mpr ?_)
      exact herr _ _ (authorityError_of_brokerError hid he)
  · have hnil : Clean [] := by
      rintro a ⟨⟩
    simpa using
      herr [] _ (.uncertain (by simp) hnil uncertain_validation)

end AgentGateway
