import AgentGateway.Task.Deterministic

/-!
# Agreement

The stream of the reference agent passes the adapter, what the adapter admits
passes the dispatcher, and a task whose events arrive and whose submissions are
accepted succeeds, however events and the end of the invocation interleave.
-/

namespace AgentGateway.Task

open Interaction
open Json (Value)

variable {F : Formats} {α β : Type}

/-! ## The stream of the agent -/

theorem verified_of_expectedResult {p : RoomContextPacket} {now : DateTime}
    {result : Value} (h : expectedResult F p now = .ok result) :
    Verified F p now := by
  unfold expectedResult at h
  split at h
  · cases h
  next hok => exact verifyPacketAt_eq_ok.mp hok

theorem ordered_expectedResult {p : RoomContextPacket} {now : DateTime}
    {result : Value} (h : expectedResult F p now = .ok result) :
    AgentGateway.Ordered result := by
  have hverified := verified_of_expectedResult h
  have hskill : p.skillId = "summarize-context" ∨
      p.skillId = "extract-action-items" := by
    simpa [skills] using hverified.skill
  have hstr : ∀ s, AgentGateway.Ordered (.str s) := fun _ => .str trivial
  rcases hskill with hskill | hskill
  · rw [expectedResult_summary hverified hskill, Except.ok.injEq] at h
    subst h
    exact ordered_summaryResult p
  · obtain ⟨e, id, _, _, hresult⟩ := expectedResult_actions hverified hskill
    rw [hresult, Except.ok.injEq] at h
    subst h
    have hitems : AgentGateway.Ordered
        (.arr ((actionItems p.input).map ActionItem.value)) := by
      refine .arr trivial fun x hx => ?_
      obtain ⟨item, _, rfl⟩ := List.mem_map.mp hx
      apply ordered_object
      simp [hstr]
    have hcitation : AgentGateway.Ordered (.arr [.str id]) :=
      .arr trivial (by simp [hstr])
    apply ordered_object
    simp [hstr, hitems, hcitation]

/-- A revision as the agent writes it, or as a double of the same value. -/
inductive Transported (F : Formats) (p : RoomContextPacket) : Value → Prop
  | integer : Transported F p (integer p.contextRevision)
  | double {text : String} : F.asF64 (.float text) = p.contextRevision →
      Transported F p (.num (.float text))

theorem Transported.decodes {p : RoomContextPacket} {v : Value}
    (h : Transported F p v) (hzero : 0 ≤ p.contextRevision)
    (hmax : p.contextRevision ≤ maxDouble) :
    decodeRevision F v = some p.contextRevision := by
  cases h with
  | integer => exact decodeRevision_integer p.revision_range
  | @double text htext =>
      have hlow : ¬((p.contextRevision : ℚ) < -maxDouble) := by
        have hle : -maxDouble ≤ p.contextRevision := by
          have hpos : (0 : ℤ) ≤ maxDouble := by decide
          omega
        rw [not_lt]
        exact_mod_cast hle
      have hhigh : ¬((maxDouble : ℚ) < p.contextRevision) := by
        rw [not_lt]
        exact_mod_cast hmax
      have hden : (p.contextRevision : ℚ).den = 1 := Rat.den_intCast _
      simp [decodeRevision, asI64?, htext, hlow, hhigh]

theorem Transported.ordered {p : RoomContextPacket} {v : Value}
    (h : Transported F p v) : AgentGateway.Ordered v := by
  cases h with
  | integer => exact ordered_integer _
  | double _ => exact .num trivial

/-! ## Incremental admission -/

theorem admitFrom_eq_true {p : RoomContextPacket} {now : DateTime} {i : ℕ}
    {stream : List StreamResponse} {evs : List A2aTaskEvent} :
    admitFrom F p now i stream = (evs, true) ↔
      i + stream.length = 4 ∧ validateFrom F p now i stream = some evs := by
  induction stream generalizing i evs with
  | nil => simp [admitFrom, validateFrom, eq_comm, and_comm]
  | cons e stream ih =>
      rw [validateFrom_cons, admitFrom, List.length_cons]
      cases hevent : validateEvent F p now e i with
      | none => simp
      | some ev =>
          simp only [Prod.mk.injEq, Option.some.injEq]
          have hrest := @ih (i + 1) (admitFrom F p now (i + 1) stream).1
          constructor
          · rintro ⟨rfl, hok⟩
            obtain ⟨hlength, hvalid⟩ := hrest.mp (Prod.ext rfl hok)
            exact ⟨by omega, ev, _, rfl, hvalid, rfl⟩
          · rintro ⟨hlength, _, rest, rfl, hvalid, rfl⟩
            have hrest' := ih.mpr ⟨by omega, hvalid⟩
            rw [hrest']
            exact ⟨rfl, rfl⟩

/-- What is emitted comes from an admissible beginning of the stream. -/
theorem admitFrom_beginning (p : RoomContextPacket) (now : DateTime) (i : ℕ)
    (stream : List StreamResponse) : ∃ pre rest, stream = pre ++ rest ∧
      validateFrom F p now i pre = some (admitFrom F p now i stream).1 := by
  induction stream generalizing i with
  | nil => exact ⟨[], [], rfl, rfl⟩
  | cons e stream ih =>
      rw [admitFrom]
      cases hevent : validateEvent F p now e i with
      | none => exact ⟨[], e :: stream, rfl, rfl⟩
      | some ev =>
          obtain ⟨pre, rest, rfl, hpre⟩ := ih (i + 1)
          refine ⟨e :: pre, rest, rfl, ?_⟩
          rw [validateFrom_cons]
          exact ⟨ev, _, hevent, hpre, rfl⟩

/-! ## Admission by the dispatcher -/

theorem admitted_of_validateEvent {p : RoomContextPacket} {now : DateTime}
    {e : StreamResponse} {i : ℕ} {ev : A2aTaskEvent}
    (h : validateEvent F p now e i = some ev) : Admitted F p i ev := by
  unfold validateEvent at h
  split at h
  · obtain ⟨_, rfl⟩ := submittedEvent_eq_some.mp h
    exact .submitted
  · obtain ⟨_, rfl⟩ := workingEvent_eq_some.mp h
    exact .reading
  · obtain ⟨_, rfl⟩ := workingEvent_eq_some.mp h
    exact .preparing
  · obtain ⟨_, _, _, _, _, _, _, _, hresult, rfl⟩ :=
      completedEvent_eq_some.mp h
    exact .completed hresult
  · cases h

theorem admitted_of_validateFrom {p : RoomContextPacket} {now : DateTime}
    {i : ℕ} {stream : List StreamResponse} {evs : List A2aTaskEvent}
    (h : validateFrom F p now i stream = some evs) {j : ℕ} {ev : A2aTaskEvent}
    (hev : evs[j]? = some ev) : Admitted F p (i + j) ev := by
  induction stream generalizing i j evs with
  | nil =>
      rw [validateFrom_nil] at h
      simp [h] at hev
  | cons e stream ih =>
      obtain ⟨first, rest, hfirst, hrest, rfl⟩ := validateFrom_cons.mp h
      cases j with
      | zero =>
          obtain rfl : first = ev := by simpa using hev
          exact admitted_of_validateEvent hfirst
      | succ j =>
          have htail := ih hrest (by simpa using hev)
          rwa [Nat.add_assoc, Nat.add_comm 1 j] at htail

/-- The clock is read before a packet expires. -/
def InTime (p : RoomContextPacket) : Event Room → Prop
  | ⟨.now, (now : DateTime)⟩ => now < p.expiresAt
  | _ => True

theorem validateResult_in_time {p : RoomContextPacket} {now later : DateTime}
    {result : Value} (h : expectedResult F p now = .ok result)
    (hlater : later < p.expiresAt) : validateResult F p later result = true := by
  have hverified := verified_of_expectedResult h
  rw [validateResult_eq_true, ← h]
  exact expectedResult_eq (hverified.later hlater) hverified

theorem validateAgentEvent_completed (p : RoomContextPacket)
    (result : Value) :
    validateAgentEvent F p (.completed 3 result p.binding) 3 =
      (do let now : DateTime ← ask .now
          return validateResult F p now result) := by
  simp [validateAgentEvent, A2aTaskEvent.ordinal]

/-- What is admitted at a position is accepted there while the packet lasts. -/
theorem Admitted.accepted {p : RoomContextPacket} {i : ℕ} {ev : A2aTaskEvent}
    (h : Admitted F p i ev) :
    (validateAgentEvent F p ev i).run.Yields fun es r =>
      (∀ e ∈ es, InTime p e) → r = some true := by
  cases h with
  | submitted => exact fun _ => rfl
  | reading => exact fun _ => rfl
  | preparing => exact fun _ => rfl
  | @completed now result hresult =>
      rw [validateAgentEvent_completed]
      refine yields_ask.mpr fun later => ?_
      refine yields_pure.mpr fun htime => ?_
      have hlater : later < p.expiresAt := htime ⟨.now, later⟩ (by simp)
      rw [validateResult_in_time hresult hlater]

/-! ## A helpful environment -/

/-- The answers under which a task is to succeed, where `s` are the events that
are still to be delivered.  The invocation may end at any time; the channel is
closed once it is empty. -/
def Helpful (claimed : ContextResponse) (p : RoomContextPacket)
    (s : List A2aTaskEvent) : Event Room → Prop
  | ⟨.claim _, (answer : Except Bool (Option ContextResponse))⟩ =>
      answer = .ok (some claimed)
  | ⟨.fetchContext _ _, (fetched : Option ContextResponse)⟩ =>
      fetched = some ⟨p, claimed.leaseToken⟩
  | ⟨.now, (now : DateTime)⟩ => now < p.expiresAt
  | ⟨.invoke _ _, _⟩ => True
  | ⟨.select, (selected : Selected)⟩ =>
      selected = .invocation .finished ∨ selected = .event s.head?
  | ⟨.recv, (event : Option A2aTaskEvent)⟩ => event = s.head?
  | ⟨.invocation, (result : Invocation)⟩ => result = .finished
  | ⟨.submitUpdate _ _ _ _, (answer : Answer)⟩ => answer = .accepted

def helpful (claimed : ContextResponse) (p : RoomContextPacket) :
    Environment Room (List A2aTaskEvent) where
  allows := Helpful claimed p
  update s e := if (delivered? e).isSome then s.tail else s

variable {claimed : ContextResponse} {p : RoomContextPacket}

/-- Some answer is always given, as long as the packet has not expired. -/
theorem helpful_answers {now : DateTime} (hnow : now < p.expiresAt)
    (s : List A2aTaskEvent) (op : Op) :
    ∃ ans : op.Ans, (helpful claimed p).allows s ⟨op, ans⟩ := by
  cases op with
  | claim => exact ⟨Except.ok (some claimed), rfl⟩
  | fetchContext => exact ⟨some ⟨p, claimed.leaseToken⟩, rfl⟩
  | now => exact ⟨now, hnow⟩
  | invoke => exact ⟨(), trivial⟩
  | select => exact ⟨.invocation .finished, .inl rfl⟩
  | recv => exact ⟨s.head?, rfl⟩
  | invocation => exact ⟨.finished, rfl⟩
  | submitUpdate => exact ⟨.accepted, rfl⟩

/-- In the helpful environment the call comes back with a value in `Q`. -/
def Returns (claimed : ContextResponse) (p : RoomContextPacket) (c : Call α)
    (s : List A2aTaskEvent) (h : List (Event Room))
    (Q : List A2aTaskEvent → List (Event Room) → α → Prop) : Prop :=
  c.run.Ensures (helpful claimed p) (fun _ _ _ => True)
    (fun s' h' r => ∃ a, r = some a ∧ Q s' h' a) s h

variable {s : List A2aTaskEvent} {h : List (Event Room)}

theorem returns_pure {a : α}
    {Q : List A2aTaskEvent → List (Event Room) → α → Prop} (ha : Q s h a) :
    Returns claimed p (pure a) s h Q :=
  ⟨a, rfl, ha⟩

theorem returns_ask {op : Op} {f : op.Ans → Call α}
    {Q : List A2aTaskEvent → List (Event Room) → α → Prop}
    (hf : ∀ ans, (helpful claimed p).allows s ⟨op, ans⟩ →
      Returns claimed p (f ans) ((helpful claimed p).update s ⟨op, ans⟩)
        (h ++ [⟨op, ans⟩]) Q) :
    Returns claimed p (ask op >>= f) s h Q :=
  fun ans hans => ⟨trivial, hf ans hans⟩

theorem Returns.bind {c : Call α} {f : α → Call β}
    {Q : List A2aTaskEvent → List (Event Room) → α → Prop}
    {R : List A2aTaskEvent → List (Event Room) → β → Prop}
    (hc : Returns claimed p c s h Q)
    (hf : ∀ s' h' a, Q s' h' a → Returns claimed p (f a) s' h' R) :
    Returns claimed p (c >>= f) s h R := by
  rw [Returns, OptionT.run_bind, Option.elimM, Prog.ensures_bind]
  refine Prog.Ensures.mono hc ?_
  rintro s' h' r ⟨a, rfl, ha⟩
  exact hf s' h' a ha

theorem Returns.mono {c : Call α}
    {Q R : List A2aTaskEvent → List (Event Room) → α → Prop}
    (hc : Returns claimed p c s h Q)
    (himp : ∀ s' h' a, Q s' h' a → R s' h' a) :
    Returns claimed p c s h R := by
  refine Prog.Ensures.mono hc ?_
  rintro s' h' r ⟨a, rfl, ha⟩
  exact ⟨a, rfl, himp s' h' a ha⟩

/-! ## A task that succeeds -/

theorem submissions_snoc {e : Event Room} (he : submission? e = none) :
    submissions (h ++ [e]) = submissions h := by
  simp [submissions, he]

theorem submit_returns (leaseToken : Uuid) (request : TaskUpdateRequest)
    {patience : ℕ} (hpatience : 1 ≤ patience) :
    Returns claimed p (submit p leaseToken request patience) s h
      fun s' h' r => r = .ok () ∧ s' = s ∧ submissions h' =
        submissions h ++ [(⟨p.taskId, leaseToken, request⟩, true)] := by
  obtain ⟨n, rfl⟩ := Nat.exists_eq_add_of_le' hpatience
  rw [submit]
  refine returns_ask fun now hnow => ?_
  have hfresh : ¬p.expiresAt ≤ now := not_le.mpr hnow
  rw [if_neg hfresh]
  refine returns_ask fun later _ => returns_ask fun answer hanswer => ?_
  cases hanswer
  refine returns_pure ⟨rfl, rfl, ?_⟩
  simp only [List.append_assoc, submissions_append]
  rfl

/-- The events of a result, in order. -/
def eventsOf (p : RoomContextPacket) (result : Value) : List A2aTaskEvent :=
  [.submitted 0, .working 1 readingText, .working 2 preparingText,
    .completed 3 result p.binding]

theorem Admitted.returns {i : ℕ} {ev : A2aTaskEvent}
    (hev : Admitted F p i ev) :
    Returns claimed p (validateAgentEvent F p ev i) s h fun s' h' r =>
      r = true ∧ s' = s ∧ submissions h' = submissions h := by
  cases hev with
  | submitted => exact returns_pure ⟨rfl, rfl, rfl⟩
  | reading => exact returns_pure ⟨rfl, rfl, rfl⟩
  | preparing => exact returns_pure ⟨rfl, rfl, rfl⟩
  | @completed now result hresult =>
      rw [validateAgentEvent_completed]
      refine returns_ask fun later hlater => returns_pure ⟨?_, rfl, ?_⟩
      · exact validateResult_in_time hresult hlater
      · exact submissions_snoc rfl

/-- The state of the loop after some of the events. -/
def stateAfter (result : Value) (done : Bool) (i : ℕ) : LoopState where
  invocationDone := done
  received := i
  terminal := if i = 4 then some (3, result) else none
  submittedUpdates := min i 3

variable (F) in
/-- The progress that is still to be reported. -/
def progressFrom (p : RoomContextPacket) (leaseToken : Uuid) (i : ℕ) :
    List (Submission × Bool) :=
  (List.range' i (3 - i)).map fun j =>
    ((Update.progressed j).submission F p leaseToken, true)

theorem nextEvent_returns (done : Bool) :
    Returns claimed p (nextEvent done) s h fun s' h' selected =>
      submissions h' = submissions h ∧
        ((done = false ∧ selected = .invocation .finished ∧ s' = s) ∨
          (selected = .event s.head? ∧ s' = s.tail)) := by
  have htail : s.head? = none → s = s.tail := by
    intro hnone
    rw [List.head?_eq_none_iff.mp hnone]
    rfl
  unfold nextEvent
  cases done with
  | true =>
      refine returns_ask fun event hevent => ?_
      obtain rfl : event = s.head? := hevent
      refine returns_pure ⟨submissions_snoc rfl, .inr ⟨rfl, ?_⟩⟩
      cases s <;> rfl
  | false =>
      rintro selected (rfl | rfl)
      · exact ⟨trivial, _, rfl, submissions_snoc rfl, .inl ⟨rfl, rfl, rfl⟩⟩
      · refine ⟨trivial, _, rfl, submissions_snoc rfl, .inr ⟨rfl, ?_⟩⟩
        cases s <;> rfl

/-- Progress that is accepted, and what comes after it. -/
theorem reportProgress_returns (leaseToken : Uuid) {patience : ℕ}
    (hpatience : 1 ≤ patience) (i received : ℕ) {next : Call Exit}
    {Q : List A2aTaskEvent → List (Event Room) → Exit → Prop}
    (hnext : ∀ h', submissions h' = submissions h ++
      [((Update.progressed i).submission F p leaseToken, true)] →
        Returns claimed p next s h' Q) :
    Returns claimed p (reportProgress F patience p leaseToken
      ((Update.progressed i).request F p) received next) s h Q := by
  refine (submit_returns leaseToken _ hpatience).bind ?_
  rintro s' h' r ⟨rfl, rfl, hsubmitted⟩
  exact hnext h' hsubmitted

theorem progressFrom_eq_cons {leaseToken : Uuid} {i : ℕ} (hi : i < 3) :
    progressFrom F p leaseToken i =
      ((Update.progressed i).submission F p leaseToken, true) ::
        progressFrom F p leaseToken (i + 1) := by
  have hrange : List.range' i (3 - i) =
      i :: List.range' (i + 1) (3 - (i + 1)) := by
    rw [← List.range'_succ]
    congr 1
    omega
  rw [progressFrom, hrange, List.map_cons, progressFrom]

/-- The event that comes next. -/
theorem exists_next {result : Value} {now : DateTime}
    (hresult : expectedResult F p now = .ok result) {i : ℕ} (hi : i < 4) :
    ∃ ev, Admitted F p i ev ∧
      (eventsOf p result).drop i = ev :: (eventsOf p result).drop (i + 1) := by
  have hcases : i = 0 ∨ i = 1 ∨ i = 2 ∨ i = 3 := by omega
  rcases hcases with rfl | rfl | rfl | rfl
  · exact ⟨_, .submitted, rfl⟩
  · exact ⟨_, .reading, rfl⟩
  · exact ⟨_, .preparing, rfl⟩
  · exact ⟨_, .completed hresult, rfl⟩

/-- The loop takes all events and is left by `break`. -/
theorem eventLoop_returns {result : Value} {now : DateTime}
    (hresult : expectedResult F p now = .ok result) (leaseToken : Uuid)
    {patience : ℕ} (hpatience : 1 ≤ patience) {i n : ℕ} {done : Bool}
    (hi : i ≤ 4) (hn : 6 ≤ i + n + done.toNat) :
    Returns claimed p (eventLoop F patience p leaseToken n
        (stateAfter result done i)) ((eventsOf p result).drop i) h
      fun _ h' exit => (∃ done', exit = .inr (stateAfter result done' 4)) ∧
        submissions h' = submissions h ++ progressFrom F p leaseToken i := by
  induction n generalizing i done h with
  | zero =>
      have hle : done.toNat ≤ 1 := done.toNat_le
      omega
  | succ n ih =>
      rw [eventLoop]
      refine (nextEvent_returns _).bind ?_
      rintro s' h' selected ⟨hquiet, ⟨hdone, rfl, rfl⟩ | ⟨rfl, rfl⟩⟩
      · have hdone' : done = false := hdone
        subst hdone'
        have hturns : 6 ≤ i + n + true.toNat := by
          simp only [Bool.toNat_false, Bool.toNat_true] at hn ⊢
          omega
        refine (ih hi hturns).mono ?_
        rintro s'' h'' exit ⟨hexit, hsubmitted⟩
        exact ⟨hexit, by rw [hsubmitted, hquiet]⟩
      by_cases hfour : i = 4
      · subst hfour
        refine returns_pure ⟨⟨done, rfl⟩, ?_⟩
        rw [hquiet]
        exact (List.append_nil _).symm
      have hlt : i < 4 := by omega
      obtain ⟨ev, hadmitted, hdrop⟩ := exists_next hresult hlt
      rw [hdrop]
      refine hadmitted.returns.bind ?_
      rintro s'' h'' valid ⟨rfl, rfl, hvalid⟩
      have hturns : 6 ≤ i + 1 + n + done.toNat := by omega
      have hprogress : i < 3 → ∀ h₁, submissions h₁ = submissions h'' ++
          [((Update.progressed i).submission F p leaseToken, true)] →
          Returns claimed p (eventLoop F patience p leaseToken n
            (stateAfter result done (i + 1)))
            ((eventsOf p result).drop (i + 1)) h₁ fun _ h' exit =>
              (∃ done', exit = .inr (stateAfter result done' 4)) ∧
              submissions h' = submissions h ++
                progressFrom F p leaseToken i := by
        intro hthree h₁ hh₁
        refine (ih hlt hturns).mono ?_
        rintro s₂ h₂ exit ⟨hexit, hsubmitted⟩
        refine ⟨hexit, ?_⟩
        rw [hsubmitted, hh₁, hvalid, hquiet, progressFrom_eq_cons hthree,
          List.append_assoc, List.singleton_append]
      cases hadmitted with
      | submitted =>
          exact reportProgress_returns leaseToken hpatience 0 1
            (hprogress (by decide))
      | reading =>
          exact reportProgress_returns leaseToken hpatience 1 2
            (hprogress (by decide))
      | preparing =>
          exact reportProgress_returns leaseToken hpatience 2 3
            (hprogress (by decide))
      | @completed now' result' _ =>
          obtain rfl : result = result' := by simpa [eventsOf] using hdrop
          refine (ih le_rfl hturns).mono ?_
          rintro s₂ h₂ exit ⟨hexit, hsubmitted⟩
          refine ⟨hexit, ?_⟩
          rw [hsubmitted, hvalid, hquiet]
          rfl

/-- The updates of a task that succeeds. -/
def succeededUpdates (result : Value) : List Update :=
  (List.range 3).map Update.progressed ++ [.succeeded result]

theorem conclude_returns {result : Value} (done : Bool) (leaseToken : Uuid)
    {patience : ℕ} (hpatience : 1 ≤ patience) :
    Returns claimed p (conclude F patience p leaseToken
        (stateAfter result done 4)) s h fun _ h' r => r = .ok 4 ∧
      submissions h' = submissions h ++
        [((Update.succeeded result).submission F p leaseToken, true)] := by
  have hawait : Returns claimed p (awaitInvocation done) s h
      fun s' h' r => r = .finished ∧ s' = s ∧
        submissions h' = submissions h := by
    cases done with
    | true => exact returns_pure ⟨rfl, rfl, rfl⟩
    | false =>
        rintro ended rfl
        exact ⟨trivial, _, rfl, rfl, rfl, submissions_snoc rfl⟩
  refine hawait.bind ?_
  rintro s' h' ended ⟨rfl, rfl, hquiet⟩
  refine (submit_returns leaseToken _ hpatience).bind ?_
  rintro s₂ h₂ r ⟨rfl, rfl, hsubmitted⟩
  refine returns_pure ⟨rfl, ?_⟩
  rw [hsubmitted, hquiet]
  rfl

/-- Executing a packet whose events are delivered. -/
theorem execute_returns {result : Value} {now : DateTime}
    (hresult : expectedResult F p now = .ok result) (leaseToken : Uuid)
    {patience : ℕ} (hpatience : 6 ≤ patience) :
    Returns claimed p (execute F patience p leaseToken) (eventsOf p result) h
      fun _ h' r => r = .ok 4 ∧ submissions h' = submissions h ++
        (succeededUpdates result).map fun u =>
          (u.submission F p leaseToken, true) := by
  have hone : 1 ≤ patience := by omega
  refine returns_ask fun now _ => returns_ask fun _ _ => ?_
  have hturns : 6 ≤ 0 + patience + false.toNat := by simpa using hpatience
  refine (eventLoop_returns hresult leaseToken hone (Nat.zero_le 4)
    hturns).bind ?_
  rintro s' h' exit ⟨⟨done, rfl⟩, hprogress⟩
  refine (conclude_returns done leaseToken hone).mono ?_
  rintro s₂ h₂ r ⟨rfl, hsucceeded⟩
  refine ⟨rfl, ?_⟩
  rw [hsucceeded, hprogress, submissions_snoc rfl, submissions_snoc rfl,
    List.append_assoc]
  rfl

theorem runOnce_returns {result : Value} {now : DateTime}
    (hbinding : p.binding = claimed.packet.binding)
    (hresult : expectedResult F p now = .ok result) (leaseOwner : Uuid)
    {patience : ℕ} (hpatience : 6 ≤ patience) :
    Returns claimed p (runOnce F patience leaseOwner) (eventsOf p result) []
      fun _ h' r => r = .ok 4 ∧ submissions h' =
        (succeededUpdates result).map fun u =>
          (u.submission F p claimed.leaseToken, true) := by
  refine returns_ask fun answer hanswer => ?_
  obtain rfl : answer = .ok (some claimed) := hanswer
  refine returns_ask fun fetched hfetched => ?_
  obtain rfl : fetched = some ⟨p, claimed.leaseToken⟩ := hfetched
  have hsame : ¬(claimed.leaseToken ≠ claimed.leaseToken ∨
      p.binding ≠ claimed.packet.binding) := by
    simp [hbinding]
  dsimp only
  rw [if_neg hsame]
  refine returns_ask fun later hlater => ?_
  have hverified : (verifyPacketAt F p later).isOk = true :=
    isOk_verifyPacketAt.mpr
      ((verified_of_expectedResult hresult).later hlater)
  rw [if_pos hverified]
  refine (execute_returns hresult claimed.leaseToken hpatience).mono ?_
  rintro s' h' r ⟨rfl, hsubmitted⟩
  refine ⟨rfl, ?_⟩
  rw [hsubmitted]
  rfl

/-! ## Agreement -/

variable (F) in
/-- The agent, the adapter and the dispatcher on one packet, where the adapter
verifies the packet at one time and checks the result at another. -/
structure Agreement (p : RoomContextPacket) (verified checked : DateTime) :
    Prop where
  /-- The stream of the agent is admitted, also with a double as revision. -/
  stream : ∀ now < p.expiresAt, ∃ result,
    streamForPacket F p now = .ok (responses F p (bindingValue F p) result) ∧
      expectedResult F p checked = .ok result ∧
      ∀ revision, Transported F p revision →
        validateStream F p verified checked (responses F p
          (bindingObject (uuid F p.taskId) (uuid F p.roomId) revision
            (.str p.canonicalSha256)) result) = some (eventsOf p result)
  /-- Incremental and batch admission agree. -/
  incremental : ∀ stream evs,
    invokeStream F p verified checked stream = (evs, true) ↔
      validateStream F p verified checked stream = some evs
  /-- Whatever is emitted comes from an admissible beginning. -/
  emitted : ∀ stream, ∃ pre rest, stream = pre ++ rest ∧
    validateFrom F p checked 0 pre =
      some (invokeStream F p verified checked stream).1
  /-- The dispatcher accepts what is emitted, at its position. -/
  accepted : ∀ stream i ev,
    (invokeStream F p verified checked stream).1[i]? = some ev →
      (validateAgentEvent F p ev i).run.Yields fun es r =>
        (∀ e ∈ es, InTime p e) → r = some true
  /-- Every call in which the events of an admitted stream are delivered and
  the submissions are accepted reports success; and there are such calls. -/
  succeeds : ∀ stream evs, (∀ e ∈ stream, e.Ordered) →
    validateStream F p verified checked stream = some evs →
    ∃ result, expectedResult F p checked = .ok result ∧
    ∀ (claimed : ContextResponse) (leaseOwner : Uuid) (patience : ℕ),
      p.binding = claimed.packet.binding → 6 ≤ patience →
      (∃ es s' r, Exec (helpful claimed p) evs
        (runOnce F patience leaseOwner).run es s' (some r)) ∧
      ∀ es s' r, Exec (helpful claimed p) evs
          (runOnce F patience leaseOwner).run es s' (some r) →
        r = some (.ok 4) ∧ submissions es =
          (succeededUpdates result).map fun u =>
            (u.submission F p claimed.leaseToken, true)

/-- On every verified packet, as long as it lasts. -/
theorem agent_adapter_dispatcher_agree
    (huuid : ∀ u, F.parseUuid (F.showUuid u) = some u)
    {p : RoomContextPacket} {issued : DateTime}
    (hp : verifyPacketAt F p issued = .ok ())
    (hrevision : p.contextRevision ≤ maxDouble) {verified checked : DateTime}
    (hverified : verified < p.expiresAt) (hchecked : checked < p.expiresAt) :
    Agreement F p verified checked := by
  have hissued := verifyPacketAt_eq_ok.mp hp
  have hfirst : Verified F p verified := hissued.later hverified
  have hlast : Verified F p checked := hissued.later hchecked
  have hinvoke : ∀ stream, invokeStream F p verified checked stream =
      admitFrom F p checked 0 stream := fun stream =>
    if_pos (isOk_verifyPacketAt.mpr hfirst)
  have hemitted : ∀ stream, ∃ pre rest, stream = pre ++ rest ∧
      validateFrom F p checked 0 pre =
        some (invokeStream F p verified checked stream).1 := by
    intro stream
    rw [hinvoke]
    exact admitFrom_beginning p checked 0 stream
  constructor
  · intro now hnow
    obtain ⟨result, hresult⟩ := exists_expectedResult hlast
    have hagent : expectedResult F p now = .ok result :=
      (expectedResult_eq (hissued.later hnow) hlast).trans hresult
    refine ⟨result, by rw [streamForPacket, hagent], hresult, ?_⟩
    intro revision hrev
    have hordered : AgentGateway.Ordered (bindingObject (uuid F p.taskId)
        (uuid F p.roomId) revision (.str p.canonicalSha256)) :=
      ordered_bindingObject (ordered_uuid _) (ordered_uuid _) hrev.ordered
        (.str trivial)
    have hstream := (ordered_responses (F := F) (p := p)).mpr
      ⟨hordered, ordered_expectedResult hresult⟩
    have hencodes : EncodesBinding F p (uuid F p.taskId) (uuid F p.roomId)
        revision :=
      ⟨huuid _, huuid _, hrev.decodes hissued.revision hrevision⟩
    exact (validateStream_eq_some hstream).mpr ⟨hfirst, _, result, rfl,
      (decodeBinding_eq_some hordered).mpr ⟨_, _, _, hencodes, .inl rfl⟩,
      hresult, rfl⟩
  · intro stream evs
    rw [hinvoke, admitFrom_eq_true, Nat.zero_add]
    simp only [validateStream, Option.bind_eq_bind, Option.bind_eq_some_iff,
      Option.guard_eq_some', exists_const, isOk_verifyPacketAt]
    exact (and_iff_right hfirst).symm
  · exact hemitted
  · intro stream i ev hev
    obtain ⟨pre, rest, _, hpre⟩ := hemitted stream
    have hadmitted := admitted_of_validateFrom hpre hev
    rw [Nat.zero_add] at hadmitted
    exact hadmitted.accepted
  · intro stream evs hstream hvalid
    obtain ⟨_, _, result, _, _, hresult, rfl⟩ :=
      (validateStream_eq_some hstream).mp hvalid
    refine ⟨result, hresult, ?_⟩
    intro claimed leaseOwner patience hbinding hpatience
    refine ⟨exists_exec (helpful_answers hchecked) _ _, ?_⟩
    intro es s' r hexec
    have hreturns := runOnce_returns hbinding hresult leaseOwner hpatience
    obtain ⟨a, rfl, rfl, hsubmitted⟩ :=
      (Prog.Ensures.exec hreturns hexec).1 r rfl
    exact ⟨rfl, hsubmitted⟩

theorem agent_adapter_dispatcher_agree_packet :
    Agreement Reference.formats Sample.packet Sample.issued Sample.issued :=
  agent_adapter_dispatcher_agree (F := Reference.formats)
    Reference.parseUuid_showUuid Sample.verified_packet (by decide)
    (by decide +kernel) (by decide +kernel)

end AgentGateway.Task
