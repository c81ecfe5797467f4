import AgentGateway.Task.Dispatch

/-!
# Deliveries

What one call of `run_once` submits: a list of updates, each sent in identical
attempts until it is accepted or given up.
-/

namespace AgentGateway.Task

open Interaction
open Json (Value)

variable {α β : Type}

/-! ## Calls -/

theorem yields_ask {op : Op} {f : op.Ans → Call α}
    {P : List (Event Room) → Option α → Prop} :
    (ask op >>= f).run.Yields P ↔
      ∀ ans, (f ans).run.Yields fun es r => P (⟨op, ans⟩ :: es) r := by
  rfl

/-- Sequencing: what is known after the first part carries over. -/
theorem yields_bindCall {c : Call α} {f : α → Call β}
    {Q : List (Event Room) → Option α → Prop}
    {P : List (Event Room) → Option β → Prop} (hc : c.run.Yields Q)
    (hnone : ∀ es, Q es none → P es none)
    (hsome : ∀ es a, Q es (some a) →
      (f a).run.Yields fun fs r => P (es ++ fs) r) :
    (c >>= f).run.Yields P := by
  rw [OptionT.run_bind, Option.elimM, Prog.yields_bind]
  refine hc.mono ?_
  intro es r hr
  cases r with
  | none =>
      show P (es ++ []) none
      rw [List.append_nil]
      exact hnone es hr
  | some a => exact hsome es a hr

theorem yields_pure {a : α} {P : List (Event Room) → Option α → Prop} :
    (pure a : Call α).run.Yields P ↔ P [] (some a) := by
  rfl

/-! ## What is observed -/

structure Submission where
  taskId : Uuid
  leaseToken : Uuid
  request : TaskUpdateRequest

/-- An attempt at a submission, and whether it was accepted. -/
def submission? : Event Room → Option (Submission × Bool)
  | ⟨.submitUpdate taskId leaseToken request _, (answer : Answer)⟩ =>
      some (⟨taskId, leaseToken, request⟩, decide (answer = .accepted))
  | _ => none

def submissions (es : List (Event Room)) : List (Submission × Bool) :=
  es.filterMap submission?

/-- An event that was delivered. -/
def delivered? : Event Room → Option A2aTaskEvent
  | ⟨.select, (.event event : Selected)⟩ => event
  | ⟨.recv, (event : Option A2aTaskEvent)⟩ => event
  | _ => none

def delivered (es : List (Event Room)) : List A2aTaskEvent :=
  es.filterMap delivered?

/-- The end of the invocation. -/
def ended? : Event Room → Option Invocation
  | ⟨.select, (.invocation result : Selected)⟩ => some result
  | ⟨.invocation, (result : Invocation)⟩ => some result
  | _ => none

def ended (es : List (Event Room)) : List Invocation := es.filterMap ended?

@[simp] theorem submissions_append (es fs : List (Event Room)) :
    submissions (es ++ fs) = submissions es ++ submissions fs :=
  List.filterMap_append

@[simp] theorem delivered_append (es fs : List (Event Room)) :
    delivered (es ++ fs) = delivered es ++ delivered fs :=
  List.filterMap_append

@[simp] theorem ended_append (es fs : List (Event Room)) :
    ended (es ++ fs) = ended es ++ ended fs :=
  List.filterMap_append

/-- Events that neither submit, nor deliver, nor end the invocation. -/
structure Quiet (es : List (Event Room)) : Prop where
  submissions : submissions es = []
  delivered : delivered es = []
  ended : ended es = []

theorem Quiet.nil : Quiet [] := ⟨rfl, rfl, rfl⟩

theorem Quiet.now (t : DateTime) : Quiet [⟨.now, t⟩] := ⟨rfl, rfl, rfl⟩

/-! ## Updates -/

inductive Update where
  | progressed (ordinal : ℕ)
  | succeeded (result : Value)
  | failed (failure : TerminalFailure) (ordinal : ℕ)

/-- The phase and the text of the progress at an ordinal. -/
def progressOf : ℕ → String × String
  | 0 => ("accepted", "Task submitted")
  | 1 => ("working", readingText)
  | _ => ("working", preparingText)

variable (F : Formats)

def Update.request (p : RoomContextPacket) : Update → TaskUpdateRequest
  | .progressed ordinal => progressRequest F p ordinal (progressOf ordinal).1
      (progressOf ordinal).2
  | .succeeded result => successRequest F p 3 result
  | .failed failure ordinal => failureRequest F p failure ordinal

/-- The attempts at one update. -/
structure Delivery where
  update : Update
  failed : ℕ
  acknowledged : Bool

/-- Every attempt sends the same request; only the last may be accepted. -/
def Delivery.sent (p : RoomContextPacket) (leaseToken : Uuid) (d : Delivery) :
    List (Submission × Bool) :=
  let x : Submission := ⟨p.taskId, leaseToken, d.update.request F p⟩
  List.replicate d.failed (x, false) ++
    if d.acknowledged then [(x, true)] else []

def Sends (p : RoomContextPacket) (leaseToken : Uuid) (es : List (Event Room))
    (ds : List Delivery) : Prop :=
  submissions es = ds.flatMap (Delivery.sent F p leaseToken)

variable {F}

theorem Sends.append {p : RoomContextPacket} {leaseToken : Uuid}
    {es fs : List (Event Room)} {ds gs : List Delivery}
    (h : Sends F p leaseToken es ds) (h' : Sends F p leaseToken fs gs) :
    Sends F p leaseToken (es ++ fs) (ds ++ gs) := by
  rw [Sends, submissions_append, List.flatMap_append, h, h']

theorem Sends.quiet {p : RoomContextPacket} {leaseToken : Uuid}
    {es fs : List (Event Room)} {ds : List Delivery}
    (hes : submissions es = []) (h : Sends F p leaseToken fs ds) :
    Sends F p leaseToken (es ++ fs) ds := by
  rw [Sends, submissions_append, hes, List.nil_append]
  exact h

/-! ## Submission -/

/-- A submission delivers its update, or gives it up. -/
theorem submit_yields (p : RoomContextPacket) (leaseToken : Uuid)
    (update : Update) (patience : ℕ) :
    (submit p leaseToken (update.request F p) patience).run.Yields fun es r =>
      delivered es = [] ∧ ended es = [] ∧
        ∃ n, Sends F p leaseToken es
          [⟨update, n, decide (r = some (.ok ()))⟩] := by
  induction patience with
  | zero => exact ⟨rfl, rfl, 0, rfl⟩
  | succ patience ih =>
      rw [submit]
      refine yields_ask.mpr fun now => ?_
      split_ifs with hexpired
      · exact ⟨rfl, rfl, 0, rfl⟩
      refine yields_ask.mpr fun later => yields_ask.mpr fun answer => ?_
      cases answer with
      | accepted => exact ⟨rfl, rfl, 0, rfl⟩
      | failed retryable =>
          cases retryable with
          | false => exact ⟨rfl, rfl, 1, rfl⟩
          | true =>
              refine ih.mono ?_
              rintro es r ⟨hdelivered, hended, n, hn⟩
              exact ⟨hdelivered, hended, n + 1, congrArg (_ :: ·) hn⟩
      | timedOut =>
          refine ih.mono ?_
          rintro es r ⟨hdelivered, hended, n, hn⟩
          exact ⟨hdelivered, hended, n + 1, congrArg (_ :: ·) hn⟩

/-- Whether a call came back with success. -/
def succeeds : Option (Except DispatchError α) → Bool
  | some (.ok _) => true
  | _ => false

theorem submitFailure_yields (patience : ℕ) (p : RoomContextPacket)
    (leaseToken : Uuid) (failure : TerminalFailure) (ordinal : ℕ) :
    (submitFailure F patience p leaseToken failure ordinal).run.Yields
      fun es r => delivered es = [] ∧ ended es = [] ∧
        ∃ n, Sends F p leaseToken es
          [⟨.failed failure ordinal, n, succeeds r⟩] := by
  refine yields_bindCall (submit_yields p leaseToken
    (.failed failure ordinal) patience) ?_ ?_
  · rintro es ⟨hdelivered, hended, n, hn⟩
    exact ⟨hdelivered, hended, n, hn⟩
  · rintro es result ⟨hdelivered, hended, n, hn⟩
    cases result with
    | ok x =>
        refine yields_pure.mpr ?_
        rw [List.append_nil]
        exact ⟨hdelivered, hended, n, hn⟩
    | error e =>
        refine yields_pure.mpr ?_
        rw [List.append_nil]
        exact ⟨hdelivered, hended, n, hn⟩

/-! ## Admission -/

variable (F)

/-- The event that is admitted at a position. -/
inductive Admitted (p : RoomContextPacket) : ℕ → A2aTaskEvent → Prop
  | submitted : Admitted p 0 (.submitted 0)
  | reading : Admitted p 1 (.working 1 readingText)
  | preparing : Admitted p 2 (.working 2 preparingText)
  | completed {now : DateTime} {result : Value} :
      expectedResult F p now = .ok result →
        Admitted p 3 (.completed 3 result p.binding)

variable {F}

theorem validateAgentEvent_yields (p : RoomContextPacket)
    (event : A2aTaskEvent) (ordinal : ℕ) :
    (validateAgentEvent F p event ordinal).run.Yields fun es r =>
      Quiet es ∧ ∃ b, r = some b ∧
        (b = true → Admitted F p ordinal event) := by
  unfold validateAgentEvent
  split_ifs with hordinal
  · exact ⟨.nil, false, rfl, nofun⟩
  · rw [not_not] at hordinal
    subst hordinal
    split
    · exact ⟨.nil, true, rfl, fun _ => .submitted⟩
    · next text =>
      refine ⟨.nil, _, rfl, fun htext => ?_⟩
      rw [decide_eq_true_eq] at htext
      exact htext ▸ .reading
    · next text =>
      refine ⟨.nil, _, rfl, fun htext => ?_⟩
      rw [decide_eq_true_eq] at htext
      exact htext ▸ .preparing
    · next result binding =>
      split_ifs with hbinding
      · refine yields_ask.mpr fun now => ?_
        refine ⟨.now now, _, rfl, fun hresult => ?_⟩
        exact hbinding ▸ .completed (validateResult_eq_true.mp hresult)
      · exact ⟨.nil, false, rfl, nofun⟩
    · exact ⟨.nil, false, rfl, nofun⟩

theorem nextEvent_yields (invocationDone : Bool) :
    (nextEvent invocationDone).run.Yields fun es r =>
      submissions es = [] ∧
      ((∃ result, invocationDone = false ∧ r = some (.invocation result) ∧
          delivered es = [] ∧ ended es = [result]) ∨
        ∃ event, r = some (.event event) ∧ delivered es = event.toList ∧
          ended es = []) := by
  unfold nextEvent
  split_ifs with hdone
  · refine yields_ask.mpr fun event => ?_
    refine ⟨rfl, .inr ⟨event, rfl, ?_, rfl⟩⟩
    cases event <;> rfl
  · rw [Bool.not_eq_true] at hdone
    intro selected
    cases selected with
    | invocation result => exact ⟨rfl, .inl ⟨result, hdone, rfl, rfl, rfl⟩⟩
    | event event =>
        refine ⟨rfl, .inr ⟨event, rfl, ?_, rfl⟩⟩
        cases event <;> rfl

/-! ## The event loop -/

/-- The progress updates of some ordinals, in order, each one acknowledged. -/
inductive Progressed : ℕ → ℕ → List Delivery → Prop
  | nil (i : ℕ) : Progressed i i []
  | cons {i j n : ℕ} {ds : List Delivery} : i < 3 → Progressed (i + 1) j ds →
      Progressed i j (⟨.progressed i, n, true⟩ :: ds)

/-- Progress from an ordinal on that ends in a failure, perhaps after a
progress update that was given up. -/
inductive Interrupted : ℕ → Bool → List Delivery → Prop
  | failed {i j m : ℕ} {acknowledged : Bool} {failure : TerminalFailure}
      {ordinal : ℕ} {ds : List Delivery} : Progressed i j ds → ordinal ≤ 4 →
        Interrupted i acknowledged
          (ds ++ [⟨.failed failure ordinal, m, acknowledged⟩])
  | stuck {i j n m : ℕ} {acknowledged : Bool} {failure : TerminalFailure}
      {ordinal : ℕ} {ds : List Delivery} : Progressed i j ds → j < 3 →
        ordinal ≤ 4 → Interrupted i acknowledged
          (ds ++ [⟨.progressed j, n, false⟩,
            ⟨.failed failure ordinal, m, acknowledged⟩])
  | pending {i j n : ℕ} {ds : List Delivery} : Progressed i j ds → j < 3 →
      Interrupted i false (ds ++ [⟨.progressed j, n, false⟩])
  | idle {i j : ℕ} {ds : List Delivery} : Progressed i j ds →
      Interrupted i false ds

theorem Interrupted.cons {i n : ℕ} {acknowledged : Bool} {ds : List Delivery}
    (hi : i < 3) (h : Interrupted (i + 1) acknowledged ds) :
    Interrupted i acknowledged (⟨.progressed i, n, true⟩ :: ds) := by
  cases h with
  | failed hds hordinal => exact .failed (.cons hi hds) hordinal
  | stuck hds hj hordinal => exact .stuck (.cons hi hds) hj hordinal
  | pending hds hj => exact .pending (.cons hi hds) hj
  | idle hds => exact .idle (.cons hi hds)

theorem Interrupted.atOnce (i m : ℕ) (acknowledged : Bool)
    (failure : TerminalFailure) {ordinal : ℕ} (h : ordinal ≤ 4) :
    Interrupted i acknowledged
      [⟨.failed failure ordinal, m, acknowledged⟩] := by
  rw [← List.nil_append [_]]
  exact .failed (.nil i) h

/-- The progress that a loop state has behind it. -/
def LoopState.position (s : LoopState) : ℕ := min s.received 3

/-- What holds of the state at the head of the loop. -/
structure LoopState.Sound (F : Formats) (p : RoomContextPacket)
    (s : LoopState) : Prop where
  received : s.received ≤ 4
  early : s.received ≤ 3 → s.terminal = none
  late : s.received = 4 → ∃ now result, s.terminal = some (3, result) ∧
    expectedResult F p now = .ok result
  submitted : s.submittedUpdates = s.position

/-- Events admitted at successive positions. -/
inductive AdmittedFrom (F : Formats) (p : RoomContextPacket) :
    ℕ → List A2aTaskEvent → ℕ → Prop
  | nil (i : ℕ) : AdmittedFrom F p i [] i
  | cons {i j : ℕ} {event : A2aTaskEvent} {events : List A2aTaskEvent} :
      Admitted F p i event → AdmittedFrom F p (i + 1) events j →
        AdmittedFrom F p i (event :: events) j

/-- What is known when the loop is left from a state on, by the updates that
were sent and the events that were delivered. -/
def Leaves (F : Formats) (p : RoomContextPacket) (s : LoopState)
    (es : List (Event Room)) (ds : List Delivery) : Option Exit → Prop
  | none => Interrupted s.position false ds
  | some (.inl outcome) =>
      Interrupted s.position (succeeds (some outcome)) ds
  | some (.inr s') => Progressed s.position s'.position ds ∧
      s'.Sound F p ∧ AdmittedFrom F p s.received (delivered es) s'.received ∧
      ended es = (if s.invocationDone = s'.invocationDone then []
        else [.finished]) ∧
      (s.invocationDone = true → s'.invocationDone = true)

/-- The ways out of the loop that return from the call. -/
theorem leaveWithFailure_yields (patience : ℕ) (p : RoomContextPacket)
    (leaseToken : Uuid) (failure : TerminalFailure) (ordinal : ℕ) :
    (do return .inl (← submitFailure F patience p leaseToken failure
      ordinal) : Call Exit).run.Yields fun es r =>
        delivered es = [] ∧ ended es = [] ∧ ∃ n acknowledged,
          Sends F p leaseToken es [⟨.failed failure ordinal, n, acknowledged⟩] ∧
            ((r = none ∧ acknowledged = false) ∨
              ∃ outcome, r = some (.inl outcome) ∧
                acknowledged = succeeds (some outcome)) := by
  refine yields_bindCall
    (submitFailure_yields patience p leaseToken failure ordinal) ?_ ?_
  · rintro es ⟨hdelivered, hended, n, hn⟩
    exact ⟨hdelivered, hended, n, _, hn, .inl ⟨rfl, rfl⟩⟩
  · rintro es outcome ⟨hdelivered, hended, n, hn⟩
    refine yields_pure.mpr ?_
    rw [List.append_nil]
    exact ⟨hdelivered, hended, n, _, hn, .inr ⟨outcome, rfl, rfl⟩⟩

theorem leaves_of_failure {p : RoomContextPacket} {s : LoopState}
    {es : List (Event Room)} {n : ℕ} {acknowledged : Bool}
    {failure : TerminalFailure} {ordinal : ℕ} {r : Option Exit}
    (ds : List Delivery)
    (hds : ∀ a : Bool, Interrupted s.position a
      (ds ++ [⟨.failed failure ordinal, n, a⟩]))
    (hr : (r = none ∧ acknowledged = false) ∨ ∃ outcome,
      r = some (.inl outcome) ∧ acknowledged = succeeds (some outcome)) :
    Leaves F p s es (ds ++ [⟨.failed failure ordinal, n, acknowledged⟩]) r := by
  rcases hr with ⟨rfl, rfl⟩ | ⟨outcome, rfl, rfl⟩
  · exact hds false
  · exact hds _

/-- A failure at once leaves the loop with one delivery. -/
theorem leaveAtOnce_yields (patience : ℕ) {p : RoomContextPacket}
    (leaseToken : Uuid) (failure : TerminalFailure) {s : LoopState}
    (hs : s.Sound F p) {es : List (Event Room)} (hes : submissions es = []) :
    (do return .inl (← submitFailure F patience p leaseToken failure
      s.received) : Call Exit).run.Yields fun fs r =>
        ∃ ds, Sends F p leaseToken (es ++ fs) ds ∧
          Leaves F p s (es ++ fs) ds r := by
  refine (leaveWithFailure_yields patience p leaseToken failure
    s.received).mono ?_
  rintro fs r ⟨_, _, n, acknowledged, hn, hr⟩
  refine ⟨_, hn.quiet hes, leaves_of_failure [] ?_ hr⟩
  exact fun a => .atOnce _ _ a _ hs.received

/-- The loop goes on after the end of the invocation. -/
theorem Leaves.finished {p : RoomContextPacket} {s : LoopState}
    {es fs : List (Event Room)} {ds : List Delivery} {r : Option Exit}
    (h : Leaves F p { s with invocationDone := true } fs ds r)
    (hdone : s.invocationDone = false) (hdelivered : delivered es = [])
    (hended : ended es = [.finished]) : Leaves F p s (es ++ fs) ds r := by
  cases r with
  | none => exact h
  | some exit =>
      cases exit with
      | inl outcome => exact h
      | inr s' =>
          obtain ⟨hprogress, hsound, hevents, hends, hmono⟩ := h
          have hdone' : s'.invocationDone = true := hmono rfl
          refine ⟨hprogress, hsound, ?_, ?_, fun _ => hdone'⟩
          · rw [delivered_append, hdelivered]
            exact hevents
          · rw [ended_append, hended, hends, hdone, hdone']
            rfl

theorem LoopState.Sound.progress {p : RoomContextPacket} {s : LoopState}
    (hs : s.Sound F p) (hlt : s.received < 3) :
    LoopState.Sound F p { s with
      received := s.received + 1
      submittedUpdates := s.submittedUpdates + 1 } where
  received := Nat.le_of_lt (by show s.received + 1 < 4; omega)
  early := fun _ => hs.early (by omega)
  late := fun h => absurd h (by show s.received + 1 ≠ 4; omega)
  submitted := by
    have hsubmitted := hs.submitted
    simp only [LoopState.position] at hsubmitted ⊢
    omega

theorem LoopState.Sound.complete {p : RoomContextPacket} {s : LoopState}
    (hs : s.Sound F p) (hthree : s.received = 3) {now : DateTime}
    {result : Value} (hresult : expectedResult F p now = .ok result) :
    LoopState.Sound F p { s with
      received := s.received + 1
      terminal := some (3, result) } where
  received := by show s.received + 1 ≤ 4; omega
  early := fun h => absurd h (by show ¬s.received + 1 ≤ 3; omega)
  late := fun _ => ⟨now, result, rfl, hresult⟩
  submitted := by
    have hsubmitted := hs.submitted
    simp only [LoopState.position] at hsubmitted ⊢
    omega

/-- One more event in front of a loop that is left later. -/
theorem Leaves.cons {p : RoomContextPacket} {s t : LoopState}
    {es fs : List (Event Room)} {ds gs : List Delivery} {r : Option Exit}
    {event : A2aTaskEvent} (h : Leaves F p t fs ds r)
    (hadmitted : Admitted F p s.received event)
    (hreceived : t.received = s.received + 1)
    (hdone : t.invocationDone = s.invocationDone)
    (hdelivered : delivered es = [event]) (hended : ended es = [])
    (hprogress : ∀ j, Progressed t.position j ds →
      Progressed s.position j gs)
    (hinterrupted : ∀ a, Interrupted t.position a ds →
      Interrupted s.position a gs) :
    Leaves F p s (es ++ fs) gs r := by
  cases r with
  | none => exact hinterrupted _ h
  | some exit =>
      cases exit with
      | inl outcome => exact hinterrupted _ h
      | inr s' =>
          obtain ⟨hds, hsound, hevents, hends, hmono⟩ := h
          refine ⟨hprogress _ hds, hsound, ?_, ?_, ?_⟩
          · rw [delivered_append, hdelivered]
            rw [hreceived] at hevents
            exact .cons hadmitted hevents
          · rw [ended_append, hended, List.nil_append, hends, hdone]
          · rw [← hdone]
            exact hmono

/-- A progress update at the position of the state, and the loop after it. -/
theorem reportProgress_yields {patience : ℕ} {p : RoomContextPacket}
    {leaseToken : Uuid} {s : LoopState} {next : Call Exit}
    {event : A2aTaskEvent} {es : List (Event Room)}
    (hlt : s.received < 3) (hadmitted : Admitted F p s.received event)
    (hes : submissions es = [] ∧ delivered es = [event] ∧ ended es = [])
    (hnext : next.run.Yields fun fs r => ∃ ds, Sends F p leaseToken fs ds ∧
      Leaves F p { s with
        received := s.received + 1
        submittedUpdates := s.submittedUpdates + 1 } fs ds r) :
    (reportProgress F patience p leaseToken
      ((Update.progressed s.received).request F p) (s.received + 1)
      next).run.Yields fun fs r => ∃ ds, Sends F p leaseToken (es ++ fs) ds ∧
        Leaves F p s (es ++ fs) ds r := by
  obtain ⟨hsubmissions, hdelivered, hended⟩ := hes
  have hposition : s.position = s.received := by
    simp only [LoopState.position]
    omega
  have hnil : Progressed s.position s.received [] := hposition ▸ .nil _
  have hnext' : LoopState.position { s with
      received := s.received + 1
      submittedUpdates := s.submittedUpdates + 1 } = s.received + 1 :=
    Nat.min_eq_left hlt
  unfold reportProgress
  refine yields_bindCall (submit_yields p leaseToken
    (.progressed s.received) patience) ?_ ?_
  · rintro fs ⟨_, _, n, hn⟩
    have hpending := Interrupted.pending (n := n) hnil hlt
    exact ⟨_, hn.quiet hsubmissions, hpending⟩
  rintro fs result ⟨hfs, hfsended, n, hn⟩
  cases result with
  | ok x =>
      refine hnext.mono ?_
      rintro gs r ⟨ds, hds, hleaves⟩
      have hsends := (hn.quiet hsubmissions).append hds
      rw [← List.append_assoc]
      refine ⟨_, hsends, ?_⟩
      refine hleaves.cons hadmitted rfl rfl ?_ ?_ ?_ ?_
      · rw [delivered_append, hdelivered, hfs]
        rfl
      · rw [ended_append, hended, hfsended]
        rfl
      · intro j hj
        rw [hnext'] at hj
        rw [hposition]
        exact Progressed.cons hlt hj
      · intro a ha
        rw [hnext'] at ha
        rw [hposition]
        exact ha.cons hlt
  | error e =>
      refine (leaveWithFailure_yields patience p leaseToken
        .a2aResponseAdmission (s.received + 1)).mono ?_
      rintro gs r ⟨_, _, m, acknowledged, hm, hr⟩
      have hsends := (hn.quiet hsubmissions).append hm
      rw [← List.append_assoc]
      refine ⟨_, hsends, leaves_of_failure [_] ?_ hr⟩
      intro a
      have hfour : s.received + 1 ≤ 4 := by omega
      exact .stuck hnil hlt hfour

/-- The turn of the loop that takes an admitted event. -/
theorem admittedEvent_yields {patience n : ℕ} {p : RoomContextPacket}
    {leaseToken : Uuid} {s : LoopState} {event : A2aTaskEvent}
    {es : List (Event Room)} (hs : s.Sound F p)
    (hadmitted : Admitted F p s.received event)
    (hes : submissions es = [] ∧ delivered es = [event] ∧ ended es = [])
    (ih : ∀ t : LoopState, t.Sound F p →
      (eventLoop F patience p leaseToken n t).run.Yields fun fs r =>
        ∃ ds, Sends F p leaseToken fs ds ∧ Leaves F p t fs ds r) :
    (admittedEvent F patience p leaseToken
      (eventLoop F patience p leaseToken n) event s).run.Yields fun fs r =>
        ∃ ds, Sends F p leaseToken (es ++ fs) ds ∧
          Leaves F p s (es ++ fs) ds r := by
  obtain ⟨done, received, terminal, submittedUpdates⟩ := s
  cases hadmitted with
  | submitted =>
      have hlt : 0 < 3 := by decide
      have hnext := ih _ (hs.progress hlt)
      exact reportProgress_yields
        (s := ⟨done, 0, terminal, submittedUpdates⟩) hlt .submitted hes hnext
  | reading =>
      have hlt : 1 < 3 := by decide
      have hnext := ih _ (hs.progress hlt)
      exact reportProgress_yields
        (s := ⟨done, 1, terminal, submittedUpdates⟩) hlt .reading hes hnext
  | preparing =>
      have hlt : 2 < 3 := by decide
      have hnext := ih _ (hs.progress hlt)
      exact reportProgress_yields
        (s := ⟨done, 2, terminal, submittedUpdates⟩) hlt .preparing hes hnext
  | @completed now result hresult =>
      refine (ih _ (hs.complete rfl hresult)).mono ?_
      rintro fs r ⟨ds, hds, hleaves⟩
      refine ⟨ds, hds.quiet hes.1, ?_⟩
      exact hleaves.cons (.completed hresult) rfl rfl hes.2.1 hes.2.2
        (fun _ h => h) (fun _ h => h)

theorem eventLoop_yields (patience : ℕ) (p : RoomContextPacket)
    (leaseToken : Uuid) (n : ℕ) (s : LoopState) (hs : s.Sound F p) :
    (eventLoop F patience p leaseToken n s).run.Yields fun es r =>
      ∃ ds, Sends F p leaseToken es ds ∧ Leaves F p s es ds r := by
  induction n generalizing s with
  | zero => exact ⟨[], rfl, .idle (.nil _)⟩
  | succ n ih =>
      rw [eventLoop]
      refine yields_bindCall (nextEvent_yields s.invocationDone) ?_ ?_
      · rintro es ⟨_, ⟨_, _, hnone, _⟩ | ⟨_, hnone, _⟩⟩
        · cases hnone
        · cases hnone
      rintro es selected ⟨hquiet, ⟨result, hdone, hselected, hdelivered, hended⟩ |
        ⟨event, hselected, hdelivered, hended⟩⟩
      · cases hselected
        by_cases hresult : result = .finished
        · subst hresult
          refine (ih { s with invocationDone := true }
            ⟨hs.received, hs.early, hs.late, hs.submitted⟩).mono ?_
          rintro fs r ⟨ds, hds, hleaves⟩
          exact ⟨ds, hds.quiet hquiet,
            hleaves.finished hdone hdelivered hended⟩
        · simp only [if_pos hresult]
          exact leaveAtOnce_yields patience leaseToken .localA2aInvocation hs
            hquiet
      · cases hselected
        cases event with
        | none =>
            refine yields_pure.mpr ⟨[], ?_, .nil _, hs, ?_, ?_, id⟩
            · rw [List.append_nil]
              exact hquiet
            · rw [List.append_nil, hdelivered]
              exact .nil _
            · rw [List.append_nil, hended, if_pos rfl]
        | some event =>
            refine yields_bindCall
              (validateAgentEvent_yields p event s.received) ?_ ?_
            · rintro fs ⟨_, _, hnone, _⟩
              cases hnone
            rintro fs admitted ⟨hfs, b, hb, hadmitted⟩
            cases hb
            have hes : submissions (es ++ fs) = [] ∧
                delivered (es ++ fs) = [event] ∧ ended (es ++ fs) = [] := by
              rw [submissions_append, delivered_append, ended_append, hquiet,
                hdelivered, hended, hfs.submissions, hfs.delivered, hfs.ended]
              exact ⟨rfl, rfl, rfl⟩
            simp only [← List.append_assoc]
            by_cases htrue : admitted = true
            · rw [if_neg (not_not.mpr htrue)]
              exact admittedEvent_yields hs (hadmitted htrue) hes ih
            · rw [if_pos htrue]
              exact leaveAtOnce_yields patience leaseToken
                .a2aResponseAdmission hs hes.1

/-! ## The whole call -/

/-- How the deliveries of a call for a packet end; the flag says whether the
terminal update is acknowledged. -/
inductive Ending (F : Formats) (p : RoomContextPacket)
    (es : List (Event Room)) : Bool → List Delivery → Prop
  | interrupted {acknowledged : Bool} {ds : List Delivery} :
      Interrupted 0 acknowledged ds → Ending F p es acknowledged ds
  | succeeded {ds : List Delivery} {now : DateTime} {result : Value} {n : ℕ} :
      Progressed 0 3 ds → expectedResult F p now = .ok result →
      AdmittedFrom F p 0 (delivered es) 4 → ended es = [.finished] →
        Ending F p es true (ds ++ [⟨.succeeded result, n, true⟩])
  | refused {acknowledged : Bool} {ds : List Delivery} {now : DateTime}
      {result : Value} {failure : TerminalFailure} {n m : ℕ} :
      Progressed 0 3 ds → expectedResult F p now = .ok result →
        Ending F p es acknowledged (ds ++ [⟨.succeeded result, n, false⟩,
          ⟨.failed failure 4, m, acknowledged⟩])
  | unfinished {ds : List Delivery} {now : DateTime} {result : Value}
      {n : ℕ} : Progressed 0 3 ds → expectedResult F p now = .ok result →
        Ending F p es false (ds ++ [⟨.succeeded result, n, false⟩])

/-- The state in which the loop is left by `break`. -/
structure Left (F : Formats) (p : RoomContextPacket) (leaseToken : Uuid)
    (s : LoopState) (es : List (Event Room)) (ds : List Delivery) :
    Prop where
  sends : Sends F p leaseToken es ds
  progressed : Progressed 0 s.position ds
  sound : s.Sound F p
  admitted : AdmittedFrom F p 0 (delivered es) s.received
  ended : Task.ended es = if s.invocationDone then [.finished] else []

theorem Left.failure_yields {patience : ℕ} {p : RoomContextPacket}
    {leaseToken : Uuid} {s : LoopState} {es : List (Event Room)}
    {ds : List Delivery} (h : Left F p leaseToken s es ds)
    (failure : TerminalFailure) {fs : List (Event Room)}
    (hfs : submissions fs = []) :
    (submitFailure F patience p leaseToken failure s.received).run.Yields
      fun gs r => ∃ ds, Sends F p leaseToken (es ++ (fs ++ gs)) ds ∧
        Ending F p (es ++ (fs ++ gs)) (succeeds r) ds := by
  refine (submitFailure_yields patience p leaseToken failure
    s.received).mono ?_
  rintro gs r ⟨_, _, n, hn⟩
  refine ⟨_, h.sends.append (hn.quiet hfs), ?_⟩
  exact .interrupted (.failed h.progressed h.sound.received)

/-- The success of a task after its four events. -/
theorem Left.success_yields {patience : ℕ} {p : RoomContextPacket}
    {leaseToken : Uuid} {s : LoopState} {es : List (Event Room)}
    {ds : List Delivery} (h : Left F p leaseToken s es ds)
    (hreceived : s.received = 4) {now : DateTime} {result : Value}
    (hresult : expectedResult F p now = .ok result) {fs : List (Event Room)}
    (hfs : submissions fs = [] ∧ delivered fs = [])
    (hended : Task.ended (es ++ fs) = [.finished]) :
    (reportSuccess F patience p leaseToken 3 result s).run.Yields
      fun gs r => ∃ ds, Sends F p leaseToken (es ++ (fs ++ gs)) ds ∧
        Ending F p (es ++ (fs ++ gs)) (succeeds r) ds := by
  have hprogressed : Progressed 0 3 ds := by
    have hds := h.progressed
    rwa [LoopState.position, hreceived] at hds
  refine yields_bindCall (submit_yields p leaseToken (.succeeded result)
    patience) ?_ ?_
  · rintro gs ⟨_, _, n, hn⟩
    exact ⟨_, h.sends.append (hn.quiet hfs.1), .unfinished hprogressed hresult⟩
  rintro gs outcome ⟨hgs, hgsended, n, hn⟩
  cases outcome with
  | ok x =>
      refine yields_pure.mpr ?_
      rw [List.append_nil]
      refine ⟨_, h.sends.append (hn.quiet hfs.1),
        .succeeded hprogressed hresult ?_ ?_⟩
      · rw [delivered_append, delivered_append, hfs.2, hgs, List.append_nil,
          List.append_nil, ← hreceived]
        exact h.admitted
      · rw [← List.append_assoc, ended_append, hended, hgsended]
        rfl
  | error e =>
      rw [hreceived]
      refine (submitFailure_yields patience p leaseToken
        .a2aResponseAdmission 4).mono ?_
      rintro ks r ⟨_, _, m, hm⟩
      have hsends := h.sends.append ((hn.quiet hfs.1).append hm)
      simp only [List.append_assoc] at hsends ⊢
      exact ⟨_, hsends, .refused hprogressed hresult⟩

theorem conclude_yields {patience : ℕ} {p : RoomContextPacket}
    {leaseToken : Uuid} {s : LoopState} {es : List (Event Room)}
    {ds : List Delivery} (h : Left F p leaseToken s es ds) :
    (conclude F patience p leaseToken s).run.Yields fun fs r =>
      ∃ ds, Sends F p leaseToken (es ++ fs) ds ∧
        Ending F p (es ++ fs) (succeeds r) ds := by
  unfold conclude
  refine yields_bindCall (Q := fun fs r => submissions fs = [] ∧
    delivered fs = [] ∧ ∃ result, r = some result ∧
      (result = .finished → Task.ended (es ++ fs) = [.finished])) ?_ ?_ ?_
  · unfold awaitInvocation
    split_ifs with hdone
    · refine yields_pure.mpr ⟨rfl, rfl, .finished, rfl, fun _ => ?_⟩
      rw [List.append_nil, h.ended, if_pos hdone]
    · intro result
      refine ⟨rfl, rfl, result, rfl, ?_⟩
      rintro rfl
      rw [ended_append, h.ended, if_neg hdone]
      rfl
  · rintro fs ⟨_, _, _, hnone, _⟩
    cases hnone
  rintro fs result ⟨hfs, hdelivered, _, hresult, hended⟩
  cases hresult
  by_cases hfinished : result = .finished
  · rw [if_neg (not_not.mpr hfinished)]
    by_cases hreceived : s.received = 4
    · obtain ⟨now, v, hterminal, hv⟩ := h.sound.late hreceived
      have hfilter : (s.terminal.filter fun _ => decide (s.received = 4)) =
          some (3, v) := by
        rw [hterminal]
        simp [hreceived]
      rw [hfilter]
      exact h.success_yields hreceived hv ⟨hfs, hdelivered⟩ (hended hfinished)
    · have hfilter : (s.terminal.filter fun _ => decide (s.received = 4)) =
          none := by
        simp [hreceived]
      rw [hfilter]
      exact h.failure_yields _ hfs
  · rw [if_pos hfinished]
    exact h.failure_yields _ hfs

/-- What a call sends for a verified packet. -/
theorem execute_yields (patience : ℕ) (p : RoomContextPacket)
    (leaseToken : Uuid) :
    (execute F patience p leaseToken).run.Yields fun es r =>
      ∃ ds, Sends F p leaseToken es ds ∧
        Ending F p es (succeeds r) ds := by
  have hsound : LoopState.Sound F p ⟨false, 0, none, 0⟩ :=
    ⟨Nat.zero_le _, fun _ => rfl, nofun, rfl⟩
  unfold execute
  refine yields_ask.mpr fun now => yields_ask.mpr fun x => ?_
  refine yields_bindCall (eventLoop_yields patience p leaseToken patience _
    hsound) ?_ ?_
  · rintro es ⟨ds, hds, hleaves⟩
    exact ⟨ds, hds, .interrupted hleaves⟩
  rintro es exit ⟨ds, hds, hleaves⟩
  cases exit with
  | inl outcome =>
      refine yields_pure.mpr ?_
      rw [List.append_nil]
      exact ⟨ds, hds, .interrupted hleaves⟩
  | inr s =>
      obtain ⟨hprogress, hs, hevents, hends, _⟩ := hleaves
      have hleft : ∀ limit : ℤ, Left F p leaseToken s
          (⟨.now, now⟩ :: ⟨.invoke p limit, x⟩ :: es) ds := by
        intro limit
        refine ⟨hds, hprogress, hs, hevents, hends.trans ?_⟩
        cases s.invocationDone <;> rfl
      exact conclude_yields (hleft _)

/-- Quiet events in front of a call. -/
theorem Ending.prepend {p : RoomContextPacket} {es : List (Event Room)}
    (fs : List (Event Room))
    {acknowledged : Bool} {ds : List Delivery}
    (h : Ending F p es acknowledged ds) (hdelivered : delivered fs = [])
    (hended : ended fs = []) : Ending F p (fs ++ es) acknowledged ds := by
  cases h with
  | interrupted h => exact .interrupted h
  | succeeded h hv hadmitted hends =>
      refine .succeeded h hv ?_ ?_
      · rw [delivered_append, hdelivered]
        exact hadmitted
      · rw [ended_append, hended]
        exact hends
  | refused h hv => exact .refused h hv
  | unfinished h hv => exact .unfinished h hv

theorem fallback_yields (patience : ℕ) (p : RoomContextPacket)
    (leaseToken : Uuid) (failure : TerminalFailure) {es : List (Event Room)}
    (hes : submissions es = []) :
    (submitFailure F patience p leaseToken failure 0).run.Yields fun fs r =>
      ∃ ds, Sends F p leaseToken (es ++ fs) ds ∧
        Ending F p (es ++ fs) (succeeds r) ds := by
  refine (submitFailure_yields patience p leaseToken failure 0).mono ?_
  rintro fs r ⟨_, _, n, hn⟩
  exact ⟨_, hn.quiet hes, .interrupted (.atOnce 0 _ _ _ (Nat.zero_le 4))⟩

/-- The context of a claimed task is fetched as a packet. -/
def Fetches (claimed : ContextResponse) (es : List (Event Room))
    (p : RoomContextPacket) : Prop :=
  ∃ rest, es = ⟨.fetchContext claimed.packet.taskId claimed.leaseToken,
    some (⟨p, claimed.leaseToken⟩ : ContextResponse)⟩ :: rest

/-- The packet that a call goes by after a claim: the one that is fetched with
the binding of the claimed one, or the claimed one if there is none. -/
def Handles (claimed : ContextResponse) (es : List (Event Room))
    (p : RoomContextPacket) : Prop :=
  p.binding = claimed.packet.binding ∧ (Fetches claimed es p ∨
    p = claimed.packet ∧ ∀ q : RoomContextPacket,
      q.binding = claimed.packet.binding → ¬Fetches claimed es q)

theorem Handles.unique {claimed : ContextResponse} {es : List (Event Room)}
    {p q : RoomContextPacket} (hp : Handles claimed es p)
    (hq : Handles claimed es q) : p = q := by
  obtain ⟨hbinding, hfetched | ⟨rfl, hnone⟩⟩ := hp
  · obtain ⟨_, ⟨rest', h'⟩ | ⟨_, hnone⟩⟩ := hq
    · obtain ⟨rest, h⟩ := hfetched
      rw [h] at h'
      cases h'
      rfl
    · exact absurd hfetched (hnone p hbinding)
  · obtain ⟨hbinding', hfetched' | ⟨rfl, _⟩⟩ := hq
    · exact absurd hfetched' (hnone q hbinding')
    · rfl

/-- What a call does once it has claimed a task: every update is made for one
packet. -/
theorem handle_yields (patience : ℕ) (claimed : ContextResponse) :
    (handle F patience claimed).run.Yields fun es r =>
      ∃ p : RoomContextPacket, Handles claimed es p ∧
        ∃ ds, Sends F p claimed.leaseToken es ds ∧
          Ending F p es (succeeds r) ds := by
  unfold handle
  refine yields_ask.mpr fun fetched? => ?_
  cases fetched? with
  | none =>
      have hquiet : submissions [⟨.fetchContext claimed.packet.taskId
          claimed.leaseToken, (none : Option ContextResponse)⟩] = [] := rfl
      refine (fallback_yields patience claimed.packet claimed.leaseToken
        .contextRefetchFailed hquiet).mono ?_
      refine fun es r h => ⟨claimed.packet, ⟨rfl, .inr ⟨rfl, ?_⟩⟩, h⟩
      rintro q _ ⟨rest, heq⟩
      cases heq
  | some fetched =>
      have hquiet : submissions [⟨.fetchContext claimed.packet.taskId
          claimed.leaseToken, some fetched⟩] = [] := rfl
      simp only
      split_ifs with hbinding
      · refine (fallback_yields patience claimed.packet claimed.leaseToken
          .contextBindingMismatch hquiet).mono ?_
        refine fun es r h => ⟨claimed.packet, ⟨rfl, .inr ⟨rfl, ?_⟩⟩, h⟩
        rintro q hq ⟨rest, heq⟩
        cases heq
        rcases hbinding with htoken | hdiffers
        · exact htoken rfl
        · exact hdiffers hq
      rw [not_or, not_not, not_not] at hbinding
      obtain ⟨p, leaseToken⟩ := fetched
      obtain ⟨rfl, hp⟩ : leaseToken = claimed.leaseToken ∧
          p.binding = claimed.packet.binding := hbinding
      refine yields_ask.mpr fun now => ?_
      have hquiet' : submissions [⟨.fetchContext claimed.packet.taskId
          claimed.leaseToken, some ⟨p, claimed.leaseToken⟩⟩,
            ⟨.now, now⟩] = [] := rfl
      split_ifs with hverified
      · refine (execute_yields patience p claimed.leaseToken).mono ?_
        rintro es r ⟨ds, hds, hending⟩
        exact ⟨p, ⟨hp, .inl ⟨_, rfl⟩⟩, ds, hds.quiet hquiet',
          hending.prepend [_, _] rfl rfl⟩
      · refine (fallback_yields patience p claimed.leaseToken
          .invalidContextPacket hquiet').mono ?_
        exact fun es r h => ⟨p, ⟨hp, .inl ⟨_, rfl⟩⟩, h⟩

/-- What a whole call does. -/
inductive RunsOnce (F : Formats) (leaseOwner : Uuid) :
    List (Event Room) → Option (Except DispatchError ℕ) → Prop
  | unclaimed {answer : Except Bool (Option ContextResponse)}
      {r : Option (Except DispatchError ℕ)} :
      (∀ claimed, answer ≠ .ok (some claimed)) →
        RunsOnce F leaseOwner [⟨.claim leaseOwner, answer⟩] r
  | claimed {claimed : ContextResponse} {p : RoomContextPacket}
      {es : List (Event Room)} {r : Option (Except DispatchError ℕ)}
      {ds : List Delivery} : Handles claimed es p →
        Sends F p claimed.leaseToken es ds → Ending F p es (succeeds r) ds →
        RunsOnce F leaseOwner
          (⟨.claim leaseOwner, Except.ok (some claimed)⟩ :: es) r

theorem runOnce_yields (patience : ℕ) (leaseOwner : Uuid) :
    (runOnce F patience leaseOwner).run.Yields (RunsOnce F leaseOwner) := by
  unfold runOnce
  refine yields_ask.mpr fun answer => ?_
  split
  next retryable =>
    have hanswer : ∀ claimed, (Except.error retryable :
        Except Bool (Option ContextResponse)) ≠ .ok (some claimed) := by
      intro claimed h
      cases h
    exact .unclaimed hanswer
  next =>
    have hanswer : ∀ claimed, (Except.ok none :
        Except Bool (Option ContextResponse)) ≠ .ok (some claimed) := by
      intro claimed h
      cases h
    exact .unclaimed hanswer
  next claimed =>
    refine (handle_yields patience claimed).mono ?_
    rintro es r ⟨p, hp, ds, hds, hending⟩
    exact .claimed hp hds hending

end AgentGateway.Task
