import AgentGateway.Library.Layers
import AgentGateway.Task.Deadlines
import AgentGateway.Task.OrderedStream

/-!
# Polling

`run_forever` calls `run_once` again and again.  After a transient error it
waits longer with every further one; a permanent rejection ends it.
-/

namespace AgentGateway.Task

open Interaction

/-! ## The loop -/

inductive WaitOp where
  /-- A sleep of some nanoseconds. -/
  | sleep (duration : ℕ)
  | newUuid

@[reducible]
def WaitOp.Ans : WaitOp → Type
  | .sleep _ => Unit
  | .newUuid => Uuid

abbrev Waits : Signature := ⟨WaitOp, WaitOp.Ans⟩

abbrev PollingRoom : Signature := Room.sum Waits

def wait (op : WaitOp) : Prog PollingRoom op.Ans :=
  Prog.perform (S := PollingRoom) (.inr op)

def maxRetryDelay : ℕ := 8000000000

def jitteredRetryDelay (base jitter : ℕ) : ℕ := min (base + jitter) maxRetryDelay

/-- Up to 249 milliseconds. -/
def retryJitter (uuid : Uuid) : ℕ := uuid.toNat % 250 * 1000000

def baseDelay (pollInterval : ℕ) : ℕ := max pollInterval 250000000

variable (F : Formats) (patience : ℕ) (leaseOwner : Uuid) (pollInterval : ℕ)

/-- The loop, cut off after some rounds; the error if it was left. -/
def pollFrom : ℕ → ℕ → Prog PollingRoom (Option DispatchError)
  | 0, _ => .ret none
  | rounds + 1, retryDelay => do
      match ← (runOnce F patience leaseOwner).run.inl with
      | none => return none
      | some (.ok _) =>
          let _ ← wait (.sleep pollInterval)
          pollFrom rounds (baseDelay pollInterval)
      | some (.error .broker) =>
          let uuid : Uuid ← wait .newUuid
          let _ ← wait
            (.sleep (jitteredRetryDelay retryDelay (retryJitter uuid)))
          pollFrom rounds (min (retryDelay * 2) maxRetryDelay)
      | some (.error .rejected) => return some .rejected

def runForever (rounds : ℕ) : Prog PollingRoom (Option DispatchError) :=
  pollFrom F patience leaseOwner pollInterval rounds (baseDelay pollInterval)

/-! ## Rounds -/

variable {F patience leaseOwner pollInterval}

/-- The delay after `failures` transient errors in a row. -/
def retryDelay (pollInterval failures : ℕ) : ℕ :=
  if failures = 0 then baseDelay pollInterval
  else min (baseDelay pollInterval * 2 ^ failures) maxRetryDelay

theorem retryDelay_succ (pollInterval failures : ℕ) :
    min (retryDelay pollInterval failures * 2) maxRetryDelay =
      retryDelay pollInterval (failures + 1) := by
  rw [retryDelay, retryDelay, if_neg (Nat.succ_ne_zero failures), pow_succ,
    ← Nat.mul_assoc]
  by_cases hfailures : failures = 0
  · rw [if_pos hfailures, hfailures, pow_zero, Nat.mul_one]
  · rw [if_neg hfailures]
    omega

/-- The cap of the sum makes up for the cap of its first part. -/
theorem jitteredRetryDelay_retryDelay (pollInterval failures jitter : ℕ) :
    jitteredRetryDelay (retryDelay pollInterval failures) jitter =
      min (baseDelay pollInterval * 2 ^ failures + jitter) maxRetryDelay := by
  rw [jitteredRetryDelay, retryDelay]
  by_cases hfailures : failures = 0
  · rw [if_pos hfailures, hfailures, pow_zero, Nat.mul_one]
  · rw [if_neg hfailures]
    omega

variable (F patience leaseOwner) in
/-- The events of one call of `run_once`. -/
structure Round (es : List (Event Room))
    (r : Option (Except DispatchError ℕ)) : Prop where
  stream : RunsOnce F leaseOwner es r
  time : CallKeepsTime 0 patience leaseOwner es r

def slept (duration : ℕ) : Event PollingRoom := Event.inr ⟨.sleep duration, ()⟩

def drawn (uuid : Uuid) : Event PollingRoom := Event.inr ⟨.newUuid, uuid⟩

variable (F patience leaseOwner pollInterval) in
/-- A run of the loop after some transient errors in a row. -/
inductive Rounds : ℕ → List (Event PollingRoom) → Option DispatchError → Prop
  | cut (failures : ℕ) : Rounds failures [] none
  | unfinished {failures : ℕ} {es : List (Event Room)} :
      Round F patience leaseOwner es none →
        Rounds failures (es.map .inl) none
  | polled {failures n : ℕ} {es : List (Event Room)}
      {rest : List (Event PollingRoom)} {r : Option DispatchError} :
      Round F patience leaseOwner es (some (.ok n)) → Rounds 0 rest r →
        Rounds failures (es.map .inl ++ slept pollInterval :: rest) r
  | retried {failures : ℕ} {es : List (Event Room)} {uuid : Uuid}
      {rest : List (Event PollingRoom)} {r : Option DispatchError} :
      Round F patience leaseOwner es (some (.error .broker)) →
        Rounds (failures + 1) rest r →
        Rounds failures (es.map .inl ++ drawn uuid ::
          slept (min (baseDelay pollInterval * 2 ^ failures +
            retryJitter uuid) maxRetryDelay) :: rest) r
  | rejected {failures : ℕ} {es : List (Event Room)} :
      Round F patience leaseOwner es (some (.error .rejected)) →
        Rounds failures (es.map .inl) (some .rejected)

theorem runOnce_round (F : Formats) (patience : ℕ) (leaseOwner : Uuid) :
    (runOnce F patience leaseOwner).run.Yields
      (Round F patience leaseOwner) :=
  ((runOnce_yields patience leaseOwner).and
    (runOnce_keepsTime (le_refl 0) patience leaseOwner)).mono
      fun _ _ h => ⟨h.1, h.2⟩

theorem pollFrom_yields (rounds failures : ℕ) :
    (pollFrom F patience leaseOwner pollInterval rounds
      (retryDelay pollInterval failures)).Yields
        (Rounds F patience leaseOwner pollInterval failures) := by
  induction rounds generalizing failures with
  | zero => exact .cut failures
  | succ rounds ih =>
      rw [pollFrom]
      apply Prog.yields_bind.mpr
      apply Prog.yields_inl.mpr
      apply (runOnce_round F patience leaseOwner).mono
      intro es r hround
      cases r with
      | none =>
          show Rounds _ _ _ _ _ (es.map .inl ++ []) none
          rw [List.append_nil]
          exact .unfinished hround
      | some outcome =>
          cases outcome with
          | ok n =>
              rintro ⟨⟩
              apply Prog.Yields.mono (ih 0)
              intro rest r hrest
              exact .polled hround hrest
          | error e =>
              cases e with
              | broker =>
                  intro uuid
                  rintro ⟨⟩
                  rw [jitteredRetryDelay_retryDelay, retryDelay_succ]
                  apply (ih (failures + 1)).mono
                  intro rest r hrest
                  exact .retried hround hrest
              | rejected =>
                  show Rounds _ _ _ _ _ (es.map .inl ++ []) _
                  rw [List.append_nil]
                  exact .rejected hround

/-! ## Leaving the loop -/

/-- An operation of the broker that was rejected for good. -/
inductive Refused : Event Room → Prop
  | claim (owner : Uuid) :
      Refused ⟨.claim owner,
        (.error false : Except Bool (Option ContextResponse))⟩
  | update (taskId leaseToken : Uuid) (request : TaskUpdateRequest)
      (limit : ℤ) : Refused
        ⟨.submitUpdate taskId leaseToken request limit, Answer.failed false⟩

theorem Round.refused {es : List (Event Room)}
    (h : Round F patience leaseOwner es (some (.error .rejected))) :
    ∃ pre last, es = pre ++ [last] ∧ Refused last := by
  cases h.time with
  | unclaimed hanswer =>
      cases hanswer
      exact ⟨[], _, rfl, .claim leaseOwner⟩
  | claimed _ htime =>
      obtain ⟨pre, last, rfl, hlast⟩ := htime.error _ rfl
      cases hlast
      exact ⟨_ :: pre, _, rfl, .update _ _ _ _⟩

theorem Rounds.refused {failures : ℕ} {es : List (Event PollingRoom)}
    {r : Option DispatchError}
    (h : Rounds F patience leaseOwner pollInterval failures es r) :
    ∀ e, r = some e → e = .rejected ∧
      ∃ pre last, lefts es = pre ++ [last] ∧ Refused last := by
  induction h with
  | cut => exact nofun
  | unfinished => exact nofun
  | @polled failures n es rest r _ _ ih =>
      intro e he
      obtain ⟨hrejected, pre, last, hes, hlast⟩ := ih e he
      refine ⟨hrejected, es ++ pre, last, ?_, hlast⟩
      rw [lefts_append, slept, lefts_inr, lefts_inl, hes, List.append_assoc]
  | @retried failures es uuid rest r _ _ ih =>
      intro e he
      obtain ⟨hrejected, pre, last, hes, hlast⟩ := ih e he
      refine ⟨hrejected, es ++ pre, last, ?_, hlast⟩
      rw [lefts_append, drawn, slept, lefts_inr, lefts_inr, lefts_inl, hes,
        List.append_assoc]
  | rejected hround =>
      intro e he
      rw [lefts_inl]
      exact ⟨(Option.some.inj he).symm, hround.refused⟩

def Op.IsClaim : Op → Prop
  | .claim _ => True
  | _ => False

/-- The task and the lease that an operation names. -/
def Op.lease? : Op → Option (Uuid × Uuid)
  | .fetchContext taskId leaseToken => some (taskId, leaseToken)
  | .submitUpdate taskId leaseToken _ _ => some (taskId, leaseToken)
  | _ => none

/-- The latest claim was answered with this task and this lease, and these are
the events since. -/
def UnderClaim (pre : List (Event Room)) (taskId leaseToken : Uuid)
    (since : List (Event Room)) : Prop :=
  ∃ (before : List (Event Room)) (owner : Uuid) (claimed : ContextResponse),
    pre = before ++ ⟨.claim owner, Except.ok (some claimed)⟩ :: since ∧
      (∀ e ∈ since, ¬e.op.IsClaim) ∧ taskId = claimed.packet.taskId ∧
      leaseToken = claimed.leaseToken

/-- No terminal update was accepted. -/
def Ongoing (since : List (Event Room)) : Prop :=
  ∀ e ∈ since, ∀ y, submission? e = some (y, true) →
    y.request.eventType = "agent.task.progressed"

/-- What has to come before a submission: it is under the latest claim, and no
terminal update was accepted since. -/
def Leased (pre : List (Event Room)) (x : Submission) : Prop :=
  ∃ since, UnderClaim pre x.taskId x.leaseToken since ∧ Ongoing since

theorem UnderClaim.prepend {pre since : List (Event Room)}
    {taskId leaseToken : Uuid} (h : UnderClaim pre taskId leaseToken since)
    (es : List (Event Room)) :
    UnderClaim (es ++ pre) taskId leaseToken since := by
  obtain ⟨before, owner, claimed, rfl, h⟩ := h
  exact ⟨es ++ before, owner, claimed, by rw [List.append_assoc], h⟩

/-- Submissions of which none is an accepted terminal update. -/
def Continuing (xs : List (Submission × Bool)) : Prop :=
  ∀ x ∈ xs, x.2 = true → x.1.request.eventType = "agent.task.progressed"

/-- An accepted terminal update comes last. -/
def TerminalLast (xs : List (Submission × Bool)) : Prop :=
  ∀ before x after, xs = before ++ (x, true) :: after →
    x.request.eventType ≠ "agent.task.progressed" → after = []

theorem TerminalLast.append {xs ys : List (Submission × Bool)}
    (hxs : Continuing xs) (hys : TerminalLast ys) :
    TerminalLast (xs ++ ys) := by
  intro before x after heq hx
  rcases List.append_eq_append_iff.mp heq with
    ⟨rest, rfl, hrest⟩ | ⟨rest, hbefore, hrest⟩
  · exact hys rest x after hrest hx
  · cases rest with
    | nil => exact hys [] x after hrest.symm hx
    | cons y rest =>
        obtain ⟨rfl, -⟩ := List.cons.inj hrest
        exact absurd (hxs (x, true) (by rw [hbefore]; simp) rfl) hx

theorem Continuing.terminalLast {xs : List (Submission × Bool)}
    (hxs : Continuing xs) : TerminalLast xs := by
  intro before x after heq hx
  exact absurd (hxs (x, true) (by rw [heq]; simp) rfl) hx

theorem terminalLast_singleton (x : Submission × Bool) : TerminalLast [x] := by
  intro before y after heq _
  cases before with
  | nil => exact (List.cons.inj heq).2.symm
  | cons z before => simp at heq

theorem continuing_failed (x : Submission) (n : ℕ) :
    Continuing (List.replicate n (x, false)) := by
  intro y hy htrue
  rw [(List.mem_replicate.mp hy).2] at htrue
  cases htrue

theorem Delivery.sent_terminalLast (p : RoomContextPacket)
    (leaseToken : Uuid) (d : Delivery) :
    TerminalLast (d.sent F p leaseToken) := by
  unfold Delivery.sent
  apply (TerminalLast.append (continuing_failed _ _))
  split_ifs with hacknowledged
  · exact terminalLast_singleton _
  · exact Continuing.terminalLast nofun

theorem Delivery.sent_continuing (p : RoomContextPacket) (leaseToken : Uuid)
    {d : Delivery} (hd : d.acknowledged = true → ∃ i, d.update = .progressed i) :
    Continuing (d.sent F p leaseToken) := by
  intro x hx htrue
  unfold Delivery.sent at hx
  rcases List.mem_append.mp hx with hfailed | hlast
  · exact continuing_failed _ _ x hfailed htrue
  · split_ifs at hlast with hacknowledged
    · obtain ⟨i, hi⟩ := hd hacknowledged
      rw [List.mem_singleton.mp hlast, hi]
      rfl
    · cases hlast

/-- Deliveries of which at most the last is an accepted terminal update. -/
theorem sent_terminalLast (p : RoomContextPacket) (leaseToken : Uuid)
    {ds : List Delivery} {d : Delivery}
    (hds : ∀ d ∈ ds, d.acknowledged = true → ∃ i, d.update = .progressed i) :
    TerminalLast ((ds ++ [d]).flatMap (Delivery.sent F p leaseToken)) := by
  rw [List.flatMap_append, List.flatMap_singleton]
  apply TerminalLast.append
  · intro x hx
    obtain ⟨d', hd', hx⟩ := List.mem_flatMap.mp hx
    exact Delivery.sent_continuing p leaseToken (hds d' hd') x hx
  · exact d.sent_terminalLast p leaseToken

theorem Progressed.progress {i j : ℕ} {ds : List Delivery}
    (h : Progressed i j ds) : ∀ d ∈ ds, d.acknowledged = true →
      ∃ i, d.update = .progressed i := by
  induction h with
  | nil => exact nofun
  | @cons i j n ds _ _ ih =>
      intro d hd htrue
      rcases List.mem_cons.mp hd with rfl | hd
      · exact ⟨i, rfl⟩
      · exact ih d hd htrue

theorem Ending.terminalLast {p : RoomContextPacket} {es : List (Event Room)}
    {a : Bool} {ds : List Delivery} (h : Ending F p es a ds)
    (leaseToken : Uuid) :
    TerminalLast (ds.flatMap (Delivery.sent F p leaseToken)) := by
  have hgiven : ∀ {j : ℕ} {ds : List Delivery} (u : Update) (n : ℕ)
      (d : Delivery), Progressed 0 j ds → TerminalLast
        ((ds ++ [⟨u, n, false⟩, d]).flatMap (Delivery.sent F p leaseToken)) := by
    intro j ds u n d hds
    have hsplit : ds ++ [⟨u, n, false⟩, d] = (ds ++ [⟨u, n, false⟩]) ++ [d] := by
      rw [List.append_assoc]
      rfl
    rw [hsplit]
    apply sent_terminalLast
    intro d' hd' htrue
    rcases List.mem_append.mp hd' with hd' | hd'
    · exact hds.progress d' hd' htrue
    · rw [List.mem_singleton.mp hd'] at htrue
      cases htrue
  cases h with
  | interrupted h =>
      cases h with
      | failed hds _ => exact sent_terminalLast p leaseToken hds.progress
      | stuck hds _ _ => exact hgiven _ _ _ hds
      | pending hds _ => exact sent_terminalLast p leaseToken hds.progress
      | idle hds =>
          apply Continuing.terminalLast
          intro x hx
          obtain ⟨d, hd, hx⟩ := List.mem_flatMap.mp hx
          exact Delivery.sent_continuing p leaseToken (hds.progress d hd) x hx
  | succeeded hds _ _ _ => exact sent_terminalLast p leaseToken hds.progress
  | refused hds _ => exact hgiven _ _ _ hds
  | unfinished hds _ => exact sent_terminalLast p leaseToken hds.progress

theorem lease_onTime {p : RoomContextPacket} {leaseToken : Uuid}
    {pre : List (Event Room)} {e : Event Room} {x : Uuid × Uuid}
    (he : e.op.lease? = some x) (h : OnTime p leaseToken pre e) :
    x = (p.taskId, leaseToken) := by
  obtain ⟨op, ans⟩ := e
  cases op with
  | fetchContext taskId token =>
      obtain ⟨htask, htoken⟩ := h
      cases he
      rw [htask, htoken]
  | submitUpdate taskId token request limit =>
      obtain ⟨htask, htoken, -⟩ := h
      cases he
      rw [htask, htoken]
  | _ => cases he

theorem lease_of_submission {e : Event Room} {x : Submission} {b : Bool}
    (he : submission? e = some (x, b)) :
    e.op.lease? = some (x.taskId, x.leaseToken) := by
  obtain ⟨op, ans⟩ := e
  cases op with
  | submitUpdate taskId token request limit =>
      cases he
      rfl
  | _ => cases he

theorem not_isClaim_of_lease {op : Op} {x : Uuid × Uuid}
    (h : op.lease? = some x) : ¬op.IsClaim := by
  cases op with
  | claim => cases h
  | _ => exact id

theorem not_isClaim_of_onTime {p : RoomContextPacket} {leaseToken : Uuid}
    {pre : List (Event Room)} {e : Event Room}
    (h : OnTime p leaseToken pre e) : ¬e.op.IsClaim := by
  obtain ⟨op, ans⟩ := e
  cases op with
  | claim => exact h.elim
  | _ => exact id

/-- Within one call, whatever is no claim comes after its one claim, and on
time. -/
theorem Round.after_claim {es pre post : List (Event Room)} {e : Event Room}
    {r : Option (Except DispatchError ℕ)}
    (h : Round F patience leaseOwner es r) (hes : es = pre ++ e :: post)
    (he : ¬e.op.IsClaim) :
    ∃ (claimed : ContextResponse) (p : RoomContextPacket)
      (since : List (Event Room)),
      pre = ⟨.claim leaseOwner, Except.ok (some claimed)⟩ :: since ∧
        p.taskId = claimed.packet.taskId ∧
        OnTime p claimed.leaseToken since e ∧
        ∀ e' ∈ since, ¬e'.op.IsClaim := by
  cases h.time with
  | unclaimed _ =>
      cases pre with
      | nil =>
          obtain rfl := (List.cons.inj hes).1
          exact absurd trivial he
      | cons first pre => simp at hes
  | @claimed claimed p rest _ hp htime =>
      cases pre with
      | nil =>
          obtain rfl := (List.cons.inj hes).1
          exact absurd trivial he
      | cons first since =>
          obtain rfl := (List.cons.inj hes).1
          have hrest : rest = since ++ e :: post := (List.cons.inj hes).2
          have hsegments := htime.segments
          rw [hrest] at hsegments
          refine ⟨claimed, p, since, rfl,
            congrArg PacketBinding.taskId hp.1, hsegments.onTime, ?_⟩
          intro e' he'
          obtain ⟨l, m, rfl⟩ := List.append_of_mem he'
          rw [List.append_assoc, List.cons_append] at hsegments
          exact not_isClaim_of_onTime hsegments.onTime

/-- Within one call, contexts are fetched and updates submitted under its
claim, and there are no updates after a terminal one that was accepted. -/
theorem Round.underClaim {es pre post : List (Event Room)} {e : Event Room}
    {r : Option (Except DispatchError ℕ)}
    (h : Round F patience leaseOwner es r) (hes : es = pre ++ e :: post)
    {x : Uuid × Uuid} (he : e.op.lease? = some x) :
    ∃ since, UnderClaim pre x.1 x.2 since ∧
      ((submission? e).isSome → Ongoing since) := by
  obtain ⟨claimed, p, since, rfl, hp, htime, hsince⟩ :=
    h.after_claim hes (not_isClaim_of_lease he)
  obtain rfl := lease_onTime he htime
  refine ⟨since, ⟨[], leaseOwner, claimed, rfl, hsince, hp, rfl⟩, ?_⟩
  intro hsubmits e' he' y hy
  obtain ⟨x, hx⟩ := Option.isSome_iff_exists.mp hsubmits
  by_contra hterminal
  obtain ⟨l, m, rfl⟩ := List.append_of_mem he'
  cases h.stream with
  | unclaimed _ => simp at hes
  | @claimed claimed' p' rest _ ds _ hsends hending =>
      have hrest : rest = (l ++ e' :: m) ++ e :: post := (List.cons.inj hes).2
      have hsubmitted : submissions rest = submissions l ++ (y, true) ::
          (submissions m ++ x :: submissions post) := by
        rw [hrest]
        simp [submissions, List.filterMap_append, hy, hx]
      have hlast := hending.terminalLast claimed'.leaseToken
      rw [← hsends] at hlast
      have hnil := hlast _ _ _ hsubmitted hterminal
      simp at hnil

/-- What holds of the events of each round holds of those of the loop. -/
theorem Rounds.forall_event {P : List (Event Room) → Event Room → Prop}
    (hprepend : ∀ es pre e, P pre e → P (es ++ pre) e)
    (hround : ∀ es r pre e post, Round F patience leaseOwner es r →
      es = pre ++ e :: post → P pre e)
    {failures : ℕ} {es : List (Event PollingRoom)} {r : Option DispatchError}
    (h : Rounds F patience leaseOwner pollInterval failures es r)
    {pre post : List (Event Room)} {e : Event Room}
    (hes : lefts es = pre ++ e :: post) : P pre e := by
  have hlater : ∀ {es fs : List (Event Room)}
      {r : Option (Except DispatchError ℕ)},
      Round F patience leaseOwner es r →
      (∀ {pre e post}, fs = pre ++ e :: post → P pre e) →
      ∀ {pre e post}, es ++ fs = pre ++ e :: post → P pre e := by
    intro es fs r hr ih pre e post heq
    rcases List.append_eq_append_iff.mp heq with
      ⟨rest, rfl, hrest⟩ | ⟨rest, hpre, hrest⟩
    · exact hprepend es rest e (ih hrest)
    · cases rest with
      | nil =>
          rw [List.append_nil] at hpre
          rw [← hpre, ← List.append_nil es]
          exact hprepend es [] e (ih hrest.symm)
      | cons e' rest =>
          obtain ⟨rfl, -⟩ := List.cons.inj hrest
          exact hround es r pre e rest hr hpre
  induction h generalizing pre e post with
  | cut => simp at hes
  | unfinished hr =>
      rw [lefts_inl] at hes
      exact hround _ _ pre e post hr hes
  | polled hr _ ih =>
      rw [lefts_append, lefts_inl, slept, lefts_inr] at hes
      exact hlater hr ih hes
  | retried hr _ ih =>
      rw [lefts_append, lefts_inl, drawn, slept, lefts_inr, lefts_inr] at hes
      exact hlater hr ih hes
  | rejected hr =>
      rw [lefts_inl] at hes
      exact hround _ _ pre e post hr hes

theorem Rounds.underClaim {failures : ℕ} {es : List (Event PollingRoom)}
    {r : Option DispatchError}
    (h : Rounds F patience leaseOwner pollInterval failures es r)
    {pre post : List (Event Room)} {e : Event Room}
    (hes : lefts es = pre ++ e :: post) {x : Uuid × Uuid}
    (he : e.op.lease? = some x) :
    ∃ since, UnderClaim pre x.1 x.2 since ∧
      ((submission? e).isSome → Ongoing since) := by
  apply h.forall_event (P := fun pre e => ∀ x, e.op.lease? = some x →
    ∃ since, UnderClaim pre x.1 x.2 since ∧
      ((submission? e).isSome → Ongoing since)) _ _ hes x he
  · intro es pre e hP x hx
    obtain ⟨since, hunder, hongoing⟩ := hP x hx
    exact ⟨since, hunder.prepend es, hongoing⟩
  · intro es r pre e post hround hes x hx
    exact hround.underClaim hes hx

/-- In a whole run, over any number of tasks, each update is submitted under
the latest claim and its lease, and never after a terminal update that was
accepted for it. -/
theorem run_forever_submits_under_lease (F : Formats) (patience : ℕ)
    (leaseOwner : Uuid) (pollInterval rounds : ℕ) :
    (runForever F patience leaseOwner pollInterval rounds).Yields fun es _ =>
      ∀ pre e post, lefts es = pre ++ e :: post → ∀ x b,
        submission? e = some (x, b) → Leased pre x := by
  apply (pollFrom_yields rounds 0).mono
  intro es r h pre e post hes x b he
  obtain ⟨since, hunder, hongoing⟩ := h.underClaim hes (lease_of_submission he)
  exact ⟨since, hunder, hongoing (by rw [he]; rfl)⟩

end AgentGateway.Task
