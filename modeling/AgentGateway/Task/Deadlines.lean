import AgentGateway.Task.Publishable
import AgentGateway.Task.Deliveries

/-!
# Deadlines

The clock of a call.  Updates are attempted only while the packet is fresh, and
under limits that end with it, so that a call comes back once the clock has
passed the expiry of its packet.
-/

namespace AgentGateway.Task

open Interaction

variable {F : Formats} {α β : Type}

/-! ## Segments of a call -/

/-- The limit of an attempt that starts at a reading of the clock. -/
def attemptLimit (p : RoomContextPacket) (now : DateTime) : ℤ :=
  min (remaining p now) 5000000000

/-- The limit of an invocation that starts at a reading of the clock. -/
def invocationLimit (p : RoomContextPacket) (now : DateTime) : ℤ :=
  min (max 0 (toNanos p.expiresAt - toNanos now - 2000000000)) 10000000000

/-- Operations that neither claim, nor invoke, nor submit; a context is fetched
for the task and under the lease. -/
def Op.Passive (p : RoomContextPacket) (leaseToken : Uuid) : Op → Prop
  | .claim _ => False
  | .fetchContext taskId token => taskId = p.taskId ∧ token = leaseToken
  | .invoke _ _ => False
  | .submitUpdate _ _ _ _ => False
  | _ => True

/-- What a call does at a time: it waits for something, starts an invocation
or makes an attempt at a submission. -/
inductive Segment (p : RoomContextPacket) (leaseToken : Uuid) :
    List (Event Room) → Prop
  | passive {e : Event Room} : e.op.Passive p leaseToken →
      Segment p leaseToken [e]
  | invocation (now : DateTime) :
      Segment p leaseToken [⟨.now, now⟩,
        ⟨.invoke p (invocationLimit p now), ()⟩]
  | attempt {now : DateTime} (later : DateTime) (request : TaskUpdateRequest)
      (answer : Answer) : now < p.expiresAt →
        Segment p leaseToken [⟨.now, now⟩, ⟨.now, later⟩,
          ⟨.submitUpdate p.taskId leaseToken request (attemptLimit p later),
            answer⟩]

inductive Segments (p : RoomContextPacket) (leaseToken : Uuid) :
    List (Event Room) → Prop
  | nil : Segments p leaseToken []
  | cons {es fs : List (Event Room)} : Segment p leaseToken es →
      Segments p leaseToken fs → Segments p leaseToken (es ++ fs)

theorem Segments.append {p : RoomContextPacket} {leaseToken : Uuid}
    {es fs : List (Event Room)} (hes : Segments p leaseToken es)
    (hfs : Segments p leaseToken fs) : Segments p leaseToken (es ++ fs) := by
  induction hes with
  | nil => exact hfs
  | cons hseg _ ih =>
      rw [List.append_assoc]
      exact .cons hseg ih

theorem Segments.passive {p : RoomContextPacket} {leaseToken : Uuid}
    {e : Event Room} (he : e.op.Passive p leaseToken) :
    Segments p leaseToken [e] :=
  .cons (.passive he) .nil

theorem attemptLimit_le (p : RoomContextPacket) (now : DateTime) :
    attemptLimit p now ≤ 5000000000 ∧ (0 < attemptLimit p now →
      toNanos now + attemptLimit p now ≤ toNanos p.expiresAt) := by
  rw [attemptLimit, remaining]
  omega

theorem invocationLimit_le (p : RoomContextPacket) (now : DateTime) :
    invocationLimit p now ≤ 10000000000 ∧ (0 < invocationLimit p now →
      toNanos now + invocationLimit p now + 2000000000 ≤
        toNanos p.expiresAt) := by
  rw [invocationLimit]
  omega

/-- What holds of an event, by the readings of the clock right before it. -/
def OnTime (p : RoomContextPacket) (leaseToken : Uuid)
    (pre : List (Event Room)) : Event Room → Prop
  | ⟨.claim _, _⟩ => False
  | ⟨.fetchContext taskId token, _⟩ => taskId = p.taskId ∧ token = leaseToken
  | ⟨.invoke q limit, _⟩ => q = p ∧ ∃ pre' now,
      pre = pre' ++ [⟨.now, now⟩] ∧ limit ≤ 10000000000 ∧
        (0 < limit → toNanos now + limit + 2000000000 ≤ toNanos p.expiresAt)
  | ⟨.submitUpdate taskId token _ limit, _⟩ => taskId = p.taskId ∧
      token = leaseToken ∧ ∃ pre' now later,
        pre = pre' ++ [⟨.now, now⟩, ⟨.now, later⟩] ∧ now < p.expiresAt ∧
          limit ≤ 5000000000 ∧
            (0 < limit → toNanos later + limit ≤ toNanos p.expiresAt)
  | _ => True

theorem OnTime.prepend {p : RoomContextPacket} {leaseToken : Uuid}
    {pre : List (Event Room)} {e : Event Room}
    (h : OnTime p leaseToken pre e) (es : List (Event Room)) :
    OnTime p leaseToken (es ++ pre) e := by
  obtain ⟨op, ans⟩ := e
  cases op with
  | claim => exact h
  | fetchContext => exact h
  | invoke q limit =>
      obtain ⟨hq, pre', now, rfl, hlimit⟩ := h
      exact ⟨hq, es ++ pre', now, by rw [List.append_assoc], hlimit⟩
  | submitUpdate taskId token request limit =>
      obtain ⟨htask, htoken, pre', now, later, rfl, hnow, hlimit⟩ := h
      exact ⟨htask, htoken, es ++ pre', now, later, by rw [List.append_assoc],
        hnow, hlimit⟩
  | _ => trivial

theorem Op.Passive.onTime {p : RoomContextPacket} {leaseToken : Uuid}
    {pre : List (Event Room)} {e : Event Room}
    (he : e.op.Passive p leaseToken) : OnTime p leaseToken pre e := by
  obtain ⟨op, ans⟩ := e
  cases op with
  | claim => exact he
  | fetchContext => exact he
  | invoke => exact he.elim
  | submitUpdate => exact he.elim
  | _ => trivial

/-- The events of a list, each by what came before it. -/
def Punctual (p : RoomContextPacket) (leaseToken : Uuid) :
    List (Event Room) → List (Event Room) → Prop
  | _, [] => True
  | pre, e :: es => OnTime p leaseToken pre e ∧
      Punctual p leaseToken (pre ++ [e]) es

theorem punctual_append {p : RoomContextPacket} {leaseToken : Uuid}
    {pre es fs : List (Event Room)} :
    Punctual p leaseToken pre (es ++ fs) ↔ Punctual p leaseToken pre es ∧
      Punctual p leaseToken (pre ++ es) fs := by
  induction es generalizing pre with
  | nil => simp [Punctual]
  | cons e es ih => simp [Punctual, ih, and_assoc]

theorem Segment.punctual {p : RoomContextPacket} {leaseToken : Uuid}
    {es : List (Event Room)} (h : Segment p leaseToken es)
    (pre : List (Event Room)) : Punctual p leaseToken pre es := by
  cases h with
  | passive he => exact ⟨he.onTime, trivial⟩
  | invocation now =>
      exact ⟨trivial, ⟨rfl, pre, now, rfl, invocationLimit_le p now⟩, trivial⟩
  | attempt later request answer hnow =>
      refine ⟨trivial, trivial, ⟨rfl, rfl, pre, _, later, ?_, hnow,
        attemptLimit_le p later⟩, trivial⟩
      rw [List.append_assoc]
      rfl

theorem Segments.punctual {p : RoomContextPacket} {leaseToken : Uuid}
    {es : List (Event Room)} (h : Segments p leaseToken es)
    (pre : List (Event Room)) : Punctual p leaseToken pre es := by
  induction h generalizing pre with
  | nil => trivial
  | cons hseg _ ih =>
      exact punctual_append.mpr ⟨hseg.punctual pre, ih _⟩

theorem Segments.onTime {p : RoomContextPacket} {leaseToken : Uuid}
    {pre post : List (Event Room)} {e : Event Room}
    (h : Segments p leaseToken (pre ++ e :: post)) :
    OnTime p leaseToken pre e := by
  have hpunctual := h.punctual []
  rw [punctual_append] at hpunctual
  exact hpunctual.2.1

/-! ## The pace of the clock -/

/-- Whether an attempt is followed by another one. -/
def Answer.Retried : Answer → Bool
  | .accepted => false
  | .failed retryable => retryable
  | .timedOut => true

/-- The bound below which the clock is not read any more after an event, in
nanoseconds: the reading, or the retry interval after the last one. -/
def nextBound (interval bound : ℤ) : Event Room → ℤ
  | ⟨.now, (now : DateTime)⟩ => toNanos now
  | ⟨.submitUpdate _ _ _ _, (answer : Answer)⟩ =>
      if answer.Retried then bound + interval else bound
  | _ => bound

/-- A reading of the clock is no leap second, and not below the bound. -/
def ReadsAfter (bound : ℤ) : Event Room → Prop
  | ⟨.now, (now : DateTime)⟩ =>
      bound ≤ toNanos now ∧ (ofLex now).2 < 1000000000
  | _ => True

/-- The clock does not go back, and the retry interval passes after every
attempt that is retried. -/
def Paced (interval : ℤ) : ℤ → List (Event Room) → Prop
  | _, [] => True
  | bound, e :: es =>
      ReadsAfter bound e ∧ Paced interval (nextBound interval bound e) es

theorem le_nextBound {interval bound : ℤ} (hinterval : 0 ≤ interval)
    {e : Event Room} (he : ReadsAfter bound e) :
    bound ≤ nextBound interval bound e := by
  obtain ⟨op, ans⟩ := e
  cases op with
  | now => exact he.1
  | submitUpdate =>
      rw [nextBound]
      split_ifs with hretried
      · omega
      · exact le_refl bound
  | _ => exact le_refl bound

theorem Paced.split {interval bound : ℤ} (hinterval : 0 ≤ interval)
    {es fs : List (Event Room)} (h : Paced interval bound (es ++ fs)) :
    Paced interval bound es ∧
      ∃ bound', bound ≤ bound' ∧ Paced interval bound' fs := by
  induction es generalizing bound with
  | nil => exact ⟨trivial, bound, le_refl bound, h⟩
  | cons e es ih =>
      obtain ⟨he, hrest⟩ := h
      obtain ⟨hes, bound', hle, hfs⟩ := ih hrest
      exact ⟨⟨he, hes⟩, bound', (le_nextBound hinterval he).trans hle, hfs⟩

/-- Proper readings before an instant are so in nanoseconds. -/
theorem toNanos_lt {t u : DateTime} (ht : (ofLex t).2 < 1000000000)
    (h : t < u) : toNanos t < toNanos u := by
  rw [Prod.Lex.lt_iff] at h
  rw [toNanos, toNanos]
  rcases h with hsecond | ⟨hsecond, hnano⟩
  · omega
  · omega

/-! ## Errors -/

/-- The last event of a call that comes back with an error. -/
inductive Blames (p : RoomContextPacket) : Event Room → DispatchError → Prop
  | expired {now : DateTime} : p.expiresAt ≤ now → Blames p ⟨.now, now⟩ .broker
  | refused {taskId leaseToken : Uuid} {request : TaskUpdateRequest}
      {limit : ℤ} : Blames p
        ⟨.submitUpdate taskId leaseToken request limit, Answer.failed false⟩
        .rejected

def EndsWith (p : RoomContextPacket) (es : List (Event Room))
    (e : DispatchError) : Prop :=
  ∃ pre last, es = pre ++ [last] ∧ Blames p last e

theorem EndsWith.prepend {p : RoomContextPacket} {es : List (Event Room)}
    {e : DispatchError} (h : EndsWith p es e) (fs : List (Event Room)) :
    EndsWith p (fs ++ es) e := by
  obtain ⟨pre, last, rfl, hlast⟩ := h
  exact ⟨fs ++ pre, last, by rw [List.append_assoc], hlast⟩

/-! ## Parts of a call -/

section Runs

variable {p : RoomContextPacket} {leaseToken : Uuid} {interval : ℤ}
  {patience : ℕ}

variable (p interval patience) in
/-- From this bound on, the attempts of a submission reach the expiry. -/
def Late (bound : ℤ) : Prop :=
  6 ≤ patience ∧ toNanos p.expiresAt ≤ bound + (patience - 1) * interval

theorem Late.mono {bound bound' : ℤ} (h : Late p interval patience bound)
    (hle : bound ≤ bound') : Late p interval patience bound' := by
  obtain ⟨hpatience, hexpiry⟩ := h
  exact ⟨hpatience, by omega⟩

variable (p leaseToken interval patience) in
/-- A part of a call for a packet: it is made of segments, comes back with
errors for a reason, and does come back where it starts late. -/
def Runs (c : Call α) (error : α → Option DispatchError) (Q : α → Prop) :
    Prop :=
  c.run.Yields fun es r => Segments p leaseToken es ∧
    (∀ a, r = some a → Q a ∧ ∀ e, error a = some e → EndsWith p es e) ∧
    ∀ bound, Late p interval patience bound → Paced interval bound es → r ≠ none

variable {error : α → Option DispatchError} {Q : α → Prop}
  {error' : β → Option DispatchError} {R : β → Prop}

theorem runs_pure {a : α} (ha : Q a) (herror : error a = none) :
    Runs p leaseToken interval patience (pure a) error Q := by
  refine ⟨.nil, ?_, fun _ _ _ => nofun⟩
  intro b hb
  obtain rfl : a = b := Option.some.inj hb
  refine ⟨ha, fun e he => ?_⟩
  rw [herror] at he
  cases he

/-- Sequencing: the second part goes on, or passes an error on. -/
theorem Runs.sequence (hinterval : 0 ≤ interval) {c : Call α}
    {f : α → Call β} (hc : Runs p leaseToken interval patience c error Q)
    (hf : ∀ a, Q a → (∃ b, f a = pure b ∧ R b ∧ error' b = error a) ∨
      Runs p leaseToken interval patience (f a) error' R) :
    Runs p leaseToken interval patience (c >>= f) error' R := by
  apply yields_bindCall hc
  · rintro es ⟨hsegments, -, hreturns⟩
    exact ⟨hsegments, nofun, fun bound hle hpaced _ =>
      hreturns bound hle hpaced rfl⟩
  · rintro es a ⟨hsegments, hresult, -⟩
    obtain ⟨hQ, herror⟩ := hresult a rfl
    rcases hf a hQ with ⟨b, hb, hR, hpass⟩ | hruns
    · rw [hb]
      apply yields_pure.mpr
      rw [List.append_nil]
      refine ⟨hsegments, ?_, fun _ _ _ => nofun⟩
      intro b' hb'
      obtain rfl : b = b' := Option.some.inj hb'
      rw [hpass]
      exact ⟨hR, herror⟩
    · apply hruns.mono
      rintro fs r ⟨hsegments', hresult', hreturns'⟩
      refine ⟨hsegments.append hsegments', ?_, ?_⟩
      · intro b hb
        obtain ⟨hR, herror'⟩ := hresult' b hb
        exact ⟨hR, fun e he => (herror' e he).prepend es⟩
      · intro bound hbound hpaced
        obtain ⟨-, bound', hle, hfs⟩ := hpaced.split hinterval
        exact hreturns' bound' (hbound.mono hle) hfs

theorem Runs.bind (hinterval : 0 ≤ interval) {c : Call α} {f : α → Call β}
    (hc : Runs p leaseToken interval patience c error Q)
    (hf : ∀ a, Q a → Runs p leaseToken interval patience (f a) error' R) :
    Runs p leaseToken interval patience (c >>= f) error' R :=
  hc.sequence hinterval fun a ha => .inr (hf a ha)

theorem runs_ask (hinterval : 0 ≤ interval) {o : Op} (ho : o.Passive p leaseToken)
    {f : o.Ans → Call β}
    (hf : ∀ ans, Runs p leaseToken interval patience (f ans) error' R) :
    Runs p leaseToken interval patience (ask o >>= f) error' R := by
  have hask : Runs p leaseToken interval patience (ask o) (fun _ => none)
      fun _ => True := by
    intro ans
    refine ⟨.passive ho, ?_, fun _ _ _ => nofun⟩
    exact fun _ _ => ⟨trivial, nofun⟩
  exact hask.bind hinterval fun ans _ => hf ans

/-! ## Submission -/

def errorOf : Except DispatchError α → Option DispatchError
  | .ok _ => none
  | .error e => some e

/-- What a submission of some attempts does: while it goes on retrying, each
attempt is made before the expiry, the retry interval after the last one. -/
structure Submits (p : RoomContextPacket) (leaseToken : Uuid) (interval : ℤ)
    (n : ℕ) (es : List (Event Room)) (r : Option (Except DispatchError Unit)) :
    Prop where
  segments : Segments p leaseToken es
  error : ∀ a, r = some a → ∀ e, errorOf a = some e → EndsWith p es e
  unfinished : ∀ bound, Paced interval bound es → r = none → n ≠ 0 →
    bound + (n - 1) * interval < toNanos p.expiresAt

theorem Submits.retry {n : ℕ} {es : List (Event Room)}
    {r : Option (Except DispatchError Unit)}
    (h : Submits p leaseToken interval n es r) {now : DateTime}
    (hnow : now < p.expiresAt) (later : DateTime) (request : TaskUpdateRequest)
    {answer : Answer} (hretried : answer.Retried = true) :
    Submits p leaseToken interval (n + 1) (⟨.now, now⟩ :: ⟨.now, later⟩ ::
      ⟨.submitUpdate p.taskId leaseToken request (attemptLimit p later),
        answer⟩ :: es) r := by
  constructor
  · exact .cons (.attempt later request answer hnow) h.segments
  · intro a ha e he
    exact (h.error a ha e he).prepend [_, _, _]
  · rintro bound ⟨⟨hfirst, hproper⟩, ⟨hsecond, -⟩, -, hrest⟩ hr -
    have hfresh := toNanos_lt hproper hnow
    by_cases hn : n = 0
    · rw [hn]
      push_cast
      rw [Int.zero_mul]
      omega
    · have hbound : nextBound interval (nextBound interval
          (nextBound interval bound ⟨.now, now⟩) ⟨.now, later⟩)
            ⟨.submitUpdate p.taskId leaseToken request (attemptLimit p later),
              answer⟩ = toNanos later + interval := if_pos hretried
      have hlast := h.unfinished _ hrest hr hn
      rw [hbound] at hlast
      have hreading : bound ≤ toNanos later := hfirst.trans hsecond
      have hexpand : ((n + 1 : ℕ) - 1 : ℤ) * interval =
          interval + ((n : ℤ) - 1) * interval := by
        push_cast
        rw [Int.add_sub_cancel, Int.sub_mul, Int.one_mul]
        omega
      rw [hexpand]
      omega

theorem submit_submits (p : RoomContextPacket) (leaseToken : Uuid)
    (request : TaskUpdateRequest) (interval : ℤ) (n : ℕ) :
    (submit p leaseToken request n).run.Yields
      (Submits p leaseToken interval n) := by
  induction n with
  | zero =>
      refine ⟨.nil, ?_, ?_⟩
      · intro a ha
        cases ha
      · intro bound _ _ hn
        exact absurd rfl hn
  | succ n ih =>
      rw [submit]
      apply yields_ask.mpr
      intro now
      split_ifs with hexpired
      · refine ⟨.passive trivial, ?_, ?_⟩
        · intro a ha e he
          cases ha
          cases he
          exact ⟨[], _, rfl, .expired hexpired⟩
        · intro _ _ hnone
          cases hnone
      rw [not_le] at hexpired
      apply yields_ask.mpr
      intro later
      apply yields_ask.mpr
      intro answer
      have hattempt : Segments p leaseToken _ :=
        .cons (.attempt later request answer hexpired) .nil
      cases answer with
      | accepted =>
          refine ⟨hattempt, ?_, ?_⟩
          · intro a ha e he
            cases ha
            cases he
          · intro _ _ hnone
            cases hnone
      | failed retryable =>
          cases retryable with
          | false =>
              refine ⟨hattempt, ?_, ?_⟩
              · intro a ha e he
                cases ha
                cases he
                exact ⟨[_, _], _, rfl, .refused⟩
              · intro _ _ hnone
                cases hnone
          | true => exact ih.mono fun es r h => h.retry hexpired later request rfl
      | timedOut => exact ih.mono fun es r h => h.retry hexpired later request rfl

theorem submit_runs (request : TaskUpdateRequest) :
    Runs p leaseToken interval patience (submit p leaseToken request patience)
      errorOf fun _ => True := by
  apply (submit_submits p leaseToken request interval patience).mono
  intro es r h
  refine ⟨h.segments, fun a ha => ⟨trivial, h.error a ha⟩, ?_⟩
  rintro bound ⟨hpatience, hexpiry⟩ hpaced hnone
  have hlast := h.unfinished bound hpaced hnone (by omega)
  omega

/-! ## A call after its claim -/

theorem submitFailure_runs (hinterval : 0 ≤ interval)
    (failure : TerminalFailure) (ordinal : ℕ) :
    Runs p leaseToken interval patience
      (submitFailure F patience p leaseToken failure ordinal) errorOf
      fun _ => True := by
  apply (submit_runs _).sequence hinterval
  intro result _
  left
  cases result with
  | ok x => exact ⟨.ok 1, rfl, trivial, rfl⟩
  | error e => exact ⟨.error e, rfl, trivial, rfl⟩

/-- The error with which the loop is left. -/
def exitError : Exit → Option DispatchError
  | .inl outcome => errorOf outcome
  | .inr _ => none

variable (hinterval : 0 ≤ interval)

include hinterval

theorem leaveWithFailure_runs (failure : TerminalFailure) (ordinal : ℕ) :
    Runs p leaseToken interval patience
      (do return .inl (← submitFailure F patience p leaseToken failure
        ordinal) : Call Exit) exitError fun _ => True :=
  (submitFailure_runs hinterval failure ordinal).sequence hinterval
    fun outcome _ => .inl ⟨.inl outcome, rfl, trivial, rfl⟩

theorem validateAgentEvent_runs (event : A2aTaskEvent) (ordinal : ℕ) :
    Runs p leaseToken interval patience (validateAgentEvent F p event ordinal)
      (fun _ => none) fun admitted => admitted = true → ordinal < 4 := by
  unfold validateAgentEvent
  split_ifs with hordinal
  · exact runs_pure nofun rfl
  · rw [not_not] at hordinal
    subst hordinal
    split
    · exact runs_pure (fun _ => (by decide : 0 < 4)) rfl
    · exact runs_pure (fun _ => (by decide : 1 < 4)) rfl
    · exact runs_pure (fun _ => (by decide : 2 < 4)) rfl
    · split_ifs with hbinding
      · apply runs_ask (o := .now) hinterval trivial
        intro now
        exact runs_pure (fun _ => (by decide : 3 < 4)) rfl
      · exact runs_pure nofun rfl
    · exact runs_pure nofun rfl

theorem nextEvent_runs (invocationDone : Bool) :
    Runs p leaseToken interval patience (nextEvent invocationDone)
      (fun _ => none) fun selected =>
        ∀ result, selected = .invocation result → invocationDone = false := by
  unfold nextEvent
  split_ifs with hdone
  · apply runs_ask (o := .recv) hinterval trivial
    intro event
    exact runs_pure nofun rfl
  · rw [Bool.not_eq_true] at hdone
    intro selected
    refine ⟨.passive trivial, ?_, fun _ _ _ => nofun⟩
    exact fun _ _ => ⟨fun _ _ => hdone, nofun⟩

theorem reportProgress_runs (request : TaskUpdateRequest) (received : ℕ)
    {next : Call Exit}
    (hnext : Runs p leaseToken interval patience next exitError
      fun _ => True) :
    Runs p leaseToken interval patience
      (reportProgress F patience p leaseToken request received next)
      exitError fun _ => True := by
  apply (submit_runs request).bind hinterval
  intro result _
  cases result with
  | ok x => exact hnext
  | error e => exact leaveWithFailure_runs hinterval _ received

/-- How often the loop can still be entered. -/
def LoopState.need (s : LoopState) : ℕ :=
  5 - s.received + if s.invocationDone then 0 else 1

theorem eventLoop_runs (n : ℕ) (s : LoopState) (hs : s.received ≤ 4)
    (hn : 6 ≤ patience → s.need ≤ n) :
    Runs p leaseToken interval patience
      (eventLoop F patience p leaseToken n s) exitError fun _ => True := by
  induction n generalizing s with
  | zero =>
      refine ⟨.nil, nofun, ?_⟩
      rintro bound ⟨hpatience, -⟩ - -
      have hneed := hn hpatience
      rw [LoopState.need] at hneed
      omega
  | succ n ih =>
      rw [eventLoop]
      apply (nextEvent_runs hinterval s.invocationDone).bind hinterval
      intro selected hselected
      split
      next result =>
        split_ifs with hresult
        · exact leaveWithFailure_runs hinterval _ s.received
        · apply ih
          · exact hs
          · intro hpatience
            have hneed := hn hpatience
            rw [LoopState.need, hselected result rfl] at hneed
            rw [LoopState.need]
            simp only [Bool.false_eq_true, if_false, if_true] at hneed ⊢
            omega
      next => exact runs_pure trivial rfl
      next event =>
        apply (validateAgentEvent_runs hinterval event s.received).bind
          hinterval
        intro admitted hadmitted
        split_ifs with htrue
        · have hreceived := hadmitted htrue
          have hnext : ∀ t : LoopState, t.received = s.received + 1 →
              t.invocationDone = s.invocationDone →
              Runs p leaseToken interval patience
                (eventLoop F patience p leaseToken n t) exitError
                fun _ => True := by
            intro t ht hdone
            apply ih
            · omega
            · intro hpatience
              have hneed := hn hpatience
              rw [LoopState.need] at hneed
              rw [LoopState.need, ht, hdone]
              omega
          cases event with
          | submitted ordinal =>
              exact reportProgress_runs hinterval _ _
                (hnext _ rfl rfl)
          | working ordinal text =>
              exact reportProgress_runs hinterval _ _
                (hnext _ rfl rfl)
          | completed ordinal result binding => exact hnext _ rfl rfl
        · exact leaveWithFailure_runs hinterval _ s.received

theorem conclude_runs (s : LoopState) :
    Runs p leaseToken interval patience (conclude F patience p leaseToken s)
      errorOf fun _ => True := by
  have hfailure : ∀ failure ordinal, Runs p leaseToken interval patience
      (submitFailure F patience p leaseToken failure ordinal) errorOf
      fun _ => True := submitFailure_runs hinterval
  have hawait : Runs p leaseToken interval patience
      (awaitInvocation s.invocationDone) (fun _ => none) fun _ => True := by
    unfold awaitInvocation
    split_ifs with hdone
    · exact runs_pure trivial rfl
    · intro result
      refine ⟨.passive trivial, ?_, fun _ _ _ => nofun⟩
      exact fun _ _ => ⟨trivial, nofun⟩
  apply hawait.bind hinterval
  intro result _
  split_ifs with hresult
  · exact hfailure _ _
  split
  · exact hfailure _ _
  · apply (submit_runs _).bind hinterval
    intro answer _
    cases answer with
    | error e => exact hfailure _ _
    | ok x => exact runs_pure trivial rfl

theorem execute_runs :
    Runs p leaseToken interval patience (execute F patience p leaseToken)
      errorOf fun _ => True := by
  apply yields_ask.mpr
  intro now
  apply yields_ask.mpr
  rintro ⟨⟩
  refine Prog.Yields.mono ((eventLoop_runs hinterval
    patience ⟨false, 0, none, 0⟩ (Nat.zero_le 4) id).sequence hinterval
      ?_ : Runs p leaseToken interval patience _ errorOf fun _ => True) ?_
  · intro left _
    cases left with
    | inl outcome => exact .inl ⟨outcome, rfl, trivial, rfl⟩
    | inr s => exact .inr (conclude_runs hinterval s)
  · rintro es r ⟨hsegments, hresult, hreturns⟩
    refine ⟨.cons (.invocation now) hsegments, ?_, ?_⟩
    · intro a ha
      exact ⟨trivial, fun e he => ((hresult a ha).2 e he).prepend [_, _]⟩
    · intro bound hbound hpaced
      obtain ⟨-, bound', hle, hes⟩ := Paced.split hinterval
        (show Paced interval bound ([_, _] ++ es) from hpaced)
      exact hreturns bound' (hbound.mono hle) hes

end Runs

/-! ## The whole call -/

/-- What a call does after its claim, by the clock. -/
structure KeepsTime (interval : ℤ) (patience : ℕ) (p : RoomContextPacket)
    (leaseToken : Uuid) (es : List (Event Room))
    (r : Option (Except DispatchError ℕ)) : Prop where
  segments : Segments p leaseToken es
  error : ∀ e, r = some (.error e) → EndsWith p es e
  returns : ∀ bound, Late p interval patience bound →
    Paced interval bound es → r ≠ none

theorem KeepsTime.of_runs {interval : ℤ} {patience : ℕ}
    {p : RoomContextPacket} {leaseToken : Uuid}
    {c : Call (Except DispatchError ℕ)}
    (hc : Runs p leaseToken interval patience c errorOf fun _ => True) :
    c.run.Yields (KeepsTime interval patience p leaseToken) := by
  apply hc.mono
  rintro es r ⟨hsegments, hresult, hreturns⟩
  constructor
  · exact hsegments
  · intro e he
    exact (hresult _ he).2 e rfl
  · exact hreturns

theorem KeepsTime.cons {interval : ℤ} (hinterval : 0 ≤ interval)
    {patience : ℕ} {p : RoomContextPacket} {leaseToken : Uuid}
    {e : Event Room} (he : e.op.Passive p leaseToken) {es : List (Event Room)}
    {r : Option (Except DispatchError ℕ)}
    (h : KeepsTime interval patience p leaseToken es r) :
    KeepsTime interval patience p leaseToken (e :: es) r := by
  constructor
  · exact .cons (.passive he) h.segments
  · intro error herror
    exact (h.error error herror).prepend [e]
  · rintro bound hbound ⟨hfirst, hes⟩
    have hle := le_nextBound hinterval hfirst
    exact h.returns _ (hbound.mono hle) hes

theorem handle_keepsTime {interval : ℤ} (hinterval : 0 ≤ interval)
    (patience : ℕ) (claimed : ContextResponse) :
    (handle F patience claimed).run.Yields fun es r =>
      ∃ p : RoomContextPacket, Handles claimed es p ∧
        KeepsTime interval patience p claimed.leaseToken es r := by
  have hfailure : ∀ (p : RoomContextPacket) failure,
      (submitFailure F patience p claimed.leaseToken failure 0).run.Yields
        (KeepsTime interval patience p claimed.leaseToken) :=
    fun p failure => KeepsTime.of_runs
      (submitFailure_runs hinterval failure 0)
  unfold handle
  apply yields_ask.mpr
  intro fetched?
  cases fetched? with
  | none =>
      apply (hfailure claimed.packet .contextRefetchFailed).mono
      intro es r h
      refine ⟨claimed.packet, ⟨rfl, .inr ⟨rfl, ?_⟩⟩,
        h.cons hinterval (by trivial)⟩
      rintro q _ ⟨rest, heq⟩
      cases heq
  | some fetched =>
      simp only
      split_ifs with hbinding
      · apply (hfailure claimed.packet .contextBindingMismatch).mono
        intro es r h
        refine ⟨claimed.packet, ⟨rfl, .inr ⟨rfl, ?_⟩⟩,
          h.cons hinterval (by trivial)⟩
        rintro q hq ⟨rest, heq⟩
        cases heq
        rcases hbinding with htoken | hdiffers
        · exact htoken rfl
        · exact hdiffers hq
      rw [not_or, not_not, not_not] at hbinding
      obtain ⟨p, leaseToken⟩ := fetched
      obtain ⟨rfl, hp⟩ : leaseToken = claimed.leaseToken ∧
          p.binding = claimed.packet.binding := hbinding
      have hhandles : ∀ es, Handles claimed (⟨.fetchContext
          claimed.packet.taskId claimed.leaseToken,
            some ⟨p, claimed.leaseToken⟩⟩ :: es) p :=
        fun es => ⟨hp, .inl ⟨es, rfl⟩⟩
      have hfetch : (Op.fetchContext claimed.packet.taskId
          claimed.leaseToken).Passive p claimed.leaseToken :=
        ⟨(congrArg PacketBinding.taskId hp).symm, rfl⟩
      apply yields_ask.mpr
      intro now
      split_ifs with hverified
      · have hexecute :
            (execute F patience p claimed.leaseToken).run.Yields
              (KeepsTime interval patience p claimed.leaseToken) :=
          KeepsTime.of_runs (execute_runs hinterval)
        apply hexecute.mono
        intro es r h
        exact ⟨p, hhandles _,
          (h.cons hinterval (by trivial)).cons hinterval hfetch⟩
      · apply (hfailure p .invalidContextPacket).mono
        intro es r h
        exact ⟨p, hhandles _,
          (h.cons hinterval (by trivial)).cons hinterval hfetch⟩

/-- A claim that is not answered with a task, and the result of the call. -/
inductive Unclaimed : Except Bool (Option ContextResponse) →
    Option (Except DispatchError ℕ) → Prop
  | nothing : Unclaimed (.ok none) (some (.ok 0))
  | failed : Unclaimed (.error true) (some (.error .broker))
  | refused : Unclaimed (.error false) (some (.error .rejected))

/-- What a whole call does, by the clock. -/
inductive CallKeepsTime (interval : ℤ) (patience : ℕ) (leaseOwner : Uuid) :
    List (Event Room) → Option (Except DispatchError ℕ) → Prop
  | unclaimed {answer : Except Bool (Option ContextResponse)}
      {r : Option (Except DispatchError ℕ)} : Unclaimed answer r →
        CallKeepsTime interval patience leaseOwner
          [⟨.claim leaseOwner, answer⟩] r
  | claimed {claimed : ContextResponse} {p : RoomContextPacket}
      {es : List (Event Room)} {r : Option (Except DispatchError ℕ)} :
      Handles claimed es p →
        KeepsTime interval patience p claimed.leaseToken es r →
          CallKeepsTime interval patience leaseOwner
            (⟨.claim leaseOwner, Except.ok (some claimed)⟩ :: es) r

theorem runOnce_keepsTime {interval : ℤ} (hinterval : 0 ≤ interval)
    (patience : ℕ) (leaseOwner : Uuid) :
    (runOnce F patience leaseOwner).run.Yields
      (CallKeepsTime interval patience leaseOwner) := by
  unfold runOnce
  apply yields_ask.mpr
  intro answer
  split
  next retryable =>
    cases retryable with
    | true => exact .unclaimed .failed
    | false => exact .unclaimed .refused
  next => exact .unclaimed .nothing
  next claimed =>
    apply (handle_keepsTime hinterval patience claimed).mono
    rintro es r ⟨p, hp, htime⟩
    exact .claimed hp htime

/-- Whatever happens in a call, it submits updates for the packet that it
handles only while this is fresh, under limits that end with it, and it starts
the agent for this packet only, under a limit that leaves two seconds. -/
theorem call_keeps_deadlines (F : Formats) (patience : ℕ)
    (leaseOwner : Uuid) : (runOnce F patience leaseOwner).run.Yields fun es _ =>
      ∀ (claimed : ContextResponse) (rest : List (Event Room)),
        es = ⟨.claim leaseOwner, Except.ok (some claimed)⟩ :: rest →
          ∃ p, Handles claimed rest p ∧ ∀ pre e post,
            rest = pre ++ e :: post → OnTime p claimed.leaseToken pre e := by
  apply (runOnce_keepsTime (le_refl 0) patience leaseOwner).mono
  rintro es r h claimed rest rfl
  cases h with
  | unclaimed hanswer => cases hanswer
  | claimed hp htime =>
      refine ⟨_, hp, ?_⟩
      rintro pre e post rfl
      exact htime.segments.onTime

/-- A call comes back: where the retry interval passes between attempts, the
patience of the model is not what ends its retries. -/
theorem call_returns (F : Formats) {interval : ℤ} (hinterval : 0 ≤ interval)
    {patience : ℕ} (hpatience : 6 ≤ patience) (leaseOwner : Uuid) :
    (runOnce F patience leaseOwner).run.Yields fun es r => ∀ start,
      Paced interval start es →
      (∀ (claimed : ContextResponse) (rest : List (Event Room)) p,
        es = ⟨.claim leaseOwner, Except.ok (some claimed)⟩ :: rest →
          Handles claimed rest p →
            toNanos p.expiresAt ≤ start + (patience - 1) * interval) →
      r ≠ none := by
  apply (runOnce_keepsTime hinterval patience leaseOwner).mono
  intro es r h start hpaced hexpiry
  cases h with
  | unclaimed hanswer =>
      rintro rfl
      cases hanswer
  | claimed hp htime =>
      exact htime.returns start ⟨hpatience, hexpiry _ _ _ rfl hp⟩ hpaced.2

namespace Sample

/-- Five seconds before the packet expires. -/
def start : ℤ := 1893456295000000000

def secondsLater (n : ℕ) : DateTime := toLex (1893456295 + n, 0)

/-- Whatever the answers are. -/
def anything : Environment Room Unit := ⟨fun _ _ => True, fun _ _ => ()⟩

def reportUnfetched (limit : ℤ) : Op :=
  .submitUpdate packet.taskId packet.taskId
    (failureRequest Reference.formats packet .contextRefetchFailed 0) limit

/-- The packet cannot be fetched; the first attempt to report this fails, and
the second one is accepted. -/
def retriedCall : List (Event Room) :=
  [⟨.claim referenceAgentId, Except.ok (some ⟨packet, packet.taskId⟩)⟩,
    ⟨.fetchContext packet.taskId packet.taskId, none⟩,
    ⟨.now, secondsLater 1⟩, ⟨.now, secondsLater 1⟩,
    ⟨reportUnfetched 4000000000, Answer.failed true⟩,
    ⟨.now, secondsLater 3⟩, ⟨.now, secondsLater 3⟩,
    ⟨reportUnfetched 2000000000, Answer.accepted⟩]

theorem exec_retriedCall : Exec anything ()
    (runOnce Reference.formats 6 referenceAgentId).run retriedCall ()
    (some (some (.ok 1))) := by
  -- One step for each operation of the call.
  apply Exec.call trivial
  apply Exec.call trivial
  apply Exec.call trivial
  apply Exec.call trivial
  apply Exec.call trivial
  apply Exec.call trivial
  apply Exec.call trivial
  apply Exec.call trivial
  exact .ret _ _

theorem paced_retriedCall : Paced 1000000000 start retriedCall := by
  simp [retriedCall, Paced, ReadsAfter, nextBound, Answer.Retried, start,
    secondsLater, reportUnfetched, toNanos]

end Sample

theorem call_returns_retriedCall :
    ∃ r, Exec Sample.anything ()
        (runOnce Reference.formats 6 referenceAgentId).run Sample.retriedCall ()
        (some r) ∧
      Paced 1000000000 Sample.start Sample.retriedCall ∧ r ≠ none := by
  have hinterval : (0 : ℤ) ≤ 1000000000 := by decide
  have hreturns := (call_returns Reference.formats hinterval (le_refl 6)
    referenceAgentId).exec Sample.exec_retriedCall Sample.start
    Sample.paced_retriedCall
  refine ⟨_, Sample.exec_retriedCall, Sample.paced_retriedCall, hreturns ?_⟩
  intro claimed rest p heq hp
  cases heq
  have hunfetched : Handles ⟨Sample.packet, Sample.packet.taskId⟩
      (Sample.retriedCall.drop 1) Sample.packet := by
    refine ⟨rfl, .inr ⟨rfl, ?_⟩⟩
    rintro q _ ⟨rest, hq⟩
    cases hq
  rw [hp.unique hunfetched]
  decide

end AgentGateway.Task
