import AgentGateway.Conversation.Dispatcher

/-!
# Reasoning about mediator programs

The rules of `Prog.Ensures` for mediator programs, and what the two clients
ensure: the exact events where a later proof needs them, otherwise only that
the directory stays as it is.
-/

namespace AgentGateway

open Json (Value)
open Interaction

/-- A relation between the directory, the events of the call so far, and the
next event. -/
abbrev Guarantees := Directory → List Action → Action → Prop

abbrev Post (α : Type) :=
  Directory → List Action → Except MediationError α → Prop

namespace Mediation

variable {α β : Type} {G : Guarantees} {d : Directory} {h : List Action}

def Ensures (G : Guarantees) (p : Mediation α) (Q : Post α) (d : Directory)
    (h : List Action) : Prop :=
  Prog.Ensures world G p.run Q d h

theorem ensures_pure {a : α} {Q : Post α} :
    Ensures G (pure a) Q d h ↔ Q d h (.ok a) := Iff.rfl

theorem ensures_throw {e : MediationError} {Q : Post α} :
    Ensures G (throw e) Q d h ↔ Q d h (.error e) := Iff.rfl

theorem ensures_bind {p : Mediation α} {f : α → Mediation β} {Q : Post β} :
    Ensures G (p >>= f) Q d h ↔
      Ensures G p (fun d' h' r =>
        match r with
        | .ok a => Ensures G (f a) Q d' h'
        | .error e => Q d' h' (.error e)) d h := by
  refine Prog.ensures_bindExcept.trans ⟨fun hp => ?_, fun hp => ?_⟩
  · refine Prog.Ensures.mono hp fun d' h' r hr => ?_
    cases r <;> exact hr
  · refine Prog.Ensures.mono hp fun d' h' r hr => ?_
    cases r <;> exact hr

/-- Sequencing, by a postcondition of the first program. -/
theorem Ensures.bind {p : Mediation α} {f : α → Mediation β} {R : Post α}
    {Q : Post β} (hp : Ensures G p R d h)
    (hok : ∀ d' h' a, R d' h' (.ok a) → Ensures G (f a) Q d' h')
    (herr : ∀ d' h' e, R d' h' (.error e) → Q d' h' (.error e)) :
    Ensures G (p >>= f) Q d h := by
  refine ensures_bind.mpr (Prog.Ensures.mono hp fun d' h' r hr => ?_)
  cases r with
  | ok a => exact hok d' h' a hr
  | error e => exact herr d' h' e hr

theorem Ensures.mono {p : Mediation α} {R Q : Post α}
    (hp : Ensures G p R d h) (himp : ∀ d' h' r, R d' h' r → Q d' h' r) :
    Ensures G p Q d h :=
  Prog.Ensures.mono hp himp

theorem ensures_perform {op : Op} {Q : Post op.Answer} :
    Ensures G (perform op) Q d h ↔ ∀ ans, allowed d ⟨op, ans⟩ →
      G d h ⟨op, ans⟩ ∧
        Q (written d ⟨op, ans⟩) (h ++ [⟨op, ans⟩]) (.ok ans) := Iff.rfl

theorem ensures_checked {x : Checked α} {Q : Post α} :
    Ensures G (checked x) Q d h ↔
      (∀ a, x = some a → Q d h (.ok a)) ∧
        (x = none → Q d h (.error .validation)) := by
  cases x with
  | none => simp [checked, ensures_throw]
  | some a => simp [checked, ensures_pure]

theorem ensures_ofExcept {x : Except MediationError α} {Q : Post α} :
    Ensures G (ofExcept x) Q d h ↔ Q d h x := by
  cases x <;> exact Iff.rfl

theorem attempt_run (p : Mediation α) :
    (attempt p).run = (p.run >>= fun r => .ret (.ok r)) := by
  show ((ExceptT.lift p.run).run : Prog effects _) = _
  generalize p.run = q
  induction q with
  | ret a => rfl
  | call op next ih =>
      exact congrArg (Prog.call op) (funext fun ans => ih ans)

theorem ensures_attempt {p : Mediation α}
    {Q : Post (Except MediationError α)} :
    Ensures G (attempt p) Q d h ↔
      Ensures G p (fun d' h' r => Q d' h' (.ok r)) d h := by
  rw [Ensures, attempt_run, Prog.ensures_bind]
  rfl

/-- A check in the middle of a program. -/
theorem ensures_checked_bind {x : Checked α} {f : α → Mediation β}
    {Q : Post β} (hok : ∀ a, x = some a → Ensures G (f a) Q d h)
    (herr : x = none → Q d h (.error .validation)) :
    Ensures G (checked x >>= f) Q d h :=
  ensures_bind.mpr (ensures_checked.mpr ⟨hok, herr⟩)

/-- An operation that leaves the directory alone. -/
theorem ensures_quiet_bind {o : Op} {f : o.Answer → Mediation β}
    {Q : Post β} (hquiet : o.Quiet)
    (hG : ∀ ans, allowed d ⟨o, ans⟩ → G d h ⟨o, ans⟩)
    (hnext : ∀ ans, allowed d ⟨o, ans⟩ →
      Ensures G (f ans) Q d (h ++ [⟨o, ans⟩])) :
    Ensures G (perform o >>= f) Q d h := by
  refine ensures_bind.mpr (ensures_perform.mpr fun ans hallowed => ?_)
  refine ⟨hG ans hallowed, ?_⟩
  rw [written_of_quiet hquiet]
  exact hnext ans hallowed

/-! ## Interfaces -/

/-- Every operation lies in `P` and every error in `E`. -/
def Within (P : Op → Prop) (E : MediationError → Prop) (p : Mediation α) :
    Prop :=
  Prog.Within (S := effects) P p.run fun r => ∀ e, r = .error e → E e

variable {P : Op → Prop} {E : MediationError → Prop}

theorem within_pure (a : α) : Within P E (pure a : Mediation α) := by
  rintro e ⟨⟩

theorem within_perform {o : Op} (h : P o) : Within P E (perform o) := by
  refine ⟨h, ?_⟩
  rintro ans e ⟨⟩

theorem within_checked (h : E .validation) (x : Checked α) :
    Within P E (checked x) := by
  cases x with
  | none =>
      rintro e ⟨⟩
      exact h
  | some a => exact within_pure a

theorem within_ofExcept {x : Except MediationError α}
    (h : ∀ e, x = .error e → E e) : Within P E (ofExcept x) := by
  cases x with
  | error e =>
      rintro e' ⟨⟩
      exact h e rfl
  | ok a => exact within_pure a

theorem Within.bind {p : Mediation α} {f : α → Mediation β}
    (hp : Within P E p) (hf : ∀ a, Within P E (f a)) :
    Within P E (p >>= f) := by
  refine Prog.Within.bind hp ?_
  rintro (e | a) hr
  · rintro e' ⟨⟩
    exact hr e rfl
  · exact hf a

/-- An attempt only fails where nothing is caught. -/
theorem Within.attempt {E' : MediationError → Prop} {p : Mediation α}
    (hp : Within P E p) : Within P E' (attempt p) := by
  refine Prog.Within.bind (R := fun _ => True) (hp.mono fun _ _ => trivial) ?_
  rintro r _ e ⟨⟩

theorem Within.weaken {P' : Op → Prop} {E' : MediationError → Prop}
    {p : Mediation α} (hp : Within P E p) (hP : ∀ op, P op → P' op)
    (hE : ∀ e, E e → E' e) : Within P' E' p :=
  Prog.Within.mono (Prog.Within.weaken hp hP) fun _ hr e he => hE e (hr e he)

theorem Ensures.and_within {p : Mediation α} {Q : Post α}
    (hp : Ensures G p Q d h) (hw : Within P E p) :
    Ensures G p (fun d' h' r => Q d' h' r ∧
      ∃ es, h' = h ++ es ∧ ∀ e ∈ es, P e.op) d h :=
  Prog.Ensures.and_within hp hw

theorem Within.ensures {p : Mediation α} (hp : Within P E p)
    (hquiet : ∀ op, P op → op.Quiet)
    (hG : ∀ h' (e : Action), P e.op → G d h' e) :
    Ensures G p (fun d' h' r => d' = d ∧
      (∃ es, h' = h ++ es ∧ ∀ e ∈ es, P e.op) ∧
        ∀ e, r = .error e → E e) d h :=
  Prog.Within.ensures hp (fun _ he => written_of_quiet (hquiet _ he)) hG

end Mediation

/-! ## Harmless operations -/

/-- The submission of a provider turn. -/
def WorkerRequest.IsSend (r : WorkerRequest) : Prop :=
  r.path = .rpc ∧ ∃ b, r.body = some b ∧ b["method"] = .str "SendMessage"

/-- The submission of an update. -/
def RoomRequest.IsUpdate (r : RoomRequest) : Prop :=
  ∃ id, r.path = .task id "updates"

/-- Operations of the worker client other than a submission. -/
def Op.Worker : Op → Prop
  | .workerSend r => ¬r.IsSend
  | .workerReceive _ => True
  | .newUuid => True
  | _ => False

/-- Operations of the broker client other than an update. -/
def Op.Room : Op → Prop
  | .serviceToken _ => True
  | .roomRequest r => ¬r.IsUpdate
  | .clock => True
  | _ => False

/-- Operations that change nothing and submit nothing. -/
def Op.Harmless : Op → Prop
  | .save _ _ => False
  | .workerSend r => ¬r.IsSend
  | .roomRequest r => ¬r.IsUpdate
  | _ => True

theorem Op.Worker.harmless {op : Op} (h : op.Worker) : op.Harmless := by
  cases op <;> first | exact h | trivial

theorem Op.Room.harmless {op : Op} (h : op.Room) : op.Harmless := by
  cases op <;> first | exact h | trivial

theorem Op.Harmless.quiet {op : Op} (h : op.Harmless) : op.Quiet := by
  cases op <;> first | exact h | trivial

/-- A guarantee that asks nothing of harmless operations. -/
def Guarantees.Lenient (G : Guarantees) : Prop :=
  ∀ d h (e : Action), e.op.Harmless → G d h e

/-- No guarantee, where only the postcondition matters. -/
def Guarantees.none : Guarantees := fun _ _ _ => True

theorem Guarantees.none_lenient : Guarantees.none.Lenient :=
  fun _ _ _ _ => trivial

/-- Errors that are neither about the state directory nor definitive. -/
def MediationError.Uncertain (e : MediationError) : Prop :=
  e ≠ .state ∧ e ≠ .authorityLost

end AgentGateway
