import Mathlib.Data.List.Forall2
import Mathlib.Data.List.Induction

/-!
# Interactive programs

A program performs operations on an environment and continues with their
answers.  An environment says which answers it may give in a state and how
the state moves.  An execution may be cut off between any two operations, so
a property of the events of all executions is a property under crashes.

`Ensures` is the weakest precondition with a guarantee: besides the
postcondition it demands, of every operation that is performed, a relation to
the state and to the events before it.  `Session` and `Run` chain executions
into histories, and `Run.moments` is the induction over such a history.

`Relates` compares two programs step by step, for properties of two executions
whose answers differ in a given way.
-/

namespace Interaction

structure Signature where
  Op : Type
  Ans : Op → Type

/-- A performed operation and its answer. -/
structure Event (S : Signature) where
  op : S.Op
  ans : S.Ans op

inductive Prog (S : Signature) (α : Type) where
  | ret (a : α)
  | call (op : S.Op) (next : S.Ans op → Prog S α)

variable {S : Signature} {σ α β ε ι : Type}

namespace Prog

def bind : Prog S α → (α → Prog S β) → Prog S β
  | .ret a, f => f a
  | .call op next, f => .call op fun ans => (next ans).bind f

instance : Monad (Prog S) where
  pure := .ret
  bind := bind

def perform (op : S.Op) : Prog S (S.Ans op) := .call op .ret

@[simp] theorem bind_ret (a : α) (f : α → Prog S β) :
    (Prog.ret a >>= f) = f a := rfl

@[simp] theorem bind_call (op : S.Op) (next : S.Ans op → Prog S α)
    (f : α → Prog S β) :
    (Prog.call op next >>= f) = .call op fun ans => next ans >>= f := rfl

end Prog

/-- An environment with states `σ`. -/
structure Environment (S : Signature) (σ : Type) where
  allows : σ → Event S → Prop
  update : σ → Event S → σ

namespace Environment

variable (E : Environment S σ)

/-- The state after a list of events. -/
def after (s : σ) (es : List (Event S)) : σ := es.foldl E.update s

@[simp] theorem after_nil (s : σ) : E.after s [] = s := rfl

@[simp] theorem after_cons (s : σ) (e : Event S) (es : List (Event S)) :
    E.after s (e :: es) = E.after (E.update s e) es := rfl

theorem after_append (s : σ) (es fs : List (Event S)) :
    E.after s (es ++ fs) = E.after (E.after s es) fs :=
  List.foldl_append

theorem after_snoc (s : σ) (es : List (Event S)) (e : Event S) :
    E.after s (es ++ [e]) = E.update (E.after s es) e := by
  rw [after_append]
  rfl

end Environment

/-! ## Executions -/

/-- `Exec E s p es s' r`: from `s`, the program `p` performs `es` and reaches
`s'`; it has returned `r`, or `r = none` and it was cut off. -/
inductive Exec (E : Environment S σ) :
    σ → Prog S α → List (Event S) → σ → Option α → Prop
  | cut (s : σ) (p : Prog S α) : Exec E s p [] s none
  | ret (s : σ) (a : α) : Exec E s (.ret a) [] s (some a)
  | call {s s' : σ} {op : S.Op} {ans : S.Ans op}
      {next : S.Ans op → Prog S α} {es : List (Event S)} {r : Option α} :
      E.allows s ⟨op, ans⟩ → Exec E (E.update s ⟨op, ans⟩) (next ans) es s' r →
        Exec E s (.call op next) (⟨op, ans⟩ :: es) s' r

variable {E : Environment S σ}

theorem Exec.state_eq {s s' : σ} {p : Prog S α} {es : List (Event S)}
    {r : Option α} (h : Exec E s p es s' r) : s' = E.after s es := by
  induction h with
  | cut => rfl
  | ret => rfl
  | call _ _ ih => exact ih

theorem Exec.bind {s s₁ s₂ : σ} {p : Prog S α} {f : α → Prog S β}
    {es₁ es₂ : List (Event S)} {a : α} {r : Option β}
    (hp : Exec E s p es₁ s₁ (some a)) (hf : Exec E s₁ (f a) es₂ s₂ r) :
    Exec E s (p >>= f) (es₁ ++ es₂) s₂ r := by
  generalize hx : some a = x at hp
  induction hp with
  | cut => cases hx
  | ret =>
      cases hx
      exact hf
  | call hallowed _ ih => exact .call hallowed (ih hf hx)

theorem Exec.perform {s : σ} {op : S.Op} {ans : S.Ans op}
    (h : E.allows s ⟨op, ans⟩) :
    Exec E s (Prog.perform op) [⟨op, ans⟩] (E.update s ⟨op, ans⟩) (some ans) :=
  .call h (.ret _ _)

/-- Sequencing of programs that may fail, first step successful. -/
theorem Exec.bindOk {s s₁ s₂ : σ} {p : ExceptT ε (Prog S) α}
    {f : α → ExceptT ε (Prog S) β} {es₁ es₂ : List (Event S)} {a : α}
    {r : Option (Except ε β)} (hp : Exec E s p.run es₁ s₁ (some (.ok a)))
    (hf : Exec E s₁ (f a).run es₂ s₂ r) :
    Exec E s (p >>= f).run (es₁ ++ es₂) s₂ r :=
  Exec.bind (p := p.run) (f := ExceptT.bindCont f) hp hf

/-- An execution of a sequence that returns is made of two executions. -/
theorem Exec.of_bind {s s' : σ} {p : Prog S α} {f : α → Prog S β}
    {es : List (Event S)} {b : β} (h : Exec E s (p >>= f) es s' (some b)) :
    ∃ es₁ es₂ s₁ a, es = es₁ ++ es₂ ∧ Exec E s p es₁ s₁ (some a) ∧
      Exec E s₁ (f a) es₂ s' (some b) := by
  induction p generalizing s es with
  | ret a => exact ⟨[], es, s, a, rfl, .ret s a, h⟩
  | call op next ih =>
      rw [Prog.bind_call] at h
      cases h with
      | call hallowed h =>
          obtain ⟨es₁, es₂, s₁, a, rfl, hp, hf⟩ := ih _ h
          exact ⟨_, es₂, s₁, a, rfl, .call hallowed hp, hf⟩

/-- Sequencing of programs that may fail, first step failed. -/
theorem Exec.bindError {s s₁ : σ} {p : ExceptT ε (Prog S) α}
    {f : α → ExceptT ε (Prog S) β} {es₁ : List (Event S)} {e : ε}
    (hp : Exec E s p.run es₁ s₁ (some (.error e))) :
    Exec E s (p >>= f).run es₁ s₁ (some (.error e)) := by
  have h := Exec.bind (p := p.run) (f := ExceptT.bindCont f) hp (.ret s₁ _)
  rwa [List.append_nil] at h

/-- The same for programs that may fail: the first one fails, or both run. -/
theorem Exec.of_bindExcept {s s' : σ} {p : ExceptT ε (Prog S) α}
    {f : α → ExceptT ε (Prog S) β} {es : List (Event S)} {r : Except ε β}
    (h : Exec E s (p >>= f).run es s' (some r)) :
    (∃ e, r = .error e ∧ Exec E s p.run es s' (some (.error e))) ∨
      ∃ es₁ es₂ s₁ a, es = es₁ ++ es₂ ∧
        Exec E s p.run es₁ s₁ (some (.ok a)) ∧
        Exec E s₁ (f a).run es₂ s' (some r) := by
  obtain ⟨es₁, es₂, s₁, x, rfl, hp, hf⟩ :=
    Exec.of_bind (p := p.run) (f := ExceptT.bindCont f) h
  cases x with
  | error e =>
      have hret : Exec E s₁ (Prog.ret (Except.error e)) es₂ s' (some r) := hf
      cases hret with
      | ret => exact .inl ⟨e, rfl, by rwa [List.append_nil]⟩
  | ok a => exact .inr ⟨es₁, es₂, s₁, a, rfl, hp, hf⟩

/-- Where every operation is answered, a program can be run to its end. -/
theorem exists_exec (h : ∀ s op, ∃ ans : S.Ans op, E.allows s ⟨op, ans⟩)
    (p : Prog S α) (s : σ) : ∃ es s' r, Exec E s p es s' (some r) := by
  induction p generalizing s with
  | ret a => exact ⟨[], s, a, .ret s a⟩
  | call op next ih =>
      obtain ⟨ans, hans⟩ := h s op
      obtain ⟨es, s', r, hexec⟩ := ih ans (E.update s ⟨op, ans⟩)
      exact ⟨_, s', r, .call hans hexec⟩

/-! ## Traces -/

namespace Prog

/-- Whatever the answers are, `p` performs events and returns a value that are
related by `P`. -/
def Yields : Prog S α → (List (Event S) → α → Prop) → Prop
  | .ret a, P => P [] a
  | .call op next, P =>
      ∀ ans, (next ans).Yields fun es a => P (⟨op, ans⟩ :: es) a

theorem Yields.mono {p : Prog S α} {P Q : List (Event S) → α → Prop}
    (hp : p.Yields P) (himp : ∀ es a, P es a → Q es a) : p.Yields Q := by
  induction p generalizing P Q with
  | ret a => exact himp [] a hp
  | call op next ih =>
      intro ans
      exact ih ans (hp ans) fun es a => himp (⟨op, ans⟩ :: es) a

theorem yields_bind {p : Prog S α} {f : α → Prog S β}
    {P : List (Event S) → β → Prop} :
    (p >>= f).Yields P ↔
      p.Yields fun es a => (f a).Yields fun fs b => P (es ++ fs) b := by
  induction p generalizing P with
  | ret a => exact Iff.rfl
  | call op next ih => exact forall_congr' fun ans => ih ans

theorem Yields.exec {p : Prog S α} {P : List (Event S) → α → Prop}
    {s s' : σ} {es : List (Event S)} {a : α} (hp : p.Yields P)
    (hexec : Exec E s p es s' (some a)) : P es a := by
  generalize hr : some a = r at hexec
  induction hexec generalizing P with
  | cut => cases hr
  | ret s b =>
      cases hr
      exact hp
  | call _ _ ih => exact ih (hp _) hr

/-- Where every operation can be answered, an execution that was cut off is the
beginning of what a program yields. -/
theorem Yields.begins (hans : ∀ op, Nonempty (S.Ans op)) {p : Prog S α}
    {P : List (Event S) → α → Prop} {s s' : σ} {es : List (Event S)}
    {r : Option α} (hp : p.Yields P) (hexec : Exec E s p es s' r) :
    ∃ fs a, P (es ++ fs) a := by
  have hends : ∀ {q : Prog S α} {Q : List (Event S) → α → Prop},
      q.Yields Q → ∃ fs a, Q fs a := by
    intro q
    induction q with
    | ret a => exact fun hq => ⟨[], a, hq⟩
    | call op next ih =>
        intro Q hq
        obtain ⟨ans⟩ := hans op
        obtain ⟨fs, a, hQ⟩ := ih ans (hq ans)
        exact ⟨_, a, hQ⟩
  induction hexec generalizing P with
  | cut => exact hends hp
  | ret s a => exact ⟨[], a, hp⟩
  | call _ _ ih => exact ih (hp _)

end Prog

/-! ## Two programs -/

namespace Prog

/-- Two programs perform related operations as long as they get related
answers, and return related values. -/
def Relates (O : S.Op → S.Op → Prop) (A : Event S → Event S → Prop)
    (R : α → β → Prop) : Prog S α → Prog S β → Prop
  | .ret a, .ret b => R a b
  | .call op next, .call op' next' => O op op' ∧ ∀ ans ans',
      A ⟨op, ans⟩ ⟨op', ans'⟩ → (next ans).Relates O A R (next' ans')
  | _, _ => False

variable {O : S.Op → S.Op → Prop} {A : Event S → Event S → Prop}
  {γ δ : Type}

theorem Relates.mono {p : Prog S α} {q : Prog S β} {R R' : α → β → Prop}
    (hpq : p.Relates O A R q) (himp : ∀ a b, R a b → R' a b) :
    p.Relates O A R' q := by
  induction p generalizing q with
  | ret a =>
      cases q with
      | ret b => exact himp a b hpq
      | call op next => exact hpq.elim
  | call op next ih =>
      cases q with
      | ret b => exact hpq.elim
      | call op' next' =>
          exact ⟨hpq.1, fun ans ans' hans => ih ans (hpq.2 ans ans' hans)⟩

theorem Relates.bind {p : Prog S α} {q : Prog S β} {f : α → Prog S γ}
    {g : β → Prog S δ} {R : α → β → Prop} {R' : γ → δ → Prop}
    (hpq : p.Relates O A R q)
    (hfg : ∀ a b, R a b → (f a).Relates O A R' (g b)) :
    (p >>= f).Relates O A R' (q >>= g) := by
  induction p generalizing q with
  | ret a =>
      cases q with
      | ret b => exact hfg a b hpq
      | call op next => exact hpq.elim
  | call op next ih =>
      cases q with
      | ret b => exact hpq.elim
      | call op' next' =>
          exact ⟨hpq.1, fun ans ans' hans => ih ans (hpq.2 ans ans' hans)⟩

/-- Executions of related programs, in environments that are kept related and
that relate the answers.  Both return, or both are cut off at one moment. -/
theorem Relates.exec {D : σ → σ → Prop} {I : Event S → Event S → Prop}
    {G : Event S → Prop} {R : α → β → Prop}
    (hstep : ∀ s t e e', D s t → E.allows s e → E.allows t e' →
      O e.op e'.op → I e e' → G e → A e e' ∧ D (E.update s e) (E.update t e'))
    {p : Prog S α} {q : Prog S β} (hpq : p.Relates O A R q)
    {s s' t t' : σ} {es fs : List (Event S)} {r : Option α} {u : Option β}
    (hp : Exec E s p es s' r) (hq : Exec E t q fs t' u) (hD : D s t)
    (hI : ∀ (i : ℕ) e e', es[i]? = some e → fs[i]? = some e' → O e.op e'.op →
      I e e') (hG : ∀ e ∈ es, G e)
    (hcut : r = none ∨ u = none →
      r = none ∧ u = none ∧ es.length = fs.length) :
    List.Forall₂ (fun e e' => O e.op e'.op) es fs ∧ D s' t' ∧
      ∀ a b, r = some a → u = some b → R a b := by
  induction hp generalizing q t fs with
  | cut s p =>
      obtain ⟨_, rfl, hlength⟩ := hcut (.inl rfl)
      cases hq with
      | cut => exact ⟨.nil, hD, by simp⟩
      | call _ _ => simp at hlength
  | ret s a =>
      cases hq with
      | cut => simp at hcut
      | ret t b =>
          refine ⟨.nil, hD, ?_⟩
          rintro a' b' ⟨⟩ ⟨⟩
          exact hpq
      | call _ _ => exact hpq.elim
  | call hallowed _ ih =>
      cases hq with
      | cut =>
          obtain ⟨_, _, hlength⟩ := hcut (.inr rfl)
          simp at hlength
      | ret => exact hpq.elim
      | call hallowed' hq =>
          obtain ⟨hop, hnext⟩ := hpq
          have hinput := hI 0 _ _ rfl rfl hop
          obtain ⟨hans, hD⟩ := hstep _ _ _ _ hD hallowed hallowed' hop hinput
            (hG _ (by simp))
          obtain ⟨hall, hend, hresult⟩ := ih (hnext _ _ hans) hq hD
            (fun i e e' he he' => hI (i + 1) e e' he he')
            (fun e he => hG e (by simp [he]))
            (fun hnone => by simpa using hcut hnone)
          exact ⟨.cons hop hall, hend, hresult⟩

end Prog

/-! ## Guarantees -/

/-- Every operation that `p` performs from state `s` after the events `h`
satisfies `G`, and where `p` returns, `Q` holds. -/
def Prog.Ensures (E : Environment S σ)
    (G : σ → List (Event S) → Event S → Prop) :
    Prog S α → (σ → List (Event S) → α → Prop) → σ → List (Event S) → Prop
  | .ret a, Q, s, h => Q s h a
  | .call op next, Q, s, h => ∀ ans, E.allows s ⟨op, ans⟩ →
      G s h ⟨op, ans⟩ ∧
        (next ans).Ensures E G Q (E.update s ⟨op, ans⟩) (h ++ [⟨op, ans⟩])

variable {G : σ → List (Event S) → Event S → Prop}

namespace Prog

theorem ensures_perform {op : S.Op}
    {Q : σ → List (Event S) → S.Ans op → Prop} {s : σ}
    {h : List (Event S)} :
    (perform op).Ensures E G Q s h ↔ ∀ ans, E.allows s ⟨op, ans⟩ →
      G s h ⟨op, ans⟩ ∧ Q (E.update s ⟨op, ans⟩) (h ++ [⟨op, ans⟩]) ans :=
  Iff.rfl

theorem ensures_bind {p : Prog S α} {f : α → Prog S β}
    {Q : σ → List (Event S) → β → Prop} {s : σ} {h : List (Event S)} :
    (p >>= f).Ensures E G Q s h ↔
      p.Ensures E G (fun s' h' a => (f a).Ensures E G Q s' h') s h := by
  induction p generalizing s h with
  | ret a => rfl
  | call op next ih =>
      simp only [bind_call, Ensures]
      exact forall_congr' fun ans => imp_congr_right fun _ =>
        and_congr_right fun _ => ih ans

theorem Ensures.mono {p : Prog S α} {Q R : σ → List (Event S) → α → Prop}
    {s : σ} {h : List (Event S)} (hp : p.Ensures E G Q s h)
    (himp : ∀ s' h' a, Q s' h' a → R s' h' a) : p.Ensures E G R s h := by
  induction p generalizing s h with
  | ret a => exact himp s h a hp
  | call op next ih =>
      intro ans hallowed
      obtain ⟨hG, hnext⟩ := hp ans hallowed
      exact ⟨hG, ih ans hnext⟩

theorem Ensures.weaken {G' : σ → List (Event S) → Event S → Prop}
    {p : Prog S α} {Q : σ → List (Event S) → α → Prop} {s : σ}
    {h : List (Event S)} (hp : p.Ensures E G Q s h)
    (himp : ∀ s' h' e, G s' h' e → G' s' h' e) : p.Ensures E G' Q s h := by
  induction p generalizing s h with
  | ret a => exact hp
  | call op next ih =>
      intro ans hallowed
      obtain ⟨hG, hnext⟩ := hp ans hallowed
      exact ⟨himp s h _ hG, ih ans hnext⟩

/-- Sequencing of programs that may fail. -/
theorem ensures_bindExcept {p : ExceptT ε (Prog S) α}
    {f : α → ExceptT ε (Prog S) β}
    {Q : σ → List (Event S) → Except ε β → Prop} {s : σ}
    {h : List (Event S)} :
    (p >>= f).run.Ensures E G Q s h ↔
      p.run.Ensures E G (fun s' h' r =>
        match r with
        | .ok a => (f a).run.Ensures E G Q s' h'
        | .error e => Q s' h' (.error e)) s h := by
  have hrun : (p >>= f).run = (p.run >>= ExceptT.bindCont f) := rfl
  rw [hrun, ensures_bind]
  constructor
  · intro hp
    refine hp.mono fun s' h' r hr => ?_
    cases r with
    | ok a => exact hr
    | error e => exact hr
  · intro hp
    refine hp.mono fun s' h' r hr => ?_
    cases r with
    | ok a => exact hr
    | error e => exact hr

/-- What a program ensures holds of each of its executions. -/
theorem Ensures.exec {p : Prog S α} {Q : σ → List (Event S) → α → Prop}
    {s s' : σ} {h es : List (Event S)} {r : Option α}
    (hp : p.Ensures E G Q s h) (hexec : Exec E s p es s' r) :
    (∀ a, r = some a → Q s' (h ++ es) a) ∧
      ∀ fs e gs, es = fs ++ e :: gs → G (E.after s fs) (h ++ fs) e := by
  induction hexec generalizing h with
  | cut => simp
  | ret s a =>
      refine ⟨?_, by simp⟩
      rintro b hb
      cases hb
      rw [List.append_nil]
      exact hp
  | @call s s' op ans next es r hallowed _ ih =>
      obtain ⟨hG, hnext⟩ := hp ans hallowed
      obtain ⟨hQ, hevents⟩ := ih hnext
      refine ⟨fun a ha => by simpa using hQ a ha, ?_⟩
      intro fs e gs heq
      cases fs with
      | nil =>
          cases heq
          simpa using hG
      | cons f fs =>
          cases heq
          simpa using hevents fs e gs rfl

/-! ## Interfaces -/

/-- Every operation of `p` lies in `P` and every result in `R`. -/
def Within (P : S.Op → Prop) : Prog S α → (α → Prop) → Prop
  | .ret a, R => R a
  | .call op next, R => P op ∧ ∀ ans, (next ans).Within P R

variable {P : S.Op → Prop}

theorem Within.mono {p : Prog S α} {R R' : α → Prop} (hp : p.Within P R)
    (himp : ∀ a, R a → R' a) : p.Within P R' := by
  induction p with
  | ret a => exact himp a hp
  | call op next ih => exact ⟨hp.1, fun ans => ih ans (hp.2 ans)⟩

theorem Within.bind {p : Prog S α} {f : α → Prog S β} {R : α → Prop}
    {R' : β → Prop} (hp : p.Within P R)
    (hf : ∀ a, R a → (f a).Within P R') : (p >>= f).Within P R' := by
  induction p with
  | ret a => exact hf a hp
  | call op next ih => exact ⟨hp.1, fun ans => ih ans (hp.2 ans)⟩

theorem Within.weaken {P' : S.Op → Prop} {p : Prog S α} {R : α → Prop}
    (hp : p.Within P R) (himp : ∀ op, P op → P' op) : p.Within P' R := by
  induction p with
  | ret a => exact hp
  | call op next ih => exact ⟨himp op hp.1, fun ans => ih ans (hp.2 ans)⟩

/-- What a program ensures, with the interface that its events stay in. -/
theorem Ensures.and_within {p : Prog S α}
    {Q : σ → List (Event S) → α → Prop} {R : α → Prop} {s : σ}
    {h : List (Event S)} (hp : p.Ensures E G Q s h) (hw : p.Within P R) :
    p.Ensures E G (fun s' h' a => Q s' h' a ∧
      ∃ es, h' = h ++ es ∧ ∀ e ∈ es, P e.op) s h := by
  induction p generalizing s h with
  | ret a => exact ⟨hp, [], by simp⟩
  | call op next ih =>
      intro ans hallowed
      obtain ⟨hG, hnext⟩ := hp ans hallowed
      refine ⟨hG, (ih ans hnext (hw.2 ans)).mono ?_⟩
      rintro s' h' a ⟨hQ, es, rfl, hes⟩
      refine ⟨hQ, ⟨op, ans⟩ :: es, by simp, ?_⟩
      rintro e (_ | ⟨_, he⟩)
      · exact hw.1
      · exact hes e he

/-- What a program yields, with the interface that its events stay in. -/
theorem Yields.and_within {p : Prog S α} {Q : List (Event S) → α → Prop}
    {R : α → Prop} (hp : p.Yields Q) (hw : p.Within P R) :
    p.Yields fun es a => Q es a ∧ ∀ e ∈ es, P e.op := by
  induction p generalizing Q with
  | ret a => exact ⟨hp, by simp⟩
  | call op next ih =>
      intro ans
      refine (ih ans (hp ans) (hw.2 ans)).mono ?_
      rintro es a ⟨hQ, hes⟩
      refine ⟨hQ, ?_⟩
      rintro e (_ | ⟨_, he⟩)
      · exact hw.1
      · exact hes e he

/-- A program within an interface that leaves the state alone only adds events
of the interface. -/
theorem Within.ensures {p : Prog S α} {R : α → Prop} (hp : p.Within P R)
    {s : σ} {h : List (Event S)}
    (hquiet : ∀ e : Event S, P e.op → E.update s e = s)
    (hG : ∀ h' (e : Event S), P e.op → G s h' e) :
    p.Ensures E G (fun s' h' a => s' = s ∧
      (∃ es, h' = h ++ es ∧ ∀ e ∈ es, P e.op) ∧ R a) s h := by
  induction p generalizing h with
  | ret a => exact ⟨rfl, ⟨[], by simp⟩, hp⟩
  | call op next ih =>
      intro ans _
      refine ⟨hG h ⟨op, ans⟩ hp.1, ?_⟩
      rw [hquiet ⟨op, ans⟩ hp.1]
      refine (ih ans (hp.2 ans)).mono ?_
      rintro s' h' a ⟨hs, ⟨es, rfl, hes⟩, hR⟩
      refine ⟨hs, ⟨⟨op, ans⟩ :: es, by simp, ?_⟩, hR⟩
      rintro e (_ | ⟨_, he⟩)
      · exact hp.1
      · exact hes e he

end Prog

/-! ## Histories of executions -/

/-- One execution of a program of the family `P`. -/
structure Session (E : Environment S σ) (P : ι → Prog S α) where
  param : ι
  before : σ
  after : σ
  events : List (Event S)
  result : Option α
  exec : Exec E before (P param) events after result

variable {P : ι → Prog S α}

/-- Sessions one after the other, each from the state the last one left. -/
inductive Run (E : Environment S σ) (P : ι → Prog S α) (s₀ : σ) :
    List (Session E P) → σ → Prop
  | nil : Run E P s₀ [] s₀
  | snoc {past : List (Session E P)} {s : σ} (x : Session E P) :
      Run E P s₀ past s → x.before = s → Run E P s₀ (past ++ [x]) x.after

theorem Session.after_eq (x : Session E P) :
    x.after = E.after x.before x.events := x.exec.state_eq

theorem Run.of_append_cons {s₀ s : σ} {past future : List (Session E P)}
    {x : Session E P} (h : Run E P s₀ (past ++ x :: future) s) :
    Run E P s₀ past x.before := by
  induction future using List.reverseRecOn generalizing s with
  | nil =>
      generalize hl : past ++ [x] = l at h
      cases h with
      | nil => simp at hl
      | snoc y hpast hbefore =>
          obtain ⟨rfl, hy⟩ := List.append_inj' hl rfl
          cases hy
          exact hbefore ▸ hpast
  | append_singleton future y ih =>
      generalize hl : past ++ x :: (future ++ [y]) = l at h
      cases h with
      | nil => simp at hl
      | snoc z hpast hbefore =>
          rw [← List.cons_append, ← List.append_assoc] at hl
          obtain ⟨rfl, -⟩ := List.append_inj' hl rfl
          exact ih hpast

/-- All events of some sessions, in order. -/
def trace (run : List (Session E P)) : List (Event S) :=
  run.flatMap Session.events

@[simp] theorem trace_nil : trace ([] : List (Session E P)) = [] := rfl

@[simp] theorem trace_append (past future : List (Session E P)) :
    trace (past ++ future) = trace past ++ trace future :=
  List.flatMap_append

@[simp] theorem trace_cons (x : Session E P) (future : List (Session E P)) :
    trace (x :: future) = x.events ++ trace future :=
  List.flatMap_cons

/-- The state of a run is determined by its events. -/
theorem Run.state_eq {s₀ s : σ} {run : List (Session E P)}
    (h : Run E P s₀ run s) : s = E.after s₀ (trace run) := by
  induction h with
  | nil => rfl
  | snoc x _ hbefore ih =>
      rw [trace_append, E.after_append, ← ih, ← hbefore, x.after_eq]
      simp

/-- The state in the middle of a session. -/
theorem Run.state_within {s₀ s : σ} {past future : List (Session E P)}
    {x : Session E P} (h : Run E P s₀ (past ++ x :: future) s)
    (es : List (Event S)) :
    E.after x.before es = E.after s₀ (trace past ++ es) := by
  rw [E.after_append, ← h.of_append_cons.state_eq]

/-- Two runs, session by session. -/
theorem Run.pair {D : σ → σ → Prop} {J T : Session E P → Session E P → Prop}
    (hsession : ∀ x y, J x y → D x.before y.before →
      T x y ∧ D x.after y.after)
    {s t s' t' : σ} {run run' : List (Session E P)} (hrun : Run E P s run s')
    (hrun' : Run E P t run' t') (hD : D s t) (hJ : List.Forall₂ J run run') :
    List.Forall₂ T run run' ∧ D s' t' := by
  induction hrun generalizing run' t' with
  | nil =>
      cases hrun' with
      | nil => exact ⟨.nil, hD⟩
      | snoc => simp at hJ
  | @snoc past s x hpast hbefore ih =>
      cases hrun' with
      | nil => simp at hJ
      | @snoc past' t y hpast' hbefore' =>
          have hlength : past.length = past'.length := by
            simpa using hJ.length_eq
          have hfirst : List.Forall₂ J past past' := by
            have htake := List.forall₂_take past.length hJ
            rwa [List.take_left, hlength, List.take_left] at htake
          have hlast : J x y := by
            have hdrop := List.forall₂_drop past.length hJ
            rw [List.drop_left, hlength, List.drop_left] at hdrop
            simpa using hdrop
          obtain ⟨hall, hstate⟩ := ih hpast' hfirst
          subst hbefore hbefore'
          obtain ⟨hT, hafter⟩ := hsession x y hlast hstate
          exact ⟨List.rel_append hall (.cons hT .nil), hafter⟩

/-- Every prefix of the events of a run ends within one of its sessions. -/
theorem exists_session_of_prefix {run : List (Session E P)}
    {t : List (Event S)} (ht : t <+: trace run) (hne : run ≠ []) :
    ∃ past x future h rest, run = past ++ x :: future ∧
      x.events = h ++ rest ∧ t = trace past ++ h := by
  induction run generalizing t with
  | nil => exact absurd rfl hne
  | cons x run ih =>
      obtain ⟨u, hu⟩ := ht
      rw [trace_cons] at hu
      rcases List.append_eq_append_iff.mp hu with ⟨v, hx, _⟩ | ⟨v, rfl, hv⟩
      · exact ⟨[], x, run, t, v, rfl, hx, rfl⟩
      · cases run with
        | nil =>
            have hnil : v = [] := (List.append_eq_nil_iff.mp hv.symm).1
            exact ⟨[], x, [], x.events, [], rfl, by simp, by simp [hnil]⟩
        | cons y run =>
            obtain ⟨past, z, future, h, rest, hrun, hz, rfl⟩ :=
              ih ⟨u, hv.symm⟩ (by simp)
            exact ⟨x :: past, z, future, h, rest, by rw [hrun]; rfl, hz,
              by simp⟩

/-- Every event of a run belongs to one of its sessions. -/
theorem exists_session_of_event {run : List (Session E P)}
    {t : List (Event S)} {e : Event S} (ht : t ++ [e] <+: trace run) :
    ∃ past x future h rest, run = past ++ x :: future ∧
      x.events = h ++ e :: rest ∧ t = trace past ++ h := by
  induction run generalizing t with
  | nil =>
      have hnil := List.prefix_nil.mp ht
      simp at hnil
  | cons x run ih =>
      obtain ⟨u, hu⟩ := ht
      rw [trace_cons] at hu
      rcases List.append_eq_append_iff.mp hu with ⟨v, hx, _⟩ | ⟨v, hv, hu⟩
      · exact ⟨[], x, run, t, v, rfl, by simp [hx], rfl⟩
      · rcases List.eq_nil_or_concat v with rfl | ⟨w, f, rfl⟩
        · exact ⟨[], x, run, t, [], rfl, by simpa using hv.symm, rfl⟩
        · rw [List.concat_eq_append, ← List.append_assoc] at hv
          obtain ⟨rfl, hf⟩ := List.append_inj' hv rfl
          cases hf
          obtain ⟨past, z, future, h, rest, hrun, hz, rfl⟩ :=
            ih ⟨u, by rw [hu, List.concat_eq_append]⟩
          exact ⟨x :: past, z, future, h, rest, by rw [hrun]; rfl, hz,
            by simp⟩

/-- Induction over the moments of a run.  A moment is given by the sessions
that are over, the events of the current session, and the state; it moves by
one event or from the end of a session to the beginning of the next one. -/
theorem Run.moments {s₀ s : σ} {G : ι → σ → List (Event S) → Event S → Prop}
    {J : List (Session E P) → ι → List (Event S) → σ → Prop}
    (hG : ∀ i t, (P i).Ensures E (G i) (fun _ _ _ => True) t [])
    (hinit : ∀ i, J [] i [] s₀)
    (hstep : ∀ past (x : Session E P) h e rest,
      Run E P s₀ past x.before → x.events = h ++ e :: rest →
      G x.param (E.after x.before h) h e →
      J past x.param h (E.after x.before h) →
      J past x.param (h ++ [e]) (E.update (E.after x.before h) e))
    (hnext : ∀ past (x : Session E P) i, Run E P s₀ past x.before →
      J past x.param x.events x.after → J (past ++ [x]) i [] x.after)
    {past : List (Session E P)} {x : Session E P}
    {future : List (Session E P)} {h rest : List (Event S)}
    (hrun : Run E P s₀ (past ++ x :: future) s)
    (hevents : x.events = h ++ rest) :
    J past x.param h (E.after x.before h) := by
  have hwithin : ∀ past (x : Session E P), Run E P s₀ past x.before →
      J past x.param [] x.before → ∀ h rest, x.events = h ++ rest →
        J past x.param h (E.after x.before h) := by
    intro past x hpast hstart h
    induction h using List.reverseRecOn with
    | nil => intro _ _; exact hstart
    | append_singleton h e ih =>
        intro rest heq
        have heq' : x.events = h ++ e :: rest := by simp [heq]
        have hguarantee := ((hG x.param x.before).exec x.exec).2 h e rest heq'
        rw [Environment.after_snoc]
        exact hstep past x h e rest hpast heq' hguarantee (ih _ heq')
  have hstart : ∀ past s, Run E P s₀ past s → ∀ i, J past i [] s := by
    intro past s hpast
    induction hpast with
    | nil => exact hinit
    | snoc y hpast hbefore ih =>
        intro i
        subst hbefore
        refine hnext _ y i hpast ?_
        have hend := hwithin _ y hpast (ih y.param) y.events [] (by simp)
        rwa [← y.after_eq] at hend
  have hpast := hrun.of_append_cons
  exact hwithin past x hpast (hstart past _ hpast x.param) h rest hevents

end Interaction
