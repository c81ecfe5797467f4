import AgentGateway.Library.Interaction

/-!
# Programs in a larger signature

A program that performs some of the operations of a larger signature, and the
part of a trace that it sees.
-/

namespace Interaction

variable {S T : Signature} {σ α β : Type}

/-- The operations of two signatures. -/
@[reducible]
def Signature.sum (S T : Signature) : Signature :=
  ⟨S.Op ⊕ T.Op, Sum.elim S.Ans T.Ans⟩

def Event.inl (e : Event S) : Event (S.sum T) := ⟨.inl e.op, e.ans⟩

def Event.inr (e : Event T) : Event (S.sum T) := ⟨.inr e.op, e.ans⟩

/-- The event of the first signature that an event is. -/
def Event.left? : Event (S.sum T) → Option (Event S)
  | ⟨.inl op, ans⟩ => some ⟨op, ans⟩
  | ⟨.inr _, _⟩ => none

/-- The part of a trace that belongs to the first signature. -/
def lefts (es : List (Event (S.sum T))) : List (Event S) :=
  es.filterMap Event.left?

@[simp] theorem lefts_nil : lefts ([] : List (Event (S.sum T))) = [] := rfl

@[simp] theorem lefts_append (es fs : List (Event (S.sum T))) :
    lefts (es ++ fs) = lefts es ++ lefts fs := List.filterMap_append

@[simp] theorem lefts_inr (e : Event T) (es : List (Event (S.sum T))) :
    lefts (e.inr :: es) = lefts es := rfl

@[simp] theorem lefts_inl (es : List (Event S)) :
    lefts (es.map (Event.inl (T := T))) = es := by
  rw [lefts, List.filterMap_map]
  exact List.filterMap_some

namespace Prog

/-- A program in the first of two signatures. -/
def inl : Prog S α → Prog (S.sum T) α
  | .ret a => .ret a
  | .call op next => .call (.inl op) fun ans => (next ans).inl

def inr : Prog T α → Prog (S.sum T) α
  | .ret a => .ret a
  | .call op next => .call (.inr op) fun ans => (next ans).inr

theorem within_true (p : Prog S α) :
    p.Within (fun _ => True) fun _ => True := by
  induction p with
  | ret a => trivial
  | call op next ih => exact ⟨trivial, ih⟩

theorem within_inl {P : S.Op → Prop} {R : α → Prop} {p : Prog S α}
    (h : p.Within P R) :
    (p.inl : Prog (S.sum T) α).Within (Sum.elim P fun _ => False) R := by
  induction p with
  | ret a => exact h
  | call op next ih => exact ⟨h.1, fun ans => ih ans (h.2 ans)⟩

theorem within_inr (p : Prog T α) :
    (p.inr : Prog (S.sum T) α).Within
      (Sum.elim (fun _ => False) fun _ => True) fun _ => True := by
  induction p with
  | ret a => trivial
  | call op next ih => exact ⟨trivial, ih⟩

theorem yields_inl {p : Prog S α}
    {P : List (Event (S.sum T)) → α → Prop} :
    (p.inl : Prog (S.sum T) α).Yields P ↔
      p.Yields fun es a => P (es.map Event.inl) a := by
  induction p generalizing P with
  | ret a => exact Iff.rfl
  | call op next ih => exact forall_congr' fun ans => ih ans

theorem Yields.and {p : Prog S α} {P Q : List (Event S) → α → Prop}
    (hP : p.Yields P) (hQ : p.Yields Q) :
    p.Yields fun es a => P es a ∧ Q es a := by
  induction p generalizing P Q with
  | ret a => exact ⟨hP, hQ⟩
  | call op next ih => exact fun ans => ih ans (hP ans) (hQ ans)

end Prog

/-! ## Executions -/

/-- An environment that answers the other operations in any way. -/
def Environment.left (E : Environment S σ) : Environment (S.sum T) σ where
  allows s e := ∀ e', e.left? = some e' → E.allows s e'
  update s e := e.left?.elim s (E.update s)

variable {E : Environment S σ}

theorem Exec.of_inl {s s' : σ} {p : Prog S α}
    {es : List (Event (S.sum T))} {r : Option α}
    (h : Exec E.left s p.inl es s' r) :
    ∃ fs, es = fs.map Event.inl ∧ Exec E s p fs s' r := by
  induction p generalizing s es with
  | ret a =>
      cases h with
      | cut => exact ⟨[], rfl, .cut _ _⟩
      | ret => exact ⟨[], rfl, .ret _ _⟩
  | call op next ih =>
      cases h with
      | cut => exact ⟨[], rfl, .cut _ _⟩
      | @call _ _ _ ans _ es _ hallowed h =>
          obtain ⟨fs, rfl, hexec⟩ := ih ans h
          exact ⟨⟨op, ans⟩ :: fs, rfl, .call (hallowed _ rfl) hexec⟩

/-- An execution of a sequence is cut off in the first program, or has two
parts. -/
theorem Exec.bind_cases {s s' : σ} {p : Prog S α} {f : α → Prog S β}
    {es : List (Event S)} {r : Option β} (h : Exec E s (p >>= f) es s' r) :
    Exec E s p es s' none ∧ r = none ∨
      ∃ es₁ es₂ s₁ a, es = es₁ ++ es₂ ∧ Exec E s p es₁ s₁ (some a) ∧
        Exec E s₁ (f a) es₂ s' r := by
  induction p generalizing s es with
  | ret a => exact Or.inr ⟨[], es, s, a, rfl, .ret s a, h⟩
  | call op next ih =>
      rw [Prog.bind_call] at h
      cases h with
      | cut => exact Or.inl ⟨.cut _ _, rfl⟩
      | call hallowed h =>
          rcases ih _ h with ⟨hp, rfl⟩ | ⟨es₁, es₂, s₁, a, rfl, hp, hf⟩
          · exact Or.inl ⟨.call hallowed hp, rfl⟩
          · exact Or.inr ⟨_, es₂, s₁, a, rfl, .call hallowed hp, hf⟩

theorem Run.append {ι : Type} {P : ι → Prog S α} {s t u : σ}
    {past future : List (Session E P)} (hpast : Run E P s past t)
    (hfuture : Run E P t future u) : Run E P s (past ++ future) u := by
  induction hfuture with
  | nil => rwa [List.append_nil]
  | snoc x _ hbefore ih =>
      rw [← List.append_assoc]
      exact .snoc x ih hbefore

end Interaction
