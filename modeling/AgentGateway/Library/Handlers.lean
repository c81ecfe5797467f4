import AgentGateway.Library.Layers

/-!
# Handlers

A program whose operations are carried out by programs of another signature,
and the traces of the two levels.
-/

namespace Interaction

variable {S T : Signature} {α β : Type}

namespace Prog

/-- Carry out every operation by a handler. -/
def handle (H : ∀ op : S.Op, Prog T (S.Ans op)) : Prog S α → Prog T α
  | .ret a => .ret a
  | .call op next => H op >>= fun ans => (next ans).handle H

end Prog

/-- What the handlers do for each operation and its answer. -/
abbrev Handling (S T : Signature) :=
  ∀ op : S.Op, List (Event T) → S.Ans op → Prop

/-- A trace that carries out another one, operation by operation. -/
inductive CarriesOut (P : Handling S T) :
    List (Event T) → List (Event S) → Prop
  | nil : CarriesOut P [] []
  | cons {op : S.Op} {ans : S.Ans op} {es fs : List (Event T)}
      {gs : List (Event S)} : P op es ans → CarriesOut P fs gs →
        CarriesOut P (es ++ fs) (⟨op, ans⟩ :: gs)

variable {P : Handling S T}

/-- What a program yields, it yields as well by way of its handlers. -/
theorem Prog.Yields.handle {H : ∀ op : S.Op, Prog T (S.Ans op)}
    (hH : ∀ op, (H op).Yields (P op)) {p : Prog S α}
    {Q : List (Event S) → α → Prop} (hp : p.Yields Q) :
    (p.handle H).Yields fun es a => ∃ gs, CarriesOut P es gs ∧ Q gs a := by
  induction p generalizing Q with
  | ret a => exact ⟨[], .nil, hp⟩
  | call op next ih =>
      apply Prog.yields_bind.mpr
      apply (hH op).mono
      intro es ans hes
      apply (ih ans (hp ans)).mono
      rintro fs a ⟨gs, hgs, hQ⟩
      exact ⟨_, .cons hes hgs, hQ⟩

/-- Every event is one of those that carry out some operation. -/
theorem CarriesOut.split {pre post : List (Event T)} {e : Event T}
    {gs : List (Event S)} (h : CarriesOut P (pre ++ e :: post) gs) :
    ∃ (past : List (Event T)) (before after : List (Event T))
      (done todo : List (Event S)) (op : S.Op) (ans : S.Ans op),
      pre = past ++ before ∧ gs = done ++ ⟨op, ans⟩ :: todo ∧
        CarriesOut P past done ∧ P op (before ++ e :: after) ans := by
  generalize hes : pre ++ e :: post = es at h
  induction h generalizing pre with
  | nil => simp at hes
  | @cons op ans fs rest gs hP _ ih =>
      rcases List.append_eq_append_iff.mp hes with
        ⟨more, hfs, hmore⟩ | ⟨more, hpre, hmore⟩
      · cases more with
        | nil =>
            rw [List.append_nil] at hfs
            obtain ⟨past, before, after, done, todo, op', ans', hpast, rfl,
              hdone, hP'⟩ := @ih [] (by simpa using hmore)
            refine ⟨fs ++ past, before, after, ⟨op, ans⟩ :: done, todo, op',
              ans', ?_, rfl, .cons hP hdone, hP'⟩
            rw [List.append_assoc, ← hpast, List.append_nil, hfs]
        | cons e' more =>
            obtain ⟨rfl, -⟩ := List.cons.inj hmore
            refine ⟨[], pre, more, [], gs, op, ans, rfl, rfl, .nil, ?_⟩
            rwa [← hfs]
      · obtain ⟨past, before, after, done, todo, op', ans', rfl, rfl, hdone,
          hP'⟩ := ih hmore.symm
        refine ⟨fs ++ past, before, after, ⟨op, ans⟩ :: done, todo, op', ans',
          ?_, rfl, .cons hP hdone, hP'⟩
        rw [hpre, List.append_assoc]

end Interaction
