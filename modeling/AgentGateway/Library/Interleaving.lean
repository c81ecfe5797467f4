import AgentGateway.Library.Interaction

/-!
# Programs side by side

Threads that act on one state, at each step one of them.  Where the others
leave the state alone, a thread does not notice them.
-/

namespace Interaction

variable {S : Signature} {σ α ι : Type} [DecidableEq ι]

/-- From `s`, the threads perform `es`, each event by one of them, and are left
as `threads'` in `s'`. -/
inductive Interleaved (E : Environment S σ) : (ι → Prog S α) → σ →
    List (ι × Event S) → (ι → Prog S α) → σ → Prop
  | nil (threads : ι → Prog S α) (s : σ) : Interleaved E threads s [] threads s
  | step {threads threads' : ι → Prog S α} {s s' : σ} {i : ι} {op : S.Op}
      {next : S.Ans op → Prog S α} {ans : S.Ans op}
      {es : List (ι × Event S)} :
      threads i = .call op next → E.allows s ⟨op, ans⟩ →
        Interleaved E (Function.update threads i (next ans))
          (E.update s ⟨op, ans⟩) es threads' s' →
        Interleaved E threads s ((i, ⟨op, ans⟩) :: es) threads' s'

/-- The events of one thread. -/
def own (i : ι) (es : List (ι × Event S)) : List (Event S) :=
  (es.filter fun x => x.1 = i).map Prod.snd

theorem own_cons_self (i : ι) (e : Event S) (es : List (ι × Event S)) :
    own i ((i, e) :: es) = e :: own i es := by
  simp [own]

theorem own_cons_of_ne {i j : ι} (h : j ≠ i) (e : Event S)
    (es : List (ι × Event S)) : own i ((j, e) :: es) = own i es := by
  simp [own, h]

variable {E : Environment S σ}

/-- The threads keep to their interfaces. -/
theorem Interleaved.within {P : ι → S.Op → Prop}
    {threads threads' : ι → Prog S α} {s s' : σ} {es : List (ι × Event S)}
    (h : Interleaved E threads s es threads' s')
    (hthreads : ∀ i, (threads i).Within (P i) fun _ => True) :
    ∀ x ∈ es, P x.1 x.2.op := by
  induction h with
  | nil => nofun
  | @step threads _ _ _ i op next ans es hnext hallowed _ ih =>
      have hcall := hthreads i
      rw [hnext] at hcall
      rw [List.forall_mem_cons]
      refine ⟨hcall.1, ih fun j => ?_⟩
      by_cases hj : j = i
      · rw [hj, Function.update_self]
        exact hcall.2 ans
      · rw [Function.update_of_ne hj]
        exact hthreads j

/-- A thread runs as if it were alone where no other one changes the state. -/
theorem Interleaved.exec_own {threads threads' : ι → Prog S α} {s s' : σ}
    {es : List (ι × Event S)} (h : Interleaved E threads s es threads' s')
    {i : ι} (hquiet : ∀ x ∈ es, x.1 ≠ i → ∀ t, E.update t x.2 = t) :
    ∃ r, Exec E s (threads i) (own i es) s' r ∧
      ∀ a, threads' i = .ret a → r = some a := by
  induction h with
  | nil threads s =>
      cases hi : threads i with
      | ret a =>
          refine ⟨some a, .ret s a, fun b hb => ?_⟩
          rw [Prog.ret.inj hb]
      | call op next =>
          refine ⟨none, .cut s _, fun b hb => ?_⟩
          cases hb
  | @step threads _ s _ j op next ans es hnext hallowed _ ih =>
      rw [List.forall_mem_cons] at hquiet
      obtain ⟨r, hexec, hr⟩ := ih hquiet.2
      refine ⟨r, ?_, hr⟩
      by_cases hj : j = i
      · subst hj
        rw [Function.update_self] at hexec
        rw [own_cons_self, hnext]
        exact .call hallowed hexec
      · rw [Function.update_of_ne (Ne.symm hj), hquiet.1 hj] at hexec
        rw [own_cons_of_ne hj]
        exact hexec

end Interaction
