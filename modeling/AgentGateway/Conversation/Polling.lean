import AgentGateway.Library.Layers
import AgentGateway.Conversation.History

/-!
# Polling

`run_forever` of the mediator calls `run_once` again and again, whatever this
comes back with, unless its state directory fails.
-/

namespace AgentGateway

open Interaction

/-! ## The loop -/

/-- A sleep of some milliseconds. -/
abbrev Sleeps : Signature := ⟨ℕ, fun _ => Unit⟩

abbrev Mediating : Signature := effects.sum Sleeps

variable {K : Crates} {c : Dispatcher} {poll : ℕ}

/-- `run_forever`, cut off after some rounds; the error if it was left. -/
def mediateForever (K : Crates) (c : Dispatcher) (poll : ℕ) :
    ℕ → Prog Mediating (Option MediationError)
  | 0 => .ret none
  | rounds + 1 => do
      match ← (call K c).inl with
      | .error .state => return some .state
      | _ =>
          let _ ← Prog.perform (S := Mediating) (.inr poll)
          mediateForever K c poll rounds

/-! ## Its calls -/

def slept (poll : ℕ) : Event Mediating := Event.inr (S := effects) ⟨poll, ()⟩

/-- The calls that the loop makes, and its events: it sleeps after each call,
and the last one may be cut off, or be followed by nothing. -/
inductive Looped (c : Dispatcher) (poll : ℕ) :
    List (Call K) → List (Event Mediating) → Prop
  | idle : Looped c poll [] []
  | last (x : Call K) : x.param = c →
      Looped c poll [x] (x.events.map Event.inl)
  | next {calls : List (Call K)} {es : List (Event Mediating)} (x : Call K)
      (r : Except MediationError Bool) : x.param = c → x.result = some r →
      r ≠ .error .state → Looped c poll calls es →
        Looped c poll (x :: calls) (x.events.map Event.inl ++ slept poll :: es)

/-- The mediator's operations are those of the calls. -/
theorem Looped.trace {calls : List (Call K)} {es : List (Event Mediating)}
    (h : Looped c poll calls es) : lefts es = trace calls := by
  induction h with
  | idle => rfl
  | last x => simp
  | next x r _ _ _ _ ih =>
      rw [lefts_append, lefts_inl, slept, lefts_inr, ih, trace_cons]

theorem mediateForever_calls {d d' : Directory} {rounds : ℕ}
    {es : List (Event Mediating)} {r : Option (Option MediationError)}
    (h : Exec world.left d (mediateForever K c poll rounds) es d' r) :
    ∃ calls : List (Call K), Interaction.Run world (call K) d calls d' ∧
      Looped c poll calls es := by
  induction rounds generalizing d es with
  | zero =>
      cases h with
      | cut => exact ⟨[], .nil, .idle⟩
      | ret => exact ⟨[], .nil, .idle⟩
  | succ rounds ih =>
      rw [mediateForever] at h
      rcases Exec.bind_cases h with
        ⟨hcall, rfl⟩ | ⟨es₁, es₂, d₁, result, rfl, hcall, hrest⟩
      · obtain ⟨fs, rfl, hexec⟩ := hcall.of_inl
        exact ⟨[⟨c, d, d', fs, none, hexec⟩], .snoc _ .nil rfl, .last _ rfl⟩
      · obtain ⟨fs, rfl, hexec⟩ := hcall.of_inl
        let x : Call K := ⟨c, d, d₁, fs, some result, hexec⟩
        have hx : Interaction.Run world (call K) d [x] d₁ := .snoc x .nil rfl
        by_cases hstate : result = .error .state
        · subst hstate
          cases hrest with
          | cut => exact ⟨[x], hx, by simpa using Looped.last x rfl⟩
          | ret => exact ⟨[x], hx, by simpa using Looped.last x rfl⟩
        · have hloop : Exec world.left d₁ (do
              let _ ← Prog.perform (S := Mediating) (.inr poll)
              mediateForever K c poll rounds) es₂ d' r := by
            cases result with
            | ok b => exact hrest
            | error e =>
                cases e with
                | state => exact absurd rfl hstate
                | _ => exact hrest
          cases hloop with
          | cut => exact ⟨[x], hx, by simpa using Looped.last x rfl⟩
          | call _ hloop =>
              obtain ⟨calls, hrun, hlooped⟩ := ih hloop
              exact ⟨x :: calls, hx.append hrun,
                .next x result rfl rfl hstate hlooped⟩

end AgentGateway
