import AgentGateway.Conversation.ClaimPath

/-!
# Runs of the mediator

A run is a list of calls of `run_once` over one state directory that starts
empty.  A call may be cut off between any two effects, and each call may belong
to another mediator.  Every step of a run changes at most one record, by a save
that the guarantee describes.
-/

namespace AgentGateway

open Json (Value)
open Interaction
open Dispatcher

/-- The program of one call. -/
def call (K : Crates) (c : Dispatcher) :
    Prog effects (Except MediationError Bool) :=
  (runOnce K c).run

abbrev Call (K : Crates) := Session world (call K)

abbrev Run (K : Crates) : List (Call K) → Directory → Prop :=
  Interaction.Run world (call K) Directory.empty

/-- The directory after some events of a run. -/
abbrev directory (t : List Action) : Directory :=
  world.after Directory.empty t

variable {K : Crates}

/-- Induction over the moments of a run, with what the next event obeys. -/
theorem Run.induct
    {J : List (Call K) → Dispatcher → List Action → Directory → Prop}
    (hinit : ∀ c, J [] c [] Directory.empty)
    (hstep : ∀ past (x : Call K) h e d, Guarantee K x.param d h e →
      J past x.param h d → J past x.param (h ++ [e]) (written d e))
    (hnext : ∀ past (x : Call K) c, J past x.param x.events x.after →
      J (past ++ [x]) c [] x.after)
    {past : List (Call K)} {x : Call K} {future : List (Call K)}
    {h rest : List Action} {d : Directory}
    (hrun : Run K (past ++ x :: future) d) (hevents : x.events = h ++ rest) :
    J past x.param h (directory (trace past ++ h)) := by
  have hstate : world.after x.before h = directory (trace past ++ h) :=
    hrun.state_within h
  rw [← hstate]
  exact Interaction.Run.moments (fun c t => runOnce_obeys (by simp [Undecided])) hinit
    (fun past x h e rest _ _ hG hJ => hstep past x h e _ hG hJ)
    (fun past x c _ hJ => hnext past x c hJ) hrun hevents

/-- The guarantee holds of every event of a run. -/
theorem Run.guarantee {past future : List (Call K)} {x : Call K}
    {h rest : List Action} {e : Action} {d : Directory}
    (hrun : Run K (past ++ x :: future) d)
    (hevents : x.events = h ++ e :: rest) :
    Guarantee K x.param (directory (trace past ++ h)) h e := by
  have hstate : world.after x.before h = directory (trace past ++ h) :=
    hrun.state_within h
  rw [← hstate]
  have hobeys := (runOnce_obeys (K := K) (c := x.param) (d := x.before)
    (h := []) (by simp [Undecided])).exec x.exec
  exact hobeys.2 h e rest hevents

/-- Induction over the events of a run. -/
theorem Run.forall_trace {P : List Action → Prop} {run : List (Call K)}
    (hinit : P [])
    (hstep : ∀ past (x : Call K) future h e rest, run = past ++ x :: future →
      x.events = h ++ e :: rest → P (trace past ++ h) →
        P (trace past ++ h ++ [e]))
    {t : List Action} (ht : t <+: trace run) : P t := by
  induction t using List.reverseRecOn with
  | nil => exact hinit
  | append_singleton t e ih =>
      have hP := ih ((List.prefix_append t [e]).trans ht)
      obtain ⟨past, x, future, h, rest, hrun, hevents, rfl⟩ :=
        exists_session_of_event ht
      exact hstep past x future h e rest hrun hevents hP

theorem directory_snoc (t : List Action) (e : Action) :
    directory (t ++ [e]) = written (directory t) e :=
  Environment.after_snoc world Directory.empty t e

/-- Induction over the directories of a run. -/
theorem Run.forall_directory {P : Directory → Prop} {run : List (Call K)}
    (hinit : P Directory.empty)
    (hstep : ∀ past (x : Call K) future h e rest, run = past ++ x :: future →
      x.events = h ++ e :: rest → P (directory (trace past ++ h)) →
        P (written (directory (trace past ++ h)) e))
    {t : List Action} (ht : t <+: trace run) : P (directory t) := by
  refine Run.forall_trace (P := fun t => P (directory t)) hinit ?_ ht
  intro past x future h e rest hrun hevents hP
  rw [directory_snoc]
  exact hstep past x future h e rest hrun hevents hP

/-- A property of all moments of a run. -/
theorem Run.forall_prefix {T : List Action → Prop} (hnil : T [])
    (hmoment : ∀ (past : List (Call K)) x future h rest d,
      Run K (past ++ x :: future) d → x.events = h ++ rest →
        T (trace past ++ h))
    {run : List (Call K)} {d : Directory} (hrun : Run K run d)
    {t : List Action} (ht : t <+: trace run) : T t := by
  by_cases hne : run = []
  · subst hne
    have hempty : t = [] := List.prefix_nil.mp ht
    rwa [hempty]
  · obtain ⟨past, x, future, h, rest, rfl, hevents, rfl⟩ :=
      exists_session_of_prefix ht hne
    exact hmoment past x future h rest d hrun hevents

/-! ## One step -/

/-- An event leaves a record alone or makes another one durable. -/
theorem record_step {c : Dispatcher} {d : Directory} {h : List Action}
    {e : Action} (hG : Guarantee K c d h e) (id : String) :
    (written d e).record id = d.record id ∨
      ∃ r ans, e = ⟨.save id r, ans⟩ ∧ SaveGuarantee K c d h id r ∧
        (written d e).record id = some r := by
  obtain ⟨op, ans⟩ := e
  cases op with
  | save i r =>
      have hsave : SaveGuarantee K c d h i r := hG.2
      have hwrite : (d.write i r.toVec).record id = d.record id ∨
          (i = id ∧ (d.write i r.toVec).record id = some r) := by
        by_cases hid : id = i
        · subst hid
          exact .inr ⟨rfl, Directory.record_write_self hsave.safe d id⟩
        · exact .inl (Directory.record_write_of_ne hid d _)
      have hreplaced : written d ⟨.save i r, ans⟩ = d ∨
          written d ⟨.save i r, ans⟩ = d.write i r.toVec := by
        cases ans with
        | saved => exact .inr rfl
        | failed replaced =>
            cases replaced with
            | false => exact .inl rfl
            | true => exact .inr rfl
      rcases hreplaced with heq | heq
      · exact .inl (by rw [heq])
      · rw [heq]
        rcases hwrite with hsame | ⟨rfl, hnew⟩
        · exact .inl hsame
        · exact .inr ⟨r, ans, rfl, hsave, hnew⟩
  | _ => exact .inl rfl

/-- A durable record was saved. -/
theorem Run.saved_of_record {run : List (Call K)} {d : Directory}
    (hrun : Run K run d) {t : List Action} (ht : t <+: trace run)
    {id : String} {r : Record} (hr : (directory t).record id = some r) :
    ∃ ans, (⟨.save id r, ans⟩ : Action) ∈ t := by
  refine Run.forall_trace (P := fun t => ∀ id r,
    (directory t).record id = some r →
      ∃ ans, (⟨.save id r, ans⟩ : Action) ∈ t) ?_ ?_ ht id r hr
  · rintro id r ⟨⟩
  · rintro past x future h e rest rfl hevents hinv id r hr
    rw [directory_snoc] at hr
    rcases record_step (hrun.guarantee hevents) id with
      hsame | ⟨q, ans, rfl, _, hnew⟩
    · obtain ⟨ans, hmem⟩ := hinv id r (hsame ▸ hr)
      exact ⟨ans, List.mem_append_left _ hmem⟩
    · rw [hnew] at hr
      cases hr
      exact ⟨ans, by simp⟩

theorem Run.safe_of_saved {run : List (Call K)} {d : Directory}
    (hrun : Run K run d) {id : String} {r : Record} {ans : FileWrite}
    (hmem : (⟨.save id r, ans⟩ : Action) ∈ trace run) :
    r.Safe ∧ K.uuidParses id = true := by
  obtain ⟨t, rest, hsplit⟩ := List.mem_iff_append.mp hmem
  have hinitial : t ++ [⟨.save id r, ans⟩] <+: trace run :=
    ⟨rest, by simp [hsplit]⟩
  obtain ⟨past, x, future, h, rest, rfl, hevents, rfl⟩ :=
    exists_session_of_event hinitial
  obtain ⟨huuid, hsave⟩ : K.uuidParses id = true ∧
    SaveGuarantee K x.param _ h id r := hrun.guarantee hevents
  exact ⟨hsave.safe, huuid⟩

end AgentGateway
