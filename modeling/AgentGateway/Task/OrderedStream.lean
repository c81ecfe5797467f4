import AgentGateway.Task.Deliveries
import Mathlib.Data.List.Nodup
import Mathlib.Data.List.Range

/-!
# One ordered stream

For each claimed task the broker acknowledges progress in the order of its
ordinals, then at most one terminal update, and nothing after that.
-/

namespace AgentGateway.Task

open Interaction
open Json (Value)

variable {F : Formats}

/-! ## Acknowledged updates -/

/-- The submissions that the broker accepts, in order. -/
def acknowledged (es : List (Event Room)) : List Submission :=
  (submissions es).filterMap fun x => if x.2 then some x.1 else none

def Delivery.accepted (d : Delivery) : Option Update :=
  if d.acknowledged then some d.update else none

variable (F) in
def Update.submission (p : RoomContextPacket) (leaseToken : Uuid)
    (u : Update) : Submission :=
  ⟨p.taskId, leaseToken, u.request F p⟩

theorem acknowledged_of_sends {p : RoomContextPacket} {leaseToken : Uuid}
    {es : List (Event Room)} {ds : List Delivery}
    (h : Sends F p leaseToken es ds) : acknowledged es =
      (ds.filterMap Delivery.accepted).map (Update.submission F p leaseToken) := by
  have hsent : ∀ d : Delivery,
      ((d.sent F p leaseToken).filterMap fun x =>
        if x.2 then some x.1 else none) =
          (d.accepted.toList).map (Update.submission F p leaseToken) := by
    intro d
    have hfailed : ∀ (x : Submission) (n : ℕ),
        ((List.replicate n (x, false)).filterMap fun x =>
          if x.2 then some x.1 else none) = [] := by
      intro x n
      simp
    unfold Delivery.sent Delivery.accepted
    split_ifs with hacknowledged
    · rw [List.filterMap_append, hfailed]
      rfl
    · rw [List.filterMap_append, hfailed]
      rfl
  rw [acknowledged, h]
  clear h
  induction ds with
  | nil => rfl
  | cons d ds ih =>
      rw [List.flatMap_cons, List.filterMap_append, hsent, ih,
        List.filterMap_cons]
      cases d.accepted <;> rfl

theorem Progressed.accepted {i j : ℕ} {ds : List Delivery}
    (h : Progressed i j ds) : i ≤ j ∧ (i ≤ 3 → j ≤ 3) ∧
      ds.filterMap Delivery.accepted =
        (List.range' i (j - i)).map Update.progressed ∧
      ds.map Delivery.update =
        (List.range' i (j - i)).map Update.progressed := by
  induction h with
  | nil i => simp
  | @cons i j n ds hi _ ih =>
      obtain ⟨hle, hthree, haccepted, hupdates⟩ := ih
      have hrange : List.range' i (j - i) =
          i :: List.range' (i + 1) (j - (i + 1)) := by
        rw [← List.range'_succ]
        congr 1
        omega
      refine ⟨by omega, fun _ => hthree (by omega), ?_, ?_⟩
      · rw [hrange, List.map_cons, ← haccepted]
        rfl
      · rw [hrange, List.map_cons, List.map_cons, hupdates]

/-! ## The stream of a task -/

/-- The end of a stream: at most one terminal update is acknowledged, and it
is the last thing that is sent. -/
inductive Conclusion (k : ℕ) : Option Update → List Delivery → Prop
  | nothing : Conclusion k none []
  | given {update : Update} {n : ℕ} : (∀ i < k, update ≠ .progressed i) →
      Conclusion k none [⟨update, n, false⟩]
  | abandoned {update : Update} {failure : TerminalFailure}
      {n m ordinal : ℕ} : (∀ i < k, update ≠ .progressed i) →
      (∀ f i, update ≠ .failed f i) → Conclusion k none
        [⟨update, n, false⟩, ⟨.failed failure ordinal, m, false⟩]
  | failed {failure : TerminalFailure} {m ordinal : ℕ} :
      Conclusion k (some (.failed failure ordinal))
        [⟨.failed failure ordinal, m, true⟩]
  | failedAfter {update : Update} {failure : TerminalFailure}
      {n m ordinal : ℕ} : (∀ i < k, update ≠ .progressed i) →
      (∀ f i, update ≠ .failed f i) →
      Conclusion k (some (.failed failure ordinal))
        [⟨update, n, false⟩, ⟨.failed failure ordinal, m, true⟩]
  | succeeded {result : Value} {n : ℕ} :
      Conclusion k (some (.succeeded result)) [⟨.succeeded result, n, true⟩]

theorem Conclusion.accepted {k : ℕ} {terminal : Option Update}
    {ds : List Delivery} (h : Conclusion k terminal ds) :
    ds.filterMap Delivery.accepted = terminal.toList := by
  cases h <;> rfl

theorem Conclusion.nodup {k : ℕ} {terminal : Option Update} {ds : List Delivery}
    (h : Conclusion k terminal ds) : (ds.map Delivery.update).Nodup ∧
      ∀ i < k, .progressed i ∉ ds.map Delivery.update := by
  cases h with
  | nothing => simp
  | given hne =>
      simp only [List.map_cons, List.map_nil, List.nodup_singleton,
        List.mem_singleton, true_and]
      exact fun i hi h => hne i hi h.symm
  | abandoned hne hfail =>
      simp only [List.map_cons, List.map_nil, List.nodup_cons, List.mem_cons,
        List.not_mem_nil, or_false, not_false_eq_true, List.nodup_nil,
        and_true]
      refine ⟨hfail _ _, fun i hi => ?_⟩
      rintro (h | h)
      · exact hne i hi h.symm
      · cases h
  | failed => simp
  | failedAfter hne hfail =>
      simp only [List.map_cons, List.map_nil, List.nodup_cons, List.mem_cons,
        List.not_mem_nil, or_false, not_false_eq_true, List.nodup_nil,
        and_true]
      refine ⟨hfail _ _, fun i hi => ?_⟩
      rintro (h | h)
      · exact hne i hi h.symm
      · cases h
  | succeeded => simp

/-- The terminal update is sent last. -/
theorem Conclusion.last {k : ℕ} {u : Update} {ds : List Delivery}
    (h : Conclusion k (some u) ds) (p : RoomContextPacket) (leaseToken : Uuid) :
    ∃ before, ds.flatMap (Delivery.sent F p leaseToken) =
      before ++ [(u.submission F p leaseToken, true)] := by
  cases h with
  | failed => exact ⟨_, List.append_nil _⟩
  | failedAfter _ _ =>
      simp only [List.flatMap_cons, List.flatMap_nil, List.append_nil]
      exact ⟨_, (List.append_assoc _ _ _).symm⟩
  | succeeded => exact ⟨_, List.append_nil _⟩

/-- The terminal updates. -/
def Update.IsTerminal : Update → Prop
  | .progressed _ => False
  | _ => True

theorem Conclusion.terminal {k : ℕ} {u : Update} {ds : List Delivery}
    (h : Conclusion k (some u) ds) : u.IsTerminal := by
  cases h <;> trivial

/-- A stream of deliveries: progress in order, then its end. -/
theorem Ending.stream {p : RoomContextPacket} {es : List (Event Room)}
    {a : Bool} {ds : List Delivery} (h : Ending F p es a ds) :
    ∃ k pre tail terminal, ds = pre ++ tail ∧ Progressed 0 k pre ∧
      Conclusion k terminal tail ∧ terminal.isSome = a ∧
      ∀ result, terminal = some (.succeeded result) → k = 3 ∧
        AdmittedFrom F p 0 (delivered es) 4 ∧ ended es = [.finished] := by
  have hprogress : ∀ j, ∀ i < j, Update.progressed j ≠ .progressed i := by
    intro j i hi h
    cases h
    exact Nat.lt_irrefl _ hi
  have hpending : ∀ j f i, Update.progressed j ≠ .failed f i := nofun
  have hsuccess : ∀ v k, ∀ i < k, Update.succeeded v ≠ .progressed i := nofun
  have hfinal : ∀ v f i, Update.succeeded v ≠ .failed f i := nofun
  have hfailed : ∀ f o k, ∀ i < k, Update.failed f o ≠ .progressed i := nofun
  cases h with
  | interrupted h =>
      cases h with
      | failed hds _ =>
          cases a with
          | false =>
              exact ⟨_, _, _, _, rfl, hds, .given (hfailed _ _ _), rfl, nofun⟩
          | true => exact ⟨_, _, _, _, rfl, hds, .failed, rfl, nofun⟩
      | stuck hds _ _ =>
          cases a with
          | false =>
              exact ⟨_, _, _, _, rfl, hds,
                .abandoned (hprogress _) (hpending _), rfl, nofun⟩
          | true =>
              exact ⟨_, _, _, _, rfl, hds,
                .failedAfter (hprogress _) (hpending _), rfl, nofun⟩
      | pending hds _ =>
          exact ⟨_, _, _, _, rfl, hds, .given (hprogress _), rfl, nofun⟩
      | idle hds =>
          exact ⟨_, _, [], _, (List.append_nil _).symm, hds, .nothing, rfl,
            nofun⟩
  | succeeded hds _ hadmitted hended =>
      exact ⟨_, _, _, _, rfl, hds, .succeeded, rfl,
        fun _ _ => ⟨rfl, hadmitted, hended⟩⟩
  | refused hds _ =>
      cases a with
      | false =>
          exact ⟨_, _, _, _, rfl, hds,
            .abandoned (hsuccess _ _) (hfinal _), rfl, nofun⟩
      | true =>
          exact ⟨_, _, _, _, rfl, hds,
            .failedAfter (hsuccess _ _) (hfinal _), rfl, nofun⟩
  | unfinished hds _ =>
      exact ⟨_, _, _, _, rfl, hds, .given (hsuccess _ _), rfl, nofun⟩

theorem AdmittedFrom.length {p : RoomContextPacket} {i j : ℕ}
    {events : List A2aTaskEvent} (h : AdmittedFrom F p i events j) :
    i + events.length = j := by
  induction h with
  | nil i => rfl
  | cons _ _ ih =>
      rw [List.length_cons]
      omega

variable (F) in
/-- The stream of one call for a claimed task. -/
structure OrderedStream (p : RoomContextPacket) (leaseToken : Uuid)
    (es : List (Event Room)) (r : Option (Except DispatchError ℕ)) (k : ℕ)
    (terminal : Option Update) : Prop where
  few : k ≤ 3
  acknowledged : acknowledged es =
    ((List.range k).map Update.progressed ++ terminal.toList).map
      (Update.submission F p leaseToken)
  /-- Nothing is submitted after the terminal update. -/
  last : ∀ u ∈ terminal, u.IsTerminal ∧ ∃ before,
    submissions es = before ++ [(u.submission F p leaseToken, true)]
  ok : ∀ n, r = some (.ok n) → terminal.isSome = true
  error : ∀ e, r = some (.error e) → terminal = none
  succeeded : ∀ result, terminal = some (.succeeded result) → k = 3 ∧
    AdmittedFrom F p 0 (delivered es) 4 ∧ (delivered es).length = 4 ∧
    ended es = [.finished]
  /-- Each update is sent in attempts that do not differ. -/
  retries : ∃ ds : List Delivery, (ds.map Delivery.update).Nodup ∧
    submissions es = ds.flatMap (Delivery.sent F p leaseToken)

/-- Whatever is delivered, however the invocation ends and whatever the broker
answers: one ordered stream with at most one terminal update. -/
theorem one_ordered_stream (F : Formats) (patience : ℕ) (leaseOwner : Uuid) :
    (runOnce F patience leaseOwner).run.Yields fun es r =>
      (∃ answer : Except Bool (Option ContextResponse),
        es = [⟨.claim leaseOwner, answer⟩] ∧
          ∀ claimed, answer ≠ .ok (some claimed)) ∨
      ∃ (claimed : ContextResponse) (rest : List (Event Room)),
        es = ⟨.claim leaseOwner, Except.ok (some claimed)⟩ :: rest ∧
        ∃ p k terminal, p.binding = claimed.packet.binding ∧
          OrderedStream F p claimed.leaseToken rest r k terminal := by
  refine (runOnce_yields patience leaseOwner).mono ?_
  intro es r h
  cases h with
  | unclaimed hanswer => exact .inl ⟨_, rfl, hanswer⟩
  | @claimed claimed p rest r ds hp hds hending =>
      obtain ⟨k, pre, tail, terminal, rfl, hpre, htail, hacked, hsuccess⟩ :=
        hending.stream
      obtain ⟨_, hthree, haccepted, hupdates⟩ := hpre.accepted
      rw [Nat.sub_zero, ← List.range_eq_range'] at haccepted hupdates
      refine .inr ⟨claimed, rest, rfl, p, k, terminal, hp.1,
        hthree (Nat.zero_le 3), ?_, ?_, ?_, ?_, ?_, pre ++ tail, ?_, hds⟩
      · rw [acknowledged_of_sends hds, List.filterMap_append, haccepted,
          htail.accepted]
      · intro u hu
        obtain rfl : terminal = some u := hu
        obtain ⟨before, hbefore⟩ := htail.last (F := F) p claimed.leaseToken
        refine ⟨htail.terminal,
          pre.flatMap (Delivery.sent F p claimed.leaseToken) ++ before, ?_⟩
        rw [hds, List.flatMap_append, hbefore, List.append_assoc]
      · rintro n rfl
        exact hacked
      · rintro e rfl
        exact Option.not_isSome_iff_eq_none.mp (by simp [hacked, succeeds])
      · intro result hresult
        obtain ⟨hk, hadmitted, hended⟩ := hsuccess result hresult
        have hlength := hadmitted.length
        exact ⟨hk, hadmitted, by omega, hended⟩
      · obtain ⟨hnodup, hfresh⟩ := htail.nodup
        rw [List.map_append, hupdates]
        refine List.Nodup.append ?_ hnodup ?_
        · exact List.Nodup.map (fun _ _ h => Update.progressed.inj h)
            List.nodup_range
        · intro u hu hu'
          obtain ⟨i, hi, rfl⟩ := List.mem_map.mp hu
          exact hfresh i (List.mem_range.mp hi) hu'

end AgentGateway.Task
