import AgentGateway.Conversation.Invariants

/-!
# Publication

A completion is sent to the broker only with a validated result that the worker
reported, under an authority check that is not older than the last contact with
the worker, and after it became durable.  As a stored completion is never
rebuilt, all completions of a task are the same.
-/

namespace AgentGateway

open Json (Value)
open Interaction
open Dispatcher

variable {K : Crates} {c : Dispatcher} {d : Directory} {h : List Action}
  {id lease : String} {u : Value}

/-- An update is sent to the broker for a task under a lease. -/
def Posts (a : Action) (id lease : String) (u : Value) : Prop :=
  a.op = .roomRequest (updateRequest id lease u)

theorem updateRequest_inj {id' lease' : String} {u' : Value}
    (heq : updateRequest id lease u = updateRequest id' lease' u') :
    id = id' ∧ lease = lease' ∧ u = u' :=
  ⟨(RoomPath.task.inj (congrArg RoomRequest.path heq)).1,
    Option.some.inj (congrArg RoomRequest.lease heq),
    Option.some.inj (congrArg RoomRequest.body heq)⟩

theorem postGuarantee_of_posts {a : Action} (hG : Guarantee K c d h a)
    (ha : Posts a id lease u) : PostGuarantee K c d h id lease u := by
  obtain ⟨op, reply⟩ := a
  cases ha
  obtain ⟨i, l, v, heq, hpost⟩ := hG ⟨id, rfl⟩
  obtain ⟨rfl, rfl, rfl⟩ := updateRequest_inj heq
  exact hpost

/-- An update is durable when it is sent. -/
theorem PostGuarantee.durable (hpost : PostGuarantee K c d h id lease u) :
    ∃ r, d.record id = some r ∧ r.update = some u ∧ r.lease = lease := by
  cases hpost with
  | replay hr _ hlease hreplay _ => exact ⟨_, hr, hreplay.update, hlease⟩
  | publish _ hr hlease _ _ _ _ _ _ => exact ⟨_, hr, rfl, hlease⟩
  | failed _ _ _ hr _ hlease _ _ _ => exact ⟨_, hr, rfl, hlease⟩

theorem Run.durable_of_posts {run : List (Call K)} (hrun : Run K run d)
    {t : List Action} {a : Action} (ht : t ++ [a] <+: trace run)
    (ha : Posts a id lease u) :
    ∃ r, (directory t).record id = some r ∧ r.update = some u := by
  obtain ⟨past, x, future, h, rest, rfl, hevents, rfl⟩ :=
    exists_session_of_event ht
  obtain ⟨r, hr, hu, _⟩ :=
    (postGuarantee_of_posts (hrun.guarantee hevents) ha).durable
  exact ⟨r, hr, hu⟩

theorem ne_failed_of_completed (hu : u["kind"] = .str "completed") :
    u["kind"] ≠ .str "failed" := by
  rw [hu]
  intro heq
  exact absurd (Value.str.inj heq) (by decide)

/-- Whatever happens between them, two completions that are sent for a task are
the same value, with the same update id. -/
theorem completions_identical {run : List (Call K)} (hrun : Run K run d)
    {t₁ t₂ : List Action} {a₁ a₂ : Action} {lease₁ lease₂ : String}
    {u₁ u₂ : Value} (ht₁ : t₁ ++ [a₁] <+: trace run)
    (ht₂ : t₂ ++ [a₂] <+: trace run) (ha₁ : Posts a₁ id lease₁ u₁)
    (ha₂ : Posts a₂ id lease₂ u₂) (hu₁ : u₁["kind"] = .str "completed")
    (hu₂ : u₂["kind"] = .str "completed") : u₁ = u₂ := by
  have hkeeps : ∀ {t t' : List Action} {a a' : Action} {l l' : String}
      {v v' : Value}, t ++ [a] <+: trace run → t' ++ [a'] <+: trace run →
      Posts a id l v → Posts a' id l' v' → v'["kind"] = .str "completed" →
      t <+: t' → v = v' := by
    intro t t' a a' l l' v v' ht ht' ha ha' hv' htt'
    obtain ⟨r, hr, hv⟩ := hrun.durable_of_posts ht ha
    obtain ⟨r', hr', hupdate⟩ := hrun.durable_of_posts ht' ha'
    obtain ⟨q, hq, hext⟩ :=
      hrun.extends htt' ((List.prefix_append t' [a']).trans ht') hr
    rw [hr'] at hq
    cases hq
    rcases hext.update v hv with hsame | ⟨f, hf, hkind⟩
    · rw [hupdate] at hsame
      exact (Option.some.inj hsame).symm
    · rw [hupdate] at hf
      cases hf
      exact absurd hkind (ne_failed_of_completed hv')
  have hinitial₁ := (List.prefix_append t₁ [a₁]).trans ht₁
  have hinitial₂ := (List.prefix_append t₂ [a₂]).trans ht₂
  rcases List.prefix_or_prefix_of_prefix hinitial₁ hinitial₂ with hle | hle
  · exact hkeeps ht₁ ht₂ ha₁ ha₂ hu₂ hle
  · exact (hkeeps ht₂ ht₁ ha₂ ha₁ hu₁ hle).symm

theorem completions_identical_conversation :
    ∃ t₁ a₁ t₂ a₂ u₁ u₂, t₁ ++ [a₁] <+: t₂ ∧
      t₂ ++ [a₂] <+: trace Sample.conversation ∧
      Posts a₁ Sample.task₁ Sample.lease u₁ ∧
      Posts a₂ Sample.task₁ Sample.lease u₂ ∧ u₁ = u₂ := by
  have hfirst : Sample.beforeCompletion ++ [⟨.roomRequest (updateRequest
      Sample.task₁ Sample.lease Sample.completion), none⟩] <+:
        Sample.completedCall.events ++ Sample.beforeReplay :=
    ⟨Sample.beforeReplay, by rw [Sample.completedCall_events]⟩
  have hsecond : Sample.completedCall.events ++ Sample.beforeReplay ++
      [⟨.roomRequest (updateRequest Sample.task₁ Sample.lease
        Sample.completion), response (Sample.ack Sample.packet₁)⟩] <+:
          trace Sample.conversation :=
    ⟨ackEvents Sample.task₁ (Sample.ack Sample.packet₁) Sample.completed,
      by simp [Sample.conversation, Sample.recoveryCall_events]⟩
  refine ⟨_, _, _, _, _, _, hfirst, hsecond, rfl, rfl, ?_⟩
  exact completions_identical Sample.run_conversation
    (hfirst.trans ((List.prefix_append _ _).trans hsecond)) hsecond rfl rfl
    (updateValue_kind _ _ _ _) (updateValue_kind _ _ _ _)

/-! ## Where results come from -/

/-- Among the events of a call are a receipt of the worker that reports a
completed turn with the result `x`, and after it a save of the result. -/
def StoredBy (h : List Action) (id : String) (b x : Value) : Prop :=
  ∃ h₁ r ans h₂ p y, h = h₁ ++ ⟨.save id r, ans⟩ :: h₂ ∧
    r.result = some x ∧ WorkerReported h₁ id p x y ∧ binding p = b

theorem StoredBy.append {b x : Value} (hs : StoredBy h id b x)
    (es : List Action) : StoredBy (h ++ es) id b x := by
  obtain ⟨h₁, r, ans, h₂, p, y, rfl, hx⟩ := hs
  exact ⟨h₁, r, ans, h₂ ++ es, p, y, by simp, hx⟩

theorem StoredBy.reported {b x : Value} (hs : StoredBy h id b x) :
    ∃ p y, binding p = b ∧ WorkerReported h id p x y := by
  obtain ⟨h₁, r, ans, h₂, p, y, rfl, _, hx, hp⟩ := hs
  exact ⟨p, y, hp, hx.append _⟩

/-- Every durable result was reported by the worker to the call that stored
it. -/
def ResultsReported (past : List (Call K)) (h : List Action)
    (d : Directory) : Prop :=
  ∀ id r x, d.record id = some r → r.result = some x →
    (∃ z ∈ past, StoredBy z.events id r.binding x) ∨
      StoredBy h id r.binding x

/-- A save either keeps the result of the stored record or stores one that the
worker reported. -/
theorem SaveGuarantee.result_cases {r : Record} {x : Value}
    (hs : SaveGuarantee K c d h id r) (hx : r.result = some x) :
    (∃ q, d.record id = some q ∧ q.result = some x ∧
        q.binding = r.binding) ∨
      ∃ p y, WorkerReported h id p x y ∧ binding p = r.binding := by
  have hsettles : ∀ {q q' : Record}, Settles K q q' →
      q'.result = q.result ∧ q'.binding = q.binding := by
    rintro q q' (_ | _) <;> exact ⟨rfl, rfl⟩
  cases hs with
  | recovery hstored _ hsettle =>
      obtain ⟨hresult, hbinding⟩ := hsettles hsettle
      exact .inl ⟨_, hstored, by rw [← hresult, hx], hbinding.symm⟩
  | @claim p lease q _ hclaim hheld hchange =>
      have hkept : q.result = some x → q.binding = r.binding →
          ∃ q', d.record id = some q' ∧ q'.result = some x ∧
            q'.binding = r.binding := by
        intro hresult hbinding
        cases hheld with
        | stored hstored _ => exact ⟨_, hstored, hresult, hbinding⟩
        | fresh _ _ _ => cases hresult
      cases hchange with
      | settle hsettle =>
          obtain ⟨hresult, hbinding⟩ := hsettles hsettle
          exact .inl (hkept (by rw [← hresult, hx]) hbinding.symm)
      | reserve _ _ => exact .inl (hkept hx rfl)
      | intend _ _ => exact .inl (hkept hx rfl)
      | interrupt _ _ => exact .inl (hkept hx rfl)
      | fail _ _ _ _ => exact .inl (hkept hx rfl)
      | @complete x' y _ hcompletes _ _ _ =>
          cases hx
          exact .inr ⟨p, y, hcompletes.reported, hheld.binding_eq.symm⟩

theorem resultsReported_step {past : List (Call K)} {e : Action}
    (hG : Guarantee K c d h e) (hinv : ResultsReported past h d) :
    ResultsReported past (h ++ [e]) (written d e) := by
  intro id r x hr hx
  have hkept : ∀ q, d.record id = some q → q.result = some x →
      q.binding = r.binding →
      (∃ z ∈ past, StoredBy z.events id r.binding x) ∨
        StoredBy (h ++ [e]) id r.binding x := by
    intro q hq hresult hbinding
    rw [← hbinding]
    exact (hinv id q x hq hresult).imp_right fun hs => hs.append [e]
  rcases record_step hG id with hsame | ⟨r', ans, rfl, hsave, hnew⟩
  · rw [hsame] at hr
    exact hkept r hr hx rfl
  · rw [hnew] at hr
    cases hr
    rcases hsave.result_cases hx with ⟨q, hq, hresult, hbinding⟩ |
      ⟨p, y, hreported, hbinding⟩
    · exact hkept q hq hresult hbinding
    · exact .inr ⟨h, r, ans, [], p, y, rfl, hx, hreported, hbinding⟩

theorem Run.resultsReported {past future : List (Call K)} {x : Call K}
    {h rest : List Action} (hrun : Run K (past ++ x :: future) d)
    (hevents : x.events = h ++ rest) :
    ResultsReported past h (directory (trace past ++ h)) := by
  refine Run.induct (J := fun past _ h d => ResultsReported past h d)
    ?_ ?_ ?_ hrun hevents
  · rintro _ id r x ⟨⟩
  · exact fun _ _ _ _ _ hG hinv => resultsReported_step hG hinv
  · intro past x _ hinv id r v hr hv
    rcases hinv id r v hr hv with ⟨z, hz, hs⟩ | hs
    · exact .inl ⟨z, by simp [hz], hs⟩
    · exact .inl ⟨x, by simp, hs⟩

/-! ## Publication safety -/

theorem updateValue_data (p : Value) (kind : String) (data : Value)
    (updateId : String) : (updateValue p kind data updateId)["data"] = data := by
  rw [updateValue, Value.getElem_object]
  rfl

/-- A stored completion carries the stored result. -/
theorem Record.WellFormed.data {r : Record} {x : Value}
    (hr : r.WellFormed K id) (hu : r.update = some u)
    (hkind : u["kind"] = .str "completed") (hx : r.result = some x) :
    u["data"] = x := by
  cases hr.update u hu with
  | completed hy =>
      rw [hx] at hy
      cases hy
      exact updateValue_data _ _ _ _
  | failed _ =>
      exact absurd (updateValue_kind _ _ _ _) (ne_failed_of_completed hkind)

/-- The data of a completion that is sent passed validation against the claimed
packet or the stored binding, which had authority. -/
theorem Run.completion_validated {past future : List (Call K)} {x : Call K}
    {h rest : List Action} {a : Action}
    (hrun : Run K (past ++ x :: future) d)
    (hevents : x.events = h ++ a :: rest) (ha : Posts a id lease u)
    (hkind : u["kind"] = .str "completed") :
    ∃ q r, (directory (trace past ++ h)).record id = some r ∧
      r.update = some u ∧ r.lease = lease ∧ q["taskId"] = .str id ∧
      (q = r.binding ∨
        (Claimed K x.param h id q lease ∧ r.binding = binding q)) ∧
      validateResultWithAdmission K u["data"] q r.sources
        x.param.admission = some () ∧
      AuthorityLately K q lease h := by
  have hinitial : trace past ++ h <+: trace (past ++ x :: future) :=
    ⟨a :: rest ++ trace future, by simp [hevents]⟩
  have hpost := postGuarantee_of_posts (hrun.guarantee hevents) ha
  cases hpost with
  | @replay r y _ hr _ hlease hreplay hlately =>
      have hwell := hrun.wellFormed hinitial hr
      have hdata := hwell.data hreplay.update hkind hreplay.result
      exact ⟨r.binding, r, hr, hreplay.update, hlease, hwell.task, .inl rfl,
        by rw [hdata]; exact hreplay.valid, hlately⟩
  | @publish q r y z _ hclaim hr hlease hbinding _ hreported hvalid _
      hlately =>
      have hwell := hrun.wellFormed hinitial hr
      have hdata : u["data"] = y := hwell.data rfl hkind rfl
      exact ⟨q, _, hr, rfl, hlease, hclaim.task, .inr ⟨hclaim, hbinding⟩,
        by rw [hdata]; exact hvalid, hlately⟩
  | failed _ _ _ _ _ _ _ _ _ =>
      exact absurd (updateValue_kind _ _ _ _) (ne_failed_of_completed hkind)

/-- The worker reported the data of a completion that is sent. -/
theorem Run.completion_reported {past future : List (Call K)} {x : Call K}
    {h rest : List Action} {a : Action} {r : Record}
    (hrun : Run K (past ++ x :: future) d)
    (hevents : x.events = h ++ a :: rest) (ha : Posts a id lease u)
    (hkind : u["kind"] = .str "completed")
    (hr : (directory (trace past ++ h)).record id = some r) :
    (∃ p y, binding p = r.binding ∧ WorkerReported h id p u["data"] y) ∨
      ∃ z ∈ past, StoredBy z.events id r.binding u["data"] := by
  have hinitial : trace past ++ h <+: trace (past ++ x :: future) :=
    ⟨a :: rest ++ trace future, by simp [hevents]⟩
  have hwell := hrun.wellFormed hinitial hr
  have hpost := postGuarantee_of_posts (hrun.guarantee hevents) ha
  cases hpost with
  | @replay q y _ hq _ _ hreplay _ =>
      obtain rfl : q = r := Option.some.inj (hq.symm.trans hr)
      rw [hwell.data hreplay.update hkind hreplay.result]
      rcases hrun.resultsReported hevents id q y hq hreplay.result with hs | hs
      · exact .inr hs
      · exact .inl hs.reported
  | @publish q r' y z _ _ hr' _ hbinding _ hreported _ _ _ =>
      obtain rfl : r'.completed y z u = r := Option.some.inj (hr'.symm.trans hr)
      have hdata : u["data"] = y := hwell.data rfl hkind rfl
      rw [hdata]
      exact .inl ⟨q, z, hbinding.symm, hreported⟩
  | failed _ _ _ _ _ _ _ _ _ =>
      exact absurd (updateValue_kind _ _ _ _) (ne_failed_of_completed hkind)

/-- When a completion is sent, the durable record holds exactly this update
under this lease.  Its data passed validation against the claimed packet or the
stored binding; the worker reported it in this call or in the one that stored
it; and authority for that packet under this lease was shown after the last
contact with the worker. -/
theorem completion_published_safely {past future : List (Call K)} {x : Call K}
    {h rest : List Action} {a : Action}
    (hrun : Run K (past ++ x :: future) d)
    (hevents : x.events = h ++ a :: rest) (ha : Posts a id lease u)
    (hkind : u["kind"] = .str "completed") :
    ∃ q r, (directory (trace past ++ h)).record id = some r ∧
      r.update = some u ∧ r.lease = lease ∧
      q["taskId"] = .str id ∧
      (q = r.binding ∨
        (Claimed K x.param h id q lease ∧ r.binding = binding q)) ∧
      validateResultWithAdmission K u["data"] q r.sources
        x.param.admission = some () ∧
      ((∃ p y, binding p = r.binding ∧
          WorkerReported h id p u["data"] y) ∨
        ∃ z ∈ past, StoredBy z.events id r.binding u["data"]) ∧
      AuthorityLately K q lease h := by
  obtain ⟨q, r, hr, hu, hlease, htask, hpacket, hvalid, hlately⟩ :=
    hrun.completion_validated hevents ha hkind
  have hreported := hrun.completion_reported hevents ha hkind hr
  exact ⟨q, r, hr, hu, hlease, htask, hpacket, hvalid, hreported, hlately⟩

theorem completion_published_safely_recoveryCall :
    ∃ q r, (directory (trace [Sample.completedCall] ++
        Sample.beforeReplay)).record Sample.task₁ = some r ∧
      r.update = some Sample.completion ∧
      validateResultWithAdmission Reference.crates
        Sample.completion["data"] q r.sources Sample.mediator.admission =
          some () ∧
      AuthorityLately Reference.crates q Sample.lease
        Sample.beforeReplay := by
  have hrun : Run Reference.crates
      ([Sample.completedCall] ++ Sample.recoveryCall :: [])
      (Sample.directoryOf Sample.acknowledged) := Sample.run_conversation
  obtain ⟨q, r, hr, hu, _, _, _, hvalid, _, hlately⟩ :=
    completion_published_safely hrun Sample.recoveryCall_events rfl
      (updateValue_kind _ _ _ _)
  exact ⟨q, r, hr, hu, hvalid, hlately⟩

end AgentGateway
