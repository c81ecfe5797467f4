import AgentGateway.Task.Admission
import AgentGateway.Task.Publishable

/-!
# The deterministic stream

The adapter admits the stream of the reference agent, and the dispatcher
reports the progress and the result of this stream only.
-/

namespace AgentGateway.Task

open Interaction
open Json (Value)

variable {F : Formats}

/-! ## Encodings of a packet binding -/

/-- The fields of a binding, as they stand in an object. -/
def bindingObject (taskId roomId contextRevision canonicalSha256 : Value) :
    Value :=
  .object [("taskId", taskId), ("roomId", roomId),
    ("contextRevision", contextRevision),
    ("canonicalSha256", canonicalSha256)]

theorem bindingObject_eq (taskId roomId contextRevision hash : Value) :
    bindingObject taskId roomId contextRevision hash =
      .obj [("canonicalSha256", hash), ("contextRevision", contextRevision),
        ("roomId", roomId), ("taskId", taskId)] := by
  simp +decide [bindingObject, Value.object, Value.insertField]

variable (F) in
/-- Values that decode to the binding of a packet. -/
structure EncodesBinding (p : RoomContextPacket)
    (taskId roomId contextRevision : Value) : Prop where
  taskId : decodeUuid F taskId = some p.taskId
  roomId : decodeUuid F roomId = some p.roomId
  contextRevision : decodeRevision F contextRevision = some p.contextRevision

theorem decodeRevision_integer {n : ℤ} (h : -2 ^ 63 ≤ n ∧ n < 2 ^ 63) :
    decodeRevision F (integer n) = some n := by
  have hinteger : asI64? (integer n) = some n := by
    unfold integer
    split_ifs with hn
    · have hlt : n.toNat < 2 ^ 63 := by omega
      rw [asI64?, if_pos hlt, Int.toNat_of_nonneg hn]
    · have hneg : -(n.natAbs : ℤ) = n := by omega
      rw [asI64?, hneg]
  have hform : ∀ v, asI64? v = some n → decodeRevision F v = some n := by
    intro v hv
    cases v with
    | num m => rw [decodeRevision, hv]
    | _ => cases hv
  exact hform _ hinteger

/-- The agent writes the binding as it is. -/
theorem encodesBinding (huuid : ∀ u, F.parseUuid (F.showUuid u) = some u)
    (p : RoomContextPacket) :
    EncodesBinding F p (uuid F p.taskId) (uuid F p.roomId)
      (integer p.contextRevision) where
  taskId := huuid p.taskId
  roomId := huuid p.roomId
  contextRevision := decodeRevision_integer p.revision_range

/-- The two forms of a binding. -/
theorem bindingFields_eq_some {v taskId roomId contextRevision hash : Value}
    (hv : AgentGateway.Ordered v) :
    bindingFields v = some (taskId, roomId, contextRevision, hash) ↔
      v = bindingObject taskId roomId contextRevision hash ∨
        v = .arr [taskId, roomId, contextRevision, hash] := by
  constructor
  · intro h
    unfold bindingFields at h
    split at h
    next fs =>
      simp only [Option.bind_eq_bind, Option.bind_eq_some_iff,
        Option.guard_eq_some', exists_const, Option.pure_def,
        Option.some.injEq, Prod.mk.injEq] at h
      obtain ⟨hlength, t, ht, r, hr, n, hn, s, hs, rfl, rfl, rfl, rfl⟩ := h
      have hsorted := hv.self
      left
      rw [bindingObject_eq]
      refine congrArg _ (eq_of_lookups hsorted ?_ hlength ?_)
      · simp +decide [Value.SortedKeys]
      · simp [hs, hn, hr, ht]
    next t r n s =>
      simp only [Option.some.injEq, Prod.mk.injEq] at h
      obtain ⟨rfl, rfl, rfl, rfl⟩ := h
      exact .inr rfl
    next => cases h
  · rintro (rfl | rfl)
    · rw [bindingObject_eq]
      simp [bindingFields, Value.lookup_cons]
    · rfl

theorem decodeBinding_eq_some {p : RoomContextPacket} {v : Value}
    (hv : AgentGateway.Ordered v) :
    decodeBinding F v = some p.binding ↔
      ∃ taskId roomId contextRevision,
        EncodesBinding F p taskId roomId contextRevision ∧
        (v = bindingObject taskId roomId contextRevision
            (.str p.canonicalSha256) ∨
          v = .arr [taskId, roomId, contextRevision,
            .str p.canonicalSha256]) := by
  simp only [decodeBinding, Option.bind_eq_bind, Option.bind_eq_some_iff,
    Option.pure_def, Option.some.injEq, Prod.exists,
    bindingFields_eq_some hv, Value.asStr?_eq_some,
    RoomContextPacket.binding, PacketBinding.mk.injEq]
  constructor
  · rintro ⟨t, r, n, s, hform, _, ht, _, hr, _, hn, _, rfl, rfl, rfl, rfl,
      rfl⟩
    exact ⟨t, r, n, ⟨ht, hr, hn⟩, hform⟩
  · rintro ⟨t, r, n, ⟨ht, hr, hn⟩, hform⟩
    exact ⟨t, r, n, _, hform, _, ht, _, hr, _, hn, _, rfl, rfl, rfl, rfl, rfl⟩

/-! ## Ordered values of a stream -/

theorem ordered_uuid (u : Uuid) : AgentGateway.Ordered (uuid F u) :=
  .str trivial

theorem ordered_integer (n : ℤ) : AgentGateway.Ordered (integer n) := by
  unfold integer
  split_ifs <;> exact .num trivial

theorem ordered_artifactObject {binding result : Value} :
    AgentGateway.Ordered
        (.object [("packet", binding), ("result", result)]) ↔
      AgentGateway.Ordered binding ∧ AgentGateway.Ordered result := by
  constructor
  · intro h
    rw [artifactObject_eq] at h
    exact ⟨h.fields ("packet", binding) (by simp),
      h.fields ("result", result) (by simp)⟩
  · rintro ⟨hbinding, hresult⟩
    apply ordered_object
    simp [hbinding, hresult]

/-- The values of the four responses. -/
theorem ordered_responses {p : RoomContextPacket} {binding result : Value} :
    (∀ e ∈ responses F p binding result, e.Ordered) ↔
      AgentGateway.Ordered binding ∧ AgentGateway.Ordered result := by
  rw [← ordered_artifactObject]
  simp [responses, taskResponse, workingUpdate, StreamResponse.Ordered,
    artifact, artifactWith, plainPart]

theorem ordered_bindingObject {taskId roomId contextRevision hash : Value}
    (htask : AgentGateway.Ordered taskId)
    (hroom : AgentGateway.Ordered roomId)
    (hrevision : AgentGateway.Ordered contextRevision)
    (hhash : AgentGateway.Ordered hash) : AgentGateway.Ordered
      (bindingObject taskId roomId contextRevision hash) := by
  apply ordered_object
  simp [htask, hroom, hrevision, hhash]

theorem ordered_summaryResult (p : RoomContextPacket) :
    AgentGateway.Ordered (summaryResult F p) := by
  have hstr : ∀ s, AgentGateway.Ordered (.str s) := fun _ => .str trivial
  have hcitations : AgentGateway.Ordered
      (.arr ((summaryCitations p).map .str)) := by
    refine .arr trivial fun x hx => ?_
    obtain ⟨s, _, rfl⟩ := List.mem_map.mp hx
    exact hstr s
  apply ordered_object
  simp [hstr, hcitations]

/-! ## Admitted streams -/

variable (F) in
/-- The stream of the reference agent, in which only the four values of the
packet binding may be encoded otherwise. -/
def IsDeterministic (p : RoomContextPacket) (now : DateTime)
    (stream : List StreamResponse) : Prop :=
  ∃ result taskId roomId contextRevision,
    streamForPacket F p now =
      .ok (responses F p (bindingValue F p) result) ∧
    EncodesBinding F p taskId roomId contextRevision ∧
    stream = responses F p (bindingObject taskId roomId contextRevision
      (.str p.canonicalSha256)) result

/-- Some artifact gives the fields of its packet binding by their position. -/
def PositionalBinding (stream : List StreamResponse) : Prop :=
  ∃ (t : A2aTask) (artifacts : List Artifact) (a : Artifact) (part : Part)
    (v : Value) (xs : List Value), StreamResponse.task t ∈ stream ∧
      t.artifacts = some artifacts ∧ a ∈ artifacts ∧ part ∈ a.parts ∧
      part.content = .data v ∧ v["packet"] = .arr xs

theorem positionalBinding_responses {p : RoomContextPacket}
    {binding result : Value} :
    PositionalBinding (responses F p binding result) ↔
      ∃ xs, binding = .arr xs := by
  have hpacket : ∀ v : Value, v = .object [("packet", binding),
      ("result", result)] → v["packet"] = binding := by
    rintro v rfl
    rw [artifactObject_eq]
    rfl
  constructor
  · rintro ⟨t, artifacts, a, part, v, xs, ht, hartifacts, ha, hpart, hv, hxs⟩
    simp only [responses, taskResponse, workingUpdate, List.mem_cons,
      List.not_mem_nil, or_false, StreamResponse.task.injEq, reduceCtorEq,
      false_or] at ht
    rcases ht with rfl | rfl
    · cases hartifacts
    · cases hartifacts
      obtain rfl := List.mem_singleton.mp ha
      obtain rfl := List.mem_singleton.mp hpart
      cases hv
      exact ⟨xs, (hpacket _ rfl).symm.trans hxs⟩
  · rintro ⟨xs, rfl⟩
    exact ⟨_, _, _, _, _, xs, List.mem_of_getElem? (i := 3) rfl, rfl,
      List.mem_singleton_self _, List.mem_singleton_self _, rfl,
      hpacket _ rfl⟩

theorem isDeterministic_iff {p : RoomContextPacket}
    {verified checked : DateTime} {stream : List StreamResponse}
    (hs : ∀ e ∈ stream, e.Ordered)
    (h : (validateStream F p verified checked stream).isSome = true) :
    IsDeterministic F p checked stream ↔ ¬PositionalBinding stream := by
  obtain ⟨evs, hevs⟩ := Option.isSome_iff_exists.mp h
  obtain ⟨_, binding, result, rfl, hbinding, hresult, _⟩ :=
    (validateStream_eq_some hs).mp hevs
  rw [positionalBinding_responses]
  constructor
  · rintro ⟨result', t, r, n, _, _, heq⟩ ⟨xs, rfl⟩
    have harr : PositionalBinding (responses F p (.arr xs) result) :=
      positionalBinding_responses.mpr ⟨xs, rfl⟩
    rw [heq, positionalBinding_responses, bindingObject_eq] at harr
    obtain ⟨ys, hys⟩ := harr
    cases hys
  · intro hobject
    obtain ⟨t, r, n, henc, hform | hform⟩ :=
      (decodeBinding_eq_some (ordered_responses.mp hs).1).mp hbinding
    · refine ⟨result, t, r, n, ?_, henc, by rw [hform]⟩
      rw [streamForPacket, hresult]
    · exact absurd ⟨_, hform⟩ hobject

/-! ## Reported updates -/

variable (F) in
/-- The updates that may be reported for a packet. -/
inductive Authorized (p : RoomContextPacket) : Update → Prop
  | progressed {i : ℕ} : i < 3 → Authorized p (.progressed i)
  | succeeded {now : DateTime} {result : Value} :
      expectedResult F p now = .ok result → Authorized p (.succeeded result)
  | failed {failure : TerminalFailure} {ordinal : ℕ} : ordinal ≤ 4 →
      Authorized p (.failed failure ordinal)

theorem Progressed.authorized {p : RoomContextPacket} {i j : ℕ}
    {ds : List Delivery} (h : Progressed i j ds) :
    ∀ d ∈ ds, Authorized F p d.update := by
  induction h with
  | nil => simp
  | cons hi _ ih => exact List.forall_mem_cons.mpr ⟨.progressed hi, ih⟩

theorem Ending.authorized {p : RoomContextPacket} {es : List (Event Room)}
    {a : Bool} {ds : List Delivery} (h : Ending F p es a ds) :
    ∀ d ∈ ds, Authorized F p d.update := by
  have happend : ∀ {ds gs : List Delivery}, (∀ d ∈ ds, Authorized F p d.update) →
      (∀ d ∈ gs, Authorized F p d.update) →
      ∀ d ∈ ds ++ gs, Authorized F p d.update :=
    fun hds hgs => List.forall_mem_append.mpr ⟨hds, hgs⟩
  cases h with
  | interrupted h =>
      cases h with
      | failed hds ho =>
          exact happend hds.authorized (by simp [Authorized.failed ho])
      | stuck hds hj ho =>
          exact happend hds.authorized
            (by simp [Authorized.failed ho, Authorized.progressed hj])
      | pending hds hj =>
          exact happend hds.authorized (by simp [Authorized.progressed hj])
      | idle hds => exact hds.authorized
  | succeeded hds hv _ _ =>
      exact happend hds.authorized (by simp [Authorized.succeeded hv])
  | refused hds hv =>
      exact happend hds.authorized
        (by simp [Authorized.succeeded hv, Authorized.failed (Nat.le_refl 4)])
  | unfinished hds hv =>
      exact happend hds.authorized (by simp [Authorized.succeeded hv])

theorem update_of_sends {p : RoomContextPacket} {leaseToken : Uuid}
    {es : List (Event Room)} {ds : List Delivery}
    (h : Sends F p leaseToken es ds) {x : Submission × Bool}
    (hx : x ∈ submissions es) :
    ∃ d ∈ ds, x.1 = d.update.submission F p leaseToken := by
  rw [h] at hx
  obtain ⟨d, hd, hx⟩ := List.mem_flatMap.mp hx
  refine ⟨d, hd, ?_⟩
  rcases List.mem_append.mp hx with hx | hx
  · obtain rfl := List.eq_of_mem_replicate hx
    rfl
  · split_ifs at hx with hacknowledged
    · obtain rfl := List.mem_singleton.mp hx
      rfl
    · cases hx

/-- What the adapter admits is the stream of the reference agent if and only if
the packet binding is not an array; and whatever is delivered, a call submits
nothing but the fixed progress, the result of its packet, and failures. -/
theorem only_deterministic_stream (F : Formats) {p : RoomContextPacket}
    {verified checked : DateTime} {stream : List StreamResponse}
    (hs : ∀ e ∈ stream, e.Ordered)
    (h : (validateStream F p verified checked stream).isSome = true) :
    (IsDeterministic F p checked stream ↔ ¬PositionalBinding stream) ∧
    ∀ patience leaseOwner,
      (runOnce F patience leaseOwner).run.Yields fun es _ =>
        submissions es = [] ∨
        ∃ (claimed : ContextResponse) (rest : List (Event Room))
          (q : RoomContextPacket),
          es = ⟨.claim leaseOwner, Except.ok (some claimed)⟩ :: rest ∧
          Handles claimed rest q ∧ ∀ x ∈ submissions es, ∃ update,
            Authorized F q update ∧
              x.1 = update.submission F q claimed.leaseToken := by
  refine ⟨isDeterministic_iff hs h, fun patience leaseOwner => ?_⟩
  refine (runOnce_yields patience leaseOwner).mono ?_
  intro es r hrun
  cases hrun with
  | unclaimed _ => exact .inl rfl
  | @claimed claimed q rest r ds hq hds hending =>
      refine .inr ⟨claimed, rest, q, rfl, hq, fun x hx => ?_⟩
      obtain ⟨d, hd, hx⟩ := update_of_sends hds hx
      exact ⟨d.update, hending.authorized d hd, hx⟩

/-! ## A binding by position -/

namespace Sample

/-- The binding of the packet as an array. -/
def positionalBinding : Value :=
  .arr [uuid Reference.formats packet.taskId,
    uuid Reference.formats packet.roomId, integer packet.contextRevision,
    .str packet.canonicalSha256]

def positionalStream : List StreamResponse :=
  responses Reference.formats packet positionalBinding
    (summaryResult Reference.formats packet)

theorem expectedResult_packet :
    expectedResult Reference.formats packet issued =
      .ok (summaryResult Reference.formats packet) :=
  expectedResult_summary (verifyPacketAt_eq_ok.mp verified_packet) rfl

theorem ordered_positionalBinding :
    AgentGateway.Ordered positionalBinding := by
  have hhash : AgentGateway.Ordered (.str packet.canonicalSha256) :=
    .str trivial
  refine .arr trivial ?_
  simp [ordered_uuid, ordered_integer, hhash]

theorem ordered_positionalStream : ∀ e ∈ positionalStream, e.Ordered :=
  ordered_responses.mpr ⟨ordered_positionalBinding, ordered_summaryResult _⟩

theorem validated_positionalStream :
    (validateStream Reference.formats packet issued issued
      positionalStream).isSome = true := by
  have hbinding : decodeBinding Reference.formats positionalBinding =
      some packet.binding := by
    exact (decodeBinding_eq_some ordered_positionalBinding).mpr
      ⟨_, _, _, encodesBinding (F := Reference.formats)
        Reference.parseUuid_showUuid packet, .inr rfl⟩
  exact Option.isSome_iff_exists.mpr ⟨_,
    (validateStream_eq_some ordered_positionalStream).mpr
      ⟨verifyPacketAt_eq_ok.mp verified_packet, _, _, rfl, hbinding,
        expectedResult_packet, rfl⟩⟩

theorem positional_positionalStream : PositionalBinding positionalStream :=
  positionalBinding_responses.mpr ⟨_, rfl⟩

end Sample

theorem only_deterministic_stream_positional :
    (IsDeterministic Reference.formats Sample.packet Sample.issued
        Sample.positionalStream ↔
      ¬PositionalBinding Sample.positionalStream) ∧
    ∀ patience leaseOwner,
      (runOnce Reference.formats patience leaseOwner).run.Yields fun es _ =>
        submissions es = [] ∨
        ∃ (claimed : ContextResponse) (rest : List (Event Room))
          (q : RoomContextPacket),
          es = ⟨.claim leaseOwner, Except.ok (some claimed)⟩ :: rest ∧
          Handles claimed rest q ∧ ∀ x ∈ submissions es, ∃ update,
            Authorized Reference.formats q update ∧
              x.1 = update.submission Reference.formats q
                claimed.leaseToken :=
  only_deterministic_stream Reference.formats
    Sample.ordered_positionalStream Sample.validated_positionalStream

/-- A stream whose packet binding is an array is admitted. -/
theorem positional_stream_admitted : ¬∀ (p : RoomContextPacket)
    (verified checked : DateTime) (stream : List StreamResponse),
      (∀ e ∈ stream, e.Ordered) →
      (validateStream Reference.formats p verified checked
        stream).isSome = true →
      IsDeterministic Reference.formats p checked stream := by
  intro h
  have hdeterministic := h Sample.packet Sample.issued Sample.issued
    Sample.positionalStream Sample.ordered_positionalStream
    Sample.validated_positionalStream
  exact (isDeterministic_iff Sample.ordered_positionalStream
    Sample.validated_positionalStream).mp hdeterministic
    Sample.positional_positionalStream

end AgentGateway.Task
