import AgentGateway.Task.Adapter
import AgentGateway.Task.OrderedStream

/-!
# Admission of streams

Which responses the adapter admits: the stream of the reference agent, up to
the encoding of the packet binding.
-/

namespace AgentGateway.Task

open Json (Value)

variable {F : Formats}

/-! ## Single responses -/

theorem submittedEvent_eq_some {p : RoomContextPacket} {e : StreamResponse}
    {ev : A2aTaskEvent} : submittedEvent F p e = some ev ↔
      e = taskResponse F p .submitted none ∧ ev = .submitted 0 := by
  constructor
  · intro h
    unfold submittedEvent at h
    split at h
    next task =>
      simp only [Option.bind_eq_bind, Option.bind_eq_some_iff, Option.guard_eq_some',
        exists_const, Option.pure_def, Option.some.injEq,
        Option.isNone_iff_eq_none] at h
      obtain ⟨hid, hcontext, hstate, ⟨hmessage, htime⟩,
        ⟨hartifacts, hhistory, hmetadata⟩, rfl⟩ := h
      obtain ⟨id, context, ⟨state, message, timestamp⟩, artifacts, history,
        metadata⟩ := task
      subst hid hcontext hstate hmessage htime hartifacts hhistory hmetadata
      exact ⟨rfl, rfl⟩
    next => cases h
  · rintro ⟨rfl, rfl⟩
    simp [submittedEvent, taskResponse]

theorem workingEvent_eq_some {p : RoomContextPacket} {e : StreamResponse}
    {ordinal : ℕ} {text : String} {ev : A2aTaskEvent} :
    workingEvent F p e ordinal text = some ev ↔
      e = workingUpdate F p text ∧ ev = .working ordinal text := by
  constructor
  · intro h
    unfold workingEvent at h
    split at h
    next update =>
      simp only [Option.bind_eq_bind, Option.bind_eq_some_iff, Option.guard_eq_some',
        exists_const, Option.isNone_iff_eq_none] at h
      obtain ⟨htask, hcontext, hstate, ⟨htime, hmetadata⟩, message, hmessage,
        hid, hmcontext, hmtask, hrole, ⟨hmmeta, hext, href⟩, h⟩ := h
      split at h
      next part hparts =>
        split at h
        next text' htext =>
          simp only [Option.bind_eq_some_iff, Option.guard_eq_some',
            exists_const, Option.pure_def, Option.some.injEq] at h
          obtain ⟨rfl, ⟨hfile, hmedia, hpmeta⟩, rfl⟩ := h
          obtain ⟨task, context, ⟨state, message', timestamp⟩, metadata⟩ :=
            update
          obtain ⟨id, mcontext, mtask, role, parts, mmeta, ext, ref⟩ := message
          obtain ⟨content, file, media, pmeta⟩ := part
          subst htask hcontext hstate htime hmetadata hmessage hid hmcontext
            hmtask hrole hmmeta hext href hparts htext hfile hmedia hpmeta
          exact ⟨rfl, rfl⟩
        next => cases h
      next => cases h
    next => cases h
  · rintro ⟨rfl, rfl⟩
    simp [workingEvent, workingUpdate, plainPart]

theorem artifactData_eq_some {p : RoomContextPacket}
    {artifacts : List Artifact} {data : Value} :
    artifactData F p artifacts = some data ↔
      artifacts = [artifactWith F p data] := by
  constructor
  · intro h
    unfold artifactData at h
    split at h
    next a =>
      simp only [Option.bind_eq_bind, Option.bind_eq_some_iff, Option.guard_eq_some',
        exists_const, Option.isNone_iff_eq_none] at h
      obtain ⟨hid, hname, hdescription, ⟨hmetadata, hext⟩, h⟩ := h
      split at h
      next part hparts =>
        split at h
        next data' hdata =>
          simp only [Option.bind_eq_some_iff, Option.guard_eq_some',
            exists_const, Option.pure_def, Option.some.injEq] at h
          obtain ⟨⟨hfile, hmedia, hpmeta⟩, rfl⟩ := h
          obtain ⟨id, name, description, parts, metadata, ext⟩ := a
          obtain ⟨content, file, media, pmeta⟩ := part
          subst hid hname hdescription hmetadata hext hparts hdata hfile hmedia
            hpmeta
          rfl
        next => cases h
      next => cases h
    next => cases h
  · rintro rfl
    simp [artifactData, artifactWith, plainPart]

/-- The last response, by the fields of its data. -/
theorem completedEvent_eq_some {p : RoomContextPacket} {now : DateTime}
    {e : StreamResponse} {ev : A2aTaskEvent} :
    completedEvent F p now e = some ev ↔ ∃ fs binding result,
      e = taskResponse F p .completed (some [artifactWith F p (.obj fs)]) ∧
      fs.length = 2 ∧
      fs.lookup "packet" = some binding ∧ fs.lookup "result" = some result ∧
      decodeBinding F binding = some p.binding ∧
      expectedResult F p now = .ok result ∧
      ev = .completed 3 result p.binding := by
  constructor
  · intro h
    unfold completedEvent at h
    split at h
    next task =>
      simp only [Option.bind_eq_bind, Option.bind_eq_some_iff, Option.guard_eq_some',
        exists_const, Option.isNone_iff_eq_none] at h
      obtain ⟨hid, hcontext, hstate, ⟨hmessage, htime⟩, ⟨hhistory, hmetadata⟩,
        artifacts, hartifacts, data, hdata, h⟩ := h
      split at h
      next fs =>
        simp only [Option.bind_eq_some_iff, Option.guard_eq_some',
          exists_const, Option.pure_def, Option.some.injEq,
          validateResult_eq_true] at h
        obtain ⟨hlength, binding, hbinding, result, hresult, b, hb, rfl, hv,
          rfl⟩ := h
        obtain ⟨id, context, ⟨state, message, timestamp⟩, artifacts', history,
          metadata⟩ := task
        obtain rfl := artifactData_eq_some.mp hdata
        subst hid hcontext hstate hmessage htime hartifacts hhistory hmetadata
        exact ⟨fs, binding, result, rfl, hlength, hbinding, hresult, hb, hv,
          rfl⟩
      next => cases h
    next => cases h
  · rintro ⟨fs, binding, result, rfl, hlength, hbinding, hresult, hb, hv, rfl⟩
    have hdata : artifactData F p [artifactWith F p (.obj fs)] =
        some (.obj fs) := artifactData_eq_some.mpr rfl
    simp [completedEvent, taskResponse, hdata, hlength, hbinding, hresult, hb,
      validateResult_eq_true.mpr hv]

/-! ## Whole streams -/

/-- The values of a response are those of a `BTreeMap`. -/
def StreamResponse.Ordered : StreamResponse → Prop
  | .task t => ∀ artifacts, t.artifacts = some artifacts →
      ∀ a ∈ artifacts, ∀ part ∈ a.parts, ∀ v, part.content = .data v →
        AgentGateway.Ordered v
  | _ => True

/-- Sorted fields are determined by as many lookups as there are fields. -/
theorem eq_of_lookups {fs gs : List (String × Value)}
    (hfs : Value.SortedKeys fs) (hgs : Value.SortedKeys gs)
    (hlength : fs.length = gs.length)
    (h : ∀ g ∈ gs, fs.lookup g.1 = some g.2) : fs = gs := by
  have hsubset : gs ⊆ fs := by
    intro g hg
    obtain ⟨l, r, hfs', _⟩ := List.lookup_eq_some_iff.mp (h g hg)
    simp [hfs']
  have hnodup : gs.Nodup := .of_map Prod.fst hgs.nodup
  have hperm : gs.Perm fs :=
    (List.subperm_of_subset hnodup hsubset).perm_of_length_le hlength.le
  have hpairs : ∀ {ks : List (String × Value)}, Value.SortedKeys ks →
      ks.Pairwise fun f g => Value.KeyLt f.1 g.1 := by
    intro ks hks
    exact List.pairwise_map.mp hks
  exact hperm.symm.eq_of_pairwise
    (fun _ _ _ _ hlt hgt => absurd hgt hlt.asymm) (hpairs hfs) (hpairs hgs)

theorem artifactObject_eq (binding result : Value) :
    Value.object [("packet", binding), ("result", result)] =
      .obj [("packet", binding), ("result", result)] := by
  simp +decide [Value.object, Value.insertField]

theorem validateFrom_cons {p : RoomContextPacket} {now : DateTime} {i : ℕ}
    {e : StreamResponse} {stream : List StreamResponse}
    {evs : List A2aTaskEvent} :
    validateFrom F p now i (e :: stream) = some evs ↔ ∃ ev rest,
      validateEvent F p now e i = some ev ∧
        validateFrom F p now (i + 1) stream = some rest ∧ evs = ev :: rest := by
  simp only [validateFrom, Option.bind_eq_bind, Option.bind_eq_some_iff,
    Option.pure_def, Option.some.injEq, eq_comm (a := evs)]
  constructor
  · rintro ⟨ev, hev, rest, hrest, h⟩
    exact ⟨ev, rest, hev, hrest, h⟩
  · rintro ⟨ev, rest, hev, hrest, h⟩
    exact ⟨ev, hev, rest, hrest, h⟩

theorem validateFrom_nil {p : RoomContextPacket} {now : DateTime} {i : ℕ}
    {evs : List A2aTaskEvent} :
    validateFrom F p now i [] = some evs ↔ evs = [] := by
  simp [validateFrom, eq_comm]

/-- The last response of a stream whose objects are sorted. -/
theorem completedEvent_of_ordered {p : RoomContextPacket} {now : DateTime}
    {e : StreamResponse} (he : e.Ordered) {ev : A2aTaskEvent} :
    completedEvent F p now e = some ev ↔ ∃ binding result,
      e = taskResponse F p .completed (some [artifact F p binding result]) ∧
      decodeBinding F binding = some p.binding ∧
      expectedResult F p now = .ok result ∧
      ev = .completed 3 result p.binding := by
  rw [completedEvent_eq_some]
  constructor
  · rintro ⟨fs, binding, result, rfl, hlength, hbinding, hresult, hb, hv, hev⟩
    have hordered : AgentGateway.Ordered (.obj fs) :=
      he _ rfl _ (List.mem_singleton_self _) _ (List.mem_singleton_self _) _
        rfl
    refine ⟨binding, result, ?_, hb, hv, hev⟩
    have hfields : fs = [("packet", binding), ("result", result)] := by
      refine eq_of_lookups hordered.self ?_ hlength ?_
      · simp +decide [Value.SortedKeys]
      · simp [hbinding, hresult]
    rw [hfields, artifact, artifactObject_eq]
  · rintro ⟨binding, result, rfl, hb, hv, hev⟩
    refine ⟨[("packet", binding), ("result", result)], binding, result, ?_,
      rfl, rfl, rfl, hb, hv, hev⟩
    rw [artifact, artifactObject_eq]

/-- The stream that a packet, a binding and a result make. -/
theorem validateStream_eq_some {p : RoomContextPacket}
    {verified checked : DateTime} {stream : List StreamResponse}
    {evs : List A2aTaskEvent} (hs : ∀ e ∈ stream, e.Ordered) :
    validateStream F p verified checked stream = some evs ↔
      Verified F p verified ∧ ∃ binding result,
        stream = responses F p binding result ∧
        decodeBinding F binding = some p.binding ∧
        expectedResult F p checked = .ok result ∧
        evs = [.submitted 0, .working 1 readingText, .working 2 preparingText,
          .completed 3 result p.binding] := by
  simp only [validateStream, Option.bind_eq_bind, Option.bind_eq_some_iff,
    Option.guard_eq_some', exists_const, isOk_verifyPacketAt]
  refine and_congr_right fun _ => ?_
  constructor
  · rintro ⟨hlength, h⟩
    obtain ⟨a, b, c', d, rfl⟩ := List.length_eq_four.mp hlength
    simp only [validateFrom_cons, validateFrom_nil, validateEvent,
      submittedEvent_eq_some, workingEvent_eq_some,
      completedEvent_of_ordered (hs d (by simp))] at h
    obtain ⟨_, _, ⟨rfl, rfl⟩, ⟨_, _, ⟨rfl, rfl⟩, ⟨_, _, ⟨rfl, rfl⟩,
      ⟨_, _, ⟨binding, result, rfl, hb, hv, rfl⟩, rfl, rfl⟩, rfl⟩, rfl⟩,
      rfl⟩ := h
    exact ⟨binding, result, rfl, hb, hv, rfl⟩
  · rintro ⟨binding, result, rfl, hb, hv, rfl⟩
    refine ⟨rfl, ?_⟩
    have hlast := hs (taskResponse F p .completed
      (some [artifact F p binding result])) (by simp [responses])
    simp only [responses, validateFrom_cons, validateFrom_nil, validateEvent,
      submittedEvent_eq_some, workingEvent_eq_some,
      completedEvent_of_ordered hlast]
    exact ⟨_, _, ⟨trivial, rfl⟩, ⟨_, _, ⟨trivial, rfl⟩, ⟨_, _, ⟨trivial, rfl⟩,
      ⟨_, _, ⟨binding, result, rfl, hb, hv, rfl⟩, rfl, rfl⟩, rfl⟩, rfl⟩, rfl⟩

end AgentGateway.Task
