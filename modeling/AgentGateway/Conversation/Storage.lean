import AgentGateway.Conversation.Citations
import AgentGateway.Conversation.Scanning
import AgentGateway.Library.Json.Size

/-!
# Reading back

Every record that is saved has a text that stands for it, but `load` gives up on
texts of more than 4 MiB, which `save` writes all the same.  Up to that length
the mediator reads back what it wrote, and the scans of its directory do not
fail.
-/

namespace AgentGateway

open Json (Value Schema)
open Interaction
open Mediation
open Dispatcher

variable {K : Crates} {d d' : Directory} {id : String}
  {r : Record} {es : List Action} {t : List Action}

/-- The text of a record is not longer than `load` accepts. -/
def Record.Fits (r : Record) : Prop := r.toVec.length ≤ maxJsonBytes

/-- The text of a safe record that was saved. -/
def SavedText (K : Crates) (t : List Action) (id : String)
    (bytes : Utf8.Bytes) : Prop :=
  ∃ (r : Record) (ans : FileWrite), (⟨.save id r, ans⟩ : Action) ∈ t ∧
    bytes = r.toVec ∧ r.Safe ∧ K.uuidParses id = true

theorem SavedText.append {bytes : Utf8.Bytes} (h : SavedText K t id bytes)
    (es : List Action) : SavedText K (t ++ es) id bytes := by
  obtain ⟨r, ans, hmem, hr⟩ := h
  exact ⟨r, ans, List.mem_append_left es hmem, hr⟩

/-- Every file of a run is such a text. -/
theorem Run.savedText {run : List (Call K)} (hrun : Run K run d)
    (ht : t <+: trace run) {bytes : Utf8.Bytes}
    (hfile : directory t id = some bytes) : SavedText K t id bytes := by
  refine Run.forall_trace (P := fun t => ∀ id bytes,
    directory t id = some bytes → SavedText K t id bytes) ?_ ?_ ht id bytes
    hfile
  · rintro id bytes ⟨⟩
  · rintro past x future h e rest rfl hevents hinv id bytes hfile
    have hold : directory (trace past ++ h) id = some bytes →
        SavedText K (trace past ++ h ++ [e]) id bytes :=
      fun hfile => (hinv id bytes hfile).append [e]
    have hG := hrun.guarantee hevents
    rw [directory_snoc] at hfile
    obtain ⟨op, ans⟩ := e
    cases op with
    | save i r =>
        obtain ⟨huuid, hsave⟩ : K.uuidParses i = true ∧
          SaveGuarantee K x.param _ h i r := hG
        have hwrite : (directory (trace past ++ h)).write i r.toVec id =
            some bytes → SavedText K (trace past ++ h ++ [⟨.save i r, ans⟩])
              id bytes := by
          intro hfile
          by_cases hid : id = i
          · subst hid
            rw [Directory.write_self] at hfile
            cases hfile
            exact ⟨r, ans, by simp, rfl, hsave.safe, huuid⟩
          · rw [Directory.write_of_ne hid] at hfile
            exact (hinv id bytes hfile).append _
        cases ans with
        | saved => exact hwrite hfile
        | failed replaced =>
            cases replaced with
            | true => exact hwrite hfile
            | false => exact hold hfile
    | _ => exact hold hfile

theorem load_of_file {res : Except MediationError (Option Record)}
    (huuid : K.uuidParses id = true) {bytes : Utf8.Bytes}
    (hfile : d id = some bytes)
    (hexec : Exec world d (load K id).run es d' (some res))
    (hio : ∀ a ∈ es, ¬IoError a) :
    res = match Record.read bytes with
      | some r => .ok (some r)
      | none => .error .validation := by
  have hload : Ensures Guarantees.none (load K id) (fun _ h' res =>
      (∀ a ∈ h', ¬IoError a) → res = match Record.read bytes with
        | some r => .ok (some r)
        | none => .error .validation) d [] := by
    refine load_ensures Guarantees.none_lenient ?_ ?_ ?_
    · intro content r _ hcontent hread _
      rw [hfile] at hcontent
      cases hcontent
      rw [hread]
    · intro _ hmissing
      rw [hfile] at hmissing
      cases hmissing
    · intro fs e he hio
      cases he with
      | path hbad => exact absurd huuid hbad
      | unreadable hcontent hread =>
          rw [hfile] at hcontent
          cases hcontent
          rw [hread]
      | io => exact absurd rfl (hio ⟨.read id, .failed⟩ (by simp))
  exact (hload.exec hexec).1 res rfl hio

theorem priorSources_of_loadable {p : Value}
    {res : Except MediationError StringSet} (hload : Loadable K d)
    (hexec : Exec world d (priorSources K p).run es d' (some res))
    (hio : ∀ a ∈ es, ¬IoError a) : ∃ prior, res = .ok prior := by
  have hprior : Ensures Guarantees.none (priorSources K p) (fun _ h' res =>
      (∀ a ∈ h', ¬IoError a) → ∃ prior, res = .ok prior) d [] := by
    refine priorSources_ensures Guarantees.none_lenient ?_ ?_
    · exact fun _ prior _ _ => ⟨prior, rfl⟩
    · rintro fs e (⟨a, ha, herror⟩ | ⟨entries, entry, hlist, hmem, hentry⟩) hio
      · exact absurd herror (hio a ha)
      · cases hentry with
        | stem =>
            obtain ⟨i, hi, _⟩ := hlist.known none hmem
            cases hi
        | path huuid =>
            obtain ⟨i, hi, hne⟩ := hlist.known _ hmem
            cases hi
            obtain ⟨bytes, hbytes⟩ := Option.ne_none_iff_exists'.mp hne
            exact absurd (hload _ bytes hbytes).1 huuid
        | content hcontent hread =>
            exact absurd hread (hload _ _ hcontent).2
  exact (hprior.exec hexec).1 res rfl hio

/-- A saved record is loaded again, as long as its file stays, if and only if its
text is not longer than 4 MiB.  If all records that a run saves fit, then no
scan of its directory and no reading of prior sources fails at any moment,
apart from errors of the disk. -/
theorem saved_records_read_back {run : List (Call K)} (hrun : Run K run d) :
    (∀ id r ans, ⟨.save id r, ans⟩ ∈ trace run → ∀ t, t <+: trace run →
      directory t id = some r.toVec → ∀ es d' res,
        Exec world (directory t) (load K id).run es d' (some res) →
        (∀ a ∈ es, ¬IoError a) → (res = .ok (some r) ↔ r.Fits)) ∧
    ((∀ id r ans, ⟨.save id r, ans⟩ ∈ trace run → r.Fits) →
      ∀ t, t <+: trace run →
        (∀ c entries es d' res, Listing (directory t) entries →
          .unreadable ∉ entries →
          Exec world (directory t) (scan K c entries).run es d' (some res) →
          (∀ a ∈ es, ¬IoError a) → ∃ b, res = .ok b) ∧
        ∀ p es d' res,
          Exec world (directory t) (priorSources K p).run es d' (some res) →
          (∀ a ∈ es, ¬IoError a) → ∃ prior, res = .ok prior) := by
  constructor
  · intro id r ans hmem t ht hfile es d' res hexec hio
    obtain ⟨_, _, _, _, _, huuid⟩ := hrun.savedText ht hfile
    obtain ⟨past, future, hsplit⟩ := List.mem_iff_append.mp hmem
    have hinitial : past ++ [⟨.save id r, ans⟩] <+: trace run :=
      ⟨future, by simp [hsplit]⟩
    obtain ⟨calls, x, later, h, rest, rfl, hevents, rfl⟩ :=
      exists_session_of_event hinitial
    have hsave : SaveGuarantee K x.param _ h id r :=
      (hrun.guarantee hevents).2
    rw [load_of_file huuid hfile hexec hio,
      Record.read_toVec hsave.safe, Record.Fits]
    split_ifs with hlong
    · exact iff_of_false (by rintro ⟨⟩) (Nat.not_le.mpr hlong)
    · exact iff_of_true rfl (Nat.not_lt.mp hlong)
  · intro hfits t ht
    have hload : Loadable K (directory t) := by
      intro id bytes hfile
      obtain ⟨r, ans, hmem, rfl, hsafe, huuid⟩ := hrun.savedText ht hfile
      refine ⟨huuid, ?_⟩
      have hlength := hfits id r ans (ht.subset hmem)
      rw [Record.Fits] at hlength
      rw [Record.read_toVec hsafe, if_neg (Nat.not_lt.mpr hlength)]
      rintro ⟨⟩
    constructor
    · intro c entries es d' res hlist hreadable hexec hio
      obtain ⟨b, hb, _⟩ := (hlist.ready hload hreadable).scan hexec hio
      exact ⟨b, hb⟩
    · intro p es d' res hexec hio
      exact priorSources_of_loadable hload hexec hio

/-- The record of a completed turn is loaded again, so it fits. -/
theorem saved_records_read_back_completedCall : Sample.completed.Fits := by
  have hsaved : saved Sample.task₁ Sample.completed ∈
      trace [Sample.completedCall] := by
    simp [Sample.completedCall, Sample.completedEvents, Sample.completed]
  have hstate : Sample.directoryOf Sample.completed =
      directory (trace [Sample.completedCall]) :=
    Sample.run_completedCall.state_eq
  have hfile : directory (trace [Sample.completedCall]) Sample.task₁ =
      some Sample.completed.toVec := by
    rw [← hstate]
    exact Directory.write_self _ _ _
  have hload : Exec world (directory (trace [Sample.completedCall]))
      (load Reference.crates Sample.task₁).run
      [⟨.read Sample.task₁, .bytes Sample.completed.toVec⟩]
      (directory (trace [Sample.completedCall]))
      (some (.ok (some Sample.completed))) := by
    rw [← hstate]
    exact exec_load Sample.completed_stored
  exact ((saved_records_read_back Sample.run_completedCall).1 _ _ _ hsaved _
    List.prefix_rfl hfile _ _ _ hload (by simp [IoError])).mp rfl

/-! ## A record that is not read back -/

namespace Sample

/-- The time of the calls, up to its fraction. -/
def stamp : List Char :=
  ['2', '0', '2', '6', '-', '1', '0', '-', '0', '5', 'T', '1', '2', ':', '0',
    '0', ':', '0', '4', '.']

def longTime (n : ℕ) : String :=
  String.ofList (stamp ++ (List.replicate n '0' ++ ['Z']))

theorem nanoseconds_zeros {n : ℕ} (hn : 0 < n) :
    Reference.nanoseconds ('.' :: (List.replicate n '0' ++ ['Z'])) =
      some 0 := by
  have htake : (List.replicate n '0' ++ ['Z']).takeWhile Char.isDigit =
      List.replicate n '0' := by
    rw [List.takeWhile_append_of_pos (by simp)]
    simp
  have hdrop : (List.replicate n '0' ++ ['Z']).dropWhile Char.isDigit =
      ['Z'] := by
    rw [List.dropWhile_append_of_pos (by simp)]
    rfl
  have hne : List.replicate n '0' ≠ [] := by
    simpa using Nat.ne_of_gt hn
  have hdigits : (List.replicate n '0' ++ List.replicate 9 '0').take 9 =
      List.replicate 9 '0' := by
    rw [List.replicate_append_replicate, List.take_replicate]
    congr 1
  rw [Reference.nanoseconds, htake, hdrop, hdigits, if_pos ⟨hne, rfl⟩]
  rfl

theorem parse_longTime {n : ℕ} (hn : 0 < n) :
    Reference.parseFromRfc3339 (longTime n) = some now := by
  rw [Reference.parseFromRfc3339, longTime, String.toList_ofList]
  simp only [stamp, List.cons_append, List.nil_append, nanoseconds_zeros hn]
  decide

theorem size_longTime (n : ℕ) : Json.size (.str (longTime n)) = n + 23 := by
  have hescape : (longTime n).toList.flatMap Json.escapeChar =
      stamp ++ (List.replicate n '0' ++ ['Z']) := by
    rw [longTime, String.toList_ofList, List.flatMap_append,
      List.flatMap_append]
    congr 1
    congr 1
    induction n with
    | zero => rfl
    | succ n ih =>
        rw [List.replicate_succ, List.flatMap_cons, ih]
        rfl
  have hzeros : (Utf8.encode (List.replicate n '0')).length = n := by
    have hzero : '0'.utf8Size = 1 := rfl
    rw [Utf8.length_encode, List.map_replicate, List.sum_replicate, hzero]
    simp
  rw [Json.size, Json.print, Json.printString, hescape,
    Json.length_encode_cons rfl, Utf8.encode_append, Utf8.encode_append,
    Utf8.encode_append]
  simp only [List.length_append, hzeros]
  have hstamp : (Utf8.encode stamp).length = 20 := by decide
  have hend : (Utf8.encode ['Z']).length = 1 := by decide
  have hquote : (Utf8.encode ['"']).length = 1 := by decide
  omega

/-! ### The reply -/

def longUsage (n : ℕ) : Value := .object
  [("lastTotalTokens", number 1), ("modelContextWindow", .null),
    ("reportedAt", .str (longTime n)), ("model", .str "model-a"),
    ("freshness", .str "unavailable")]

def longReply (n : ℕ) : Value := result packet₁ (longUsage n)

theorem safe_longUsage (n : ℕ) : Safe (longUsage n) := by
  refine safe_object fun f hf => ?_
  simp only [List.mem_cons, List.not_mem_nil, or_false] at hf
  rcases hf with rfl | rfl | rfl | rfl | rfl
  · exact .num (show 1 ≤ maxSafeInteger by decide)
  · exact .null trivial
  · exact .str trivial
  · exact .str trivial
  · exact .str trivial

theorem longUsage_reportedAt (n : ℕ) :
    (longUsage n)["reportedAt"] = .str (longTime n) := by
  rw [longUsage, Value.getElem_object]
  rfl

theorem longReply_usage (n : ℕ) : (longReply n)["usage"] = longUsage n := by
  rw [longReply, result, Value.getElem_object]
  rfl

/-- Apart from its usage, the long reply is the short one. -/
theorem longReply_getElem {n : ℕ} {k : String} (hk : k ≠ "usage") :
    (longReply n)[k] = reply[k] := by
  rw [longReply, reply, result, result, Value.getElem_object,
    Value.getElem_object]
  simp [List.lookup_cons, beq_eq_false_iff_ne.mpr hk]

theorem safe_longReply (n : ℕ) : Safe (longReply n) := by
  refine safe_object fun f hf => ?_
  have hp := safe_packet₁
  simp only [List.mem_cons, List.not_mem_nil, or_false] at hf
  rcases hf with rfl | rfl | rfl | rfl | rfl | rfl | rfl | rfl | rfl
  · exact .str trivial
  · exact (hp.getElem trivial _).getElem trivial _
  · exact (hp.getElem trivial _).getElem trivial _
  · exact .str trivial
  · exact (hp.getElem trivial _).getElem trivial _
  · exact (hp.getElem trivial _).getElem trivial _
  · exact .arr trivial (by simpa using Value.Every.str trivial)
  · exact .null trivial
  · exact safe_longUsage n

theorem valid_longUsage {n : ℕ} (hn : 0 < n) :
    Contracts.usage.valid Reference.crates.isFormat (longUsage n) = true := by
  have hformat : Reference.crates.isFormat .dateTime (longTime n) =
      true := by
    show (Reference.parseFromRfc3339 (longTime n)).isSome = true
    rw [parse_longTime hn]
    rfl
  have hlength : 1 ≤ (longTime n).toList.length := by
    rw [longTime, String.toList_ofList, List.length_append]
    exact Nat.le_add_right_of_le (by decide)
  refine Schema.valid_object rfl fun f hf => ?_
  simp only [List.mem_cons, List.not_mem_nil, or_false] at hf
  rw [Schema.validField_eq_lookup]
  rcases hf with rfl | rfl | rfl | rfl | rfl
  · rfl
  · rfl
  · show Schema.valid _ Contracts.dateTime _ = true
    simp [Contracts.dateTime, Schema.valid, Schema.stringValid, hformat,
      hlength]
  · rfl
  · rfl

theorem reply_schema :
    Contracts.result.valid Reference.crates.isFormat reply = true :=
  valid_of_schema (schema_of_validateResult answered.reply_valid)

theorem valid_longReply {n : ℕ} (hn : 0 < n) :
    Contracts.result.valid Reference.crates.isFormat (longReply n) = true := by
  refine Schema.valid_object rfl fun f hf => ?_
  have hnodup : ["kind", "conversationId", "generation", "assistantText",
      "consumedRevision", "contextDigest", "citations", "effectiveSettings",
      "usage"].Nodup := by decide
  have hkey : f.1 ∈ ["kind", "conversationId", "generation",
      "assistantText", "consumedRevision", "contextDigest", "citations",
      "effectiveSettings", "usage"] := List.mem_map_of_mem (f := Prod.fst) hf
  have hvalue : (longReply n)[f.1] = f.2 :=
    Json.getElem_object_of_mem hf hnodup
  rw [← hvalue]
  by_cases hk : f.1 = "usage"
  · rw [hk, longReply_usage, Schema.validField_eq_lookup]
    show Schema.valid _ (Contracts.nullable Contracts.usage) _ = true
    rw [Contracts.nullable, Schema.valid, decide_eq_true_iff,
      Schema.validCount_pos_iff]
    exact ⟨_, by simp, valid_longUsage hn⟩
  · rw [longReply_getElem hk]
    exact Schema.validField_getElem reply_schema hkey

theorem longReply_usage_valid {n : ℕ} (hn : 0 < n) :
    resultUsage Reference.crates (longReply n) packet₁ = some () := by
  have hnull : (longUsage n).isNull = false := by
    obtain ⟨fs, hfs, _⟩ := Value.exists_object
      [("lastTotalTokens", number 1), ("modelContextWindow", .null),
        ("reportedAt", .str (longTime n)), ("model", .str "model-a"),
        ("freshness", .str "unavailable")]
    rw [longUsage, hfs]
    rfl
  have hmodel : (longUsage n)["model"] =
      reportedModel reply["effectiveSettings"] packet₁ := by
    have hvalue : (longUsage n)["model"] = .str "model-a" := by
      rw [longUsage, Value.getElem_object]
      rfl
    rw [hvalue]
    decide +kernel
  have hfresh : (longUsage n)["freshness"] = .str "unavailable" := by
    rw [longUsage, Value.getElem_object]
    rfl
  have hreported : timestamp Reference.crates (longUsage n)["reportedAt"] =
      some now := by
    rw [longUsage_reportedAt]
    exact parse_longTime hn
  have hissued : timestamp Reference.crates packet₁["issuedAt"] =
      some 1791201603000000000 := by decide +kernel
  have hexpires : timestamp Reference.crates packet₁["expiresAt"] =
      some 1791201783000000000 := by decide +kernel
  rw [resultUsage, longReply_usage, hnull,
    longReply_getElem (by decide : "effectiveSettings" ≠ "usage")]
  simp [hmodel, hfresh, hreported, hissued, hexpires, guard, now]

theorem longReply_valid {n : ℕ} (hn : 0 < n) :
    validateResultWithAdmission Reference.crates (longReply n) packet₁
      reserved.sources mediator.admission = some () := by
  obtain ⟨⟨_, hmatches, hsettings, _⟩, hcitations⟩ :=
    validateResultWithAdmission_iff.mp answered.reply_valid
  refine validateResultWithAdmission_iff.mpr ⟨⟨?_, ?_, ?_, ?_⟩, ?_⟩
  · exact (schema_of_safe _ (safe_longReply n)).mpr (valid_longReply hn)
  · rw [resultMatches] at hmatches ⊢
    simpa only [longReply_getElem (by decide : "conversationId" ≠ "usage"),
      longReply_getElem (by decide : "generation" ≠ "usage"),
      longReply_getElem (by decide : "consumedRevision" ≠ "usage"),
      longReply_getElem (by decide : "contextDigest" ≠ "usage"),
      longReply_getElem (by decide : "assistantText" ≠ "usage")]
      using hmatches
  · rw [resultSettings] at hsettings ⊢
    rwa [longReply_getElem (by decide)]
  · exact longReply_usage_valid hn
  · rw [citationsKnown] at hcitations ⊢
    rwa [longReply_getElem (by decide)]

/-! ### The receipt and the completion -/

/-- An object is not much larger than one of its fields. -/
theorem size_object_field_le {b a : List (String × Value)}
    {k : String} {x : Value} {n : ℕ}
    (hrest : Json.fieldsSize b + Json.fieldSize (k, .str "") +
      Json.fieldsSize a ≤ n) :
    Json.size (Value.object (b ++ (k, x) :: a)) ≤
      Json.size x + n := by
  refine (Json.size_object_le _).trans ?_
  have hempty : Json.size (.str "") = 2 := rfl
  rw [Json.fieldsSize_append_cons, Json.fieldSize]
  rw [Json.fieldSize, hempty] at hrest
  dsimp only at hrest ⊢
  omega

theorem size_longUsage_le (n : ℕ) : Json.size (longUsage n) ≤ n + 223 := by
  have h := size_object_field_le (x := .str (longTime n)) (n := 200)
    (b := [("lastTotalTokens", number 1), ("modelContextWindow", .null)])
    (k := "reportedAt")
    (a := [("model", .str "model-a"), ("freshness", .str "unavailable")])
    (by decide +kernel)
  rw [size_longTime] at h
  exact h

theorem size_longReply_le (n : ℕ) : Json.size (longReply n) ≤ n + 823 := by
  have h := size_object_field_le (x := longUsage n) (n := 600)
    (b := [("kind", .str "conversation-reply.v1"),
      ("conversationId", packet₁["conversation"]["id"]),
      ("generation", packet₁["conversation"]["generation"]),
      ("assistantText", .str "Maya proposed the blue example."),
      ("consumedRevision", packet₁["context"]["revision"]),
      ("contextDigest", packet₁["context"]["digest"]),
      ("citations", .arr [.str (ident "0000000a")]),
      ("effectiveSettings", .null)])
    (k := "usage") (a := []) (by decide +kernel)
  have husage := size_longUsage_le n
  exact h.trans (by omega)

theorem size_longReceipt_le (n : ℕ) :
    Json.size (completedReceipt packet₁ (longReply n)) ≤ n + 1423 := by
  have h := size_object_field_le (x := longReply n) (n := 600)
    (b := [("taskId", packet₁["taskId"]),
      ("conversationId", packet₁["conversation"]["id"]),
      ("generation", packet₁["conversation"]["generation"]),
      ("phase", .str "completed")])
    (k := "result")
    (a := [("acknowledgement", .null), ("error", .null),
      ("runtimeBinding", runtime)]) (by decide +kernel)
  have hreply := size_longReply_le n
  exact h.trans (by omega)

theorem longUsage_ne_null (n : ℕ) : longUsage n ≠ .null := by
  intro hnull
  have htime := longUsage_reportedAt n
  rw [hnull] at htime
  cases htime

theorem longReply_ne_null (n : ℕ) : longReply n ≠ .null := by
  intro hnull
  have husage := longReply_usage n
  rw [hnull] at husage
  exact longUsage_ne_null n husage.symm

theorem size_longReply_ge (n : ℕ) : n ≤ Json.size (longReply n) := by
  have htime : Json.size (longUsage n)["reportedAt"] ≤
      Json.size (longUsage n) :=
    Json.size_getElem_le (by simp [longUsage_reportedAt])
  have husage : Json.size (longReply n)["usage"] ≤ Json.size (longReply n) :=
    Json.size_getElem_le (by
      rw [longReply_usage]
      exact longUsage_ne_null n)
  rw [longUsage_reportedAt, size_longTime] at htime
  rw [longReply_usage] at husage
  omega

theorem depth_longReply {n : ℕ} (hn : 0 < n) : (longReply n).depth ≤ 2 :=
  Schema.depth_le_of_valid _ Contracts.depthBound_result (valid_longReply hn)

/-- An object given by its fields has no other keys. -/
theorem closed_object {gs : List (String × Value)} {names : List String}
    (hkeys : gs.map Prod.fst = names) (hnodup : names.Nodup) :
    AgentGateway.closed (Value.object gs) names = true := by
  obtain ⟨fs, hobject, hsorted, hmem, hlookup⟩ := Value.exists_object gs
  have hkey : ∀ (l : List (String × Value)) k,
      (l.lookup k).isSome = true ↔ k ∈ l.map Prod.fst := by
    intro l k
    rw [List.lookup_isSome_iff, List.mem_map]
    constructor
    · rintro ⟨f, hf, heq⟩
      exact ⟨f, hf, (beq_iff_eq.mp heq).symm⟩
    · rintro ⟨f, hf, heq⟩
      exact ⟨f, hf, beq_iff_eq.mpr heq.symm⟩
  have hsame : ∀ k, k ∈ fs.map Prod.fst ↔ k ∈ names := by
    intro k
    rw [← hkey, hlookup, hkey, List.map_reverse, hkeys, List.mem_reverse]
  have hperm : (fs.map Prod.fst).Perm names :=
    (List.perm_ext_iff_of_nodup hsorted.nodup hnodup).mpr hsame
  have hlength : fs.length = names.length := by
    rw [← List.length_map (f := Prod.fst), hperm.length_eq]
  rw [hobject, AgentGateway.closed, Bool.and_eq_true, List.all_eq_true]
  refine ⟨by simpa using hlength, fun f hf => ?_⟩
  have hkey := (hsame f.1).mp (List.mem_map_of_mem hf)
  simpa using hkey

/-- The receipt agrees with the packet, whatever the result is. -/
theorem validateReceipt_completedReceipt (x : Value) :
    validateReceipt (completedReceipt packet₁ x) packet₁ = some () := by
  have hclosed : AgentGateway.closed (completedReceipt packet₁ x)
      ["taskId", "conversationId", "generation", "phase", "result",
        "acknowledgement", "error", "runtimeBinding"] = true :=
    closed_object rfl (by decide)
  have htask : (completedReceipt packet₁ x)["taskId"] = packet₁["taskId"] := by
    rw [completedReceipt, Value.getElem_object]
    rfl
  have hconversation : (completedReceipt packet₁ x)["conversationId"] =
      packet₁["conversation"]["id"] := by
    rw [completedReceipt, Value.getElem_object]
    rfl
  have hgeneration : (completedReceipt packet₁ x)["generation"] =
      packet₁["conversation"]["generation"] := by
    rw [completedReceipt, Value.getElem_object]
    rfl
  have hphase : (completedReceipt packet₁ x)["phase"] = .str "completed" := by
    rw [completedReceipt, Value.getElem_object]
    rfl
  simp [validateReceipt, hclosed, htask, hconversation, hgeneration, hphase,
    Value.asStr?, guard]

theorem safe_runtime : Safe runtime := by
  have hreceipt :=
    answered.reply_completed.sendable.safe.getElem trivial "runtimeBinding"
  rw [completedReceipt, Value.getElem_object] at hreceipt
  exact hreceipt

theorem longReceipt_completed {n : ℕ} (hn : 0 < n) (hmax : n ≤ 4000000) :
    CompletedReceipt (completedReceipt packet₁ (longReply n)) packet₁ where
  sendable := by
    have hp := safe_packet₁
    have hdepth : packet₁.depth ≤ maxJsonDepth := by
      have hclaim := Value.depth_getElem (claim packet₁ lease) "packet"
      rw [admissible.claimOf.packet] at hclaim
      exact hclaim.trans
        ((Nat.sub_le _ _).trans admissible.claimOf.sendable.depth)
    refine ⟨safe_object fun f hf => ?_, ?_, ?_⟩
    · simp only [List.mem_cons, List.not_mem_nil, or_false] at hf
      rcases hf with rfl | rfl | rfl | rfl | rfl | rfl | rfl | rfl
      · exact hp.getElem trivial _
      · exact (hp.getElem trivial _).getElem trivial _
      · exact (hp.getElem trivial _).getElem trivial _
      · exact .str trivial
      · exact safe_longReply n
      · exact .null trivial
      · exact .null trivial
      · exact safe_runtime
    · refine (Value.depth_object_le (n := 126) fun f hf => ?_).trans (by decide)
      simp only [List.mem_cons, List.not_mem_nil, or_false] at hf
      rcases hf with rfl | rfl | rfl | rfl | rfl | rfl | rfl | rfl
      · exact (Value.depth_getElem _ _).trans (Nat.sub_le_sub_right hdepth 1)
      · exact (Value.depth_getElem _ _).trans ((Nat.sub_le _ _).trans
          ((Value.depth_getElem _ _).trans (Nat.sub_le_sub_right hdepth 1)))
      · exact (Value.depth_getElem _ _).trans ((Nat.sub_le _ _).trans
          ((Value.depth_getElem _ _).trans (Nat.sub_le_sub_right hdepth 1)))
      · simp [Value.depth]
      · exact (depth_longReply hn).trans (by decide)
      · simp [Value.depth]
      · simp [Value.depth]
      · decide
    · have hsize := size_longReceipt_le n
      have hlimit : maxJsonBytes = 4194304 := rfl
      exact hsize.trans (by omega)
  agrees := validateReceipt_completedReceipt _
  phase := by
    rw [completedReceipt, Value.getElem_object]
    rfl

def longCompletion (n : ℕ) : Value :=
  updateValue packet₁ "completed" (longReply n) (ident "0000001b")

theorem longCompletion_data (n : ℕ) :
    (longCompletion n)["data"] = longReply n := by
  rw [longCompletion, updateValue, Value.getElem_object]
  rfl

theorem longCompletion_kind (n : ℕ) :
    (longCompletion n)["kind"] = .str "completed" := by
  rw [longCompletion, updateValue, Value.getElem_object]
  rfl

/-- Apart from its data, the long completion is the short one. -/
theorem longCompletion_getElem {n : ℕ} {k : String} (hk : k ≠ "data") :
    (longCompletion n)[k] = completion[k] := by
  rw [longCompletion, completion, updateValue, updateValue,
    Value.getElem_object, Value.getElem_object]
  simp [List.lookup_cons, beq_eq_false_iff_ne.mpr hk]

theorem safe_longCompletion (n : ℕ) : Safe (longCompletion n) :=
  safe_updateValue safe_packet₁ (safe_longReply n) _ _

/-- A branch of the update schema for another kind. -/
theorem not_valid_updateCase {n : ℕ} {kind : String} {data : Schema}
    (hkind : kind ≠ "completed") :
    (Contracts.updateCase kind data).valid Reference.crates.isFormat
      (longCompletion n) = false := by
  refine Bool.eq_false_iff.mpr fun hvalid => hkind ?_
  have hconst := Schema.valid_properties_getElem (k := "kind") hvalid rfl
    (by simp [longCompletion_kind])
  rw [longCompletion_kind, Contracts.const, Schema.valid] at hconst
  simpa using (of_decide_eq_true hconst).symm

theorem valid_updateCase {n : ℕ} (hn : 0 < n) :
    (Contracts.updateCase "completed" Contracts.result).valid
      Reference.crates.isFormat (longCompletion n) = true := by
  refine Schema.valid_properties_object fun f hf => ?_
  simp only [List.mem_cons, List.not_mem_nil, or_false] at hf
  rw [Schema.validOpen_eq_lookup]
  rcases hf with rfl | rfl | rfl | rfl | rfl | rfl | rfl | rfl
  · rfl
  · rfl
  · rfl
  · rfl
  · rfl
  · rfl
  · show Schema.valid _ (Contracts.const "completed") _ = true
    simp [Contracts.const, Schema.valid]
  · exact valid_longReply hn

theorem longCompletion_valid {n : ℕ} (hn : 0 < n) :
    schema Reference.crates Contracts.update (longCompletion n) =
      some () := by
  have hshort := valid_of_schema answered.completion_valid
  rw [Contracts.update, Schema.valid, Schema.validAll_eq_true_iff] at hshort
  refine (schema_of_safe _ (safe_longCompletion n)).mpr ?_
  rw [Contracts.update, Schema.valid, Schema.validAll_eq_true_iff]
  intro s hs
  have hshort := hshort s hs
  simp only [List.mem_cons, List.not_mem_nil, or_false] at hs
  rcases hs with rfl | rfl
  · refine Schema.valid_object rfl fun f hf => ?_
    have hnodup : ["profileVersion", "updateId", "ordinal", "taskId",
        "generation", "contextDigest", "kind", "data"].Nodup := by decide
    have hkey : f.1 ∈ ["profileVersion", "updateId", "ordinal", "taskId",
        "generation", "contextDigest", "kind", "data"] :=
      List.mem_map_of_mem (f := Prod.fst) hf
    have hvalue : (longCompletion n)[f.1] = f.2 :=
      Json.getElem_object_of_mem hf hnodup
    rw [← hvalue]
    by_cases hk : f.1 = "data"
    · rw [hk, Schema.validField_eq_lookup]
      rfl
    · rw [longCompletion_getElem hk]
      exact Schema.validField_getElem hshort hkey
  · rw [Schema.valid]
    simp [Schema.validCount, not_valid_updateCase, valid_updateCase hn]

/-! ### The call -/

def longRecord (n : ℕ) : Record :=
  reserved.completed (longReply n) runtime (longCompletion n)

/-- The record holds the reply as its result and in its update. -/
theorem length_longRecord_ge (n : ℕ) : 2 * n ≤ (longRecord n).toVec.length := by
  have hreply := size_longReply_ge n
  have hupdate : Json.size (longCompletion n)["data"] ≤
      Json.size (longCompletion n) :=
    Json.size_getElem_le (by
      rw [longCompletion_data]
      exact longReply_ne_null n)
  have hfields : (longRecord n).fields =
      [("lease", .str lease), ("binding", binding packet₁),
        ("sources", .arr (reserved.sources.elements.map .str)),
        ("phase", .str "completed")] ++ ("result", longReply n) ::
        ([("runtime_binding", runtime)] ++ ("update", longCompletion n) ::
          [("ack", .null)]) := rfl
  have hsum := Json.fieldsSize_le_size (longRecord n).fields
  rw [hfields, Json.fieldsSize_append_cons, Json.fieldsSize_append_cons,
    ← hfields, Json.fieldSize, Json.fieldSize] at hsum
  rw [longCompletion_data] at hupdate
  dsimp only at hsum
  exact Nat.le_trans (by omega) hsum

/-- The worker has completed the turn with a long reply. -/
def longCall (n : ℕ) (hn : 0 < n) (hmax : n ≤ 4000000) :
    Call Reference.crates where
  param := mediator
  before := Directory.empty
  after := directoryOf (longRecord n)
  events := firstClaim ++ completedEvents reserved (longReply n)
    (longCompletion n) [⟨.newUuid, ident "0000001b"⟩]
  result := some (.error (.broker (.http none)))
  exec := exec_firstClaim (exec_settled rfl rfl rfl
    (longReceipt_completed hn hmax) (longReply_valid hn)
    (.fresh (ident "0000001b") rfl rfl) (longCompletion_valid hn))

theorem run_longCall (n : ℕ) (hn : 0 < n) (hmax : n ≤ 4000000) :
    Run Reference.crates [longCall n hn hmax] (directoryOf (longRecord n)) :=
  .snoc (longCall n hn hmax) .nil rfl

end Sample

/-- A file that `load` does not accept. -/
theorem exec_load_unread {r : Record} (huuid : K.uuidParses id = true)
    (hfile : d id = some r.toVec) (hsafe : r.Safe)
    (hlong : maxJsonBytes < r.toVec.length) :
    Exec world d (load K id).run [⟨.read id, .bytes r.toVec⟩] d
      (some (.error .validation)) := by
  have hread : Record.read r.toVec = none := by
    rw [Record.read_toVec hsafe, if_pos hlong]
  refine exec_guard_bind huuid ?_
  refine exec_perform_bind (o := .read id) (a := .bytes r.toVec) hfile ?_
  exact exec_checked_none hread

theorem exec_runOnce_unread {r : Record} {c : Dispatcher}
    (huuid : K.uuidParses id = true) (hlist : Listing d (oneFile id))
    (hfile : d id = some r.toVec) (hsafe : r.Safe)
    (hlong : maxJsonBytes < r.toVec.length) :
    Exec world d (runOnce K c).run
      [⟨.readDir, some (oneFile id)⟩, ⟨.read id, .bytes r.toVec⟩] d
      (some (.error .validation)) := by
  have hload := exec_load_unread huuid hfile hsafe hlong
  have hvisit : Exec world d
      (visit K c (.file (some id) (some "json"))).run
      ([] ++ [⟨.read id, .bytes r.toVec⟩]) d
      (some (.error .validation)) :=
    Exec.bindOk exec_entryId (Exec.bindError hload)
  exact Exec.bindOk (exec_readDir hlist)
    (Exec.bindError (Exec.bindError hvisit))

/-- The worker's reply gives its time with 2100000 zeros.  The record with the
reply is saved and its file stays, but loading it fails, and so does the next
call. -/
theorem saved_record_not_read :
    ∃ run r d, Run Reference.crates run d ∧
      saved Sample.task₁ r ∈ trace run ∧
      d Sample.task₁ = some r.toVec ∧
      Exec world d (load Reference.crates Sample.task₁).run
        [⟨.read Sample.task₁, .bytes r.toVec⟩] d
        (some (.error .validation)) ∧
      Exec world d (runOnce Reference.crates Sample.mediator).run
        [⟨.readDir, some (oneFile Sample.task₁)⟩,
          ⟨.read Sample.task₁, .bytes r.toVec⟩] d
        (some (.error .validation)) := by
  obtain ⟨n, hn, hmin, hmax⟩ :
      ∃ n : ℕ, 0 < n ∧ 2100000 ≤ n ∧ n ≤ 4000000 :=
    ⟨2100000, by decide, Nat.le_refl _, by decide⟩
  have hrun := Sample.run_longCall n hn hmax
  have hsaved : saved Sample.task₁ (Sample.longRecord n) ∈
      trace [Sample.longCall n hn hmax] := by
    simp [Sample.longCall, Sample.completedEvents, Sample.longRecord]
  have hsafe := (hrun.safe_of_saved hsaved).1
  have hfile : Sample.directoryOf (Sample.longRecord n) Sample.task₁ =
      some (Sample.longRecord n).toVec := Directory.write_self _ _ _
  have hlong : maxJsonBytes < (Sample.longRecord n).toVec.length := by
    have hlength := Sample.length_longRecord_ge n
    have hlimit : maxJsonBytes = 4194304 := rfl
    omega
  exact ⟨_, _, _, hrun, hsaved, hfile,
    exec_load_unread Sample.admissible.task_uuid hfile hsafe hlong,
    exec_runOnce_unread Sample.admissible.task_uuid listing_oneFile hfile hsafe hlong⟩

end AgentGateway
