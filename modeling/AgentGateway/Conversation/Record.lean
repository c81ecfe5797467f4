import AgentGateway.Conversation.Validation

/-!
# Mediator records

The durable record of one task, its text, and what is read back from a text.
The last section shows that a record of safe values survives the round trip.
-/

namespace AgentGateway

open Json (Value)
open Utf8 (Bytes)

structure Record where
  lease : String
  binding : Value
  sources : StringSet
  phase : String
  result : Option Value
  runtimeBinding : Option Value
  update : Option Value
  ack : Option Value
deriving DecidableEq

/-! ## Packets and receipts -/

/-- `binding`: a packet without what it discloses and without its lease.  The
packet is a validated one, so it is an object and so is its context. -/
def binding (p : Value) : Value :=
  let context := ((p["context"].remove "entries").remove
    "activeDecisions").remove "nativeReplyBindings"
  ((p.set "context" context).remove "leaseOwner").remove "leaseExpiresAt"

/-- `closed`: an object with exactly the given keys. -/
def closed (v : Value) (names : List String) : Bool :=
  match v with
  | .obj fs =>
      decide (fs.length = names.length) &&
        fs.all fun f => decide (f.1 ∈ names)
  | _ => false

/-- `validate_receipt` -/
def validateReceipt (r p : Value) : Checked Unit := do
  guard (closed r ["taskId", "conversationId", "generation", "phase",
    "result", "acknowledgement", "error", "runtimeBinding"] = true)
  guard (r["taskId"] = p["taskId"])
  guard (r["conversationId"] = p["conversation"]["id"])
  guard (r["generation"] = p["conversation"]["generation"])
  let phase ← r["phase"].asStr?
  guard (phase ∈ ["reserved", "running", "completed", "interrupted", "failed"])

/-- `receipt_failure` -/
def receiptFailure (receipt packet : Value) : Option String := do
  validateReceipt receipt packet
  let phase ← receipt["phase"].asStr?
  guard (phase ∈ ["failed", "interrupted"])
  guard (receipt["result"].isNull = true)
  guard (receipt["acknowledgement"].isNull = true)
  guard (receipt["runtimeBinding"].isNull = true)
  let error ← receipt["error"].asStr?
  safeFailureCode error

/-- `validate_runtime` -/
def validateRuntime (r : Value) : Checked Unit := do
  guard (closed r ["threadId", "turnId"] = true)
  let thread ← r["threadId"].asStr?
  let turn ← r["turnId"].asStr?
  guard (thread ≠ "" ∧ thread.utf8ByteSize ≤ 256)
  guard (turn ≠ "" ∧ turn.utf8ByteSize ≤ 256)

/-! ## Texts -/

def optionValue : Option Value → Value
  | none => .null
  | some v => v

namespace Record

/-- The serialised structure, its fields in the order of their declaration. -/
def fields (r : Record) : List (String × Value) :=
  [("lease", .str r.lease),
    ("binding", r.binding),
    ("sources", .arr (r.sources.elements.map .str)),
    ("phase", .str r.phase),
    ("result", optionValue r.result),
    ("runtime_binding", optionValue r.runtimeBinding),
    ("update", optionValue r.update),
    ("ack", optionValue r.ack)]

/-- `serde_json::to_vec` of a record. -/
def toVec (r : Record) : Bytes := AgentGateway.toVec (.obj r.fields)

def strings? : List Value → Option (List String)
  | [] => some []
  | x :: xs =>
      match x.asStr?, strings? xs with
      | some s, some ss => some (s :: ss)
      | _, _ => none

/-- An optional field of a decoded value: `null` reads as `None`. -/
def optional (fs : List (String × Value)) (k : String) : Option Value :=
  match fs.lookup k with
  | none => none
  | some .null => none
  | some x => some x

/-- `serde_json::from_value` for records. -/
def fromValue (v : Value) : Checked Record := do
  let fs ← structFields ["lease", "binding", "sources", "phase", "result",
    "runtime_binding", "update", "ack"] 8 v
  let lease ← (fs.lookup "lease").bind Value.asStr?
  let binding ← fs.lookup "binding"
  let sources ← (fs.lookup "sources").bind Value.asArray?
  let sources ← strings? sources
  let phase ← (fs.lookup "phase").bind Value.asStr?
  return {
    lease := lease
    binding := binding
    sources := StringSet.ofList sources
    phase := phase
    result := optional fs "result"
    runtimeBinding := optional fs "runtime_binding"
    update := optional fs "update"
    ack := optional fs "ack" }

/-- The record that a text stands for, whatever its size. -/
def decode (bytes : Bytes) : Checked Record :=
  ((syntaxTree bytes).bind strict).bind fromValue

/-- Decoding as `load` does it. -/
def read (bytes : Bytes) : Checked Record :=
  (parseJson bytes).bind fromValue

theorem read_eq (bytes : Bytes) :
    read bytes =
      if bytes.length > maxJsonBytes then none else decode bytes := by
  rw [read, parseJson, decode]
  split_ifs <;> rfl

/-! ## Safe records -/

/-- A value that fits into a record. -/
structure SafeField (v : Value) : Prop where
  safe : AgentGateway.Safe v
  depth : v.depth + 1 ≤ maxJsonDepth

/-- A value that fits into an optional field of a record. -/
structure SafeOption (o : Option Value) : Prop where
  field : ∀ v, o = some v → SafeField v
  not_null : o ≠ some .null

structure Safe (r : Record) : Prop where
  binding : SafeField r.binding
  result : SafeOption r.result
  runtimeBinding : SafeOption r.runtimeBinding
  update : SafeOption r.update
  ack : SafeOption r.ack

theorem SafeField.null : SafeField .null :=
  ⟨.null trivial, by decide⟩

theorem SafeField.str (s : String) : SafeField (.str s) :=
  ⟨.str trivial, by simp [Value.depth, maxJsonDepth]⟩

theorem SafeOption.none : SafeOption none :=
  ⟨by simp, by simp⟩

theorem SafeField.optionValue {o : Option Value} (h : SafeOption o) :
    SafeField (optionValue o) := by
  cases o with
  | none => exact .null
  | some v => exact h.field v rfl

theorem SafeField.sources (A : StringSet) :
    SafeField (.arr (A.elements.map .str)) := by
  refine ⟨.arr trivial ?_, ?_⟩
  · intro x hx
    obtain ⟨s, _, rfl⟩ := List.mem_map.mp hx
    exact .str trivial
  · have hdepth : (Value.arr (A.elements.map .str)).depth ≤ 0 + 1 := by
      refine Value.depth_arr_le_iff.mpr fun x hx => ?_
      obtain ⟨s, _, rfl⟩ := List.mem_map.mp hx
      simp [Value.depth]
    have hmax : (2 : ℕ) ≤ maxJsonDepth := by decide
    omega

theorem Safe.fields {r : Record} (h : r.Safe) :
    ∀ f ∈ r.fields, SafeField f.2 := by
  intro f hf
  simp only [Record.fields, List.mem_cons, List.not_mem_nil, or_false] at hf
  rcases hf with rfl | rfl | rfl | rfl | rfl | rfl | rfl | rfl
  · exact .str _
  · exact h.binding
  · exact .sources _
  · exact .str _
  · exact .optionValue h.result
  · exact .optionValue h.runtimeBinding
  · exact .optionValue h.update
  · exact .optionValue h.ack

/-! ## The round trip -/

/-- Strict decoding sorts the fields of an object with distinct keys. -/
theorem strictFields_of_nodup {fs m : List (String × Value)}
    (h : ∀ f ∈ fs, strict f.2 = some f.2) (hnodup : (fs.map Prod.fst).Nodup)
    (hfresh : ∀ f ∈ fs, m.lookup f.1 = none) :
    strictFields m fs =
      some (fs.foldl (fun m f => Value.insertField f.1 f.2 m) m) := by
  induction fs generalizing m with
  | nil => rfl
  | cons f fs ih =>
      obtain ⟨k, x⟩ := f
      have hk : m.lookup k = none := hfresh (k, x) (by simp)
      obtain ⟨hnotin, hnodup⟩ := List.nodup_cons.mp hnodup
      rw [strictFields, hk, h (k, x) (by simp)]
      simp only [Option.isSome_none, Bool.false_eq_true, if_false,
        List.foldl_cons]
      refine ih (fun g hg => h g (by simp [hg])) hnodup fun g hg => ?_
      have hne : g.1 ≠ k := fun heq =>
        hnotin (List.mem_map.mpr ⟨g, hg, heq⟩)
      rw [Value.lookup_insertField, if_neg hne]
      exact hfresh g (by simp [hg])

theorem strings?_map (ss : List String) :
    strings? (ss.map .str) = some ss := by
  induction ss with
  | nil => rfl
  | cons s ss ih => simp [strings?, Value.asStr?, ih]

theorem optional_of_lookup {fs : List (String × Value)} {k : String}
    {o : Option Value} (ho : o ≠ some .null)
    (h : fs.lookup k = some (optionValue o)) : optional fs k = o := by
  cases o with
  | none => simp [optional, h, AgentGateway.optionValue]
  | some v =>
      have hv : v ≠ .null := fun heq => ho (heq ▸ rfl)
      rw [optional, h]
      cases v <;> first | rfl | exact absurd rfl hv

theorem fields_depth {r : Record} (h : r.Safe) :
    (Value.obj r.fields).depth ≤ maxJsonDepth :=
  Value.depth_obj_le_iff.mpr fun f hf =>
    Nat.le_of_lt_succ (h.fields f hf).depth

theorem fields_integers {r : Record} (h : r.Safe) :
    (Value.obj r.fields).Every Json.IntegerNode :=
  .obj trivial fun f hf => (h.fields f hf).safe.integers

theorem strict_fields {r : Record} (h : r.Safe) :
    strict (.obj r.fields) = some (Value.object r.fields) := by
  rw [strict, strictFields_of_nodup]
  · rfl
  · exact fun f hf => strict_of_safe (h.fields f hf).safe
  · simp [fields]
  · simp

theorem fromValue_fields {r : Record} (h : r.Safe) :
    fromValue (Value.object r.fields) = some r := by
  obtain ⟨fs, hobject, hsorted, hmem, hlookup⟩ :=
    Value.exists_object r.fields
  have hstruct : structFields ["lease", "binding", "sources", "phase",
      "result", "runtime_binding", "update", "ack"] 8 (.obj fs) =
      some fs := by
    refine if_pos ⟨hsorted.nodup, fun f hf => ?_⟩
    have hkey : f.1 ∈ r.fields.map Prod.fst := List.mem_map_of_mem (hmem f hf)
    simpa [fields] using hkey
  have hresult : optional fs "result" = r.result :=
    optional_of_lookup h.result.not_null (by rw [hlookup]; rfl)
  have hruntime : optional fs "runtime_binding" = r.runtimeBinding :=
    optional_of_lookup h.runtimeBinding.not_null (by rw [hlookup]; rfl)
  have hupdate : optional fs "update" = r.update :=
    optional_of_lookup h.update.not_null (by rw [hlookup]; rfl)
  have hack : optional fs "ack" = r.ack :=
    optional_of_lookup h.ack.not_null (by rw [hlookup]; rfl)
  have hlease : fs.lookup "lease" = some (.str r.lease) := by
    rw [hlookup]; rfl
  have hbinding : fs.lookup "binding" = some r.binding := by
    rw [hlookup]; rfl
  have hsources : fs.lookup "sources" =
      some (.arr (r.sources.elements.map .str)) := by
    rw [hlookup]; rfl
  have hphase : fs.lookup "phase" = some (.str r.phase) := by
    rw [hlookup]; rfl
  rw [hobject, fromValue, hstruct]
  simp [hlease, hbinding, hsources, hphase, hresult, hruntime, hupdate, hack,
    Value.asStr?, Value.asArray?, strings?_map, StringSet.ofList_elements]

/-- A safe record is what its text stands for. -/
theorem decode_toVec {r : Record} (h : r.Safe) : decode r.toVec = some r := by
  rw [decode, toVec, syntaxTree_toVec (fields_integers h) (fields_depth h),
    Option.bind_some, strict_fields h, Option.bind_some, fromValue_fields h]

/-- A safe record is read back from its text exactly if that is not too
long. -/
theorem read_toVec {r : Record} (h : r.Safe) :
    read r.toVec =
      if r.toVec.length > maxJsonBytes then none else some r := by
  rw [read_eq, decode_toVec h]

theorem SafeOption.optional {fs : List (String × Value)}
    (h : ∀ f ∈ fs, SafeField f.2) (k : String) :
    SafeOption (optional fs k) := by
  rw [Record.optional]
  cases hlookup : fs.lookup k with
  | none => exact .none
  | some x =>
      obtain ⟨l₁, l₂, rfl, _⟩ := List.lookup_eq_some_iff.mp hlookup
      have hx : SafeField x := h (k, x) (by simp)
      cases x with
      | null => exact .none
      | _ => exact ⟨fun v hv => by cases hv; exact hx, by simp⟩

theorem structFields_safe {names : List String} {n : ℕ} {v : Value}
    {fs : List (String × Value)} (hv : AgentGateway.Safe v)
    (hdepth : v.depth ≤ maxJsonDepth) (h : structFields names n v = some fs) :
    ∀ f ∈ fs, SafeField f.2 := by
  have hmax : maxJsonDepth = 126 + 1 := rfl
  rw [hmax] at hdepth
  cases v with
  | obj gs =>
      rw [structFields] at h
      split_ifs at h
      cases h
      exact fun f hf => ⟨hv.fields f hf,
        Nat.succ_le_succ (Value.depth_obj_le_iff.mp hdepth f hf)⟩
  | arr xs =>
      rw [structFields] at h
      split_ifs at h
      cases h
      intro f hf
      have hf : f.2 ∈ xs := (List.of_mem_zip (a := f.1) (b := f.2) hf).2
      exact ⟨hv.items _ hf,
        Nat.succ_le_succ (Value.depth_arr_le_iff.mp hdepth _ hf)⟩
  | _ => cases h

/-- Whatever a text stands for is safe. -/
theorem Safe.of_decode {bytes : Bytes} {r : Record}
    (h : decode bytes = some r) : r.Safe := by
  obtain ⟨v, hv, h⟩ := Option.bind_eq_some_iff.mp h
  obtain ⟨tree, htree, hstrict⟩ := Option.bind_eq_some_iff.mp hv
  obtain ⟨cs, _, hread⟩ := Option.bind_eq_some_iff.mp htree
  have hdepth : v.depth ≤ maxJsonDepth :=
    (depth_of_strict hstrict).trans (Json.depth_le_of_read hread)
  obtain ⟨fs, hfs, h⟩ := Option.bind_eq_some_iff.mp h
  have hsafe := structFields_safe (safe_of_strict hstrict) hdepth hfs
  obtain ⟨lease, _, h⟩ := Option.bind_eq_some_iff.mp h
  obtain ⟨b, hb, h⟩ := Option.bind_eq_some_iff.mp h
  obtain ⟨xs, _, h⟩ := Option.bind_eq_some_iff.mp h
  obtain ⟨ss, _, h⟩ := Option.bind_eq_some_iff.mp h
  obtain ⟨phase, _, h⟩ := Option.bind_eq_some_iff.mp h
  cases h
  obtain ⟨l₁, l₂, rfl, _⟩ := List.lookup_eq_some_iff.mp hb
  exact ⟨hsafe ("binding", b) (by simp), .optional hsafe _,
    .optional hsafe _, .optional hsafe _, .optional hsafe _⟩

end Record

end AgentGateway
